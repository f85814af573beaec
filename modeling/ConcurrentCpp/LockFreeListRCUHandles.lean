import ConcurrentCpp.LockFreeListRCURuns

namespace ConcurrentCpp.LockFreeListRCU

/-!
# What a handle protects

A session that has reached a word observes every node behind it.  While the
session lasts, none of these nodes is freed or reused, so what is read through
an iterator is constructed and what is unlinked is the node that was loaded.
The session of a popping thread also protects the top of the free list that it
has read.
-/

variable {A H T V : Type}

/-- Where a list that is threaded through `retire_link` leads. -/
def retireLinks
    (state : State A H T V)
    (head : Option A) :
    Links Unit A
  | .root _ => head
  | .node node => state.retireLink node

/-- A list threaded through `retire_link` holds exactly these nodes. -/
def Listed
    (state : State A H T V)
    (head : Option A)
    (nodes : List A) : Prop :=
  Path (retireLinks state head) (.root ()) nodes

/-- The free list holds exactly these nodes, top first. -/
def FreeList (state : State A H T V) (nodes : List A) : Prop :=
  Listed state state.freeHead nodes

/-- The session has reached a word from which next words lead to the node. -/
def Observes
    (state : State A H T V)
    (session : Nat)
    (node : A) : Prop :=
  ∃ cell first,
    (session, cell) ∈ state.reached ∧
      (cell = .node first ∨ (state.next cell).ptr = some first) ∧
      LeadsTo (view state).links first node

/-- The swap of the thread's pop loop takes the node from the free list. -/
def PopSucceeds
    (thread : T)
    (state after : State A H T V)
    (node : A) : Prop :=
  state.topRead thread = some node ∧
    after.topRead thread = none ∧
    after.topReads thread = state.topReads thread

/-- The node was neither freed nor reused between two moments. -/
structure Untouched
    (state later : State A H T V)
    (node : A) : Prop where
  value : later.value node = state.value node
  constructed : later.value node ≠ none
  allocated : later.allocated node = true
  life : later.life node = state.life node
  notFree : ∀ nodes, FreeList later nodes → node ∉ nodes
  frozen :
    (state.next (.node node)).mark = true →
    later.next (.node node) = state.next (.node node)

variable [DecidableEq T] {capacity : Nat}
variable {world after : State A H T V × Ghost A T}

/-- The free list visits the nodes of that stage. -/
theorem Invariant.free_list
    (inv : Invariant capacity world) :
    ∃ nodes,
      FreeList world.1 nodes ∧ nodes.Nodup ∧
        ∀ node, node ∈ nodes ↔ world.2.stage node = .listed .free := by
  obtain ⟨nodes, holds⟩ := inv.stacked .free
  refine ⟨nodes, holds.path.transfer rfl fun _ _ => rfl,
    holds.noDuplicates, fun node => ?_⟩
  exact (holds.members node).trans Stage.label?_eq_some

/-- A node is on the free list if that is its stage. -/
theorem Invariant.mem_free_iff
    (inv : Invariant capacity world)
    {nodes : List A}
    (free : FreeList world.1 nodes)
    {node : A} :
    node ∈ nodes ↔ world.2.stage node = .listed .free := by
  obtain ⟨known, knownFree, _, members⟩ := inv.free_list
  rw [Path.unique free knownFree]
  exact members node

/-- A node that is or was on the chain is in use and not on the free list. -/
theorem Invariant.used_of_present
    (inv : Invariant capacity world)
    {node : A}
    (present : world.2.place node ≠ .off) :
    (world.2.stage node).Used ∧ world.1.allocated node = true ∧
      world.2.stage node ≠ .listed .free := by
  have ok := inv.nodes node
  cases stage : world.2.stage node with
  | absent =>
      simp only [NodeOk, stage] at ok
      exact (present ok.1).elim
  | owned thread popped =>
      simp only [NodeOk, stage] at ok
      exact (present ok.1).elim
  | listed label =>
      cases label with
      | free =>
          simp only [NodeOk, stage] at ok
          exact (present ok.1).elim
      | _ =>
          simp only [NodeOk, stage] at ok
          exact ⟨trivial, ok.2.2.1, by simp⟩
  | hand =>
      simp only [NodeOk, stage] at ok
      exact ⟨trivial, ok.2.1, by simp⟩
  | chained =>
      simp only [NodeOk, stage] at ok
      exact ⟨trivial, ok.2.2, by simp⟩
  | pending thread =>
      simp only [NodeOk, stage] at ok
      exact ⟨trivial, ok.2.2.1, by simp⟩

/-- What a session observes is visible to it. -/
theorem Invariant.visible_of_observes
    (inv : Invariant capacity world)
    {session generation : Nat}
    {node : A}
    (observes : Observes world.1 session node)
    (verified : world.2.ring.Verified (.inl session) generation) :
    (chainOf world).forest.Visible () generation node := by
  obtain ⟨cell, first, reached, starts, leads⟩ := observes
  have visible :
      (chainOf world).forest.Visible () generation first := by
    rcases starts with rfl | next
    · exact inv.visible reached verified
    · exact inv.visible_next reached next verified
  exact inv.chain.wellFormed.visible_leadsTo
    (inv.ring.bounds verified).1 visible leads

/-- What a session has observed is not touched while the session lasts. -/
theorem untouched_of_evolves
    (inv : Invariant capacity world)
    (invAfter : Invariant capacity after)
    (evolves : Evolves (protocol capacity) world after)
    {session : Nat}
    {node : A}
    (observes : Observes world.1 session node)
    (lasts : Lasts after.1 session) :
    Untouched world.1 after.1 node := by
  obtain ⟨_, _, reached, _⟩ := id observes
  obtain ⟨handle, live, isLive, rfl⟩ := lasts
  obtain ⟨generation, verified⟩ := invAfter.verified isLive
  have kept := keeps_in_session evolves reached
    (fun since now =>
      world.2.ring.Verified (.inl live.session) since ∧
        (chainOf now).forest.Visible () since node ∧
        now.1.life node = world.1.life node ∧
        now.1.value node = world.1.value node)
    (fun before =>
      ⟨before, inv.visible_of_observes observes before, rfl, rfl⟩)
    (fun _ _ guarantee within pinned known => by
      obtain ⟨before, visible, life, value⟩ := known
      have seen :=
        guarantee.nodes.chain.forest.visible pinned within.2 visible
      have same := guarantee.nodes.present visible.ne_off seen.ne_off
      exact ⟨before, seen, same.1.trans life, same.2.trans value⟩)
    verified
  obtain ⟨before, visible, life, value⟩ := kept
  have present := visible.ne_off
  obtain ⟨_, allocated, unfree⟩ := invAfter.used_of_present present
  have used := (inv.used_of_present
    (inv.visible_of_observes observes before).ne_off).1
  exact
    { value := value
      constructed := invAfter.constructed present
      allocated := allocated
      life := life
      notFree := fun nodes free member =>
        unfree ((invAfter.mem_free_iff free).mp member)
      frozen := fun marked => frozen_in_life evolves used marked life }

/-- No step takes back that a thread has read the top. -/
theorem Guarantee.topReads_le
    {other : T}
    (guarantee : Guarantee other world after)
    (thread : T) :
    world.1.topReads thread ≤ after.1.topReads thread := by
  by_cases own : thread = other
  · subst own
    exact guarantee.record.ownTop.1
  · exact Nat.le_of_eq (guarantee.record.tops own).2.symm

/-- A top that is held after a step was held before it or is read again. -/
theorem Guarantee.topRead_before
    {other thread : T}
    (guarantee : Guarantee other world after)
    {node : A}
    (read : after.1.topRead thread = some node)
    (same : after.1.topReads thread = world.1.topReads thread) :
    world.1.topRead thread = some node := by
  by_cases own : thread = other
  · subst own
    rcases guarantee.record.ownTop.2 same with kept | ⟨popped, _⟩
    · exact kept.symm.trans read
    · exact absurd (popped.symm.trans read) (by simp)
  · exact (guarantee.record.tops own).1.symm.trans read

/--
A node that is on the free list while a thread holds it as the top has been
there, with the same link, since the thread read it.
-/
theorem stayed_free_of_evolves
    (evolves : Evolves (protocol capacity) world after)
    {thread : T}
    {node : A}
    (read : after.1.topRead thread = some node)
    (same : after.1.topReads thread = world.1.topReads thread)
    (free : after.2.stage node = .listed .free) :
    world.2.stage node = .listed .free ∧
      after.1.retireLink node = world.1.retireLink node := by
  have kept := evolves.keeps
    (fun now =>
      world.1.topReads thread ≤ now.1.topReads thread ∧
        (now.1.topReads thread = world.1.topReads thread →
          now.1.topRead thread = some node →
          now.2.stage node = .listed .free →
          world.2.stage node = .listed .free ∧
            now.1.retireLink node = world.1.retireLink node))
    ⟨Nat.le_refl _, fun _ _ free => ⟨free, rfl⟩⟩ ?_
  · exact kept.2 same read free
  · intro other now next _ _ guarantee before
    have grows := guarantee.topReads_le thread
    refine ⟨Nat.le_trans before.1 grows, ?_⟩
    intro sameNext readNext freeNext
    have bound := before.1
    have readNow := guarantee.topRead_before readNext (by omega)
    -- a watched node does not come back to the free list
    have freeNow : now.2.stage node = .listed .free := by
      by_contra unfree
      exact guarantee.nodes.watched readNow unfree freeNext
    obtain ⟨freeFirst, sameLink⟩ := before.2 (by omega) readNow freeNow
    exact ⟨freeFirst,
      (guarantee.nodes.freeLink freeNow freeNext).trans sameLink⟩

omit [DecidableEq T] in
/-- A successful pop removes the top and leaves the rest as it is. -/
theorem FreeList.pop
    {state after : State A H T V}
    {node : A}
    {nodes : List A}
    (free : FreeList state nodes)
    (popped : Popped state after node) :
    ∃ rest, nodes = node :: rest ∧ FreeList after rest := by
  obtain ⟨top, below, links⟩ := popped
  cases nodes with
  | nil =>
      exact absurd (top.symm.trans free) (by simp)
  | cons first rest =>
      have same : first = node :=
        Option.some.inj (free.1.symm.trans top)
      subst same
      refine ⟨rest, rfl, free.2.transfer below fun other _ => ?_⟩
      exact congrFun links other

omit [DecidableEq T] in
/-- A step that pops what the thread has read takes the top. -/
theorem Guarantee.popped
    {thread : T}
    (guarantee : Guarantee thread world after)
    {node : A}
    (pops : PopSucceeds thread world.1 after.1 node) :
    Popped world.1 after.1 node := by
  obtain ⟨read, unread, same⟩ := pops
  rcases guarantee.record.ownTop.2 same with kept | ⟨_, popped⟩
  · exact absurd ((unread.symm.trans kept).trans read) (by simp)
  · exact popped node read

variable [DecidableEq A] [DecidableEq H]

/--
While a session lasts, every node that it has observed keeps its value and
its life, so iterators read constructed values and unlinking removes the node
that was loaded.  A node that is popped was on the free list, with the same
link, since the thread read it as the top, so the pop leaves the rest of the
free list.
-/
theorem handles_protect
    {kGenerations : Nat}
    (admitted : 2 ≤ kGenerations) :
    (∀ (first later : Pool (State A H T V) (Choice A H V) T)
        (session : Nat)
        (node : A),
      (initialPool kGenerations).Reaches first →
      first.Reaches later →
      Observes first.shared session node →
      Lasts later.shared session →
      Untouched first.shared later.shared node) ∧
      (∀ pool : Pool (State A H T V) (Choice A H V) T,
        (initialPool kGenerations).Reaches pool →
        (∀ value ∈ pool.shared.dereferenced, value ≠ none) ∧
          ∀ lives ∈ pool.shared.unlinked, lives.1 = lives.2) ∧
      ∀ (first last popped : Pool (State A H T V) (Choice A H V) T)
        (thread : T)
        (choice : Choice A H V)
        (node : A),
        (initialPool kGenerations).Reaches first →
        first.Reaches last →
        last.step thread choice = some popped →
        PopSucceeds thread last.shared popped.shared node →
        first.shared.topReads thread = last.shared.topReads thread →
        (∃ nodes,
          FreeList first.shared nodes ∧ nodes.Nodup ∧ node ∈ nodes) ∧
          last.shared.retireLink node = first.shared.retireLink node ∧
          ∃ rest,
            FreeList last.shared (node :: rest) ∧
              FreeList popped.shared rest := by
  refine ⟨?_, ?_, ?_⟩
  · intro first later session node reached continued observes lasts
    obtain ⟨atFirst, runsFirst⟩ := Covered.reaches reached
    obtain ⟨atLater, runsLater⟩ := Covered.reaches continued
    obtain ⟨firstGhost, firstCovered, _⟩ :=
      runsFirst (covered (by omega) (0 + atLater + atFirst))
    obtain ⟨laterGhost, laterCovered, evolves⟩ := runsLater firstCovered
    exact untouched_of_evolves firstCovered.1 laterCovered.1 evolves
      observes lasts
  · intro pool reached
    obtain ⟨needed, runs⟩ := Covered.reaches reached
    obtain ⟨ghost, now, _⟩ := runs (covered (by omega) (0 + needed))
    have records := now.1.records
    exact ⟨records.constructed, fun lives member =>
      records.unlinkedSame member⟩
  · intro first last popped thread choice node reached continued stepped
      pops same
    obtain ⟨atFirst, runsFirst⟩ := Covered.reaches reached
    obtain ⟨atLast, runsLast⟩ := Covered.reaches continued
    obtain ⟨firstGhost, firstCovered, _⟩ :=
      runsFirst (covered (by omega) (1 + atLast + atFirst))
    obtain ⟨lastGhost, lastCovered, evolves⟩ := runsLast firstCovered
    obtain ⟨poppedGhost, _, guarantee⟩ := lastCovered.step stepped
    have inv := lastCovered.1
    have taken := guarantee.popped pops
    obtain ⟨free, sameLink⟩ := stayed_free_of_evolves evolves pops.1
      same.symm (inv.top_stage taken.1)
    obtain ⟨nodes, isFree, noDuplicates, members⟩ :=
      firstCovered.1.free_list
    obtain ⟨later, isFreeLater, _⟩ := inv.free_list
    obtain ⟨rest, rfl, remains⟩ := isFreeLater.pop taken
    exact ⟨⟨nodes, isFree, noDuplicates, (members node).mpr free⟩,
      sameLink, rest, isFreeLater, remains⟩

/-- Node 7 is erased and bagged while an iterator is parked on it. -/
theorem handles_protect_parked :
    ∃ first later :
        Pool (State Nat Nat Nat Nat) (Choice Nat Nat Nat) Nat,
      2 ≤ 2 ∧
        (initialPool 2).run (insertSeven ++ visitSeven) = some first ∧
        first.run (eraseFirst ++ sampleCall .reclaim 12) = some later ∧
        (later.shared.ring 0).bag = some 7 ∧
        Observes first.shared 0 7 ∧ Lasts later.shared 0 ∧
        Untouched first.shared later.shared 7 := by
  obtain ⟨first, visited⟩ : ∃ first,
      (initialPool 2 :
        Pool (State Nat Nat Nat Nat) (Choice Nat Nat Nat) Nat).run
          (insertSeven ++ visitSeven) = some first :=
    ⟨_, rfl⟩
  obtain ⟨later, bagged⟩ : ∃ later,
      first.run (eraseFirst ++ sampleCall .reclaim 12) = some later := by
    cases visited
    exact ⟨_, rfl⟩
  have observes : Observes first.shared 0 7 := by
    cases visited
    exact ⟨.node 7, 7, List.mem_cons_self, .inl rfl, .refl⟩
  have lasts : Lasts later.shared 0 := by
    cases visited
    cases bagged
    exact ⟨0, ⟨0, 0⟩, rfl, rfl⟩
  have promises := handles_protect (A := Nat) (H := Nat) (T := Nat)
    (V := Nat) (Nat.le_refl 2)
  refine ⟨first, later, Nat.le_refl 2, visited, bagged, ?_, observes,
    lasts, promises.1 first later 0 7 ⟨_, visited⟩ ⟨_, bagged⟩ observes
      lasts⟩
  cases visited
  cases bagged
  rfl

end ConcurrentCpp.LockFreeListRCU
