import ConcurrentCpp.ListView
import ConcurrentCpp.LockFreeListRCUThreads

namespace ConcurrentCpp.LockFreeListRCU

/-!
# Runs of the list with handles

The protocol holds initially and every client keeps it, so it holds along
every run.  A session pins what it has reached, and a node is used only once
in each of its lives; what the list promises its clients follows.
-/

variable {A H T V : Type} [DecidableEq T]

/-- What clients can see of the list; a reused node has a new life. -/
def view (state : State A H T V) : ListView A (A × Nat) T where
  next := state.next
  identity node := (node, state.life node)
  events := state.events

/-- No node is allocated and generation 0 is the only one. -/
def Ghost.initial : Ghost A T where
  place _ := .off
  stage _ := .absent
  ring :=
    { now := 0
      low := 0
      token := fun _ => none
      members := ∅ }
  holder := none
  hand := []
  freeing := false
  erasing _ := false
  unreported := ∅

variable {capacity : Nat}

/-- The empty list satisfies the invariant. -/
theorem initial_inv
    (positive : 0 < capacity) :
    Invariant capacity
      ((State.initial : State A H T V), (Ghost.initial : Ghost A T)) where
  chain :=
    { wellFormed :=
        { chain := fun _ => ⟨[], rfl, List.nodup_nil, fun node => by
            simp [chainOf, MarkedChain.forest, Ghost.initial]⟩
          cutStamp := fun cut => by cases cut
          cutNext := fun cut => by cases cut
          cutEnds := fun cut => by cases cut }
      rootUnmarked := rfl
      cutMarked := fun cut => by cases cut }
  ring :=
    { current_eq := (Nat.zero_mod _).symm
      low_le := Nat.le_refl _
      now_lt := by simpa [Ghost.initial] using positive
      members := fun member => by simp [Ghost.initial]
      counted := fun _ => rfl
      slots := fun held => by cases held
      bounds := fun ⟨_, held, _⟩ => by cases held }
  blocks :=
    { oldest_eq := (Nat.zero_mod _).symm
      bottom_le := Nat.le_refl _
      now_lt := by simpa [Ghost.initial, bottomOf] using positive
      current := by simp [State.initial, Ghost.initial]
      closed := fun _ below => (Nat.not_lt_zero _ below).elim
      empty := fun {slot} _ outside => by
        have notZero : slot ≠ 0 := by
          simpa using outside 0 (Nat.le_refl _) (Nat.le_refl _)
        simp [State.initial, notZero] }
  freeing freeing := by cases freeing
  stacked stack :=
    ⟨[], by cases stack <;> rfl, List.nodup_nil, fun node => by
      simp [stacksOf, Ghost.initial, Stage.label?]⟩
  nodes node := ⟨rfl, rfl, rfl⟩
  hand node := by simp [Ghost.initial]
  sessions :=
    { live := fun known => by cases known
      fresh := fun known => by cases known
      injective := fun known => by cases known
      tokens := fun held => (held rfl).elim
      older := fun member => by cases member
      positions := fun member => by cases member
      threads := List.nodup_nil
      exclusive := fun member => by cases member }
  visible member := by cases member
  watch seen := by cases seen
  lives :=
    { marked := fun member => by cases member
      unmarked := fun member => by cases member
      inserted := fun member => by cases member }
  records :=
    { ledger := Ledger.empty
      unlinkedSame := fun member => by cases member
      constructed := fun _ member => by cases member
      counts := fun _ => rfl }
  duties :=
    { owner := fun owner => by cases owner
      holder := fun holds => by cases holds }
  flag := rfl
  idle _ := ⟨rfl, rfl⟩

variable [DecidableEq A] [DecidableEq H]

/-- Every run of clients keeps the protocol. -/
theorem covered
    (positive : 0 < capacity)
    (fuel : Nat) :
    Covered (protocol capacity) fuel
      (initialPool capacity :
        Pool (State A H T V) (Choice A H V) T)
      Ghost.initial :=
  covered_of_triples (initial_inv positive)
    (fun thread =>
      show (idle thread : Fact A H V capacity thread).holds _ from
        ⟨(fun _ member => (List.not_mem_nil member).elim), ⟨rfl, rfl⟩, rfl,
          by simp [Ghost.initial]⟩)
    (fun _ => client_triple) fuel

section Promises

variable {world after last : State A H T V × Ghost A T}

omit [DecidableEq A] [DecidableEq H] in
/-- What each step keeps of a node in one life, a run within it keeps. -/
theorem keeps_in_life
    (evolves : Evolves (protocol capacity) world after)
    {node : A}
    (property : State A H T V × Ghost A T → Prop)
    (known : property world)
    (steps :
      ∀ {thread now next},
        Invariant capacity now →
        Invariant capacity next →
        Guarantee thread now next →
        next.1.life node = now.1.life node →
        property now →
        property next)
    (sameLife : after.1.life node = world.1.life node) :
    property after := by
  have kept := evolves.keeps
    (fun now =>
      world.1.life node ≤ now.1.life node ∧
        (now.1.life node = world.1.life node → property now))
    ⟨Nat.le_refl _, fun _ => known⟩ ?_
  · exact kept.2 sameLife
  · intro thread now next inv invNext guarantee before
    have grows := guarantee.nodes.life node
    refine ⟨Nat.le_trans before.1 grows, fun same => ?_⟩
    have bound := before.1
    exact steps inv invNext guarantee (by omega) (before.2 (by omega))

omit [DecidableEq A] [DecidableEq H] in
/-- Within one life, the word of a marked node stays as it is. -/
theorem frozen_in_life
    (evolves : Evolves (protocol capacity) world after)
    {node : A}
    (used : (world.2.stage node).Used)
    (marked : (world.1.next (.node node)).mark = true)
    (sameLife : after.1.life node = world.1.life node) :
    after.1.next (.node node) = world.1.next (.node node) := by
  refine (keeps_in_life evolves
    (fun now =>
      (now.2.stage node).Used ∧
        now.1.next (.node node) = world.1.next (.node node))
    ⟨used, rfl⟩ ?_ sameLife).2
  intro thread now next _ _ guarantee same known
  obtain ⟨stays, _, frozen⟩ := guarantee.nodes.used same known.1
  exact ⟨stays, (frozen (by rw [known.2]; exact marked)).trans known.2⟩

end Promises

section Sessions

variable {world after : State A H T V × Ghost A T}

/-- The session belongs to some handle. -/
def Lasts (state : State A H T V) (session : Nat) : Prop :=
  ∃ handle live,
    state.handles handle = some live ∧ live.session = session

omit [DecidableEq A] [DecidableEq H] in
/--
What each step keeps of the nodes that a session of some generation has
reached, a run keeps as long as the session lasts.
-/
theorem keeps_in_session
    (evolves : Evolves (protocol capacity) world after)
    {session : Nat}
    {cell : Cell Unit A}
    (reached : (session, cell) ∈ world.1.reached)
    (property : Nat → State A H T V × Ghost A T → Prop)
    (known :
      ∀ {generation},
        world.2.ring.Verified (.inl session) generation →
        property generation world)
    (steps :
      ∀ {thread now next generation},
        Invariant capacity now →
        Invariant capacity next →
        Guarantee thread now next →
        now.2.ring.low ≤ generation ∧ generation ≤ now.2.ring.now →
        next.2.ring.low ≤ generation →
        property generation now →
        property generation next)
    {generation : Nat}
    (verified : after.2.ring.Verified (.inl session) generation) :
    property generation after := by
  refine (evolves.keeps
    (fun now =>
      (session, cell) ∈ now.1.reached ∧
        ∀ {generation},
          now.2.ring.Verified (.inl session) generation →
          property generation now)
    ⟨reached, known⟩ ?_).2 verified
  intro thread now next inv invNext guarantee before
  refine ⟨guarantee.sessions.reached before.1, ?_⟩
  intro generation verifiedNext
  obtain ⟨token, held, isGeneration⟩ := verifiedNext
  have same := guarantee.sessions.sessions before.1 (by simp [held])
  have verifiedNow : now.2.ring.Verified (.inl session) generation :=
    ⟨token, same.symm.trans held, isGeneration⟩
  exact steps inv invNext guarantee (inv.ring.bounds verifiedNow)
    (invNext.ring.bounds ⟨token, held, isGeneration⟩).1
    (before.2 verifiedNow)

omit [DecidableEq A] [DecidableEq H] [DecidableEq T] in
/-- An iterator that moves on comes to the successor of its word. -/
theorem increment_finishes
    (session : Nat)
    (position : Cell Unit A)
    (state : State A H T V) :
    Finishes (fun _ => True)
      (fun moved after =>
        moved = ((view state).next position).ptr ∧ view after = view state)
      (increment session position : Program A H T V (Option A)) state := by
  refine Finishes.atomic ⟨.proceed, trivial, rfl⟩ ?_
  intro choice value after _ ran
  cases target : (state.next position).ptr with
  | none =>
      simp only [State.increment, target, Option.some.injEq] at ran
      cases ran
      exact ⟨target.symm, rfl⟩
  | some node =>
      simp only [State.increment, target, Option.some.injEq] at ran
      cases ran
      exact ⟨target.symm, rfl⟩

omit [DecidableEq A] [DecidableEq H] in
/-- What an iterator parked on a node finds later in its session. -/
theorem traversal_of_evolves
    (inv : Invariant capacity world)
    (invAfter : Invariant capacity after)
    (evolves : Evolves (protocol capacity) world after)
    {session : Nat}
    {parked : A}
    (kept : (session, .node parked) ∈ world.1.iterators)
    (lasts : Lasts after.1 session) :
    (view world.1).KeepsReach (view after.1) parked ∧
      ∃ visited,
        (view world.1).Traversal (view after.1) parked visited := by
  have reached := inv.sessions.positions kept
  obtain ⟨handle, live, isLive, rfl⟩ := lasts
  obtain ⟨generation, verified⟩ := invAfter.verified isLive
  have bounds := invAfter.ring.bounds verified
  have finds : ∀ {node},
      (view world.1).Stays (view after.1) parked node →
      (chainOf after).place node = .linked () ∧
        LeadsTo (chainOf after).forest.links parked node := by
    rintro node ⟨unmarked, leads, still⟩
    have found := keeps_in_session evolves reached
      (fun since now => (chainOf now).Finds since parked node)
      (fun verifiedBefore =>
        MarkedChain.finds_of_leadsTo inv.chain
          (inv.ring.bounds verifiedBefore).1
          (inv.visible reached verifiedBefore) leads unmarked)
      (fun _ invNext guarantee within pinned known =>
        known.step invNext.chain guarantee.nodes.chain within.1 pinned
          within.2) verified
    rcases found.2 with here | gone
    · exact here
    · exact absurd (still.symm.trans gone.2) (by simp)
  have visible := keeps_in_session evolves reached
    (fun since now => (chainOf now).forest.Visible () since parked)
    (fun verifiedBefore => inv.visible reached verifiedBefore)
    (fun _ _ guarantee within pinned known =>
      guarantee.nodes.chain.forest.visible pinned within.2 known) verified
  obtain ⟨visited, walk⟩ :=
    invAfter.chain.wellFormed.visible_ends bounds.1 visible
  refine
    ⟨fun stays => (finds stays).2, visited,
      { path := walk
        stayed := fun stays => walk.mem_iff_leadsTo.mpr (finds stays).2
        order := ?_ }⟩
  intro first second nodes firstStays secondStays path ordered
  have inOrder := keeps_in_session evolves reached
    (fun since now => (chainOf now).InOrder since first second)
    (fun _ => .inl (inv.chain.ordered_of_path path ordered))
    (fun invNow invNext guarantee within pinned known =>
      known.step invNow.chain invNext.chain guarantee.nodes.chain pinned
        within.2) verified
  have now := inOrder.ordered firstStays.2.2 secondStays.2.2
  obtain ⟨later, laterChained⟩ := invAfter.chain.wellFormed.chain ()
  exact laterChained.path.sublist_of_shared laterChained.noDuplicates
    (now.2.2 later laterChained) walk
    (walk.mem_iff_leadsTo.mpr (finds firstStays).2)

end Sessions

section Sample

/-- Thread 0 makes a call and takes some steps of it. -/
def sampleCall
    (call : Call Nat Nat Nat)
    (steps : Nat) :
    List (Nat × Choice Nat Nat Nat) :=
  (0, .proceed) :: (0, .call call) :: List.replicate steps (0, .proceed)

/-- Thread 0 gets a handle and an iterator to the head. -/
def openHandle : List (Nat × Choice Nat Nat Nat) :=
  sampleCall (.newHandle 0) 6 ++ sampleCall (.beforeBegin 0) 0

/-- Thread 0 inserts a node behind the head. -/
def insertFirst
    (node : Nat) :
    List (Nat × Choice Nat Nat Nat) :=
  sampleCall (.insertAfter 0 (some (.root ())) 5) 2 ++
    (0, Choice.fresh node) :: List.replicate 6 (0, Choice.proceed)

/-- Thread 0 makes a list of node 7. -/
def insertSeven : List (Nat × Choice Nat Nat Nat) :=
  openHandle ++ insertFirst 7

/-- Thread 0 makes a list of nodes 7, 8 and 9. -/
def insertThree : List (Nat × Choice Nat Nat Nat) :=
  openHandle ++ insertFirst 9 ++ insertFirst 8 ++ insertFirst 7

/-- Thread 0 moves an iterator onto node 7. -/
def visitSeven : List (Nat × Choice Nat Nat Nat) :=
  sampleCall (.increment 0 (.root ())) 0

/-- Thread 0 erases the node behind the head. -/
def eraseFirst : List (Nat × Choice Nat Nat Nat) :=
  sampleCall (.eraseAfter 0 (some (.root ()))) 11

/-- Thread 1 marks the node behind the head and goes no further. -/
def strandFirst : List (Nat × Choice Nat Nat Nat) :=
  (1, .proceed) :: (1, .call (.eraseAfter 0 (some (.root ())))) ::
    List.replicate 5 (1, .proceed)

end Sample

end ConcurrentCpp.LockFreeListRCU
