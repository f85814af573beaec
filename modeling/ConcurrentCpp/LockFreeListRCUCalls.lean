import ConcurrentCpp.LockFreeListRCUNodes

namespace ConcurrentCpp.LockFreeListRCU

/-!
# Calls under a handle

What a thread knows while it works under a handle, and the programs of
`join`, `refresh`, `insert_after` and `erase_after` verified against the
protocol.
-/

variable {A H T V : Type} [DecidableEq T]
variable {capacity : Nat} {thread : T}

section Assertions

/-- What a thread may know about the list. -/
abbrev Fact
    (A H V : Type)
    (capacity : Nat)
    (thread : T) :=
  Assertion (protocol (A := A) (H := H) (V := V) capacity) thread

/-- The call is in progress. -/
def calling
    (thread : T)
    (use : Use H T)
    (mine : use.thread = thread) :
    Fact A H V capacity thread where
  holds world := use ∈ world.1.uses
  stable different _ _ guarantee known :=
    (guarantee.sessions.uses known
      (by rw [mine]; exact different.symm)).1

/-- What the thread has counted while joining, and read while popping. -/
def progress
    (thread : T)
    (token : Option (Token Unit))
    (top : Option A) :
    Fact A H V capacity thread where
  holds world :=
    world.2.ring.token (.inr thread) = token ∧
      world.1.topRead thread = top
  stable different _ _ guarantee known :=
    ⟨(guarantee.sessions.tokens different.symm).trans known.1,
      (guarantee.record.tops different.symm).1.trans known.2⟩

/-- Whether the thread is erasing and has a mark to report. -/
def phase
    (thread : T)
    (erasing unreported : Bool) :
    Fact A H V capacity thread where
  holds world :=
    world.2.erasing thread = erasing ∧
      (thread ∈ world.2.unreported ↔ unreported = true)
  stable different _ _ guarantee known :=
    have same := guarantee.record.erasing different.symm
    ⟨same.1.trans known.1, same.2.trans known.2⟩

/-- The thread may change the handle, which is in this condition. -/
def exclusively
    (thread : T)
    (handle : H)
    (condition : Option Handle) :
    Fact A H V capacity thread where
  holds world :=
    (⟨thread, some handle, true⟩ : Use H T) ∈ world.1.uses ∧
      world.1.handles handle = condition
  stable different _ _ guarantee known := by
    have same := guarantee.sessions.uses known.1 different.symm
    exact ⟨same.1, (same.2 rfl).1.trans known.2⟩

/-- Nothing was reached yet in the session that the handle has now. -/
def renewed
    (thread : T)
    (handle : H)
    (live : Handle) :
    Fact A H V capacity thread where
  holds world :=
    ((⟨thread, some handle, true⟩ : Use H T) ∈ world.1.uses ∧
      world.1.handles handle = some live) ∧
      ∀ cell, (live.session, cell) ∉ world.1.reached
  stable different inv _ guarantee known := by
    refine ⟨(exclusively thread handle (some live)).stable
      different inv ‹_› guarantee known.1, fun node member => ?_⟩
    rcases guarantee.sessions.reachedNew member with
      old | ⟨other, found, foundKnown, same, shared⟩
    · exact known.2 node old
    · have here := inv.sessions.injective foundKnown known.1.2 same
      subst here
      simpa using shared _ known.1.1 rfl

/-- The thread works under a session of a handle that it shares. -/
def inCall
    (thread : T)
    (handle : H)
    (session : Nat) :
    Fact A H V capacity thread where
  holds world :=
    (⟨thread, some handle, false⟩ : Use H T) ∈ world.1.uses ∧
      ∃ block, world.1.handles handle = some ⟨block, session⟩
  stable different _ _ guarantee known := by
    have same := guarantee.sessions.uses known.1 different.symm
    obtain ⟨block, live⟩ := known.2
    exact ⟨same.1, block, (same.2 rfl).1.trans live⟩

/-- The session has reached the cell. -/
def knows
    (thread : T)
    (session : Nat)
    (cell : Cell Unit A) :
    Fact A H V capacity thread :=
  .lasting
    (fun world => (session, cell) ∈ world.1.reached)
    fun _ _ _ _ _ guarantee known => guarantee.sessions.reached known

/-- The session has reached what a word leads to. -/
def knowsNext
    (thread : T)
    (session : Nat)
    (word : MarkedPtr A) :
    Fact A H V capacity thread :=
  .all fun target : { node // word.ptr = some node } =>
    knows thread session (.node target.1)

/-- The thread owns a node that is not linked, with this value in it. -/
def owns
    (thread : T)
    (node : A)
    (popped : Bool)
    (value : Option V) :
    Fact A H V capacity thread where
  holds world :=
    world.2.stage node = .owned thread popped ∧
      world.1.value node = value
  stable different _ _ guarantee known := by
    have same := guarantee.nodes.owned different.symm known.1
    exact ⟨same.1, same.2.2.trans known.2⟩

/-- The thread has prepared the link of a node that it owns. -/
def prepared
    (thread : T)
    (node : A)
    (popped : Bool)
    (value : Option V)
    (word : MarkedPtr A) :
    Fact A H V capacity thread where
  holds world :=
    (world.2.stage node = .owned thread popped ∧
      world.1.value node = value) ∧
      world.1.next (.node node) = word
  stable different _ _ guarantee known := by
    have same := guarantee.nodes.owned different.symm known.1.1
    exact ⟨⟨same.1, same.2.2.trans known.1.2⟩,
      same.2.1.trans known.2⟩

/-- The thread has to push the node onto the retired list. -/
def retiring
    (thread : T)
    (node : A) :
    Fact A H V capacity thread where
  holds world := world.2.stage node = .pending thread
  stable different _ _ guarantee known :=
    (guarantee.nodes.pending different.symm known).1

/-- The node to be retired has its link written. -/
def retiringTo
    (thread : T)
    (node : A)
    (link : Option A) :
    Fact A H V capacity thread where
  holds world :=
    world.2.stage node = .pending thread ∧
      world.1.retireLink node = link
  stable different _ _ guarantee known := by
    have same := guarantee.nodes.pending different.symm known.1
    exact ⟨same.1, same.2.trans known.2⟩

/-- The thread has no node to link, dispose of or retire. -/
def emptyHanded
    (thread : T) :
    Fact A H V capacity thread where
  holds world := ∀ node, (world.2.stage node).owner? ≠ some thread
  stable different _ _ guarantee known node owner :=
    known node (guarantee.nodes.owner different.symm owner)

/-- The thread has no other node to link, dispose of or retire. -/
def carries
    (thread : T)
    (node : A) :
    Fact A H V capacity thread where
  holds world :=
    ∀ other, (world.2.stage other).owner? = some thread → other = node
  stable different _ _ guarantee known other owner :=
    known other (guarantee.nodes.owner different.symm owner)

/--
A pop loop has read the top of the free list and its link.  The link holds as
long as the node stays on the free list, and the node does not return to it.
-/
def peekedLink
    (thread : T)
    (top : A)
    (below : Option A) :
    Fact A H V capacity thread where
  holds world :=
    (world.2.ring.token (.inr thread) = none ∧
      world.1.topRead thread = some top) ∧
      (world.2.stage top = .listed .free →
        world.1.retireLink top = below)
  stable different inv invAfter guarantee known := by
    refine ⟨(progress thread none (some top)).stable different inv invAfter
      guarantee known.1, fun free => ?_⟩
    have before := known.1.2
    by_contra changed
    refine guarantee.nodes.watched before ?_ free
    intro wasFree
    exact changed
      ((guarantee.nodes.freeLink wasFree free).trans (known.2 wasFree))

end Assertions

section Facts

variable {state : State A H T V} {ghost : Ghost A T}
variable {handle : H} {block session : Nat}

omit [DecidableEq T] in
/-- The one node that a thread takes or already has. -/
private theorem owner_taken
    [DecidableEq A]
    {stage : A → Stage T}
    {node : A}
    (only :
      ∀ other, (stage other).owner? = some thread → other = node)
    (taken : Stage T) :
    ∀ other,
      (Function.update stage node taken other).owner? = some thread →
      other = node := by
  intro other owner
  by_contra different
  rw [Function.update_of_ne different] at owner
  exact different (only other owner)

omit [DecidableEq T] in
/-- A thread that has left its one node has none. -/
private theorem owner_left
    [DecidableEq A]
    {stage : A → Stage T}
    {node : A}
    (only :
      ∀ other, (stage other).owner? = some thread → other = node)
    {left : Stage T}
    (nobody : left.owner? = none) :
    ∀ other,
      (Function.update stage node left other).owner? ≠ some thread := by
  intro other owner
  by_cases same : other = node
  · subst same
    rw [Function.update_self, nobody] at owner
    cases owner
  · rw [Function.update_of_ne same] at owner
    exact same (only other owner)

/-- The session of a handle is verified in some generation. -/
theorem Invariant.verified
    (inv : Invariant capacity (state, ghost))
    (live : state.handles handle = some ⟨block, session⟩) :
    ∃ generation, ghost.ring.Verified (.inl session) generation := by
  obtain ⟨generation, held⟩ := inv.sessions.live live
  exact ⟨generation, _, held, rfl⟩

/-- A call under a handle works under its generation. -/
theorem Invariant.under
    (inv : Invariant capacity (state, ghost))
    (known :
      (inCall thread handle session : Fact A H V capacity thread).holds
        (state, ghost)) :
    ∃ generation, Under state ghost thread generation := by
  obtain ⟨use, block, live⟩ := known
  obtain ⟨generation, verified⟩ := inv.verified live
  exact ⟨generation, handle, _, use, live, verified⟩

/-- Nobody changes a handle that a call shares. -/
theorem Invariant.unchanging
    (inv : Invariant capacity (state, ghost))
    (use : (⟨thread, some handle, false⟩ : Use H T) ∈ state.uses) :
    Unchanging state handle := by
  intro other member same
  cases exclusive : other.exclusive with
  | false =>
      rfl
  | true =>
      have equal := inv.sessions.exclusive member use same rfl exclusive
      rw [equal] at exclusive
      cases exclusive

/-- A node that a session has reached is not off the chain. -/
theorem Invariant.placed
    (inv : Invariant capacity (state, ghost))
    (live : state.handles handle = some ⟨block, session⟩)
    {node : A}
    (reached : (session, .node node) ∈ state.reached) :
    ghost.place node ≠ .off := by
  obtain ⟨generation, verified⟩ := inv.verified live
  exact (inv.visible reached verified).ne_off

/-- A cell that a session has reached is not off the chain. -/
theorem Invariant.present
    (inv : Invariant capacity (state, ghost))
    (live : state.handles handle = some ⟨block, session⟩)
    {cell : Cell Unit A}
    (reached : (session, cell) ∈ state.reached) :
    (chainOf (state, ghost)).Present cell := by
  rintro node rfl
  exact inv.placed live reached

/-- What a session can load next is visible to it. -/
theorem Invariant.visible_next
    (inv : Invariant capacity (state, ghost))
    {cell : Cell Unit A}
    (reached : (session, cell) ∈ state.reached)
    {node : A}
    (leads : (state.next cell).ptr = some node)
    {generation : Nat}
    (verified : ghost.ring.Verified (.inl session) generation) :
    (chainOf (state, ghost)).forest.Visible () generation node := by
  have wellFormed := inv.chain.wellFormed
  cases cell with
  | root root =>
      exact .inl (wellFormed.root_next leads)
  | node here =>
      exact wellFormed.visible_next (inv.ring.bounds verified).1
        (inv.visible reached verified) leads

end Facts

section Final

/-- A node that a lasting session has reached is never off the chain. -/
theorem Guarantee.lasting
    {other : T}
    {world after : State A H T V × Ghost A T}
    (inv : Invariant capacity world)
    (invAfter : Invariant capacity after)
    (guarantee : Guarantee other world after)
    {session : Nat}
    {node : A}
    (reached : (session, .node node) ∈ world.1.reached)
    (lasts : after.2.ring.token (.inl session) ≠ none) :
    world.2.ring.token (.inl session) ≠ none ∧
      world.2.place node ≠ .off ∧ after.2.place node ≠ .off := by
  have same := guarantee.sessions.sessions reached lasts
  have lasted : world.2.ring.token (.inl session) ≠ none :=
    same ▸ lasts
  refine ⟨lasted, ?_, ?_⟩
  · obtain ⟨handle, live, known, rfl⟩ := inv.sessions.tokens lasted
    exact inv.placed known reached
  · obtain ⟨handle, live, known, rfl⟩ := invAfter.sessions.tokens lasts
    exact invAfter.placed known (guarantee.sessions.reached reached)

/-- A marked word that the session has read from a node is final. -/
def final
    (thread : T)
    (session : Nat)
    (node : A)
    (word : MarkedPtr A) :
    Fact A H V capacity thread :=
  .lasting
    (fun world =>
      (session, .node node) ∈ world.1.reached ∧
        (world.2.ring.token (.inl session) ≠ none →
          word.mark = true →
          world.1.next (.node node) = word))
    fun _ world _ inv invAfter guarantee known => by
      refine ⟨guarantee.sessions.reached known.1, fun lasts mark => ?_⟩
      obtain ⟨lasted, present, presentAfter⟩ :=
        guarantee.lasting inv invAfter known.1 lasts
      have current : (chainOf world).next (.node node) = word :=
        known.2 lasted mark
      exact (guarantee.nodes.chain.frozen present presentAfter
        (by rw [current]; exact mark)).trans current

/-- The node is still in the life in which the session has reached it. -/
def lived
    (thread : T)
    (session : Nat)
    (node : A)
    (life : Nat) :
    Fact A H V capacity thread :=
  .lasting
    (fun world =>
      (session, .node node) ∈ world.1.reached ∧
        (world.2.ring.token (.inl session) ≠ none →
          world.1.life node = life))
    fun _ _ _ inv invAfter guarantee known => by
      refine ⟨guarantee.sessions.reached known.1, fun lasts => ?_⟩
      obtain ⟨lasted, present, presentAfter⟩ :=
        guarantee.lasting inv invAfter known.1 lasts
      exact (guarantee.nodes.present present presentAfter).1.trans
        (known.2 lasted)

/-- The session of a live handle lasts. -/
theorem Invariant.lasts
    {state : State A H T V}
    {ghost : Ghost A T}
    (inv : Invariant capacity (state, ghost))
    {handle : H}
    {block session : Nat}
    (live : state.handles handle = some ⟨block, session⟩) :
    ghost.ring.token (.inl session) ≠ none := by
  obtain ⟨generation, held⟩ := inv.sessions.live live
  have held : ghost.ring.token (.inl session) = _ := held
  simp [held]

end Final

section Join

/-- The fact does not depend on counts and generations. -/
def Uncounted (kept : Fact A H V capacity thread) : Prop :=
  ∀ {state ghost refs ring},
    kept.holds (state, ghost) →
    kept.holds ({ state with refs := refs }, { ghost with ring := ring })

/-- The check at the end of a join attempt. -/
theorem join_check
    {kept : Fact A H V capacity thread}
    (uncounted : Uncounted kept)
    (block : Nat) :
    Triple (protocol capacity) thread
      (kept.and (progress thread (some ⟨(), block, none⟩) none))
      (Prog.read fun state => state.current : Program A H T V Nat)
      fun current =>
        kept.and
          (if current = block then
            .any fun generation =>
              progress thread (some ⟨(), block, some generation⟩) none
          else
            progress thread (some ⟨(), block, none⟩) none) := by
  apply Triple.atomic
  rintro ⟨state, ghost⟩ choice value shared inv ⟨keep, held, unseen⟩ ran
  cases ran
  by_cases same : state.current = block
  · subst same
    have keeps := verify_keeps inv held
    refine ⟨_, keeps.1, keeps.2, uncounted keep, ?_⟩
    rw [if_pos rfl]
    exact ⟨ghost.ring.now, by simp, unseen⟩
  · refine ⟨ghost, inv, (protocol capacity).guar_refl thread _, keep, ?_⟩
    rw [if_neg same]
    exact ⟨held, unseen⟩

/-- `join()` ends with a verified membership. -/
theorem join_triple
    {kept : Fact A H V capacity thread}
    (uncounted : Uncounted kept) :
    Triple (protocol capacity) thread
      (kept.and (progress thread none none))
      (join : Program A H T V Nat)
      fun block =>
        kept.and
          (.any fun generation =>
            progress thread (some ⟨(), block, some generation⟩) none) := by
  refine Triple.loop
    (fun _ => ?_ : ∀ _ : Unit, Triple (protocol capacity) thread
      (kept.and (progress thread none none)) _ _)
  refine Triple.bind
    (Triple.read fun _ _ known => known :
      Triple (protocol capacity) thread
        (kept.and (progress thread none none)) _
        fun _ => kept.and (progress thread none none)) fun block => ?_
  have count :
      Triple (protocol capacity) thread
        (kept.and (progress thread none none))
        (Prog.write fun state => state.addRef block : Program A H T V Unit)
        fun _ =>
          kept.and (progress thread (some ⟨(), block, none⟩) none) := by
    apply Triple.atomic
    rintro ⟨state, ghost⟩ choice value shared inv ⟨keep, idle, unseen⟩ ran
    cases ran
    have keeps := addRef_keeps inv idle block
    exact ⟨_, keeps.1, keeps.2, uncounted keep, by simp, unseen⟩
  refine Triple.bind count fun _ => ?_
  refine Triple.bind (join_check uncounted block) fun current => ?_
  split
  · exact Triple.ret fun _ _ known => known
  · refine Triple.bind
      (?_ : Triple (protocol capacity) thread _ _
        fun _ => kept.and (progress thread none none)) fun _ =>
          Triple.ret fun _ _ known => known
    apply Triple.atomic
    rintro ⟨state, ghost⟩ choice value shared inv ⟨keep, held, unseen⟩ ran
    cases ran
    have keeps := dropRef_keeps inv held
    exact ⟨_, keeps.1, keeps.2, uncounted keep, by simp, unseen⟩

/-- A thread that is neither joining nor popping nor erasing. -/
def quiet
    (thread : T) :
    Fact A H V capacity thread :=
  (progress thread none none).and (phase thread false false)

variable [DecidableEq H]

/-- `new_handle()` begins a session. -/
theorem newHandle_triple
    {handle : H} :
    Triple (protocol capacity) thread
      ((exclusively thread handle none).and (quiet thread))
      (newHandle handle : Program A H T V Unit)
      fun _ =>
        (calling thread ⟨thread, some handle, true⟩ rfl).and
          (quiet thread) := by
  refine Triple.bind
    ((join_triple
        (fun known => known :
          Uncounted
            ((exclusively thread handle none).and
              (phase thread false false)))).weaken
      fun _ _ known => ⟨⟨known.1, known.2.2⟩, known.2.1⟩) fun block => ?_
  apply Triple.atomic
  rintro ⟨state, ghost⟩ choice value shared inv
    ⟨⟨⟨own, empty⟩, inPhase⟩, generation, held, unseen⟩ ran
  cases ran
  have keeps := install_keeps inv own empty held
  exact ⟨_, keeps.1, keeps.2, own, ⟨by simp, unseen⟩, inPhase⟩

/-- The first step of `refresh()` begins a new session in the old slot. -/
theorem redraw_triple
    {handle : H}
    {live : Handle} :
    Triple (protocol capacity) thread
      ((exclusively thread handle (some live)).and (quiet thread))
      (Prog.atomic fun state _ =>
        some (state.current, state.redraw handle live.block) :
        Program A H T V Nat)
      fun _ =>
        (.any fun session => renewed thread handle ⟨live.block, session⟩ :
          Fact A H V capacity thread).and (quiet thread) := by
  apply Triple.atomic
  rintro ⟨state, ghost⟩ choice value shared inv
    ⟨⟨own, known⟩, ⟨idle, unseen⟩, inPhase⟩ ran
  cases ran
  obtain ⟨generation, held⟩ := inv.sessions.live known
  have keeps := redraw_keeps inv own known held
  refine ⟨_, keeps.1, keeps.2,
    ⟨state.nextSession, ⟨own, by simp [State.redraw]⟩, ?_⟩,
    ⟨by simpa using idle, unseen⟩, inPhase⟩
  intro node member
  exact Nat.lt_irrefl _ (inv.sessions.older member)

/-- `refresh()` keeps a session on the handle. -/
theorem refresh_triple
    {handle : H}
    {live : Handle} :
    Triple (protocol capacity) thread
      ((exclusively thread handle (some live)).and (quiet thread))
      (refresh handle live.block : Program A H T V Bool)
      fun _ =>
        (calling thread ⟨thread, some handle, true⟩ rfl).and
          (quiet thread) := by
  refine Triple.bind redraw_triple fun current => ?_
  split
  · exact Triple.ret fun _ _ ⟨⟨_, ⟨own, _⟩, _⟩, still⟩ => ⟨own, still⟩
  · refine Triple.bind
      ((join_triple
          (fun known => known :
            Uncounted
              ((.any fun session =>
                  renewed thread handle ⟨live.block, session⟩ :
                Fact A H V capacity thread).and
                (phase thread false false)))).weaken
        fun _ _ known => ⟨⟨known.1, known.2.2⟩, known.2.1⟩)
      fun joined => ?_
    refine Triple.bind
      (?_ : Triple (protocol capacity) thread _ _ fun _ =>
        (calling thread ⟨thread, some handle, true⟩ rfl).and
          (quiet thread)) fun _ => Triple.ret fun _ _ known => known
    apply Triple.atomic
    rintro ⟨state, ghost⟩ choice value shared inv
      ⟨⟨⟨session, ⟨own, known⟩, unreached⟩, inPhase⟩, generation, held,
        unseen⟩ ran
    cases ran
    obtain ⟨old, left⟩ := inv.sessions.live known
    have keeps := rejoin_keeps inv own known unreached left held
    exact ⟨_, keeps.1, keeps.2, own, ⟨by simp, unseen⟩, inPhase⟩

end Join

section Retire

variable [DecidableEq A]

/-- The fact does not depend on the retired list. -/
def Unretired (kept : Fact A H V capacity thread) : Prop :=
  ∀ {state ghost retireLink retiredHead stage},
    kept.holds (state, ghost) →
    kept.holds
      ({ state with retireLink := retireLink, retiredHead := retiredHead },
        { ghost with stage := stage })

variable {kept : Fact A H V capacity thread} {node : A}

/-- Writing the link of a node to be retired. -/
theorem storeRetireLink_retiring
    (unretired : Unretired kept)
    (link : Option A) :
    Triple (protocol capacity) thread
      ((kept.and (carries thread node)).and
        (retiring thread node))
      (storeRetireLink node link : Program A H T V Unit)
      fun _ =>
        (kept.and (carries thread node)).and
          (retiringTo thread node link) := by
  apply Triple.atomic
  rintro ⟨state, ghost⟩ choice value shared inv ⟨⟨keep, only⟩, pending⟩ ran
  cases ran
  have keeps := storeRetireLink_keeps inv (.inl pending) link
  exact ⟨ghost, keeps.1, keeps.2, ⟨unretired keep, only⟩, pending, by simp⟩

/-- The swap on the head of the retired list. -/
theorem pushRetired_triple
    (unretired : Unretired kept)
    (head : Option A) :
    Triple (protocol capacity) thread
      ((kept.and (carries thread node)).and
        (retiringTo thread node head))
      (pushRetired head node : Program A H T V (Bool × Option A))
      fun outcome =>
        if outcome.1 then
          kept.and (emptyHanded thread)
        else
          (kept.and (carries thread node)).and (retiring thread node) := by
  apply Triple.atomic
  rintro ⟨state, ghost⟩ choice value shared inv
    ⟨⟨keep, only⟩, pending, linked⟩ ran
  have fails :
      ((kept.and (carries thread node)).and
        (retiring thread node)).holds (state, ghost) :=
    ⟨⟨keep, only⟩, pending⟩
  have swaps :
      (if state.retiredHead = head then
        some ((true, head), { state with retiredHead := some node })
      else
        some ((false, state.retiredHead), state)) =
        some (value, shared) →
      ∃ later,
        Invariant capacity (shared, later) ∧
          Guarantee thread (state, ghost) (shared, later) ∧
          (if value.1 then
            kept.and (emptyHanded thread)
          else
            (kept.and (carries thread node)).and
              (retiring thread node)).holds (shared, later) := by
    intro ran
    split at ran
    · rename_i current
      cases ran
      have keeps := push_keeps inv pending (linked.trans current.symm)
      exact ⟨_, keeps.1, keeps.2, unretired keep,
        owner_left only rfl⟩
    · cases ran
      exact ⟨ghost, inv, (protocol capacity).guar_refl thread _, fails⟩
  cases choice with
  | spurious =>
      cases ran
      exact ⟨ghost, inv, (protocol capacity).guar_refl thread _, fails⟩
  | _ =>
      exact swaps ran

/-- `retire()` pushes a node onto the retired list. -/
theorem retire_triple
    (unretired : Unretired kept) :
    Triple (protocol capacity) thread
      ((kept.and (carries thread node)).and
        (retiring thread node))
      (retire node : Program A H T V Unit)
      fun _ => kept.and (emptyHanded thread) := by
  refine Triple.bind
    (Triple.read fun _ _ known => known :
      Triple (protocol capacity) thread
        ((kept.and (carries thread node)).and
        (retiring thread node)) _
        fun _ =>
          (kept.and (carries thread node)).and
            (retiring thread node)) fun head => ?_
  refine Triple.loop
    (fun head => ?_ : ∀ _ : Option A, Triple (protocol capacity) thread
      ((kept.and (carries thread node)).and
        (retiring thread node)) _ _)
  refine Triple.bind (storeRetireLink_retiring unretired head) fun _ => ?_
  refine Triple.bind (pushRetired_triple unretired head) fun outcome => ?_
  cases pushed : outcome.1 with
  | true =>
      exact Triple.ret fun _ _ known => known
  | false =>
      exact Triple.ret fun _ _ known => known

end Retire

section Insert

variable [DecidableEq A] {handle : H} {session : Nat}

/-- The calls and the phase of a thread that works under a handle. -/
def working
    (thread : T)
    (handle : H)
    (session : Nat)
    (erasing unreported : Bool) :
    Fact A H V capacity thread :=
  (inCall thread handle session).and (phase thread erasing unreported)

/-- A thread that works under a handle and has no node in its hands. -/
def searching
    (thread : T)
    (handle : H)
    (session : Nat)
    (erasing unreported : Bool) :
    Fact A H V capacity thread :=
  (working thread handle session erasing unreported).and
    (emptyHanded thread)

/-- A thread that works under a handle and has this node in its hands. -/
def laden
    (thread : T)
    (handle : H)
    (session : Nat)
    (erasing unreported : Bool)
    (node : A) :
    Fact A H V capacity thread :=
  ((working thread handle session erasing unreported).and
    (progress thread none none)).and (carries thread node)

variable {erasing unreported : Bool}

omit [DecidableEq A] in
/-- A pop loop reads the top of the free list. -/
theorem seeTop_step
    {state : State A H T V}
    {ghost : Ghost A T}
    (inv : Invariant capacity (state, ghost))
    (known :
      (searching thread handle session erasing unreported :
        Fact A H V capacity thread).holds (state, ghost))
    (idle : ghost.ring.token (.inr thread) = none) :
    ∃ later,
      Invariant capacity (state.seeTop thread, later) ∧
        Guarantee thread (state, ghost) (state.seeTop thread, later) ∧
        ((searching thread handle session erasing unreported).and
          (progress thread none state.freeHead) :
          Fact A H V capacity thread).holds
            (state.seeTop thread, later) := by
  obtain ⟨generation, under⟩ := inv.under known.1.1
  have keeps := seeTop_keeps inv under
  exact ⟨ghost, keeps.1, keeps.2, known, idle, by simp [State.seeTop]⟩

/-- The swap of the pop loop takes the node off the free list. -/
theorem popFree_triple
    {top : A}
    {below : Option A} :
    Triple (protocol capacity) thread
      ((searching thread handle session erasing unreported).and
        (peekedLink thread top below))
      (popFree thread top below : Program A H T V (Bool × Option A))
      fun outcome =>
        if outcome.1 then
          (laden thread handle session erasing unreported top).and
            (owns thread top true none)
        else
          (searching thread handle session erasing unreported).and
            (progress thread none outcome.2) := by
  apply Triple.atomic
  rintro ⟨state, ghost⟩ choice value shared inv
    ⟨inside, ⟨idle, seen⟩, link⟩ ran
  have swaps :
      (if state.freeHead = some top then
        some ((true, some top),
          { state with
            freeHead := below
            life := Function.update state.life top (state.life top + 1)
            topRead := Function.update state.topRead thread none })
      else
        some ((false, state.freeHead), state.seeTop thread)) =
        some (value, shared) →
      ∃ later,
        Invariant capacity (shared, later) ∧
          Guarantee thread (state, ghost) (shared, later) ∧
          (if value.1 then
            (laden thread handle session erasing unreported top).and
              (owns thread top true none)
          else
            (searching thread handle session erasing unreported).and
              (progress thread none value.2) :
            Fact A H V capacity thread).holds (shared, later) := by
    intro ran
    split at ran
    · rename_i current
      cases ran
      -- The node is on the free list now, so its link was read correctly.
      have free : ghost.stage top = .listed .free := inv.top_stage current
      have ok := inv.nodes top
      simp only [NodeOk, free] at ok
      have keeps := pop_keeps thread inv ⟨handle, inside.1.1.1⟩ seen
        current
      rw [link free] at keeps
      exact ⟨_, keeps.1, keeps.2,
        ⟨⟨inside.1, idle, by simp⟩, owner_taken
          (fun other owner => (inside.2 other owner).elim) _⟩, by simp,
        ok.2.1⟩
    · cases ran
      exact seeTop_step inv inside idle
  cases choice with
  | spurious =>
      cases ran
      exact seeTop_step inv inside idle
  | _ =>
      exact swaps ran

/-- The pop loop ends with a free node or with an empty free list. -/
theorem popLoop_triple :
    Triple (protocol capacity) thread
      ((searching thread handle session erasing unreported).and
        (progress thread none none))
      (popLoop thread : Program A H T V (Option A))
      fun result =>
        match result with
        | none =>
            (searching thread handle session erasing unreported).and
              (progress thread none none)
        | some node =>
            (laden thread handle session erasing unreported node).and
              (owns thread node true none) := by
  have first :
      Triple (protocol capacity) thread
        ((searching thread handle session erasing unreported).and
          (progress thread none none))
        (Prog.atomic fun state _ =>
          some (state.freeHead, state.seeTop thread) :
          Program A H T V (Option A))
        fun head =>
          (searching thread handle session erasing unreported).and
            (progress thread none head) := by
    apply Triple.atomic
    rintro ⟨state, ghost⟩ choice value shared inv known ran
    cases ran
    exact seeTop_step inv known.1 known.2.1
  refine Triple.bind first fun head => ?_
  refine Triple.loop
    (fun head => ?_ : ∀ head : Option A, Triple (protocol capacity) thread
      ((searching thread handle session erasing unreported).and
        (progress thread none head)) _ _)
  cases head with
  | none =>
      exact Triple.ret fun _ _ known => known
  | some top =>
      have peek :
          Triple (protocol capacity) thread
            ((searching thread handle session erasing unreported).and
              (progress thread none (some top)))
            (Prog.read fun state => state.retireLink top :
              Program A H T V (Option A))
            fun below =>
              (searching thread handle session erasing unreported).and
                (peekedLink thread top below) :=
        Triple.read fun _ _ known => ⟨known.1, known.2, fun _ => rfl⟩
      refine Triple.bind peek fun below => ?_
      refine Triple.bind popFree_triple fun outcome => ?_
      cases popped : outcome.1 with
      | true =>
          exact Triple.ret fun _ _ known => known
      | false =>
          exact Triple.ret fun _ _ known => known

/-- `new Node` gives an unused address to the thread, or throws. -/
theorem newNode_triple :
    Triple (protocol capacity) thread
      ((searching thread handle session erasing unreported).and
        (progress thread none none))
      (newNode : Program A H T V (Option A))
      fun result =>
        match result with
        | none =>
            (searching thread handle session erasing unreported).and
              (progress thread none none)
        | some node =>
            (laden thread handle session erasing unreported node).and
              (owns thread node false none) := by
  apply Triple.atomic
  rintro ⟨state, ghost⟩ choice value shared inv known ran
  cases choice with
  | fresh node =>
      simp only at ran
      split at ran
      · cases ran
      · rename_i unused
        cases ran
        have unused : state.allocated node = false := by simpa using unused
        have keeps := new_keeps thread inv
          ⟨handle, known.1.1.1.1⟩ unused
        refine ⟨_, keeps.1, keeps.2,
          ⟨⟨known.1.1, known.2⟩, owner_taken
            (fun other owner => (known.1.2 other owner).elim) _⟩, by simp,
          ?_⟩
        have ok := inv.nodes node
        cases stage : ghost.stage node with
        | listed label =>
            cases label <;> simp [NodeOk, stage, unused] at ok
        | absent =>
            simp only [NodeOk, stage] at ok
            exact ok.2.1
        | _ =>
            simp [NodeOk, stage, unused] at ok
  | badAlloc =>
      cases ran
      exact ⟨ghost, inv, (protocol capacity).guar_refl thread _, known⟩
  | _ =>
      cases ran

/-- `alloc_node()` gives raw storage to the thread, or throws. -/
theorem allocNode_triple :
    Triple (protocol capacity) thread
      ((searching thread handle session erasing unreported).and
        (progress thread none none))
      (allocNode thread : Program A H T V (Option (A × Bool)))
      fun result =>
        match result with
        | none =>
            (searching thread handle session erasing unreported).and
              (progress thread none none)
        | some (node, popped) =>
            (laden thread handle session erasing unreported node).and
              (owns thread node popped none) := by
  refine Triple.bind popLoop_triple fun popped => ?_
  cases popped with
  | some node =>
      exact Triple.pure fun _ _ known => known
  | none =>
      refine Triple.bind newNode_triple
        fun fresh => ?_
      cases fresh with
      | none =>
          exact Triple.pure fun _ _ known => known
      | some node =>
          exact Triple.pure fun _ _ known => known

/-- A thread that works under a handle and is not in its pop loop. -/
def underway
    (thread : T)
    (handle : H)
    (session : Nat)
    (erasing unreported : Bool) :
    Fact A H V capacity thread :=
  (searching thread handle session erasing unreported).and
    (progress thread none none)

/-- The fact survives that a session reaches more nodes. -/
def Unreached (kept : Fact A H V capacity thread) : Prop :=
  ∀ {state ghost session cell},
    kept.holds (state, ghost) →
    kept.holds
      ({ state with reached := (session, cell) :: state.reached }, ghost)

omit [DecidableEq A] in
/-- Loading a word under a session reaches what it leads to. -/
theorem load_step
    {kept : Fact A H V capacity thread}
    (unreached : Unreached kept)
    {state : State A H T V}
    {ghost : Ghost A T}
    {cell : Cell Unit A}
    (inv : Invariant capacity (state, ghost))
    (known :
      ((kept.and (inCall thread handle session)).and
        (knows thread session cell)).holds (state, ghost)) :
    Invariant capacity
        (state.reach session (state.next cell).ptr, ghost) ∧
      Guarantee thread (state, ghost)
        (state.reach session (state.next cell).ptr, ghost) ∧
      (((kept.and (inCall thread handle session)).and
          (knows thread session cell)).and
        (knowsNext thread session (state.next cell))).holds
          (state.reach session (state.next cell).ptr, ghost) := by
  obtain ⟨⟨keep, use, block, live⟩, reached⟩ := known
  have keeps := reach_keeps thread inv live (inv.unchanging use)
    (state.next cell).ptr fun leads verified =>
      inv.visible_next reached leads verified
  refine ⟨keeps.1, keeps.2, ?_⟩
  cases target : (state.next cell).ptr with
  | none =>
      refine ⟨⟨⟨keep, use, block, live⟩, reached⟩, ?_⟩
      rintro ⟨node, leads⟩
      exact absurd (target.symm.trans leads) (by simp)
  | some next =>
      refine ⟨⟨⟨unreached keep, use, block, live⟩, ?_⟩, ?_⟩
      · exact List.mem_cons_of_mem _ reached
      · rintro ⟨node, leads⟩
        rw [target] at leads
        cases leads
        exact List.mem_cons_self

variable (handle) in
omit [DecidableEq A] in
/-- `next.load()` of a cell that the session has reached. -/
theorem loadNext_triple
    {kept : Fact A H V capacity thread}
    (unreached : Unreached kept)
    {cell : Cell Unit A} :
    Triple (protocol capacity) thread
      ((kept.and (inCall thread handle session)).and
        (knows thread session cell))
      (loadNext session cell : Program A H T V (MarkedPtr A))
      fun word =>
        (((kept.and (inCall thread handle session)).and
          (knows thread session cell)).and
          (knowsNext thread session word)).and
          (.all fun here : { node // cell = .node node } =>
            final thread session here.1 word) := by
  apply Triple.atomic
  rintro ⟨state, ghost⟩ choice value shared inv known ran
  cases ran
  have step := load_step unreached inv known
  refine ⟨ghost, step.1, step.2.1, step.2.2, ?_⟩
  rintro ⟨node, rfl⟩
  refine ⟨step.2.2.1.2, fun _ _ => ?_⟩
  cases (state.next (.node node)).ptr <;> rfl

variable (handle) in
omit [DecidableEq A] in
/-- `next.load()` of an anchor, with the life of the target. -/
theorem loadTarget_triple
    {kept : Fact A H V capacity thread}
    (unreached : Unreached kept)
    {cell : Cell Unit A} :
    Triple (protocol capacity) thread
      ((kept.and (inCall thread handle session)).and
        (knows thread session cell))
      (loadTarget session cell : Program A H T V (MarkedPtr A × Nat))
      fun target =>
        ((kept.and (inCall thread handle session)).and
          (knows thread session cell)).and
          (.all fun here : { node // target.1.ptr = some node } =>
            lived thread session here.1 target.2) := by
  apply Triple.atomic
  rintro ⟨state, ghost⟩ choice value shared inv known ran
  cases ran
  have step := load_step unreached inv known
  refine ⟨ghost, step.1, step.2.1, step.2.2.1, ?_⟩
  rintro ⟨node, leads⟩
  have leads : (state.next cell).ptr = some node := leads
  refine ⟨step.2.2.2 ⟨node, leads⟩, fun _ => ?_⟩
  simp [leads, State.reach]

variable {node : A} {popped : Bool} {value : V}

/-- The owner constructs a value. -/
theorem construct_triple :
    Triple (protocol capacity) thread
      ((laden thread handle session erasing unreported node).and
        (owns thread node popped none))
      (construct node value : Program A H T V Unit)
      fun _ =>
        (laden thread handle session erasing unreported node).and
          (owns thread node popped (some value)) := by
  apply Triple.atomic
  rintro ⟨state, ghost⟩ choice result shared inv
    ⟨inside, owned, raw⟩ ran
  cases ran
  have keeps := construct_keeps inv owned raw value
  exact ⟨ghost, keeps.1, keeps.2, inside, owned, by simp⟩

/-- The owner writes the link of its node. -/
theorem storeNext_owned
    (kept : Fact A H V capacity thread)
    (unwritten :
      ∀ {state ghost next},
        kept.holds (state, ghost) →
        kept.holds ({ state with next := next }, ghost))
    (word : MarkedPtr A) :
    Triple (protocol capacity) thread
      (kept.and (owns thread node popped (some value)))
      (storeNext node word : Program A H T V Unit)
      fun _ =>
        kept.and (prepared thread node popped (some value) word) := by
  apply Triple.atomic
  rintro ⟨state, ghost⟩ choice result shared inv
    ⟨keep, owned, constructed⟩ ran
  cases ran
  have keeps := storeNext_keeps inv owned word
  exact ⟨ghost, keeps.1, keeps.2, unwritten keep,
    ⟨owned, constructed⟩, by simp⟩

/-- The swap of the insert loop. -/
theorem linkNode_triple
    {anchor : Cell Unit A}
    {word : MarkedPtr A}
    (unmarked : word.mark = false) :
    Triple (protocol capacity) thread
      (((laden thread handle session erasing unreported node).and
        (knows thread session anchor)).and
        (prepared thread node popped (some value) word))
      (linkNode session anchor word node : Program A H T V Bool)
      fun linked =>
        if linked then
          (underway thread handle session erasing unreported).and
            (knows thread session (.node node))
        else
          ((laden thread handle session erasing unreported node).and
            (knows thread session anchor)).and
            (owns thread node popped (some value)) := by
  apply Triple.atomic
  rintro ⟨state, ghost⟩ choice result shared inv
    ⟨⟨inside, reached⟩, ⟨owned, constructed⟩, written⟩ ran
  simp only at ran
  split at ran
  · rename_i current
    cases ran
    obtain ⟨use, block, live⟩ := inside.1.1.1
    obtain ⟨after, guarantee⟩ := link_keeps inv owned
      (by rw [constructed]; simp) (inv.present live reached)
      (by rw [current]; exact unmarked) (written.trans current.symm)
    have reachedNow := reach_keeps thread after live
      (inv.unchanging use) (some node) fun same _ => by
        cases same
        exact .inl (by simp [chainOf, MarkedChain.forest])
    exact ⟨_, reachedNow.1,
      guarantee.reach rfl live (inv.unchanging use) (.node node),
      ⟨⟨inside.1.1, owner_left inside.2 rfl⟩, inside.1.2⟩,
      List.mem_cons_self⟩
  · cases ran
    exact ⟨ghost, inv, (protocol capacity).guar_refl thread _,
      ⟨inside, reached⟩, owned, constructed⟩

/-- The insert loop links the node or finds the anchor deleted. -/
theorem linkLoop_triple
    {anchor : Cell Unit A} :
    Triple (protocol capacity) thread
      (((laden thread handle session erasing unreported node).and
        (knows thread session anchor)).and
        (owns thread node popped (some value)))
      (linkLoop session anchor node : Program A H T V Bool)
      fun linked =>
        if linked then
          (underway thread handle session erasing unreported).and
            (knows thread session (.node node))
        else
          (laden thread handle session erasing unreported node).and
            (owns thread node popped (some value)) := by
  refine Triple.loop
    (fun _ => ?_ : ∀ _ : Unit, Triple (protocol capacity) thread
      (((laden thread handle session erasing unreported node).and
        (knows thread session anchor)).and
        (owns thread node popped (some value))) _ _)
  refine Triple.bind
    ((loadNext_triple handle
        (fun known => known :
          Unreached
            ((laden thread handle session erasing unreported node).and
              (owns thread node popped (some value))))).weaken
      fun _ _ known => ⟨⟨⟨known.1.1, known.2⟩, known.1.1.1.1.1⟩, known.1.2⟩)
    fun word => ?_
  split
  · exact Triple.ret fun _ _ known => known.1.1.1.1
  · rename_i unmarked
    have clear : word.mark = false := by simpa using unmarked
    refine Triple.bind
      ((storeNext_owned
          ((laden thread handle session erasing unreported node).and
            (knows thread session anchor))
          (fun known => known) word).weaken
        fun _ _ known => ⟨⟨known.1.1.1.1.1, known.1.1.2⟩,
          known.1.1.1.1.2⟩) fun _ => ?_
    refine Triple.bind (linkNode_triple clear) fun linked => ?_
    cases linked with
    | true =>
        exact Triple.ret fun _ _ known => known
    | false =>
        exact Triple.ret fun _ _ known => known

/-- `dispose_unlinked()` retires a reused node that was not linked. -/
theorem disposeUnlinked_triple :
    Triple (protocol capacity) thread
      ((laden thread handle session erasing unreported node).and
        (owns thread node true (some value)))
      (disposeUnlinked node : Program A H T V Unit)
      fun _ => underway thread handle session erasing unreported := by
  have write :
      Triple (protocol capacity) thread
        ((laden thread handle session erasing unreported node).and
          (owns thread node true (some value)))
        (storeNext node ⟨none, true⟩ : Program A H T V Unit)
        fun _ =>
          (laden thread handle session erasing unreported node).and
            (retiring thread node) := by
    apply Triple.atomic
    rintro ⟨state, ghost⟩ choice result shared inv
      ⟨inside, owned, constructed⟩ ran
    cases ran
    have keeps := dispose_keeps inv owned (by rw [constructed]; simp)
    exact ⟨_, keeps.1, keeps.2, ⟨inside.1, owner_taken inside.2 _⟩,
      by simp [retiring]⟩
  refine Triple.bind write fun _ => ?_
  exact (retire_triple fun known => known).consequence
    fun _ _ _ known => ⟨⟨known.1.1, known.2⟩, known.1.2⟩

/-- The owner destroys the value of a node that was not linked. -/
theorem destroyOwned_triple :
    Triple (protocol capacity) thread
      ((laden thread handle session erasing unreported node).and
        (owns thread node popped (some value)))
      (Prog.write fun state => state.destroyValue node :
        Program A H T V Unit)
      fun _ =>
        (laden thread handle session erasing unreported node).and
          (owns thread node popped none) := by
  apply Triple.atomic
  rintro ⟨state, ghost⟩ choice result shared inv
    ⟨inside, owned, constructed⟩ ran
  cases ran
  have keeps := destroyOwned_keeps inv owned (by rw [constructed]; simp)
  exact ⟨ghost, keeps.1, keeps.2, inside, owned,
    by simp [State.destroyValue]⟩

/-- The owner deletes a new node that was not linked. -/
theorem deleteNode_triple :
    Triple (protocol capacity) thread
      ((laden thread handle session erasing unreported node).and
        (owns thread node false none))
      (deleteNode node : Program A H T V Unit)
      fun _ => underway thread handle session erasing unreported := by
  apply Triple.atomic
  rintro ⟨state, ghost⟩ choice result shared inv
    ⟨inside, owned, raw⟩ ran
  cases ran
  have keeps := delete_keeps inv owned raw
  exact ⟨_, keeps.1, keeps.2,
    ⟨inside.1.1, owner_left inside.2 rfl⟩, inside.1.2⟩

/-- What a call of `insert_after` has reached when it returns. -/
def insertedNode
    (thread : T)
    (session : Nat) :
    Option (Bool × Option A) → Fact A H V capacity thread
  | some (true, some node) => knows thread session (.node node)
  | _ => .pure True

/-- `init_node()` links a new node, or leaves nothing behind. -/
theorem initNode_triple
    {anchor : Option (Cell Unit A)} :
    Triple (protocol capacity) thread
      ((underway thread handle session erasing unreported).and
        (.all fun cell : { cell // cell ∈ anchor } =>
          knows thread session cell.1))
      (initNode thread session anchor value :
        Program A H T V (Option (Bool × Option A)))
      fun result =>
        (underway thread handle session erasing unreported).and
          (insertedNode thread session result) := by
  cases anchor with
  | none =>
      exact Triple.pure fun _ _ known => ⟨known.1, trivial⟩
  | some anchor =>
      have knowsAnchor :
          (knows thread session anchor :
            Fact A H V capacity thread).Durable :=
        Assertion.lasting_durable
      refine Triple.bind
        ((allocNode_triple.frame knowsAnchor).weaken
          fun _ _ known => ⟨known.1, known.2 ⟨anchor, rfl⟩⟩)
        fun allocated => ?_
      rcases allocated with _ | ⟨node, popped⟩
      · exact Triple.pure fun _ _ known => ⟨known.1, trivial⟩
      refine Triple.bind
        (construct_triple.frame knowsAnchor) fun _ => ?_
      refine Triple.bind
        (linkLoop_triple.weaken fun _ _ known =>
          ⟨⟨known.1.1, known.2⟩, known.1.2⟩) fun linked => ?_
      cases linked with
      | true =>
          exact Triple.pure fun _ _ known => known
      | false =>
          cases popped with
          | true =>
              refine Triple.bind disposeUnlinked_triple fun _ => ?_
              exact Triple.pure fun _ _ known => ⟨known, trivial⟩
          | false =>
              refine Triple.bind destroyOwned_triple fun _ => ?_
              refine Triple.bind deleteNode_triple fun _ => ?_
              exact Triple.pure fun _ _ known => ⟨known, trivial⟩

end Insert

section Erase

variable [DecidableEq A] {handle : H} {session : Nat} {node : A}

/-- The swap of the marking race. -/
theorem markNode_triple
    {word : MarkedPtr A}
    (unmarked : word.mark = false) :
    Triple (protocol capacity) thread
      ((underway thread handle session true false).and
        (knows thread session (.node node)))
      (markNode thread session node word :
        Program A H T V (Bool × MarkedPtr A))
      fun outcome =>
        ((underway thread handle session true outcome.1).and
          (knows thread session (.node node))).and
          ((final thread session node outcome.2).and
            (.pure (outcome.1 = true → outcome.2.mark = true))) := by
  apply Triple.atomic
  rintro ⟨state, ghost⟩ choice result shared inv ⟨inside, reached⟩ ran
  obtain ⟨⟨⟨within, busy, reported⟩, empty⟩, steady⟩ := inside
  obtain ⟨use, block, live⟩ := within
  have placed := inv.placed live reached
  simp only at ran
  split at ran
  · rename_i current
    cases ran
    have keeps := mark_keeps inv placed
      (by rw [current]; exact unmarked) busy (by simpa using reported)
    rw [current] at keeps
    exact ⟨_, keeps.1, keeps.2,
      ⟨⟨⟨⟨⟨use, block, live⟩, busy, by simp⟩, empty⟩, steady⟩, reached⟩,
      ⟨reached, fun _ _ => by simp⟩, fun _ => rfl⟩
  · cases ran
    have step := load_step
      (fun known => known :
        Unreached
          ((underway thread handle session true false :
            Fact A H V capacity thread))) inv
      ⟨⟨⟨⟨⟨⟨use, block, live⟩, busy, reported⟩, empty⟩, steady⟩,
        use, block, live⟩, reached⟩
    refine ⟨ghost, step.1, step.2.1,
      ⟨step.2.2.1.1.1, step.2.2.1.2⟩,
      ⟨step.2.2.1.2, fun _ _ => ?_⟩, by simp⟩
    cases (state.next (.node node)).ptr <;> rfl

/-- The marking race ends with the target's final word. -/
theorem markTarget_triple
    (loaded : MarkedPtr A) :
    Triple (protocol capacity) thread
      (((underway thread handle session true false).and
        (knows thread session (.node node))).and
        (final thread session node loaded))
      (markTarget thread session node loaded :
        Program A H T V (MarkedPtr A × Bool))
      fun race =>
        (underway thread handle session true race.2).and
          ((final thread session node race.1).and
            (.pure (race.1.mark = true))) := by
  refine Triple.loop
    (fun word => ?_ : ∀ word : MarkedPtr A,
      Triple (protocol capacity) thread
        (((underway thread handle session true false).and
          (knows thread session (.node node))).and
          (final thread session node word)) _ _)
  split
  · rename_i mark
    exact Triple.ret fun _ _ known => ⟨known.1.1, known.2, mark⟩
  · rename_i unmarked
    have clear : word.mark = false := by simpa using unmarked
    refine Triple.bind
      ((markNode_triple clear).weaken fun _ _ known => known.1)
      fun outcome => ?_
    cases swapped : outcome.1 with
    | true =>
        exact Triple.ret fun _ _ known =>
          ⟨known.1.1, known.2.1, known.2.2 rfl⟩
    | false =>
        exact Triple.ret fun _ _ known => ⟨known.1, known.2.1⟩

/-- The swap that unlinks a marked target in the life it was loaded in. -/
theorem unlinkNode_triple
    {anchor : Cell Unit A}
    {life : Nat}
    {word : MarkedPtr A}
    {won : Bool} :
    Triple (protocol capacity) thread
      (((underway thread handle session true won).and
        ((final thread session node word).and
          (.pure (word.mark = true)))).and
        ((knows thread session anchor).and
          (lived thread session node life)))
      (unlinkNode anchor node life word.clearMark :
        Program A H T V Bool)
      fun unlinked =>
        if unlinked then
          ((((working thread handle session true won).and
              (progress thread none none)).and
            (knows thread session anchor)).and (carries thread node)).and
            (retiring thread node)
        else
          (underway thread handle session true won).and
            (knows thread session anchor) := by
  apply Triple.atomic
  rintro ⟨state, ghost⟩ choice result shared inv
    ⟨⟨inside, ⟨_, last⟩, mark⟩, reached, _, lives⟩ ran
  obtain ⟨use, block, live⟩ := inside.1.1.1
  have lasts := inv.lasts live
  have last : state.next (.node node) = word := last lasts mark
  have lives : state.life node = life := lives lasts
  simp only at ran
  split at ran
  · rename_i current
    cases ran
    have unlinkable :
        (chainOf (state, ghost)).Unlinkable anchor node :=
      ⟨inv.present live reached, current,
        by rw [show (chainOf (state, ghost)).next (.node node) = word
            from last]; exact mark⟩
    have keeps := unlink_keeps thread inv ⟨handle, use⟩ unlinkable
    rw [last, lives] at keeps
    rw [lives]
    exact ⟨_, keeps.1, keeps.2,
      ⟨⟨⟨inside.1.1, inside.2⟩, reached⟩, owner_taken
        (fun other owner => (inside.1.2 other owner).elim) _⟩,
      by simp [retiring]⟩
  · cases ran
    exact ⟨ghost, inv, (protocol capacity).guar_refl thread _,
      inside, reached⟩

/-- `erase_after()` reports exactly the mark that it set. -/
theorem eraseAfter_triple
    {anchor : Option (Cell Unit A)} :
    Triple (protocol capacity) thread
      ((underway thread handle session true false).and
        (.all fun cell : { cell // cell ∈ anchor } =>
          knows thread session cell.1))
      (eraseAfter thread session anchor : Program A H T V Bool)
      fun result => underway thread handle session true result := by
  cases anchor with
  | none =>
      exact Triple.pure fun _ _ known => known.1
  | some anchor =>
      refine Triple.weaken (Triple.loop
        (fun _ => ?_ : ∀ _ : Unit, Triple (protocol capacity) thread
          ((underway thread handle session true false).and
            (knows thread session anchor)) _ _))
        fun _ _ known => ⟨known.1, known.2 ⟨anchor, rfl⟩⟩
      refine Triple.bind
        ((loadTarget_triple handle
            (fun known => known :
              Unreached
                (underway thread handle session true false :
                  Fact A H V capacity thread))).weaken
          fun _ _ known => ⟨⟨known.1, known.1.1.1.1⟩, known.2⟩)
        fun target => ?_
      obtain ⟨word, life⟩ := target
      split
      · rename_i node shape
        have shape : word = ⟨some node, false⟩ := shape
        subst shape
        have keeps :
            ((knows thread session anchor).and
              (lived thread session node life) :
              Fact A H V capacity thread).Durable :=
          Assertion.Durable.and Assertion.lasting_durable
            Assertion.lasting_durable
        refine Triple.bind
          (((loadNext_triple handle
              (fun known => known :
                Unreached
                  (underway thread handle session true false :
                    Fact A H V capacity thread))).frame keeps).weaken
            fun _ _ known => ?_) fun loaded => ?_
        · have lives := known.2 ⟨node, rfl⟩
          exact ⟨⟨known.1.1, lives.1⟩, known.1.2, lives⟩
        refine Triple.bind
          (((markTarget_triple loaded).frame keeps).weaken
            fun _ _ known =>
              ⟨⟨⟨known.1.1.1.1.1, known.1.1.1.2⟩,
                known.1.2 ⟨node, rfl⟩⟩, known.2⟩) fun race => ?_
        have ends :
            Triple (protocol capacity) thread
              ((underway thread handle session true race.2).and
                (knows thread session anchor))
              (if race.2 = true then Prog.leave true else Prog.again () :
                Program A H T V (Unit ⊕ Bool))
              (.turn
                (fun _ =>
                  (underway thread handle session true false).and
                    (knows thread session anchor))
                fun result =>
                  underway thread handle session true result) := by
          cases won : race.2 with
          | true =>
              exact Triple.ret fun _ _ known => known.1
          | false =>
              exact Triple.ret fun _ _ known => known
        refine Triple.bind unlinkNode_triple fun unlinked => ?_
        cases unlinked with
        | true =>
            refine Triple.bind (retire_triple fun known => known)
              fun _ => ends.weaken fun _ _ known => ?_
            obtain ⟨⟨⟨works, rests⟩, anchored⟩, empty⟩ := known
            exact ⟨⟨⟨works, empty⟩, rests⟩, anchored⟩
        | false =>
            exact ends
      · exact Triple.ret fun _ _ known => known.1.1.1

end Erase

end ConcurrentCpp.LockFreeListRCU
