import ConcurrentCpp.ListView
import ConcurrentCpp.LockFreeListThreads

namespace ConcurrentCpp.LockFreeList

/-!
# Runs of the reference-counted list

The protocol holds initially and every client keeps it, so it holds along
every run.  What a marked list promises its clients follows from it.
-/

variable {A T : Type} [DecidableEq A] [DecidableEq T]

/-- What clients can see of the list; a node has one life. -/
def view (state : State A T) : ListView A A T where
  next := state.next
  identity := id
  events := state.events

/-- No node is linked or owned. -/
def Ghost.initial : Ghost A T where
  place _ := .off
  owner _ := none
  erasing _ := false
  unreported := ∅

omit [DecidableEq A] in
/-- The empty list satisfies the invariant. -/
theorem initial_inv :
    Invariant (State.initial, (Ghost.initial : Ghost A T)) where
  sound :=
    { wellFormed :=
        { chain := fun _ => ⟨[], rfl, List.nodup_nil, fun node => by
            simp [chainOf, MarkedChain.forest, Ghost.initial]⟩
          cutStamp := fun cut => by cases cut
          cutNext := fun cut => by cases cut
          cutEnds := fun cut => by cases cut }
      rootUnmarked := rfl
      cutMarked := fun cut => by cases cut }
  noDuplicates := List.nodup_nil
  created placed := absurd rfl placed
  owned known := by cases known
  offUnmarked _ member := by cases member
  iterators member := by cases member
  inserted member := by cases member
  ledger := Ledger.empty
  marks node := by simp [State.initial, markedNodes, marksOf]

/-- Every run of clients keeps the protocol. -/
theorem covered
    (fuel : Nat) :
    Covered protocol fuel (initialPool : Pool (State A T) (Choice A) T)
      Ghost.initial :=
  covered_of_triples initial_inv
    (fun thread =>
      show (idle thread []).holds _ from
        ⟨⟨(fun _ member => nomatch member), rfl,
          by simp [Ghost.initial]⟩, List.nodup_nil⟩)
    (fun _ => client_triple) fuel

variable {world after last : State A T × Ghost A T}

omit [DecidableEq A] in
/-- Along a run two nodes keep their order until one of them is marked. -/
theorem ordered_of_evolves
    (evolves : Evolves protocol world after)
    {first second : A}
    (ordered : (chainOf world).Ordered first second)
    (firstClear : (after.1.next (.node first)).mark = false)
    (secondClear : (after.1.next (.node second)).mark = false) :
    (chainOf after).Ordered first second := by
  have inOrder := evolves.keeps
    (fun now => (chainOf now).InOrder 0 first second) (.inl ordered)
    fun inv invAfter guarantee known =>
      known.step inv.sound invAfter.sound guarantee.chain
        (Nat.le_refl _) (Nat.le_refl _)
  exact inOrder.ordered firstClear secondClear

omit [DecidableEq A] [DecidableEq T] in
/-- An iterator that moves on comes to the successor of its word. -/
theorem increment_finishes
    (position : Cell Unit A)
    (state : State A T) :
    Finishes (fun _ => True)
      (fun moved after =>
        moved = ((view state).next position).ptr ∧ view after = view state)
      (increment position : Program A T (Option A)) state := by
  cases target : (state.next position).ptr with
  | none =>
      refine Finishes.atomic ⟨.proceed, trivial, by simp [target]⟩ ?_
      intro choice value after _ ran
      simp only [target, Option.some.injEq] at ran
      cases ran
      exact ⟨target.symm, rfl⟩
  | some node =>
      refine Finishes.atomic ⟨.proceed, trivial, by simp [target]⟩ ?_
      intro choice value after _ ran
      simp only [target, Option.some.injEq] at ran
      cases ran
      exact ⟨target.symm, rfl⟩

omit [DecidableEq A] in
/-- What an iterator parked on a node finds later. -/
theorem traversal_of_evolves
    (inv : Invariant world)
    (invAfter : Invariant after)
    (evolves : Evolves protocol world after)
    {parked : A}
    (kept : (.node parked : Cell Unit A) ∈ world.1.iterators) :
    (view world.1).KeepsReach (view after.1) parked ∧
      ∃ visited,
        (view world.1).Traversal (view after.1) parked visited := by
  have seen : ∀ {now : State A T × Ghost A T},
      now.2.place parked ≠ .off →
      (chainOf now).forest.Visible () 0 parked := by
    intro now placed
    cases place : now.2.place parked with
    | off =>
        exact (placed place).elim
    | linked root =>
        exact .inl place
    | cut root stamp =>
        exact .inr ⟨stamp, Nat.zero_le _, place⟩
  have placed : world.2.place parked ≠ .off :=
    inv.iterators kept parked rfl
  have placedAfter : after.2.place parked ≠ .off :=
    evolves.keeps (fun now => now.2.place parked ≠ .off) placed
      fun _ _ guarantee known => stays_present guarantee.chain known
  have finds : ∀ {node},
      (view world.1).Stays (view after.1) parked node →
      (chainOf after).place node = .linked () ∧
        LeadsTo (chainOf after).forest.links parked node := by
    rintro node ⟨unmarked, leads, still⟩
    have found := evolves.keeps
      (fun now => (chainOf now).Finds 0 parked node)
      (MarkedChain.finds_of_leadsTo inv.sound (Nat.le_refl _)
        (seen placed) leads unmarked)
      fun _ invNext guarantee known =>
        known.step invNext.sound guarantee.chain (Nat.le_refl _)
          (Nat.le_refl _) (Nat.le_refl _)
    rcases found.2 with here | ⟨_, marked⟩
    · exact here
    · exact absurd (still.symm.trans marked) (by simp)
  obtain ⟨visited, walk⟩ :=
    invAfter.sound.wellFormed.visible_ends (Nat.le_refl _)
      (seen placedAfter)
  refine
    ⟨fun stays => (finds stays).2, visited,
      { path := walk
        stayed := fun stays => walk.mem_iff_leadsTo.mpr (finds stays).2
        order := ?_ }⟩
  intro first second nodes firstStays secondStays path ordered
  have now := ordered_of_evolves evolves
    (inv.sound.ordered_of_path path ordered) firstStays.2.2
    secondStays.2.2
  obtain ⟨later, laterChained⟩ := invAfter.sound.wellFormed.chain ()
  exact laterChained.path.sublist_of_shared laterChained.noDuplicates
    (now.2.2 later laterChained) walk
    (walk.mem_iff_leadsTo.mpr (finds firstStays).2)

section Sample

/-- Thread 0 makes a call and takes some steps of it. -/
def sampleCall
    (call : Call Nat)
    (steps : Nat) :
    List (Nat × Choice Nat) :=
  (0, .proceed) :: (0, .call call) :: List.replicate steps (0, .proceed)

/-- Thread 0 creates a node and inserts it behind the head. -/
def insertFirst
    (node : Nat) :
    List (Nat × Choice Nat) :=
  (0, .proceed) :: (0, .call .makeNode) :: (0, .fresh node) ::
    sampleCall (.insertAfter (some (.root ())) node) 5

/-- Thread 0 makes a list of nodes 7, 8 and 9. -/
def insertThree : List (Nat × Choice Nat) :=
  sampleCall .beforeBegin 1 ++ insertFirst 9 ++ insertFirst 8 ++
    insertFirst 7

/-- Thread 0 moves an iterator onto the node behind the head. -/
def visitFirst : List (Nat × Choice Nat) :=
  sampleCall (.increment (.root ())) 1

/-- Thread 0 erases the node behind the head. -/
def eraseFirst : List (Nat × Choice Nat) :=
  sampleCall (.eraseAfter (some (.root ()))) 8

/-- Thread 1 marks the node behind the head and goes no further. -/
def strandFirst : List (Nat × Choice Nat) :=
  (1, .proceed) :: (1, .call (.eraseAfter (some (.root ())))) ::
    List.replicate 6 (1, .proceed)

end Sample

end ConcurrentCpp.LockFreeList
