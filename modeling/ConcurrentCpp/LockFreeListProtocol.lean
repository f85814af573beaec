import ConcurrentCpp.LockFreeList

namespace ConcurrentCpp.LockFreeList

/-!
# The protocol of the reference-counted list

The proof keeps, besides the shared words, the place of every node on or off
the chain, the thread that owns a node before it is inserted, and which
threads are inside `erase_after` or hold a mark they have not yet reported.
Every step of every thread then changes the chain in one of the ways of a
marked chain, so the chain stays sound.
-/

variable {A T : Type} [DecidableEq A] [DecidableEq T]

/-- What the proof keeps besides the shared words. -/
structure Ghost (A T : Type) where
  place : A → Place Unit
  owner : A → Option T
  erasing : T → Bool
  unreported : Finset T

/-- The marked chain of a world; no node is ever released. -/
def chainOf
    (world : State A T × Ghost A T) :
    MarkedChain A where
  next := world.1.next
  place := world.2.place
  now := 0
  floor := 0

/-- The nodes whose own word is marked. -/
def markedNodes (state : State A T) : List A :=
  state.nodes.filter fun node => (state.next (.node node)).mark

/-- What holds in every reachable world. -/
structure Invariant (world : State A T × Ghost A T) : Prop where
  sound : (chainOf world).Sound
  noDuplicates : world.1.nodes.Nodup
  created :
    ∀ {node}, world.2.place node ≠ .off → node ∈ world.1.nodes
  owned :
    ∀ {node thread},
      world.2.owner node = some thread →
      node ∈ world.1.nodes ∧ world.2.place node = .off
  offUnmarked :
    ∀ {node},
      world.2.place node = .off →
      node ∈ world.1.nodes →
      (world.1.next (.node node)).mark = false
  iterators :
    ∀ {cell}, cell ∈ world.1.iterators → (chainOf world).Present cell
  inserted :
    ∀ {thread node},
      ListEvent.inserted thread node true ∈ world.1.events →
      world.2.place node ≠ .off
  ledger :
    Ledger world.1.events world.2.erasing world.2.unreported
  marks :
    ∀ node,
      node ∈ marksOf world.1.events ↔ node ∈ markedNodes world.1

/-- What one step of a thread guarantees to the others. -/
structure Guarantee
    (thread : T)
    (world after : State A T × Ghost A T) : Prop where
  chain : (chainOf world).Advances (chainOf after)
  nodes : world.1.nodes ⊆ after.1.nodes
  iterators : world.1.iterators ⊆ after.1.iterators
  events : world.1.events <:+ after.1.events
  owner :
    ∀ {node other},
      other ≠ thread →
      world.2.owner node = some other →
      after.2.owner node = some other ∧
        after.1.next (.node node) = world.1.next (.node node)
  erasing :
    ∀ {other},
      other ≠ thread →
      after.2.erasing other = world.2.erasing other ∧
        (other ∈ after.2.unreported ↔ other ∈ world.2.unreported)

/-- The protocol of the list. -/
def protocol : Protocol (State A T) (Ghost A T) T where
  Inv := Invariant
  Guar := Guarantee
  guar_refl _ _ :=
    { chain := MarkedChain.Advances.refl _
      nodes := List.Subset.refl _
      iterators := List.Subset.refl _
      events := List.suffix_rfl
      owner := fun _ known => ⟨known, rfl⟩
      erasing := fun _ => ⟨rfl, Iff.rfl⟩ }

omit [DecidableEq A] [DecidableEq T] in
/-- A step that leaves words and ghost state alone. -/
theorem Guarantee.of_same
    {thread : T}
    {state after : State A T}
    {ghost : Ghost A T}
    (next : after.next = state.next)
    (nodes : state.nodes ⊆ after.nodes)
    (iterators : state.iterators ⊆ after.iterators)
    (events : state.events <:+ after.events) :
    Guarantee thread (state, ghost) (after, ghost) where
  chain := by
    have same :
        chainOf (after, ghost) = chainOf (state, ghost) := by
      simp [chainOf, next]
    rw [same]
    exact MarkedChain.Advances.refl _
  nodes := nodes
  iterators := iterators
  events := events
  owner _ known := ⟨known, by simp [next]⟩
  erasing _ := ⟨rfl, Iff.rfl⟩

omit [DecidableEq A] [DecidableEq T] in
/-- No node ever goes back to being off the chain. -/
theorem stays_present
    {world after : State A T × Ghost A T}
    (advances : (chainOf world).Advances (chainOf after))
    {node : A}
    (present : world.2.place node ≠ .off) :
    after.2.place node ≠ .off := by
  intro off
  cases place : world.2.place node with
  | off =>
      exact present place
  | linked chain =>
      rcases advances.forest.linked place with stays | cut
      · exact absurd (off.symm.trans stays) (by simp)
      · exact absurd (off.symm.trans cut) (by simp)
  | cut chain stamp =>
      rcases advances.forest.cut place with stays | ⟨_, below⟩
      · exact absurd (off.symm.trans stays) (by simp)
      · exact Nat.not_lt_zero _ below

section Assertions

variable (thread : T)

/-- The cell is the root or a node that has been linked. -/
def present
    (cell : Cell Unit A) :
    Assertion (protocol (A := A)) thread where
  holds world := (chainOf world).Present cell
  stable _ _ _ guarantee known node same :=
    stays_present guarantee.chain (known node same)

/-- The anchor of a call is null or present. -/
def anchorPresent
    (anchor : Iterator A) :
    Assertion (protocol (A := A)) thread :=
  Assertion.all fun cell : { cell // cell ∈ anchor } =>
    present thread cell.1

/-- The thread owns these nodes, none of which is on the chain. -/
def holding
    (spare : List A) :
    Assertion (protocol (A := A)) thread where
  holds world := ∀ node ∈ spare, world.2.owner node = some thread
  stable different _ _ guarantee known node member :=
    (guarantee.owner (Ne.symm different) (known node member)).1

/-- The thread owns the node and has stored this word in it. -/
def prepared
    (node : A)
    (word : MarkedPtr A) :
    Assertion (protocol (A := A)) thread where
  holds world :=
    world.2.owner node = some thread ∧
      world.1.next (.node node) = word
  stable different _ _ guarantee known := by
    have kept := guarantee.owner (Ne.symm different) known.1
    exact ⟨kept.1, kept.2.trans known.2⟩

/-- The node has been linked and this is its final, marked word. -/
def marked
    (node : A)
    (word : MarkedPtr A) :
    Assertion (protocol (A := A)) thread where
  holds world :=
    world.2.place node ≠ .off ∧
      world.1.next (.node node) = word ∧ word.mark = true
  stable _ _ _ guarantee known := by
    have stays := stays_present guarantee.chain known.1
    refine ⟨stays, ?_, known.2.2⟩
    rw [← known.2.1]
    refine guarantee.chain.frozen known.1 stays ?_
    simp only [chainOf, known.2.1]
    exact known.2.2

/-- Wherever a loaded word leads is present. -/
def reached
    (word : MarkedPtr A) :
    Assertion (protocol (A := A)) thread :=
  Assertion.all fun node : { node // word.ptr = some node } =>
    present thread (.node node.1)

/-- If the loaded word is marked, it is the node's last. -/
def final
    (node : A)
    (word : MarkedPtr A) :
    Assertion (protocol (A := A)) thread :=
  Assertion.all fun _ : word.mark = true => marked thread node word

/-- If the insertion succeeded, the node is present. -/
def insertedIf
    (result : Bool)
    (node : A) :
    Assertion (protocol (A := A)) thread :=
  Assertion.all fun _ : result = true => present thread (.node node)

/-- Whether the thread is inside `erase_after` and has a mark to report. -/
def phase
    (erasing unreported : Bool) :
    Assertion (protocol (A := A)) thread where
  holds world :=
    world.2.erasing thread = erasing ∧
      (thread ∈ world.2.unreported ↔ unreported = true)
  stable different _ _ guarantee known := by
    have kept := guarantee.erasing (Ne.symm different)
    exact ⟨kept.1.trans known.1, kept.2.trans known.2⟩

end Assertions

end ConcurrentCpp.LockFreeList
