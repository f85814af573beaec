import ConcurrentCpp.HashSetWords

namespace ConcurrentCpp.HashSet

/-!
# What a call knows

Facts about the table survive the steps of every thread, so a call can carry
them across its own steps as well.  What a thread has in its hands is only
safe from the others.
-/

variable {K T : Type} [DecidableEq K] [DecidableEq T]

/-- A step of the thread inside a call. -/
structure Inner
    (config : Config K T)
    (thread : T)
    (world after : State K T × Ghost T) : Prop where
  steps : Steps config thread world after
  inside : after.1.inside = world.1.inside
  continues :
    SplitTable.Continues thread (tableOf world) (tableOf after)

omit [DecidableEq T] in
theorem Inner.refl
    (config : Config K T)
    (thread : T)
    (world : State K T × Ghost T) :
    Inner config thread world world where
  steps := Steps.refl config thread world
  inside := rfl
  continues := .of_same thread rfl

/-- The protocol of a thread inside a call. -/
def inner
    (config : Config K T)
    (thread : T) :
    Protocol (State K T) (Ghost T) T :=
  (protocol config).narrow thread (Inner config thread)
    (Inner.refl config thread)

variable {config : Config K T} {thread : T}

/-- What a thread inside a call may assert. -/
abbrev Claim
    (config : Config K T)
    (thread : T) :=
  Assertion (inner config thread) thread

/-- Another thread's step while the thread is in a call. -/
theorem steps_of_other
    {other : T}
    {world after : State K T × Ghost T}
    (different : other ≠ thread)
    (within : thread ∈ world.1.inside)
    (guarantee : (inner config thread).Guar other world after) :
    Steps config other world after ∧
      SplitTable.Continues thread (tableOf world) (tableOf after) ∧
      thread ∈ after.1.inside := by
  rcases guarantee.1 with steps | ⟨quiescent, _⟩
  · exact ⟨steps, steps.table.continues different,
      (steps.inside (Ne.symm different)).mpr within⟩
  · rw [quiescent] at within
    simp at within

/-- A property that no step destroys while the thread is in its call. -/
structure Fact
    (config : Config K T)
    (thread : T) where
  holds : State K T × Ghost T → Prop
  keeps :
    ∀ {mover world after},
      Invariant config world →
      Invariant config after →
      Steps config mover world after →
      SplitTable.Continues thread (tableOf world) (tableOf after) →
      holds world →
      holds after

/-- A fact is claimed by a thread that is in a call. -/
def Fact.claim
    (fact : Fact config thread) :
    Claim config thread where
  holds world := thread ∈ world.1.inside ∧ fact.holds world
  stable different inv invAfter guarantee known := by
    obtain ⟨steps, continues, within⟩ :=
      steps_of_other different known.1 guarantee
    exact ⟨within, fact.keeps inv invAfter steps continues known.2⟩

/-- Facts survive the thread's own steps. -/
theorem Fact.durable
    (fact : Fact config thread) :
    fact.claim.Durable := by
  intro world after inv invAfter guarantee known
  have step := guarantee.2 rfl
  exact ⟨step.inside ▸ known.1,
    fact.keeps inv invAfter step.steps step.continues known.2⟩

section Table

/-- The bucket is published. -/
def publishedAt
    (bucket : Nat) :
    Fact config thread where
  holds world := world.1.published bucket = true
  keeps _ _ steps _ known := steps.table.published known

omit [DecidableEq T] in
/-- A node never leaves its chain. -/
theorem Steps.chained
    {mover : T}
    {world after : State K T × Ghost T}
    (steps : Steps config mover world after)
    {node : Slot}
    {bucket : Nat}
    (chained : world.2.stage node = .chained bucket) :
    after.2.stage node = .chained bucket := by
  have linked :
      (tableOf world).forest.place node = .linked bucket := by
    simpa [tableOf] using chained
  rcases steps.table.forest.linked linked with stays | cut
  · simpa [tableOf] using stays
  · exact absurd cut (by simp [tableOf])

/-- The cursor is at the end or at a node of the chain. -/
def CursorAt
    (bucket : Nat)
    (cursor : Option Slot)
    (world : State K T × Ghost T) : Prop :=
  ∀ node ∈ cursor, world.2.stage node = .chained bucket

omit [DecidableEq T] in
theorem CursorAt.step
    {mover : T}
    {world after : State K T × Ghost T}
    {bucket : Nat}
    {cursor : Option Slot}
    (steps : Steps config mover world after)
    (known : CursorAt bucket cursor world) :
    CursorAt bucket cursor after :=
  fun node member => steps.chained (known node member)

omit [DecidableEq K] [DecidableEq T] in
/-- A cursor on a chain is held. -/
theorem CursorAt.held
    {world : State K T × Ghost T}
    {bucket : Nat}
    {cursor : Option Slot}
    (known : CursorAt bucket cursor world) :
    (tableOf world).Held bucket cursor := by
  intro node member
  exact .inl (by simpa [tableOf] using known node member)

/-- The node is on the chain and holds the key. -/
def holdsKey
    (bucket : Nat)
    (node : Slot)
    (key : K) :
    Fact config thread where
  holds world :=
    world.2.stage node = .chained bucket ∧
      world.1.value node = some key
  keeps _ _ steps _ known := by
    have stays := steps.chained known.1
    refine ⟨stays, ?_⟩
    rw [← known.2]
    exact steps.table.key (by simp [tableOf, known.1, Stage.place])
      (by simp [tableOf, stays, Stage.place])

/-- The word was read from a node of the chain. -/
structure Seen
    (bucket : Nat)
    (node : Slot)
    (link : Link)
    (world : State K T × Ghost T) : Prop where
  chained : world.2.stage node = .chained bucket
  next : (world.1.link node).next = link.next
  mark : link.mark = true → (world.1.link node).mark = true
  frozen : link.frozen = true → (world.1.link node).frozen = true

omit [DecidableEq T] in
theorem Seen.step
    {mover : T}
    {world after : State K T × Ghost T}
    {bucket : Nat}
    {node : Slot}
    {link : Link}
    (steps : Steps config mover world after)
    (known : Seen bucket node link world) :
    Seen bucket node link after := by
  have stays := steps.chained known.chained
  have present : (tableOf world).forest.place node ≠ .off := by
    simp [tableOf, known.chained, Stage.place]
  have presentAfter : (tableOf after).forest.place node ≠ .off := by
    simp [tableOf, stays, Stage.place]
  exact
    { chained := stays
      next := (steps.next known.chained).trans known.next
      mark := fun marked =>
        steps.table.marked present presentAfter (known.mark marked)
      frozen := fun frozen =>
        steps.table.frozen present presentAfter (known.frozen frozen) }

/-- The key was a member at some instant of the call. -/
def sawMember
    (key : K) :
    Fact config thread where
  holds world := SplitTable.SeenMember thread (tableOf world) key
  keeps _ _ _ continues known := continues.since known

/-- What a lookup of the key knows at its cursor. -/
structure Looking
    (config : Config K T)
    (thread : T)
    (key : K)
    (bucket bits : Nat)
    (cursor : Option Slot)
    (world : State K T × Ghost T) : Prop where
  home : config.hash key % 2 ^ bits = bucket
  cursorAt : CursorAt bucket cursor world
  notStale :
    SplitTable.NotStale config.hash thread (tableOf world) key bucket
  mayMiss :
    SplitTable.MayMiss thread (tableOf world) key bucket bits cursor

theorem Looking.step
    {mover : T}
    {world after : State K T × Ghost T}
    {key : K}
    {bucket bits : Nat}
    {cursor : Option Slot}
    (inv : Invariant config world)
    (invAfter : Invariant config after)
    (steps : Steps config mover world after)
    (continues :
      SplitTable.Continues thread (tableOf world) (tableOf after))
    (known : Looking config thread key bucket bits cursor world) :
    Looking config thread key bucket bits cursor after where
  home := known.home
  cursorAt := known.cursorAt.step steps
  notStale := known.notStale.step inv.table steps.table continues
  mayMiss :=
    known.mayMiss.step invAfter.table steps.table continues known.home
      known.cursorAt.held

/-- What a scan for an insertion knows at its cursor. -/
structure Scanning
    (config : Config K T)
    (thread : T)
    (key : K)
    (bucket : Nat)
    (first cursor : Option Slot)
    (world : State K T × Ghost T) : Prop where
  firstAt : CursorAt bucket first world
  cursorAt : CursorAt bucket cursor world
  notStale :
    SplitTable.NotStale config.hash thread (tableOf world) key bucket
  scanned : (tableOf world).Scanned bucket key first cursor

theorem Scanning.step
    {mover : T}
    {world after : State K T × Ghost T}
    {key : K}
    {bucket : Nat}
    {first cursor : Option Slot}
    (inv : Invariant config world)
    (steps : Steps config mover world after)
    (continues :
      SplitTable.Continues thread (tableOf world) (tableOf after))
    (known : Scanning config thread key bucket first cursor world) :
    Scanning config thread key bucket first cursor after where
  firstAt := known.firstAt.step steps
  cursorAt := known.cursorAt.step steps
  notStale := known.notStale.step inv.table steps.table continues
  scanned :=
    SplitTable.Scanned.step inv.table steps.table known.firstAt.held
      known.cursorAt.held known.scanned

/-- What a splitter knows at its cursor. -/
structure Copying
    (config : Config K T)
    (child : Nat)
    (copies : List K)
    (cursor : Option Slot)
    (world : State K T × Ghost T) : Prop where
  sealedFor : (tableOf world).SealedFor child
  cursorAt : CursorAt (parentOf child) cursor world
  splitting :
    SplitTable.Splitting config.hash config.allowDelete (tableOf world)
      child copies cursor
  distinct : world.1.published child = false → copies.Nodup

theorem Copying.step
    {mover : T}
    {world after : State K T × Ghost T}
    {child : Nat}
    {copies : List K}
    {cursor : Option Slot}
    (invAfter : Invariant config after)
    (steps : Steps config mover world after)
    (known : Copying config child copies cursor world) :
    Copying config child copies cursor after where
  sealedFor := known.sealedFor.step steps.table
  cursorAt := known.cursorAt.step steps
  splitting :=
    known.splitting.step invAfter.table steps.table known.sealedFor
      known.cursorAt.held
  distinct hidden := by
    refine known.distinct ?_
    by_contra published
    rw [Bool.not_eq_false] at published
    have still : after.1.published child = true :=
      steps.table.published published
    rw [hidden] at still
    cases still

end Table

end ConcurrentCpp.HashSet
