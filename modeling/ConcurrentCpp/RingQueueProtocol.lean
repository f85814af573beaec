import ConcurrentCpp.RingQueue

namespace ConcurrentCpp.RingQueue

/-!
# The protocol of the key-value ring queue

The proof gives every index its unbounded number and every slot its stage in
the lap it serves.  The claimed numbers form an interval of at most one lap,
which is what makes the exact comparisons of the code unambiguous.
-/

variable {K V T : Type} [DecidableEq T]

/-- The stage of a slot, with the number it serves. -/
inductive Stage (K V T : Type) where
  | free (number : Nat)
  | filling (number : Nat) (thread : T) (key : K) (value : V)
  | full (number : Nat) (key : K) (value : V)
  | draining (number : Nat) (thread : T) (key : K) (value : V)

namespace Stage

/-- The owner of the slot. -/
def owner : Stage K V T → Option T
  | .free _ => none
  | .filling _ thread _ _ => some thread
  | .full _ _ _ => none
  | .draining _ thread _ _ => some thread

/-- The sequence number of the slot. -/
def seq : Stage K V T → BitVec 64
  | .free number => BitVec.ofNat 64 number
  | .filling number _ _ _ => BitVec.ofNat 64 number
  | .full number _ _ => BitVec.ofNat 64 (number + 1)
  | .draining number _ _ _ => BitVec.ofNat 64 (number + 1)

/-- The element that the slot serves. -/
def element : Stage K V T → Option (Nat × K × V)
  | .free _ => none
  | .filling number _ key value => some (number, key, value)
  | .full number key value => some (number, key, value)
  | .draining number _ key value => some (number, key, value)

/-- The number fits the slot and the claimed numbers. -/
def Fits
    (slots tail head slot : Nat) :
    Stage K V T → Prop
  | .free number =>
      number % slots = slot ∧ tail ≤ number ∧ number < head + slots
  | .filling number _ _ _ =>
      number % slots = slot ∧ head ≤ number ∧ number < tail
  | .full number _ _ =>
      number % slots = slot ∧ head ≤ number ∧ number < tail
  | .draining number _ _ _ =>
      number % slots = slot ∧ number < head ∧ tail ≤ number + slots

end Stage

/--
What the proof keeps besides the shared words.  The holder of a lock may have
claimed a number that its index does not show yet.
-/
structure Ghost (K V T : Type) where
  tailIndex : Nat
  headIndex : Nat
  tailHolder : Option (T × Bool)
  headHolder : Option (T × Bool)
  stage : Nat → Stage K V T

/-- The next number to be pushed. -/
def Ghost.tail (ghost : Ghost K V T) : Nat :=
  ghost.tailIndex + advancing ghost.tailHolder

/-- The next number to be popped. -/
def Ghost.head (ghost : Ghost K V T) : Nat :=
  ghost.headIndex + advancing ghost.headHolder

/-- What holds in every reachable world. -/
structure Invariant
    (config : Config K)
    (world : State K V T × Ghost K V T) : Prop where
  tailLocked : world.1.tailLock = world.2.tailHolder.isSome
  headLocked : world.1.headLock = world.2.headHolder.isSome
  tailWord : world.1.tail = BitVec.ofNat 64 world.2.tailIndex
  headWord : world.1.head = BitVec.ofNat 64 world.2.headIndex
  ordered : world.2.head ≤ world.2.tail
  bounded : world.2.tail ≤ world.2.head + config.size.slots
  fits :
    ∀ slot < config.size.slots,
      (world.2.stage slot).Fits config.size.slots world.2.tail
        world.2.head slot
  seq :
    ∀ slot < config.size.slots,
      world.1.seq slot = (world.2.stage slot).seq
  owner :
    ∀ slot < config.size.slots,
      owner slot world.1.events = (world.2.stage slot).owner
  life : ∀ slot, life slot world.1.events = world.1.value slot
  free :
    ∀ slot < config.size.slots,
      ∀ {number},
        world.2.stage slot = .free number →
        world.1.value slot = .raw
  full :
    ∀ slot < config.size.slots,
      ∀ {number key value},
        world.2.stage slot = .full number key value →
        world.1.key slot = key ∧ world.1.value slot = .built value
  element :
    ∀ slot < config.size.slots,
      ∀ {number key value},
        (world.2.stage slot).element = some (number, key, value) →
        config.start.toNat ≤ number ∧
          (pushes world.1.events)[number - config.start.toNat]? =
            some (key, value) ∧
          content slot world.1.events =
            some (BitVec.ofNat 64 number, key, value)
  pushed :
    world.2.tail =
      config.start.toNat + (pushes world.1.events).length
  popped :
    world.2.head = config.start.toNat + (pops world.1.events).length
  matched :
    pops world.1.events =
      ((pushes world.1.events).take (pops world.1.events).length).map
        fun pair => (pair.1, Life.built pair.2)
  keys :
    ∀ pair ∈ pushes world.1.events, pair.1 ≠ config.emptyKey
  tailClaim :
    ∀ {thread},
      world.2.tailHolder = some (thread, true) →
      ∃ key value,
        world.2.stage (world.2.tailIndex % config.size.slots) =
            .filling world.2.tailIndex thread key value ∧
          world.1.value (world.2.tailIndex % config.size.slots) = .raw
  headClaim :
    ∀ {thread},
      world.2.headHolder = some (thread, true) →
      ∃ key value,
        world.2.stage (world.2.headIndex % config.size.slots) =
            .draining world.2.headIndex thread key value ∧
          world.1.value (world.2.headIndex % config.size.slots) =
            .built value
  legal : Legal config world.1.events
  working :
    ∀ slot < config.size.slots,
      ∀ {thread},
        (world.2.stage slot).owner = some thread →
        inside thread world.1.events = true

/-- What one step of a thread guarantees to the others. -/
structure Guarantee
    (thread : T)
    (world after : State K V T × Ghost K V T) : Prop where
  tail :
    ∀ other,
      other ≠ thread →
      claimOf other after.2.tailHolder = claimOf other world.2.tailHolder ∧
        (claimOf other world.2.tailHolder ≠ none →
          after.2.tailIndex = world.2.tailIndex)
  head :
    ∀ other,
      other ≠ thread →
      claimOf other after.2.headHolder = claimOf other world.2.headHolder ∧
        (claimOf other world.2.headHolder ≠ none →
          after.2.headIndex = world.2.headIndex)
  slots :
    ∀ slot other,
      other ≠ thread →
      ((after.2.stage slot).owner = some other ↔
          (world.2.stage slot).owner = some other) ∧
        ((world.2.stage slot).owner = some other →
          after.2.stage slot = world.2.stage slot ∧
            after.1.key slot = world.1.key slot ∧
            after.1.value slot = world.1.value slot)
  calls :
    ∀ other,
      other ≠ thread →
      inCall other after.1.events = inCall other world.1.events

/-- The protocol of the queue. -/
def protocol
    (config : Config K) :
    Protocol (State K V T) (Ghost K V T) T where
  Inv := Invariant config
  Guar := Guarantee
  guar_refl _ _ :=
    { tail := fun _ _ => ⟨rfl, fun _ => rfl⟩
      head := fun _ _ => ⟨rfl, fun _ => rfl⟩
      slots := fun _ _ _ => ⟨Iff.rfl, fun _ => ⟨rfl, rfl, rfl⟩⟩
      calls := fun _ _ => rfl }

section Numbers

variable {config : Config K} {state : State K V T} {ghost : Ghost K V T}

/-- Two numbers of one slot in one lap are equal. -/
private theorem same_number
    {slots first second : Nat}
    (le : first ≤ second)
    (near : second < first + slots)
    (same : second % slots = first % slots) :
    second = first :=
  (eq_of_mod_eq le near same.symm).symm

private theorem previous_number
    {slots earlier later : Nat}
    (below : earlier < later)
    (near : later ≤ earlier + slots)
    (same : earlier % slots = later % slots) :
    later = earlier + slots := by
  have lap : later % slots = (earlier + slots) % slots := by
    rw [Nat.add_mod_right, same]
  exact eq_of_mod_eq near (by omega) lap

/-- What a slot can be at the number that is pushed next. -/
theorem stage_at_tail
    (inv : Invariant config (state, ghost)) :
    let slot := ghost.tail % config.size.slots
    ghost.stage slot = .free ghost.tail ∨
      ∃ number,
        ghost.tail = number + config.size.slots ∧
          ((∃ thread key value,
            ghost.stage slot = .filling number thread key value) ∨
          (∃ key value, ghost.stage slot = .full number key value) ∨
          ∃ thread key value,
            ghost.stage slot = .draining number thread key value) := by
  intro slot
  have inside : slot < config.size.slots :=
    Nat.mod_lt _ config.size.slots_pos
  have fits := inv.fits slot inside
  have ordered := inv.ordered
  have bounded := inv.bounded
  simp only at fits ordered bounded
  cases stage : ghost.stage slot with
  | free number =>
      simp only [stage, Stage.Fits] at fits
      left
      rw [same_number fits.2.1 (by omega) fits.1]
  | filling number thread key value =>
      simp only [stage, Stage.Fits] at fits
      right
      exact ⟨number, previous_number fits.2.2 (by omega) fits.1,
        .inl ⟨thread, key, value, rfl⟩⟩
  | full number key value =>
      simp only [stage, Stage.Fits] at fits
      right
      exact ⟨number, previous_number fits.2.2 (by omega) fits.1,
        .inr (.inl ⟨key, value, rfl⟩)⟩
  | draining number thread key value =>
      simp only [stage, Stage.Fits] at fits
      right
      exact ⟨number, previous_number (by omega) fits.2.2 fits.1,
        .inr (.inr ⟨thread, key, value, rfl⟩)⟩

/-- What a slot can be at the number that is popped next. -/
theorem stage_at_head
    (inv : Invariant config (state, ghost)) :
    let slot := ghost.head % config.size.slots
    (ghost.stage slot = .free ghost.head ∧ ghost.tail = ghost.head) ∨
      (∃ thread key value,
        ghost.stage slot = .filling ghost.head thread key value) ∨
      (∃ key value, ghost.stage slot = .full ghost.head key value) ∨
      (∃ number,
        ghost.head = number + config.size.slots ∧
          ghost.tail = ghost.head ∧
          ∃ thread key value,
            ghost.stage slot = .draining number thread key value) := by
  intro slot
  have inside : slot < config.size.slots :=
    Nat.mod_lt _ config.size.slots_pos
  have fits := inv.fits slot inside
  have ordered := inv.ordered
  have bounded := inv.bounded
  simp only at fits ordered bounded
  cases stage : ghost.stage slot with
  | free number =>
      simp only [stage, Stage.Fits] at fits
      have same := same_number (by omega) fits.2.2 fits.1
      exact .inl ⟨by rw [same], by omega⟩
  | filling number thread key value =>
      simp only [stage, Stage.Fits] at fits
      have same := same_number fits.2.1 (by omega) fits.1
      exact .inr (.inl ⟨thread, key, value, by rw [same]⟩)
  | full number key value =>
      simp only [stage, Stage.Fits] at fits
      have same := same_number fits.2.1 (by omega) fits.1
      exact .inr (.inr (.inl ⟨key, value, by rw [same]⟩))
  | draining number thread key value =>
      simp only [stage, Stage.Fits] at fits
      have previous :=
        previous_number fits.2.1 (by omega) fits.1
      exact .inr (.inr (.inr
        ⟨number, previous, by omega, thread, key, value, rfl⟩))

/-- A producer that finds its own index in the slot finds it free. -/
theorem free_of_seq
    (inv : Invariant config (state, ghost))
    (found :
      state.seq (ghost.tail % config.size.slots) =
        BitVec.ofNat 64 ghost.tail) :
    ghost.stage (ghost.tail % config.size.slots) = .free ghost.tail := by
  have inside : ghost.tail % config.size.slots < config.size.slots :=
    Nat.mod_lt _ config.size.slots_pos
  have eight := config.size.eight_le_slots
  have small := config.size.slots_lt
  rw [inv.seq _ inside] at found
  rcases stage_at_tail inv with free | ⟨number, previous, rest⟩
  · exact free
  · rcases rest with ⟨_, _, _, stage⟩ | ⟨_, _, stage⟩ | ⟨_, _, _, stage⟩
    all_goals
      rw [stage, previous] at found
      have := ofNat_inj_near (by omega) (by omega) found
      omega

/-- A consumer that finds the next index in the slot finds it full. -/
theorem full_of_seq
    (inv : Invariant config (state, ghost))
    (found :
      state.seq (ghost.head % config.size.slots) =
        BitVec.ofNat 64 (ghost.head + 1)) :
    ∃ key value,
      ghost.stage (ghost.head % config.size.slots) =
        .full ghost.head key value := by
  have inside : ghost.head % config.size.slots < config.size.slots :=
    Nat.mod_lt _ config.size.slots_pos
  have eight := config.size.eight_le_slots
  have small := config.size.slots_lt
  rw [inv.seq _ inside] at found
  rcases stage_at_head inv with
    ⟨stage, _⟩ | ⟨_, _, _, stage⟩ | ⟨key, value, stage⟩ |
      ⟨number, previous, _, _, _, _, stage⟩
  · rw [stage] at found
    have := ofNat_inj_near (by omega) (by omega) found
    omega
  · rw [stage] at found
    have := ofNat_inj_near (by omega) (by omega) found
    omega
  · exact ⟨key, value, stage⟩
  · rw [stage, previous] at found
    have := ofNat_inj_near (by omega) (by omega) found
    omega

end Numbers

end ConcurrentCpp.RingQueue
