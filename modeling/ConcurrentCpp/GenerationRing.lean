import Mathlib.Data.Finset.Card
import Mathlib.Data.Nat.ModEq

namespace ConcurrentCpp

/-!
# A ring of generations with counted members

Generations are numbered; generation `g` lives in slot `g % capacity` of a
fixed ring.  A member is counted in a slot before it knows whether that slot
is still the current one; it is verified once it has seen that it is.  Counts
are only ever raised and lowered, so a member that counts itself in a slot
that has been closed, or recycled, disturbs nobody.  The counts are split over
shards.

The oldest generation may be dropped when none of its members is left.
Verified members belong to generations between the oldest and the current one.
-/

/-- A counted membership; its generation is known once it is verified. -/
structure Token (D : Type) where
  shard : D
  slot : Nat
  generation : Option Nat
  deriving DecidableEq

/-- The oldest and the current generation, and the tokens of all members. -/
structure Ring (D K : Type) where
  now : Nat
  low : Nat
  token : K → Option (Token D)
  members : Finset K

namespace Ring

variable {D K : Type} [DecidableEq D]

/-- The member is counted in this slot of this shard. -/
def At
    (ring : Ring D K)
    (place : D × Nat)
    (member : K) : Bool :=
  (ring.token member).any fun token =>
    (token.shard, token.slot) = place

/-- The number of members counted in a slot of a shard. -/
def count
    (ring : Ring D K)
    (place : D × Nat) : Nat :=
  (ring.members.filter fun member => ring.At place member).card

/-- The member is verified in this generation. -/
def Verified
    (ring : Ring D K)
    (member : K)
    (generation : Nat) : Prop :=
  ∃ token,
    ring.token member = some token ∧
      token.generation = some generation

/-- The shared words agree with the tokens. -/
structure Sound
    (ring : Ring D K)
    (capacity : Nat)
    (current : Nat)
    (refs : D × Nat → Int) : Prop where
  current_eq : current = ring.now % capacity
  low_le : ring.low ≤ ring.now
  now_lt : ring.now < ring.low + capacity
  members :
    ∀ member, member ∈ ring.members ↔ ring.token member ≠ none
  counted : ∀ place, refs place = ring.count place
  slots :
    ∀ {member token generation},
      ring.token member = some token →
      token.generation = some generation →
      token.slot = generation % capacity
  bounds :
    ∀ {member generation},
      ring.Verified member generation →
      ring.low ≤ generation ∧ generation ≤ ring.now

variable {ring : Ring D K} {capacity current : Nat}
variable {refs : D × Nat → Int}

/-- A slot that counts nobody holds no token. -/
theorem Sound.empty_of_zero
    (sound : ring.Sound capacity current refs)
    {place : D × Nat}
    (zero : refs place = 0)
    {member : K}
    {token : Token D}
    (held : ring.token member = some token) :
    (token.shard, token.slot) ≠ place := by
  intro here
  have none_left : ring.count place = 0 := by
    have count := sound.counted place
    omega
  have inside : member ∈ ring.members :=
    (sound.members member).mpr (by simp [held])
  have counted :
      member ∈ ring.members.filter fun member => ring.At place member :=
    Finset.mem_filter.mpr ⟨inside, by simp [At, held, here]⟩
  rw [count, Finset.card_eq_zero] at none_left
  rw [none_left] at counted
  simp at counted

/-- A counted member makes its count positive. -/
theorem Sound.positive
    (sound : ring.Sound capacity current refs)
    {member : K}
    {token : Token D}
    (held : ring.token member = some token) :
    0 < refs (token.shard, token.slot) := by
  have nonnegative := sound.counted (token.shard, token.slot)
  by_contra notPositive
  have zero : refs (token.shard, token.slot) = 0 := by omega
  exact sound.empty_of_zero zero held rfl

/-- Two generations of the ring in one slot are the same. -/
theorem slot_injective
    {low first second : Nat}
    (firstLow : low ≤ first)
    (firstHigh : first < low + capacity)
    (secondLow : low ≤ second)
    (secondHigh : second < low + capacity)
    (same : first % capacity = second % capacity) :
    first = second := by
  rcases Nat.le_total first second with ordered | ordered
  · have divides := (Nat.modEq_iff_dvd' ordered).mp same
    have small : second - first < capacity := by omega
    have zero := Nat.eq_zero_of_dvd_of_lt divides small
    omega
  · have divides := (Nat.modEq_iff_dvd' ordered).mp same.symm
    have small : first - second < capacity := by omega
    have zero := Nat.eq_zero_of_dvd_of_lt divides small
    omega

/-- Different generations of the ring have different slots. -/
theorem slot_ne
    {low first second : Nat}
    (firstLow : low ≤ first)
    (firstHigh : first < low + capacity)
    (secondLow : low ≤ second)
    (secondHigh : second < low + capacity)
    (different : first ≠ second) :
    first % capacity ≠ second % capacity :=
  fun same =>
    different
      (slot_injective firstLow firstHigh secondLow secondHigh same)

variable [DecidableEq K]

/-- Set the token of one member. -/
def setToken
    (ring : Ring D K)
    (member : K)
    (token : Option (Token D)) :
    Ring D K :=
  { ring with
    token := Function.update ring.token member token
    members :=
      match token with
      | none => ring.members.erase member
      | some _ => insert member ring.members }

/-- The next generation becomes current. -/
def advance (ring : Ring D K) : Ring D K :=
  { ring with now := ring.now + 1 }

/-- The oldest generation is dropped. -/
def drop (ring : Ring D K) : Ring D K :=
  { ring with low := ring.low + 1 }

omit [DecidableEq D] in
@[simp] theorem setToken_now
    {member : K}
    {token : Option (Token D)} :
    (ring.setToken member token).now = ring.now :=
  rfl

omit [DecidableEq D] in
@[simp] theorem setToken_low
    {member : K}
    {token : Option (Token D)} :
    (ring.setToken member token).low = ring.low :=
  rfl

omit [DecidableEq D] in
@[simp] theorem setToken_self
    {member : K}
    {token : Option (Token D)} :
    (ring.setToken member token).token member = token := by
  simp [setToken]

omit [DecidableEq D] in
@[simp] theorem setToken_other
    {member other : K}
    {token : Option (Token D)}
    (different : other ≠ member) :
    (ring.setToken member token).token other = ring.token other := by
  simp [setToken, different]

omit [DecidableEq D] in
/-- Other members keep their generation. -/
theorem verified_other
    {member other : K}
    {token : Option (Token D)}
    {generation : Nat}
    (different : other ≠ member) :
    (ring.setToken member token).Verified other generation ↔
      ring.Verified other generation := by
  simp [Verified, different]

section Counting

variable {member : K}

theorem setToken_at
    {token : Option (Token D)}
    {place : D × Nat}
    {other : K} :
    (ring.setToken member token).At place other =
      if other = member then
        token.any fun token => (token.shard, token.slot) = place
      else
        ring.At place other := by
  by_cases same : other = member
  · subst same
    simp [At, setToken]
  · simp [At, setToken, same]

/-- A new token raises its own count and no other. -/
theorem count_enter
    (sound : ring.Sound capacity current refs)
    (idle : ring.token member = none)
    (token : Token D)
    (place : D × Nat) :
    (ring.setToken member (some token)).count place =
      ring.count place +
        if (token.shard, token.slot) = place then 1 else 0 := by
  have outside : member ∉ ring.members := by
    simp [sound.members member, idle]
  have others :
      (ring.members.filter fun other =>
          (ring.setToken member (some token)).At place other) =
        ring.members.filter fun other => ring.At place other := by
    refine Finset.filter_congr fun other inside => ?_
    have different : other ≠ member := by
      rintro rfl
      exact outside inside
    simp [setToken_at, different]
  have shape :
      (ring.setToken member (some token)).members =
        insert member ring.members := rfl
  rw [count, shape, Finset.filter_insert, others]
  by_cases here : (token.shard, token.slot) = place
  · simp [setToken_at, here, count, outside]
  · simp [setToken_at, here, count]

/-- Removing a token lowers its own count and no other. -/
theorem count_leave
    (sound : ring.Sound capacity current refs)
    {token : Token D}
    (held : ring.token member = some token)
    (place : D × Nat) :
    ring.count place =
      (ring.setToken member none).count place +
        if (token.shard, token.slot) = place then 1 else 0 := by
  have inside : member ∈ ring.members := by
    simp [sound.members member, held]
  have others :
      ((ring.members.erase member).filter fun other =>
          (ring.setToken member none).At place other) =
        (ring.members.erase member).filter fun other =>
          ring.At place other := by
    refine Finset.filter_congr fun other remains => ?_
    have different := (Finset.mem_erase.mp remains).1
    simp [setToken_at, different]
  have shape :
      (ring.setToken member none).members =
        ring.members.erase member := rfl
  rw [count, count, shape, others]
  conv_lhs => rw [← Finset.insert_erase inside, Finset.filter_insert]
  have counts :
      ring.At place member = decide ((token.shard, token.slot) = place) := by
    simp [At, held]
  by_cases here : (token.shard, token.slot) = place
  · simp [counts, here]
  · simp [counts, here]

/-- Verifying a member changes no count. -/
theorem count_verify
    (sound : ring.Sound capacity current refs)
    {token : Token D}
    (held : ring.token member = some token)
    (generation : Option Nat)
    (place : D × Nat) :
    (ring.setToken member
        (some { token with generation := generation })).count place =
      ring.count place := by
  have inside : member ∈ ring.members := by
    simp [sound.members member, held]
  have shape :
      (ring.setToken member
        (some { token with generation := generation })).members =
        ring.members := by
    simp [setToken, inside]
  rw [count, count, shape]
  congr 1
  refine Finset.filter_congr fun other _ => ?_
  rw [setToken_at]
  by_cases same : other = member
  · subst same
    simp [At, held]
  · simp [same]

end Counting

section Steps

variable {member : K}

private theorem setToken_members
    (sound : ring.Sound capacity current refs)
    (token : Option (Token D))
    (other : K) :
    other ∈ (ring.setToken member token).members ↔
      (ring.setToken member token).token other ≠ none := by
  have before := sound.members other
  by_cases same : other = member
  · subst same
    cases token <;> simp [setToken]
  · cases token <;> simp [setToken, same, before]

/-- A member counts itself in a slot it has read. -/
theorem Sound.enter
    (sound : ring.Sound capacity current refs)
    (idle : ring.token member = none)
    (place : D × Nat) :
    (ring.setToken member (some ⟨place.1, place.2, none⟩)).Sound
      capacity current
      (Function.update refs place (refs place + 1)) where
  current_eq := sound.current_eq
  low_le := sound.low_le
  now_lt := sound.now_lt
  members := setToken_members sound _
  counted other := by
    rw [count_enter sound idle]
    by_cases same : other = place
    · subst same
      simp [sound.counted other]
    · simp [sound.counted other, same, Ne.symm same]
  slots {other token generation} held verified := by
    by_cases same : other = member
    · subst same
      simp only [setToken, Function.update_self,
        Option.some.injEq] at held
      subst held
      cases verified
    · simp only [setToken, Function.update_of_ne same] at held
      exact sound.slots held verified
  bounds {other generation} verified := by
    obtain ⟨token, held, known⟩ := verified
    by_cases same : other = member
    · subst same
      simp only [setToken, Function.update_self,
        Option.some.injEq] at held
      subst held
      cases known
    · simp only [setToken, Function.update_of_ne same] at held
      exact sound.bounds ⟨token, held, known⟩

/-- A member leaves the slot it is counted in. -/
theorem Sound.leave
    (sound : ring.Sound capacity current refs)
    {token : Token D}
    (held : ring.token member = some token) :
    (ring.setToken member none).Sound capacity current
      (Function.update refs (token.shard, token.slot)
        (refs (token.shard, token.slot) - 1)) where
  current_eq := sound.current_eq
  low_le := sound.low_le
  now_lt := sound.now_lt
  members := setToken_members sound _
  counted other := by
    have count := count_leave sound held other
    by_cases same : other = (token.shard, token.slot)
    · subst same
      rw [Function.update_self, sound.counted, count]
      simp
    · rw [Function.update_of_ne same, sound.counted, count]
      simp [Ne.symm same]
  slots {other token generation} held verified := by
    by_cases same : other = member
    · subst same
      simp [setToken] at held
    · simp only [setToken, Function.update_of_ne same] at held
      exact sound.slots held verified
  bounds {other generation} verified := by
    obtain ⟨token, held, known⟩ := verified
    by_cases same : other = member
    · subst same
      simp [setToken] at held
    · simp only [setToken, Function.update_of_ne same] at held
      exact sound.bounds ⟨token, held, known⟩

/-- A member sees that its slot is still the current one. -/
theorem Sound.verify
    (sound : ring.Sound capacity current refs)
    {shard : D}
    {old : Option Nat}
    (held : ring.token member = some ⟨shard, current, old⟩) :
    (ring.setToken member
        (some ⟨shard, current, some ring.now⟩)).Sound
      capacity current refs where
  current_eq := sound.current_eq
  low_le := sound.low_le
  now_lt := sound.now_lt
  members := setToken_members sound _
  counted other := by
    rw [sound.counted, ← count_verify sound held (some ring.now)]
  slots {other token generation} known verified := by
    by_cases same : other = member
    · subst same
      simp only [setToken, Function.update_self,
        Option.some.injEq] at known
      subst known
      cases verified
      exact sound.current_eq
    · simp only [setToken, Function.update_of_ne same] at known
      exact sound.slots known verified
  bounds {other generation} verified := by
    obtain ⟨token, known, generationIs⟩ := verified
    by_cases same : other = member
    · subst same
      simp only [setToken, Function.update_self,
        Option.some.injEq] at known
      subst known
      cases generationIs
      exact ⟨sound.low_le, Nat.le_refl _⟩
    · simp only [setToken, Function.update_of_ne same] at known
      exact sound.bounds ⟨token, known, generationIs⟩

/-- A token moves from one member to another. -/
theorem Sound.transfer
    (sound : ring.Sound capacity current refs)
    {target : K}
    {token : Token D}
    (held : ring.token member = some token)
    (idle : ring.token target = none) :
    ((ring.setToken member none).setToken target (some token)).Sound
      capacity current refs := by
  have different : target ≠ member := by
    rintro rfl
    rw [held] at idle
    cases idle
  have left := sound.leave held
  have idleStill : (ring.setToken member none).token target = none := by
    simpa [setToken, different] using idle
  refine
    { current_eq := sound.current_eq
      low_le := sound.low_le
      now_lt := sound.now_lt
      members := setToken_members left _
      counted := ?_
      slots := ?_
      bounds := ?_ }
  · intro place
    rw [count_enter left idleStill, sound.counted,
      count_leave sound held place]
  · intro other token' generation known verified
    by_cases same : other = target
    · subst same
      simp only [setToken, Function.update_self,
        Option.some.injEq] at known
      subst known
      exact sound.slots held verified
    · have before :
          (ring.setToken member none).token other = some token' := by
        simpa [setToken, same] using known
      exact left.slots before verified
  · rintro other generation ⟨token', known, verified⟩
    by_cases same : other = target
    · subst same
      simp only [setToken, Function.update_self,
        Option.some.injEq] at known
      subst known
      exact sound.bounds ⟨token, held, verified⟩
    · have before :
          (ring.setToken member none).token other = some token' := by
        simpa [setToken, same] using known
      exact left.bounds ⟨token', before, verified⟩

omit [DecidableEq K] in
/-- The next generation is published in a slot that is not in use. -/
theorem Sound.advance
    (sound : ring.Sound capacity current refs)
    (room : ring.now + 1 < ring.low + capacity) :
    ring.advance.Sound capacity ((current + 1) % capacity) refs where
  current_eq := by
    rw [sound.current_eq, Nat.mod_add_mod]
    rfl
  low_le := Nat.le_succ_of_le sound.low_le
  now_lt := room
  members := sound.members
  counted := sound.counted
  slots := sound.slots
  bounds verified := by
    have bounds := sound.bounds verified
    exact ⟨bounds.1, Nat.le_succ_of_le bounds.2⟩

omit [DecidableEq K] in
/-- The oldest generation is dropped when no verified member is left in it. -/
theorem Sound.drop
    (sound : ring.Sound capacity current refs)
    (closed : ring.low < ring.now)
    (deserted : ∀ member, ¬ ring.Verified member ring.low) :
    ring.drop.Sound capacity current refs where
  current_eq := sound.current_eq
  low_le := closed
  now_lt := by
    have bound := sound.now_lt
    simp only [Ring.drop]
    omega
  members := sound.members
  counted := sound.counted
  slots := sound.slots
  bounds {member generation} verified := by
    have bounds := sound.bounds verified
    have different : generation ≠ ring.low := by
      rintro rfl
      exact deserted member verified
    simp only [Ring.drop]
    omega

end Steps

end Ring

end ConcurrentCpp
