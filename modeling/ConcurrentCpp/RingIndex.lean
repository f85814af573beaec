import Mathlib.Data.BitVec
import Mathlib.Tactic.LinearCombination

namespace ConcurrentCpp

/-!
# Free-running ring indices

A ring of a power of two of slots is walked by 64-bit indices that are never
reset.  An index stands for an unbounded number, of which it is the remainder;
as long as two such numbers are close, their remainders tell them apart.
-/

/-- The size of a ring: a power of two, at least 8, that 64 bits can hold. -/
structure RingSize where
  bits : Nat
  atLeastEight : 3 ≤ bits
  representable : bits < 64

namespace RingSize

/-- The smallest ring. -/
def eight : RingSize where
  bits := 3
  atLeastEight := Nat.le_refl 3
  representable := by decide

variable (size : RingSize)

/-- The number of slots. -/
def slots : Nat := 2 ^ size.bits

/-- `capacity_`. -/
def capacity : BitVec 64 := BitVec.ofNat 64 size.slots

/-- `capacity_mask_`. -/
def capacityMask : BitVec 64 := size.capacity - 1

/-- `i & capacity_mask_`. -/
def slotOf (index : BitVec 64) : Nat :=
  (index &&& size.capacityMask).toNat

theorem slots_pos : 0 < size.slots :=
  Nat.two_pow_pos _

theorem eight_le_slots : 8 ≤ size.slots :=
  Nat.pow_le_pow_right (n := 2) (by decide) size.atLeastEight

theorem slots_lt : size.slots < 2 ^ 64 :=
  Nat.pow_lt_pow_right (by decide) size.representable

theorem slots_dvd : size.slots ∣ 2 ^ 64 :=
  Nat.pow_dvd_pow 2 (Nat.le_of_lt size.representable)

@[simp] theorem capacity_toNat : size.capacity.toNat = size.slots :=
  Nat.mod_eq_of_lt size.slots_lt

theorem capacityMask_toNat :
    size.capacityMask.toNat = size.slots - 1 := by
  have positive := size.slots_pos
  have small := size.slots_lt
  simp only [capacityMask, BitVec.toNat_sub, capacity_toNat]
  have one : (1 : BitVec 64).toNat = 1 := rfl
  rw [one]
  omega

theorem slotOf_eq
    (index : BitVec 64) :
    size.slotOf index = index.toNat % size.slots := by
  rw [slotOf, BitVec.toNat_and, capacityMask_toNat, slots,
    Nat.and_two_pow_sub_one_eq_mod]

/-- The slot of a number is its remainder. -/
@[simp] theorem slotOf_ofNat
    (number : Nat) :
    size.slotOf (BitVec.ofNat 64 number) = number % size.slots := by
  rw [slotOf_eq, BitVec.toNat_ofNat, Nat.mod_mod_of_dvd _ size.slots_dvd]

theorem slotOf_lt
    (index : BitVec 64) :
    size.slotOf index < size.slots := by
  rw [slotOf_eq]
  exact Nat.mod_lt _ size.slots_pos

end RingSize

/-- Numbers with one remainder that are less than a modulus apart are equal. -/
theorem eq_of_mod_eq
    {first second modulus : Nat}
    (le : first ≤ second)
    (near : second < first + modulus)
    (same : first % modulus = second % modulus) :
    first = second := by
  have shape := (Nat.modEq_iff_dvd' le).mp same
  obtain ⟨factor, difference⟩ := shape
  rcases Nat.eq_zero_or_pos factor with none | some
  · subst none
    omega
  · have := Nat.le_mul_of_pos_right modulus some
    omega

/-- Close numbers are told apart by 64 bits. -/
theorem ofNat_inj_near
    {first second : Nat}
    (le : first ≤ second)
    (near : second < first + 2 ^ 64)
    (same : BitVec.ofNat 64 first = BitVec.ofNat 64 second) :
    first = second := by
  have remainders := congrArg BitVec.toNat same
  simp only [BitVec.toNat_ofNat] at remainders
  exact eq_of_mod_eq le near remainders

/-- The distance of close numbers survives the remainder. -/
theorem ofNat_sub_toNat
    {first second : Nat}
    (le : first ≤ second)
    (near : second < first + 2 ^ 64) :
    (BitVec.ofNat 64 second - BitVec.ofNat 64 first).toNat =
      second - first := by
  obtain ⟨distance, rfl⟩ := Nat.exists_eq_add_of_le le
  have small : distance < 2 ^ 64 := by omega
  rw [BitVec.ofNat_add, add_sub_cancel_left, BitVec.toNat_ofNat,
    Nat.mod_eq_of_lt small, Nat.add_sub_cancel_left]

/-- One lap earlier. -/
theorem ofNat_lap
    (size : RingSize)
    (number : Nat) :
    BitVec.ofNat 64 (number + size.slots) - size.capacity =
      BitVec.ofNat 64 number := by
  rw [BitVec.ofNat_add, RingSize.capacity, add_sub_cancel_right]

/-- The next index is not the present one of the lap before. -/
theorem ne_of_lap
    (size : RingSize)
    (word : BitVec 64) :
    word ≠ word - size.capacity ∧
      word ≠ word - size.capacity + 1 ∧
      word + 1 ≠ word - size.capacity + 1 ∧
      word ≠ word + 1 := by
  have eight := size.eight_le_slots
  have small := size.slots_lt
  have none : size.capacity ≠ 0 := by
    intro same
    have := congrArg BitVec.toNat same
    rw [RingSize.capacity_toNat] at this
    have zero : (0 : BitVec 64).toNat = 0 := rfl
    omega
  have one : size.capacity ≠ 1 := by
    intro same
    have := congrArg BitVec.toNat same
    rw [RingSize.capacity_toNat] at this
    have unit : (1 : BitVec 64).toNat = 1 := rfl
    omega
  refine ⟨?_, ?_, ?_, ?_⟩
  · intro same
    exact none (by linear_combination same)
  · intro same
    exact one (by linear_combination same)
  · intro same
    exact none (by linear_combination same)
  · intro same
    have unit : (1 : BitVec 64) = 0 := by linear_combination -same
    cases unit

end ConcurrentCpp
