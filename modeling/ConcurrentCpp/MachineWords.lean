import Mathlib.Algebra.Order.Floor.Div

namespace ConcurrentCpp

/-!
# Unsigned words that remember whether they wrapped

A computation on words of a fixed width carries one bit: whether some sum,
difference or product did not fit and was reduced modulo the word size.  An
operation whose exact result fits leaves the bit alone, so a computation that
ends with the bit it began with has computed in unbounded arithmetic.
-/

/-- A computation that remembers whether an operation has wrapped. -/
abbrev Wrapping (α : Type) := StateM Bool α

namespace Wrapping

variable {w : Nat}

/-- `left + right`. -/
def add (left right : BitVec w) : Wrapping (BitVec w) :=
  fun wrapped =>
    (left + right,
      wrapped || decide (2 ^ w ≤ left.toNat + right.toNat))

/-- `left - right`. -/
def sub (left right : BitVec w) : Wrapping (BitVec w) :=
  fun wrapped =>
    (left - right, wrapped || decide (left.toNat < right.toNat))

/-- `left * right`. -/
def mul (left right : BitVec w) : Wrapping (BitVec w) :=
  fun wrapped =>
    (left * right,
      wrapped || decide (2 ^ w ≤ left.toNat * right.toNat))

/-- The computation yields this result and no operation of it wraps. -/
def Yields
    {α : Type}
    (computation : Wrapping α)
    (result : α) : Prop :=
  ∀ wrapped, computation wrapped = (result, wrapped)

namespace Yields

variable {α β : Type}

theorem pure
    (result : α) :
    Yields (Pure.pure result) result :=
  fun _ => rfl

theorem bind
    {computation : Wrapping α}
    {next : α → Wrapping β}
    {middle : α}
    {result : β}
    (first : Yields computation middle)
    (second : Yields (next middle) result) :
    Yields (computation >>= next) result := by
  intro wrapped
  have ran :
      (computation >>= next) wrapped =
        next (computation wrapped).1 (computation wrapped).2 :=
    rfl
  rw [ran, first wrapped]
  exact second wrapped

end Yields

/-- A sum that fits. -/
theorem add_fits
    (left right : BitVec w)
    (fits : left.toNat + right.toNat < 2 ^ w) :
    ∃ sum : BitVec w,
      sum.toNat = left.toNat + right.toNat ∧
        Yields (add left right) sum := by
  refine ⟨left + right, ?_, fun wrapped => ?_⟩
  · rw [BitVec.toNat_add, Nat.mod_eq_of_lt fits]
  · simp [add, Nat.not_le.mpr fits]

/-- A difference that is not negative. -/
theorem sub_fits
    (left right : BitVec w)
    (ordered : right.toNat ≤ left.toNat) :
    ∃ difference : BitVec w,
      difference.toNat = left.toNat - right.toNat ∧
        Yields (sub left right) difference := by
  refine ⟨left - right, ?_, fun wrapped => ?_⟩
  · exact BitVec.toNat_sub_of_le ordered
  · simp [sub, Nat.not_lt.mpr ordered]

/-- A product that fits. -/
theorem mul_fits
    (left right : BitVec w)
    (fits : left.toNat * right.toNat < 2 ^ w) :
    ∃ product : BitVec w,
      product.toNat = left.toNat * right.toNat ∧
        Yields (mul left right) product := by
  refine ⟨left * right, ?_, fun wrapped => ?_⟩
  · rw [BitVec.toNat_mul, Nat.mod_eq_of_lt fits]
  · simp [mul, Nat.not_le.mpr fits]

end Wrapping

/-- The smallest multiple of the granule that is not below the number. -/
def ceilTo (granule number : Nat) : Nat :=
  granule * (number ⌈/⌉ granule)

section CeilTo

variable {granule number : Nat}

theorem le_ceilTo
    (positive : 0 < granule) :
    number ≤ ceilTo granule number :=
  (ceilDiv_le_iff_le_mul positive).mp (Nat.le_refl _)

theorem dvd_ceilTo : granule ∣ ceilTo granule number :=
  Nat.dvd_mul_right granule _

theorem ceilTo_eq
    (positive : 0 < granule) :
    ceilTo granule number =
      (number + (granule - 1)) / granule * granule := by
  rw [ceilTo, Nat.ceilDiv_eq_add_pred_div, Nat.mul_comm,
    Nat.add_sub_assoc positive]

/--
Below a multiple of the granule the rounded number is in range exactly if the
sum that the rounding divides is.
-/
theorem ceilTo_lt_iff
    (positive : 0 < granule)
    {bound : Nat}
    (multiple : granule ∣ bound) :
    ceilTo granule number < bound ↔ number + (granule - 1) < bound := by
  constructor
  · intro inside
    obtain ⟨count, shape⟩ := multiple
    have less : number ⌈/⌉ granule + 1 ≤ count := by
      rw [shape] at inside
      exact Nat.lt_of_mul_lt_mul_left inside
    have below : ceilTo granule number + granule ≤ bound := by
      rw [shape, ceilTo, ← Nat.mul_succ]
      exact Nat.mul_le_mul_left granule less
    have large : number ≤ ceilTo granule number := le_ceilTo positive
    omega
  · intro inside
    rw [ceilTo_eq positive]
    exact Nat.lt_of_le_of_lt (Nat.div_mul_le_self _ _) inside

end CeilTo

end ConcurrentCpp
