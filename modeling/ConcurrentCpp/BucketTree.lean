import Mathlib.Data.Nat.Log
import Mathlib.Data.Nat.Bitwise

namespace ConcurrentCpp

/-!
# The tree of buckets

A table of `2 ^ bits` buckets puts a key into the bucket that the low bits of
its hash name.  When the table doubles, bucket `j` keeps the keys whose new bit
is clear and hands the others to its child `j + 2 ^ bits`.  The buckets a key
can ever be in form a path: it starts at bucket 0 and adds one set bit of the
hash at a time.
-/

/-- `std::bit_floor`. -/
def bitFloor (number : Nat) : Nat :=
  if number = 0 then 0 else 2 ^ number.log2

/-- `std::bit_width`. -/
def bitWidth (number : Nat) : Nat :=
  if number = 0 then 0 else number.log2 + 1

/-- `std::countr_zero` of a 64-bit number. -/
def countrZero (number : Nat) : Nat :=
  ((List.range (number.log2 + 1)).find? number.testBit).getD 64

/-- The bucket that this bucket was split off. -/
def parentOf (bucket : Nat) : Nat :=
  bucket - bitFloor bucket

/-- The bucket is on the path of the hash. -/
def OnPath (hash bucket : Nat) : Prop :=
  hash % 2 ^ bitWidth bucket = bucket

/-- The bucket that follows another one on the path of the hash. -/
structure NextBucket (hash bucket child : Nat) : Prop where
  positive : child ≠ 0
  parent : parentOf child = bucket
  onPath : OnPath hash child

theorem lt_bitWidth (number : Nat) : number < 2 ^ bitWidth number := by
  unfold bitWidth
  split
  next zero =>
    simp [zero]
  next positive =>
    exact Nat.lt_log2_self

theorem bitFloor_le (number : Nat) : bitFloor number ≤ number := by
  unfold bitFloor
  split
  next zero =>
    exact Nat.zero_le _
  next positive =>
    exact Nat.log2_self_le positive

/-- The number is below a power of two exactly if its width is at most it. -/
theorem bitWidth_le
    {number bits : Nat} :
    bitWidth number ≤ bits ↔ number < 2 ^ bits := by
  constructor
  · intro bound
    exact Nat.lt_of_lt_of_le (lt_bitWidth number)
      (Nat.pow_le_pow_right (by decide) bound)
  · intro bound
    unfold bitWidth
    split
    next zero =>
      exact Nat.zero_le _
    next positive =>
      exact (Nat.log2_lt positive).mpr bound

/-- A positive bucket is its parent plus the bit it was created with. -/
theorem parentOf_add
    {bucket : Nat}
    (positive : bucket ≠ 0) :
    parentOf bucket + 2 ^ bucket.log2 = bucket := by
  have floor : bitFloor bucket = 2 ^ bucket.log2 := by
    simp [bitFloor, positive]
  have bound := bitFloor_le bucket
  unfold parentOf
  omega

theorem parentOf_lt
    {bucket : Nat}
    (positive : bucket ≠ 0) :
    parentOf bucket < bucket := by
  have sum := parentOf_add positive
  have power : 0 < 2 ^ bucket.log2 := Nat.two_pow_pos _
  omega

/-- The parent lies in the lower half of the table that made the bucket. -/
theorem parentOf_lt_two_pow
    {bucket : Nat}
    (positive : bucket ≠ 0) :
    parentOf bucket < 2 ^ bucket.log2 := by
  have sum := parentOf_add positive
  have below : bucket < 2 ^ (bucket.log2 + 1) := Nat.lt_log2_self
  rw [Nat.pow_succ] at below
  omega

theorem bitWidth_of_positive
    {number : Nat}
    (positive : number ≠ 0) :
    bitWidth number = number.log2 + 1 := by
  simp [bitWidth, positive]

/-- Any table puts the hash into a bucket of its path. -/
theorem onPath_mod
    (hash bits : Nat) :
    OnPath hash (hash % 2 ^ bits) := by
  have width : bitWidth (hash % 2 ^ bits) ≤ bits :=
    bitWidth_le.mpr (Nat.mod_lt _ (Nat.two_pow_pos _))
  have divides : 2 ^ bitWidth (hash % 2 ^ bits) ∣ 2 ^ bits :=
    Nat.pow_dvd_pow 2 width
  unfold OnPath
  rw [← Nat.mod_mod_of_dvd hash divides]
  exact Nat.mod_eq_of_lt (lt_bitWidth _)

namespace NextBucket

variable {hash bucket child : Nat}

/-- What the hash is in the table that made the child. -/
theorem mod_eq
    (next : NextBucket hash bucket child) :
    hash % 2 ^ (child.log2 + 1) = child := by
  have onPath := next.onPath
  unfold OnPath at onPath
  rwa [bitWidth_of_positive next.positive] at onPath

/-- What the hash was one doubling earlier. -/
theorem parent_mod_eq
    (next : NextBucket hash bucket child) :
    hash % 2 ^ child.log2 = bucket := by
  have sum := parentOf_add next.positive
  have bound := parentOf_lt_two_pow next.positive
  calc
    hash % 2 ^ child.log2
        = hash % 2 ^ (child.log2 + 1) % 2 ^ child.log2 :=
      (Nat.mod_mod_of_dvd hash
        (Nat.pow_dvd_pow 2 (Nat.le_succ child.log2))).symm
    _ = (parentOf child + 2 ^ child.log2) % 2 ^ child.log2 := by
      rw [next.mod_eq, sum]
    _ = bucket := by
      rw [Nat.add_mod_right, Nat.mod_eq_of_lt bound, next.parent]

theorem lt
    (next : NextBucket hash bucket child) :
    bucket < child :=
  next.parent ▸ parentOf_lt next.positive

/-- The bucket itself is on the path. -/
theorem bucket_onPath
    (next : NextBucket hash bucket child) :
    OnPath hash bucket := by
  rw [← next.parent_mod_eq]
  exact onPath_mod hash child.log2

/-- A bucket has one child on the path. -/
theorem unique
    {other : Nat}
    (first : NextBucket hash bucket child)
    (second : NextBucket hash bucket other) :
    child = other := by
  have ordered :
      ∀ {low high},
        NextBucket hash bucket low →
        NextBucket hash bucket high →
        high.log2 ≤ low.log2 := by
    intro low high lower higher
    by_contra above
    have divides : 2 ^ (low.log2 + 1) ∣ 2 ^ high.log2 :=
      Nat.pow_dvd_pow 2 (by omega)
    have whole := lower.mod_eq
    rw [← Nat.mod_mod_of_dvd hash divides, higher.parent_mod_eq] at whole
    have small := Nat.mod_le bucket (2 ^ (low.log2 + 1))
    have below := lower.lt
    omega
  have same : child.log2 = other.log2 :=
    Nat.le_antisymm (ordered second first) (ordered first second)
  have left := first.mod_eq
  rw [same, second.mod_eq] at left
  exact left.symm

/-- A table that puts the key into the bucket has no room for its child. -/
theorem le_of_mod_eq
    {bits : Nat}
    (next : NextBucket hash bucket child)
    (home : hash % 2 ^ bits = bucket) :
    bits ≤ child.log2 := by
  by_contra small
  have divides : 2 ^ (child.log2 + 1) ∣ 2 ^ bits :=
    Nat.pow_dvd_pow 2 (by omega)
  have whole := next.mod_eq
  rw [← Nat.mod_mod_of_dvd hash divides, home] at whole
  have bound := Nat.mod_le bucket (2 ^ (child.log2 + 1))
  have below := next.lt
  omega

/-- The same bound on the child itself. -/
theorem not_lt_of_mod_eq
    {bits : Nat}
    (next : NextBucket hash bucket child)
    (home : hash % 2 ^ bits = bucket) :
    ¬ child < 2 ^ bits := by
  intro small
  have bound := next.le_of_mod_eq home
  exact absurd ((Nat.log2_lt next.positive).mpr small) (by omega)

/-- What a split selects is what follows the parent on the path. -/
theorem of_mod_eq
    (positive : child ≠ 0)
    (selected : hash % 2 ^ (child.log2 + 1) = child) :
    NextBucket hash (parentOf child) child where
  positive := positive
  parent := rfl
  onPath := by
    unfold OnPath
    rwa [bitWidth_of_positive positive]

end NextBucket

/-- Between two buckets of a path lies the next one after the lower. -/
theorem OnPath.exists_next
    {hash low high : Nat}
    (lower : OnPath hash low)
    (higher : OnPath hash high)
    (below : low < high) :
    ∃ child, NextBucket hash low child ∧ child ≤ high := by
  induction high using Nat.strongRecOn with
  | _ high inductionHypothesis =>
      have positive : high ≠ 0 := Nat.ne_of_gt (by omega)
      have next : NextBucket hash (parentOf high) high :=
        ⟨positive, rfl, higher⟩
      have width : bitWidth low ≤ high.log2 := by
        by_contra large
        have divides : 2 ^ (high.log2 + 1) ∣ 2 ^ bitWidth low :=
          Nat.pow_dvd_pow 2 (by omega)
        have whole := next.mod_eq
        rw [← Nat.mod_mod_of_dvd hash divides, lower] at whole
        have bound := Nat.mod_le low (2 ^ (high.log2 + 1))
        omega
      have lowEq : parentOf high % 2 ^ bitWidth low = low := by
        rw [← next.parent_mod_eq,
          Nat.mod_mod_of_dvd hash (Nat.pow_dvd_pow 2 width)]
        exact lower
      have notAbove : low ≤ parentOf high :=
        lowEq ▸ Nat.mod_le _ _
      rcases Nat.eq_or_lt_of_le notAbove with same | less
      · exact ⟨high, same ▸ next, Nat.le_refl _⟩
      · obtain ⟨child, found, bound⟩ :=
          inductionHypothesis (parentOf high) (parentOf_lt positive)
            next.bucket_onPath less
        exact ⟨child, found,
          Nat.le_trans bound (Nat.le_of_lt (parentOf_lt positive))⟩

/-- A bucket of the path is at most the one that a larger table names. -/
theorem OnPath.le_mod
    {hash bucket bits : Nat}
    (onPath : OnPath hash bucket)
    (small : bucket < 2 ^ bits) :
    bucket ≤ hash % 2 ^ bits := by
  have width : bitWidth bucket ≤ bits := bitWidth_le.mpr small
  have divides : 2 ^ bitWidth bucket ∣ 2 ^ bits :=
    Nat.pow_dvd_pow 2 width
  unfold OnPath at onPath
  rw [← Nat.mod_mod_of_dvd hash divides] at onPath
  exact onPath ▸ Nat.mod_le _ _

/-- A family of buckets that is closed under parents is closed downwards. -/
theorem OnPath.closed
    (family : Nat → Prop)
    (parents :
      ∀ {bucket},
        bucket ≠ 0 →
        family bucket →
        family (parentOf bucket))
    {hash low high : Nat}
    (lower : OnPath hash low)
    (higher : OnPath hash high)
    (bound : low ≤ high)
    (member : family high) :
    family low := by
  induction high using Nat.strongRecOn with
  | _ high inductionHypothesis =>
      rcases Nat.eq_or_lt_of_le bound with same | below
      · exact same ▸ member
      · have positive : high ≠ 0 := Nat.ne_of_gt (by omega)
        have next : NextBucket hash (parentOf high) high :=
          ⟨positive, rfl, higher⟩
        refine inductionHypothesis (parentOf high) (parentOf_lt positive)
          next.bucket_onPath ?_ (parents positive member)
        obtain ⟨child, found, small⟩ := lower.exists_next higher below
        by_contra above
        obtain ⟨other, foundOther, smallOther⟩ :=
          next.bucket_onPath.exists_next lower (by omega)
        have same : high = other := next.unique foundOther
        omega

/-- The hash bits above those of the bucket. -/
def movingBits (hash bucket : Nat) : Nat :=
  hash >>> bitWidth bucket <<< bitWidth bucket

/-- `next_child()`: the bucket itself if the key never leaves it. -/
def nextChild (hash bucket : Nat) : Nat :=
  if movingBits hash bucket = 0 then
    bucket
  else
    bucket ||| 1 <<< countrZero (movingBits hash bucket)

theorem movingBits_testBit
    (hash bucket bit : Nat) :
    (movingBits hash bucket).testBit bit =
      (decide (bitWidth bucket ≤ bit) && hash.testBit bit) := by
  simp only [movingBits, Nat.testBit_shiftLeft, Nat.testBit_shiftRight]
  by_cases high : bitWidth bucket ≤ bit
  · simp [high]
  · simp [high]

/-- The lowest set bit of a positive number. -/
theorem countrZero_spec
    {number : Nat}
    (positive : number ≠ 0) :
    number.testBit (countrZero number) = true ∧
      ∀ bit, bit < countrZero number → number.testBit bit = false := by
  have top : number.testBit number.log2 = true :=
    Nat.testBit_log2 positive
  cases found : (List.range (number.log2 + 1)).find? number.testBit with
  | none =>
      have absent := List.find?_eq_none.mp found number.log2 (by simp)
      exact absurd top absent
  | some bit =>
      have spec := List.find?_range_eq_some.mp found
      have value : countrZero number = bit := by
        simp [countrZero, found]
      rw [value]
      refine ⟨spec.1, fun lower below => ?_⟩
      simpa using spec.2.2 lower below

/-- A bucket without a higher hash bit is the last of its path. -/
theorem movingBits_ne_zero
    {hash bucket child : Nat}
    (next : NextBucket hash bucket child) :
    movingBits hash bucket ≠ 0 := by
  intro none
  have bit := movingBits_testBit hash bucket child.log2
  have width : bitWidth bucket ≤ child.log2 :=
    bitWidth_le.mpr (next.parent ▸ parentOf_lt_two_pow next.positive)
  have set : hash.testBit child.log2 = true := by
    have top := Nat.testBit_log2 next.positive
    rw [← next.mod_eq, Nat.testBit_mod_two_pow] at top
    simpa [next.mod_eq] using top
  simp [none, width, set] at bit

/-- `next_child()` finds the next bucket of the path, if there is one. -/
theorem nextChild_next
    {hash bucket : Nat}
    (onPath : OnPath hash bucket)
    (moves : movingBits hash bucket ≠ 0) :
    NextBucket hash bucket (nextChild hash bucket) := by
  obtain ⟨set, lowest⟩ := countrZero_spec moves
  have value :
      nextChild hash bucket =
        bucket ||| 2 ^ countrZero (movingBits hash bucket) := by
    simp [nextChild, moves, Nat.one_shiftLeft]
  generalize countrZero (movingBits hash bucket) = bit at set lowest value
  rw [movingBits_testBit] at set
  simp only [Bool.and_eq_true, decide_eq_true_eq] at set
  obtain ⟨high, hashBit⟩ := set
  have small : bucket < 2 ^ bit := bitWidth_le.mp high
  have sum : nextChild hash bucket = bucket + 2 ^ bit := by
    have disjoint := Nat.two_pow_add_eq_or_of_lt small 1
    rw [Nat.mul_one, Nat.or_comm] at disjoint
    omega
  have positive : nextChild hash bucket ≠ 0 := by
    have power := Nat.two_pow_pos bit
    omega
  have log : (nextChild hash bucket).log2 = bit := by
    refine (Nat.log2_eq_iff positive).mpr ⟨by omega, ?_⟩
    rw [Nat.pow_succ]
    omega
  have selected : hash % 2 ^ (bit + 1) = nextChild hash bucket := by
    apply Nat.eq_of_testBit_eq
    intro place
    rw [Nat.testBit_mod_two_pow, value, Nat.testBit_or,
      Nat.testBit_two_pow]
    have own : bucket.testBit place =
        (decide (place < bitWidth bucket) && hash.testBit place) := by
      conv_lhs => rw [← onPath]
      exact Nat.testBit_mod_two_pow hash _ place
    rw [own]
    rcases Nat.lt_trichotomy place bit with below | same | above
    · have clear := lowest place below
      rw [movingBits_testBit] at clear
      by_cases low : place < bitWidth bucket
      · simp [low, Nat.lt_succ_of_lt below, Nat.ne_of_gt below]
      · simp only [Nat.not_lt.mp low, decide_true, Bool.true_and] at clear
        simp [clear, Nat.ne_of_gt below]
    · subst same
      simp [hashBit]
    · have wide : ¬ place < bitWidth bucket := by omega
      have outside : ¬ place < bit + 1 := by omega
      simp [wide, outside, Nat.ne_of_lt above]
  have next := NextBucket.of_mod_eq positive (log.symm ▸ selected)
  have parent : parentOf (nextChild hash bucket) = bucket := by
    have split := parentOf_add positive
    rw [log] at split
    omega
  exact ⟨positive, parent, next.onPath⟩

end ConcurrentCpp
