import ConcurrentCpp.BucketTree

namespace ConcurrentCpp.BucketGeometry

/-!
# The tree of buckets in 64-bit arithmetic

What `split_bucket()`, `is_dead()` and `next_child()` compute, on 64-bit words
and with the operators of the code.  Every computation is shown to agree with
the tree of buckets over the natural numbers, and the laws of the tree are
carried over.
-/

/-- `size_t` and `word_t`. -/
abbrev Size := BitVec 64

/-- `std::bit_floor` of a word. -/
def floorOf (bucket : Size) : Size :=
  BitVec.ofNat 64 (bitFloor bucket.toNat)

/-- `parent` of `split_bucket(j)`. -/
def parent (bucket : Size) : Size :=
  bucket - floorOf bucket

/-- `mask` of `split_bucket(j)`. -/
def splitMask (bucket : Size) : Size :=
  (floorOf bucket <<< 1) - 1

/-- `own_mask`. -/
def ownMask (bucket : Size) : Size :=
  ((1 : Size) <<< bitWidth bucket.toNat) - 1

/-- `moving_bits`. -/
def moving (hash bucket : Size) : Size :=
  hash &&& ~~~ownMask bucket

/-- The next child as `is_dead()` computes it, `none` if there is none. -/
def child (hash bucket : Size) : Option Size :=
  if moving hash bucket = 0 then
    none
  else
    some
      (bucket |||
        ((1 : Size) <<< countrZero (moving hash bucket).toNat))

/-- `LEVEL_SHIFT`. -/
def levelShift : Nat := 58

/-- `LEVEL_MASK`. -/
def levelMask : Size := 0x3F <<< levelShift

/-- `level_of(head)`. -/
def levelOf (head : Size) : Nat :=
  ((head &&& levelMask) >>> levelShift).toNat

/-- `level_for(ts)`. -/
def levelFor (tableSize : Size) : Nat :=
  countrZero tableSize.toNat

/-- `seal` of `split_bucket(j)`. -/
def sealLevel (bucket : Size) : Nat :=
  levelFor (floorOf bucket <<< 1)

/-- `sealed` of `split_bucket(j)`: the head of the parent with the level. -/
def sealedHead (head : Size) (level : Nat) : Size :=
  (head &&& ~~~levelMask) ||| (BitVec.ofNat 64 level <<< levelShift)

/-- Follow the children below a table size; `none` if the fuel is used up. -/
def descend (hash tableSize : Size) : Nat → Size → Option Size
  | 0, _ => none
  | fuel + 1, bucket =>
      match child hash bucket with
      | none => some bucket
      | some next =>
          if next < tableSize then
            descend hash tableSize fuel next
          else
            some bucket

/--
The bucket whose split ends the recursion of `split_bucket(j)`, the first with
a published parent; `none` if the fuel is used up.
-/
def lastSplit (published : Size → Bool) : Nat → Size → Option Size
  | 0, _ => none
  | fuel + 1, bucket =>
      if published (parent bucket) then
        some bucket
      else
        lastSplit published fuel (parent bucket)

section Agreement

/-- A mask of low bits, also of all of them. -/
theorem lowMask_toNat
    {bits : Nat}
    (small : bits ≤ 64) :
    (((1 : Size) <<< bits) - 1).toNat = 2 ^ bits - 1 := by
  have positive := Nat.two_pow_pos bits
  rcases Nat.lt_or_eq_of_le small with below | full
  · have fits : 2 ^ bits < 2 ^ 64 :=
      (Nat.pow_lt_pow_iff_right (by decide)).mpr below
    have one : ((1 : Size) <<< bits).toNat = 2 ^ bits := by
      rw [BitVec.toNat_shiftLeft, Nat.shiftLeft_eq,
        show (1 : Size).toNat = 1 from rfl, Nat.one_mul,
        Nat.mod_eq_of_lt fits]
    rw [BitVec.toNat_sub_of_le]
    · rw [one]
      rfl
    · rw [BitVec.le_def, one]
      exact positive
  · rw [full]
    decide

/-- What a mask of low bits keeps. -/
theorem and_lowMask_toNat
    (word : Size)
    {bits : Nat}
    (small : bits ≤ 64) :
    (word &&& (((1 : Size) <<< bits) - 1)).toNat =
      word.toNat % 2 ^ bits := by
  rw [BitVec.toNat_and, lowMask_toNat small, Nat.and_two_pow_sub_one_eq_mod]

theorem bitWidth_le_64
    (word : Size) :
    bitWidth word.toNat ≤ 64 :=
  bitWidth_le.mpr word.isLt

theorem log2_lt_64
    (word : Size)
    (positive : word.toNat ≠ 0) :
    word.toNat.log2 < 64 :=
  (Nat.log2_lt positive).mpr word.isLt

theorem floorOf_toNat
    (bucket : Size) :
    (floorOf bucket).toNat = bitFloor bucket.toNat := by
  rw [floorOf, BitVec.toNat_ofNat,
    Nat.mod_eq_of_lt (Nat.lt_of_le_of_lt (bitFloor_le _) bucket.isLt)]

/-- The parent of `split_bucket()` is the parent in the tree. -/
theorem parent_toNat
    (bucket : Size) :
    (parent bucket).toNat = parentOf bucket.toNat := by
  rw [parent, BitVec.toNat_sub_of_le, floorOf_toNat, parentOf]
  rw [BitVec.le_def, floorOf_toNat]
  exact bitFloor_le _

/-- The floor of a positive bucket is a single bit. -/
theorem floorOf_eq
    {bucket : Size}
    (positive : bucket.toNat ≠ 0) :
    floorOf bucket = (1 : Size) <<< bucket.toNat.log2 := by
  apply BitVec.eq_of_toNat_eq
  have small := log2_lt_64 bucket positive
  have fits : 2 ^ bucket.toNat.log2 < 2 ^ 64 :=
    (Nat.pow_lt_pow_iff_right (by decide)).mpr small
  rw [floorOf_toNat, bitFloor, if_neg positive, BitVec.toNat_shiftLeft,
    Nat.shiftLeft_eq, show (1 : Size).toNat = 1 from rfl, Nat.one_mul,
    Nat.mod_eq_of_lt fits]

theorem floorOf_double
    {bucket : Size}
    (positive : bucket.toNat ≠ 0) :
    floorOf bucket <<< 1 = (1 : Size) <<< (bucket.toNat.log2 + 1) := by
  rw [floorOf_eq positive, BitVec.shiftLeft_add]

/-- The mask of a split selects by the bits of the table that made it. -/
theorem and_splitMask_toNat
    (hash : Size)
    {bucket : Size}
    (positive : bucket.toNat ≠ 0) :
    (hash &&& splitMask bucket).toNat =
      hash.toNat % 2 ^ (bucket.toNat.log2 + 1) := by
  rw [splitMask, floorOf_double positive,
    and_lowMask_toNat hash (log2_lt_64 bucket positive)]

/-- The hash agrees with the bucket on its own bits: it is on the path. -/
theorem and_ownMask_eq_iff
    (hash bucket : Size) :
    hash &&& ownMask bucket = bucket ↔
      OnPath hash.toNat bucket.toNat := by
  rw [← BitVec.toNat_inj, ownMask,
    and_lowMask_toNat hash (bitWidth_le_64 bucket)]
  rfl

theorem moving_toNat
    (hash bucket : Size) :
    (moving hash bucket).toNat = movingBits hash.toNat bucket.toNat := by
  apply Nat.eq_of_testBit_eq
  intro bit
  rw [movingBits_testBit, BitVec.testBit_toNat, moving, BitVec.getLsbD_and,
    BitVec.getLsbD_not, ← BitVec.testBit_toNat, ← BitVec.testBit_toNat,
    ownMask, lowMask_toNat (bitWidth_le_64 bucket),
    Nat.testBit_two_pow_sub_one]
  by_cases inside : bit < 64
  · by_cases high : bitWidth bucket.toNat ≤ bit
    · simp [inside, high, Nat.not_lt.mpr high]
    · simp [inside, high, Nat.lt_of_not_le high]
  · have outside : hash.toNat.testBit bit = false :=
      Nat.testBit_lt_two_pow
        (Nat.lt_of_lt_of_le hash.isLt
          (Nat.pow_le_pow_right (by decide) (Nat.not_lt.mp inside)))
    simp [outside]

/-- The child of `is_dead()` is the next bucket of the path. -/
theorem child_eq_some_iff
    {hash bucket : Size}
    (onPath : OnPath hash.toNat bucket.toNat)
    (next : Size) :
    child hash bucket = some next ↔
      NextBucket hash.toNat bucket.toNat next.toNat := by
  by_cases still : movingBits hash.toNat bucket.toNat = 0
  · have none : child hash bucket = none := by
      rw [child, if_pos]
      apply BitVec.eq_of_toNat_eq
      rw [moving_toNat, still]
      rfl
    rw [none]
    exact ⟨nofun, fun found => absurd still (movingBits_ne_zero found)⟩
  · have nonzero : moving hash bucket ≠ 0 := by
      intro zero
      rw [← moving_toNat, zero] at still
      exact still rfl
    have found := nextChild_next onPath still
    have small :
        countrZero (movingBits hash.toNat bucket.toNat) < 64 := by
      by_contra large
      have set := (countrZero_spec still).1
      have clear :
          (movingBits hash.toNat bucket.toNat).testBit
              (countrZero (movingBits hash.toNat bucket.toNat)) =
            false := by
        rw [← moving_toNat]
        exact Nat.testBit_lt_two_pow
          (Nat.lt_of_lt_of_le (moving hash bucket).isLt
            (Nat.pow_le_pow_right (by decide) (by
              rw [moving_toNat]
              exact Nat.not_lt.mp large)))
      rw [set] at clear
      exact absurd clear (by decide)
    have value :
        (bucket |||
            ((1 : Size) <<< countrZero (moving hash bucket).toNat)).toNat =
          nextChild hash.toNat bucket.toNat := by
      have fits :
          2 ^ countrZero (movingBits hash.toNat bucket.toNat) < 2 ^ 64 :=
        (Nat.pow_lt_pow_iff_right (by decide)).mpr small
      rw [BitVec.toNat_or, BitVec.toNat_shiftLeft, moving_toNat,
        nextChild, if_neg still, Nat.shiftLeft_eq,
        show (1 : Size).toNat = 1 from rfl, Nat.one_mul,
        Nat.mod_eq_of_lt fits, Nat.one_shiftLeft]
    rw [← value] at found
    rw [child, if_neg nonzero, Option.some_inj]
    constructor
    · intro same
      exact same ▸ found
    · intro other
      exact BitVec.eq_of_toNat_eq (found.unique other)

end Agreement

section Laws

/-- The parent of a child is the bucket. -/
theorem parent_child
    {hash bucket next : Size}
    (agrees : hash &&& ownMask bucket = bucket)
    (found : child hash bucket = some next) :
    parent next = bucket := by
  have onPath := (and_ownMask_eq_iff hash bucket).mp agrees
  apply BitVec.eq_of_toNat_eq
  rw [parent_toNat]
  exact ((child_eq_some_iff onPath next).mp found).parent

/-- Of the splits off a bucket exactly the one of the child selects the hash. -/
theorem selected_iff_child
    {hash bucket : Size}
    (agrees : hash &&& ownMask bucket = bucket)
    {other : Size}
    (positive : other ≠ 0)
    (split : parent other = bucket) :
    hash &&& splitMask other = other ↔ child hash bucket = some other := by
  have onPath := (and_ownMask_eq_iff hash bucket).mp agrees
  have nonzero : other.toNat ≠ 0 := by
    intro zero
    exact positive (BitVec.eq_of_toNat_eq zero)
  rw [child_eq_some_iff onPath, ← BitVec.toNat_inj,
    and_splitMask_toNat hash nonzero]
  constructor
  · intro selected
    have next := NextBucket.of_mod_eq nonzero selected
    rwa [← parent_toNat, split] at next
  · intro next
    exact next.mod_eq

/-- A child is wider than its bucket. -/
theorem bitWidth_lt_child
    {hash bucket next : Nat}
    (found : NextBucket hash bucket next) :
    bitWidth bucket < bitWidth next := by
  have below : bucket < 2 ^ next.log2 :=
    found.parent ▸ parentOf_lt_two_pow found.positive
  rw [bitWidth_of_positive found.positive]
  exact Nat.lt_succ_of_le (bitWidth_le.mpr below)

/-- The children lead to the bucket that the table names. -/
theorem descend_eq
    {hash tableSize : Size}
    {bits : Nat}
    (power : tableSize.toNat = 2 ^ bits) :
    ∀ {fuel : Nat} {bucket : Size},
      OnPath hash.toNat bucket.toNat →
      bucket < tableSize →
      64 < bitWidth bucket.toNat + fuel →
      descend hash tableSize fuel bucket =
        some (hash &&& (tableSize - 1)) := by
  have small : bits ≤ 64 := by
    have bound := tableSize.isLt
    rw [power] at bound
    exact Nat.le_of_lt ((Nat.pow_lt_pow_iff_right (by decide)).mp bound)
  have home :
      (hash &&& (tableSize - 1)).toNat = hash.toNat % 2 ^ bits := by
    have single : tableSize = (1 : Size) <<< bits := by
      apply BitVec.eq_of_toNat_eq
      have bound := tableSize.isLt
      rw [power] at bound
      rw [power, BitVec.toNat_shiftLeft, Nat.shiftLeft_eq,
        show (1 : Size).toNat = 1 from rfl, Nat.one_mul,
        Nat.mod_eq_of_lt bound]
    rw [single, and_lowMask_toNat hash small]
  -- The path ends where no child is left inside of the table.
  have ends :
      ∀ {bucket : Size},
        OnPath hash.toNat bucket.toNat →
        bucket < tableSize →
        (∀ next, child hash bucket = some next → ¬ next < tableSize) →
        bucket = hash &&& (tableSize - 1) := by
    intro bucket onPath inside outside
    apply BitVec.eq_of_toNat_eq
    rw [home]
    rw [BitVec.lt_def, power] at inside
    refine Nat.le_antisymm (onPath.le_mod inside) (Nat.not_lt.mp ?_)
    intro further
    obtain ⟨next, found, within⟩ :=
      onPath.exists_next (onPath_mod hash.toNat bits) further
    have bound : next < 2 ^ bits :=
      Nat.lt_of_le_of_lt within (Nat.mod_lt _ (Nat.two_pow_pos bits))
    have fits : next < 2 ^ 64 :=
      Nat.lt_of_lt_of_le bound (Nat.pow_le_pow_right (by decide) small)
    have word : (BitVec.ofNat 64 next).toNat = next := by
      rw [BitVec.toNat_ofNat, Nat.mod_eq_of_lt fits]
    refine outside (BitVec.ofNat 64 next) ?_ ?_
    · rw [child_eq_some_iff onPath, word]
      exact found
    · rw [BitVec.lt_def, word, power]
      exact bound
  intro fuel
  induction fuel with
  | zero =>
      intro bucket _ _ enough
      exact absurd (bitWidth_le_64 bucket) (by omega)
  | succ fuel inductionHypothesis =>
      intro bucket onPath inside enough
      unfold descend
      cases found : child hash bucket with
      | none =>
          have last :=
            ends onPath inside fun next some => by
              rw [found] at some
              cases some
          exact congrArg some last
      | some next =>
          dsimp only
          have follows := (child_eq_some_iff onPath next).mp found
          by_cases below : next < tableSize
          · rw [if_pos below]
            have wider := bitWidth_lt_child follows
            exact inductionHypothesis follows.onPath below (by omega)
          · rw [if_neg below]
            have last :=
              ends onPath inside fun other same => by
                rw [found] at same
                cases same
                exact below
            exact congrArg some last

/-- A parent is narrower than its bucket. -/
theorem bitWidth_parent
    {bucket : Size}
    (positive : bucket.toNat ≠ 0) :
    bitWidth (parent bucket).toNat < bitWidth bucket.toNat := by
  rw [parent_toNat, bitWidth_of_positive positive]
  exact Nat.lt_succ_of_le (bitWidth_le.mpr (parentOf_lt_two_pow positive))

/-- The recursion over the parents ends at a published one. -/
theorem lastSplit_ends
    (published : Size → Bool)
    (root : published 0 = true) :
    ∀ {fuel : Nat} {bucket : Size},
      bitWidth bucket.toNat < fuel →
      ∃ last,
        lastSplit published fuel bucket = some last ∧
          published (parent last) = true := by
  intro fuel
  induction fuel with
  | zero =>
      intro bucket enough
      exact absurd enough (Nat.not_lt_zero _)
  | succ fuel inductionHypothesis =>
      intro bucket enough
      unfold lastSplit
      by_cases done : published (parent bucket) = true
      · rw [if_pos done]
        exact ⟨bucket, rfl, done⟩
      · rw [if_neg done]
        have positive : bucket.toNat ≠ 0 := by
          intro zero
          have bottom : parent bucket = 0 := by
            apply BitVec.eq_of_toNat_eq
            rw [parent_toNat, zero]
            rfl
          exact done (bottom ▸ root)
        have narrower := bitWidth_parent positive
        exact inductionHypothesis (by omega)

end Laws

section Levels

theorem countrZero_two_pow
    (bits : Nat) :
    countrZero (2 ^ bits) = bits := by
  have positive : 2 ^ bits ≠ 0 := Nat.ne_of_gt (Nat.two_pow_pos bits)
  have set := (countrZero_spec positive).1
  rw [Nat.testBit_two_pow] at set
  exact (of_decide_eq_true set).symm

theorem levelFor_two_pow
    {tableSize : Size}
    {bits : Nat}
    (power : tableSize.toNat = 2 ^ bits) :
    levelFor tableSize = bits := by
  rw [levelFor, power, countrZero_two_pow]

/-- The seal of a bucket is the level of the table that made it. -/
theorem sealLevel_eq
    {bucket : Size}
    (positive : bucket.toNat ≠ 0)
    (small : bucket.toNat < 2 ^ 63) :
    sealLevel bucket = bucket.toNat.log2 + 1 := by
  have log : bucket.toNat.log2 < 63 := (Nat.log2_lt positive).mpr small
  have fits : 2 ^ (bucket.toNat.log2 + 1) < 2 ^ 64 :=
    (Nat.pow_lt_pow_iff_right (by decide)).mpr (by omega)
  apply levelFor_two_pow
  rw [floorOf_double positive, BitVec.toNat_shiftLeft, Nat.shiftLeft_eq,
    show (1 : Size).toNat = 1 from rfl, Nat.one_mul, Nat.mod_eq_of_lt fits]

/-- Which bits of a word the level field has. -/
theorem levelMask_getLsbD :
    ∀ index < 64, levelMask.getLsbD index = decide (58 ≤ index) := by
  decide

/-- A level of six bits is read back from the head it was stored in. -/
theorem levelOf_sealedHead
    (head : Size)
    {level : Nat}
    (small : level < 64) :
    levelOf (sealedHead head level) = level := by
  have field :
      (sealedHead head level &&& levelMask) >>> 58 =
        BitVec.ofNat 64 level := by
    apply BitVec.eq_of_getLsbD_eq
    intro index within
    rw [BitVec.getLsbD_ushiftRight, BitVec.getLsbD_and, sealedHead,
      levelShift, BitVec.getLsbD_or, BitVec.getLsbD_and,
      BitVec.getLsbD_not, BitVec.getLsbD_shiftLeft,
      Nat.add_sub_cancel_left]
    by_cases inside : 58 + index < 64
    · rw [levelMask_getLsbD (58 + index) inside]
      simp [inside]
    · have high : (BitVec.ofNat 64 level).getLsbD index = false := by
        rw [← BitVec.testBit_toNat, BitVec.toNat_ofNat,
          Nat.mod_eq_of_lt (Nat.lt_trans small (by decide))]
        have wide : 2 ^ 6 ≤ 2 ^ index :=
          Nat.pow_le_pow_right (by decide) (by omega)
        exact Nat.testBit_lt_two_pow (Nat.lt_of_lt_of_le small wide)
      rw [high, BitVec.getLsbD_of_ge _ _ (Nat.not_lt.mp inside)]
      simp
  rw [levelOf, levelShift, field, BitVec.toNat_ofNat,
    Nat.mod_eq_of_lt (Nat.lt_trans small (by decide))]

/-- Storing a level keeps the other bits of the head. -/
theorem sealedHead_rest
    (head : Size)
    (level : Nat) :
    sealedHead head level &&& ~~~levelMask = head &&& ~~~levelMask := by
  apply BitVec.eq_of_getLsbD_eq
  intro index within
  rw [BitVec.getLsbD_and, sealedHead, levelShift, BitVec.getLsbD_or,
    BitVec.getLsbD_and, BitVec.getLsbD_not, levelMask_getLsbD index within,
    BitVec.getLsbD_shiftLeft]
  by_cases high : 58 ≤ index
  · simp [high, within]
  · simp [high, Nat.lt_of_not_le high, within]

end Levels

/--
The geometry of the bucket tree.  The child that the dead-node rule computes
is the only bucket whose split off this one selects the hash, the children
lead to the bucket that any larger table names, the recursion over the parents
ends below the initial capacity, and the seal of a bucket is a level of six
bits that no table with the bucket falls short of.
-/
theorem bucket_geometry
    (hash bucket : Size)
    (agrees : hash &&& ownMask bucket = bucket) :
    (∀ next, child hash bucket = some next → parent next = bucket) ∧
      (∀ other,
        other ≠ 0 →
        parent other = bucket →
          (hash &&& splitMask other = other ↔
            child hash bucket = some other)) ∧
      (∀ (tableSize : Size) (bits fuel : Nat),
        tableSize.toNat = 2 ^ bits →
        bucket < tableSize →
        64 < fuel →
          descend hash tableSize fuel bucket =
            some (hash &&& (tableSize - 1))) ∧
      (∀ (capacity split : Size) (published : Size → Bool) (fuel : Nat),
        0 < capacity →
        (∀ below < capacity, published below = true) →
        64 < fuel →
          (∃ last,
            lastSplit published fuel split = some last ∧
              published (parent last) = true) ∧
          ∃ last,
            lastSplit (fun index => decide (index < capacity)) fuel split =
                some last ∧
              parent last < capacity) ∧
      ∀ split : Size,
        split ≠ 0 →
        split.toNat < 2 ^ 63 →
          sealLevel split = (2 * bitFloor split.toNat).log2 ∧
            sealLevel split ≤ 63 ∧
            (∀ head,
              levelOf (sealedHead head (sealLevel split)) =
                  sealLevel split ∧
                sealedHead head (sealLevel split) &&& ~~~levelMask =
                  head &&& ~~~levelMask) ∧
            ∀ (tableSize : Size) (bits : Nat),
              tableSize.toNat = 2 ^ bits →
              split < tableSize →
                sealLevel split ≤ levelFor tableSize ∧
                  levelFor tableSize = bits := by
  have onPath := (and_ownMask_eq_iff hash bucket).mp agrees
  refine ⟨fun next found => parent_child agrees found,
    fun other positive split => selected_iff_child agrees positive split,
    ?_, ?_, ?_⟩
  · intro tableSize bits fuel power inside enough
    exact descend_eq power onPath inside (by omega)
  · intro capacity split published fuel positive below enough
    have width : bitWidth split.toNat < fuel :=
      Nat.lt_of_le_of_lt (bitWidth_le_64 split) enough
    refine ⟨lastSplit_ends published (below 0 positive) width, ?_⟩
    obtain ⟨last, ended, inside⟩ :=
      lastSplit_ends (fun index => decide (index < capacity))
        (decide_eq_true positive) width
    exact ⟨last, ended, of_decide_eq_true inside⟩
  · intro split nonzero small
    have positive : split.toNat ≠ 0 := by
      intro zero
      exact nonzero (BitVec.eq_of_toNat_eq zero)
    have log : split.toNat.log2 < 63 := (Nat.log2_lt positive).mpr small
    have level := sealLevel_eq positive small
    rw [level]
    refine ⟨?_, by omega, fun head => ?_, ?_⟩
    · rw [bitFloor, if_neg positive, ← Nat.pow_succ', Nat.log2_two_pow]
    · exact ⟨levelOf_sealedHead head (by omega), sealedHead_rest head _⟩
    · intro tableSize bits power inside
      rw [levelFor_two_pow power]
      refine ⟨?_, rfl⟩
      rw [BitVec.lt_def, power] at inside
      exact (Nat.log2_lt positive).mpr inside

/-- Bucket 5 with a hash whose next bit above it is bit 4. -/
theorem bucket_geometry_five :
    child 0x35 5 = some 21 ∧
      parent 21 = 5 ∧
      descend 0x35 64 65 5 = some ((0x35 : Size) &&& (64 - 1)) := by
  have agrees : (0x35 : Size) &&& ownMask 5 = 5 := by decide
  have found : child 0x35 5 = some 21 := by decide
  obtain ⟨parents, _, descends, _⟩ := bucket_geometry 0x35 5 agrees
  exact ⟨found, parents 21 found,
    descends 64 6 65 (by decide) (by decide) (by decide)⟩

end ConcurrentCpp.BucketGeometry
