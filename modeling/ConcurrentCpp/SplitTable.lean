import ConcurrentCpp.BucketTree
import ConcurrentCpp.ForestAdvance
import ConcurrentCpp.SetHistory

namespace ConcurrentCpp

/-!
# Tables whose buckets are split on demand

A bucket is a chain of nodes and knows up to which table size it has been
sealed.  A published bucket takes over the keys that its parent holds for it:
they are frozen in the parent, copied, and the copies become the chain of the
bucket.  A key is in the set as long as the last published bucket of its path
has an unmarked node of it.

The changes of such a table are the steps of the hash sets, whatever words
they keep it in.
-/

/-- Chains, keys, marks and seals of a hash set, and its history. -/
structure SplitTable (A K T : Type) where
  forest : Forest Nat A
  key : A → Option K
  marked : A → Bool
  frozen : A → Bool
  published : Nat → Bool
  level : Nat → Nat
  bits : Nat
  events : List (SetEvent T K)

namespace SplitTable

variable {A K T : Type}

/-- The node is on the chain of the bucket, or was. -/
def Within
    (table : SplitTable A K T)
    (bucket : Nat)
    (node : A) : Prop :=
  table.forest.place node = .linked bucket ∨
    ∃ stamp, table.forest.place node = .cut bucket stamp

/-- An unmarked node of the key. -/
def Carries
    (table : SplitTable A K T)
    (node : A)
    (key : K) : Prop :=
  table.key node = some key ∧ table.marked node = false

theorem Carries.not_marked
    {table : SplitTable A K T}
    {node : A}
    {key : K}
    (carries : table.Carries node key) :
    table.marked node ≠ true := by
  rw [carries.2]
  simp

section Hash

variable (hash : K → Nat)

/-- The bucket after this one on the path of the key is published. -/
def Moved
    (table : SplitTable A K T)
    (key : K)
    (bucket : Nat) : Prop :=
  ∃ child,
    NextBucket (hash key) bucket child ∧ table.published child = true

/-- The node stands for no key any more. -/
def Dead
    (table : SplitTable A K T)
    (bucket : Nat)
    (node : A) : Prop :=
  table.marked node = true ∨
    table.frozen node = true ∧
      ∃ key, table.key node = some key ∧ table.Moved hash key bucket

variable [DecidableEq K] (freezing : Bool) (base : Nat)

/--
What holds of every table.  The first `2 ^ base` buckets are published from
the beginning; `freezing` tells whether nodes are frozen before being copied.
-/
structure Sound (table : SplitTable A K T) : Prop where
  forest : table.forest.WellFormed
  hidden :
    ∀ {bucket},
      table.published bucket = false →
      table.forest.links (.root bucket) = none
  foundation :
    ∀ {bucket}, bucket < 2 ^ base → table.published bucket = true
  baseBits : base ≤ table.bits
  inTable :
    ∀ {bucket},
      table.published bucket = true → bucket < 2 ^ table.bits
  ancestors :
    ∀ {bucket},
      bucket ≠ 0 →
      table.published bucket = true →
      table.published (parentOf bucket) = true
  sealedParent :
    ∀ {bucket},
      2 ^ base ≤ bucket →
      table.published bucket = true →
      bucket.log2 + 1 ≤ table.level (parentOf bucket)
  levels :
    ∀ {bucket},
      table.published bucket = true → table.level bucket ≤ table.bits
  within :
    ∀ {bucket node},
      table.Within bucket node →
      table.published bucket = true ∧
        ∃ key, table.key node = some key ∧ OnPath (hash key) bucket
  exclusive :
    ∀ {node},
      table.forest.place node ≠ .off →
      table.marked node = true →
      table.frozen node = false
  unmarked :
    freezing = false →
    ∀ {node},
      table.forest.place node ≠ .off →
      table.marked node = false
  frozenSealed :
    ∀ {bucket node key},
      table.forest.place node = .linked bucket →
      table.frozen node = true →
      table.key node = some key →
      ∃ child,
        NextBucket (hash key) bucket child ∧
          child < 2 ^ table.bits ∧
          child.log2 + 1 ≤ table.level bucket
  movedFrozen :
    freezing = true →
    ∀ {bucket node key},
      table.forest.place node = .linked bucket →
      table.Carries node key →
      table.Moved hash key bucket →
      table.frozen node = true
  cutDead :
    ∀ {bucket node stamp},
      table.forest.place node = .cut bucket stamp →
      table.Dead hash bucket node
  single :
    ∀ {bucket first second key},
      table.forest.place first = .linked bucket →
      table.forest.place second = .linked bucket →
      table.Carries first key →
      table.Carries second key →
      ¬ table.Moved hash key bucket →
      first = second
  authority :
    ∀ key,
      member table.events key = true ↔
        ∃ node bucket,
          table.forest.place node = .linked bucket ∧
            table.Carries node key ∧
            ¬ table.Moved hash key bucket

end Hash

theorem Within.ne_off
    {table : SplitTable A K T}
    {bucket : Nat}
    {node : A}
    (within : table.Within bucket node) :
    table.forest.place node ≠ .off := by
  rcases within with linked | ⟨stamp, cut⟩
  · simp [linked]
  · simp [cut]

/-- A bucket whose child is not published has not handed it any key. -/
theorem not_moved_to
    {hash : K → Nat}
    {table : SplitTable A K T}
    {bucket child : Nat}
    {key : K}
    (next : NextBucket (hash key) bucket child)
    (unpublished : table.published child = false) :
    ¬ table.Moved hash key bucket := by
  rintro ⟨other, nextOther, published⟩
  rw [← next.unique nextOther, unpublished] at published
  cases published

namespace Sound

variable [DecidableEq K]

variable
  {hash : K → Nat}
  {freezing : Bool}
  {base : Nat}
  {table : SplitTable A K T}

/-- Whatever precedes a published bucket on a path is published. -/
theorem published_below
    (sound : table.Sound hash freezing base)
    {low high : Nat}
    {key : K}
    (lower : OnPath (hash key) low)
    (higher : OnPath (hash key) high)
    (bound : low ≤ high)
    (published : table.published high = true) :
    table.published low = true :=
  OnPath.closed (fun bucket => table.published bucket = true)
    sound.ancestors lower higher bound published

/-- A key has one last published bucket. -/
theorem last_unique
    (sound : table.Sound hash freezing base)
    {first second : Nat}
    {key : K}
    (onFirst : OnPath (hash key) first)
    (onSecond : OnPath (hash key) second)
    (publishedFirst : table.published first = true)
    (publishedSecond : table.published second = true)
    (lastFirst : ¬ table.Moved hash key first)
    (lastSecond : ¬ table.Moved hash key second) :
    first = second := by
  rcases Nat.lt_trichotomy first second with below | same | above
  · obtain ⟨child, next, bound⟩ := onFirst.exists_next onSecond below
    exact absurd ⟨child, next,
      sound.published_below next.onPath onSecond bound publishedSecond⟩
      lastFirst
  · exact same
  · obtain ⟨child, next, bound⟩ := onSecond.exists_next onFirst above
    exact absurd ⟨child, next,
      sound.published_below next.onPath onFirst bound publishedFirst⟩
      lastSecond

/-- Two unmarked nodes of a key that has not moved on are one. -/
theorem carrier_unique
    (sound : table.Sound hash freezing base)
    {first second : A}
    {bucket other : Nat}
    {key : K}
    (linkedFirst : table.forest.place first = .linked bucket)
    (linkedSecond : table.forest.place second = .linked other)
    (carriesFirst : table.Carries first key)
    (carriesSecond : table.Carries second key)
    (lastFirst : ¬ table.Moved hash key bucket)
    (lastSecond : ¬ table.Moved hash key other) :
    bucket = other ∧ first = second := by
  obtain ⟨publishedFirst, found, holdsFirst, onFirst⟩ :=
    sound.within (.inl linkedFirst)
  obtain ⟨publishedSecond, foundOther, holdsSecond, onSecond⟩ :=
    sound.within (.inl linkedSecond)
  cases holdsFirst.symm.trans carriesFirst.1
  cases holdsSecond.symm.trans carriesSecond.1
  have same :=
    sound.last_unique onFirst onSecond publishedFirst publishedSecond
      lastFirst lastSecond
  subst same
  exact ⟨rfl,
    sound.single linkedFirst linkedSecond carriesFirst carriesSecond
      lastFirst⟩

/-- Membership is decided in the last published bucket. -/
theorem member_iff
    (sound : table.Sound hash freezing base)
    {bucket : Nat}
    {key : K}
    (onPath : OnPath (hash key) bucket)
    (published : table.published bucket = true)
    (last : ¬ table.Moved hash key bucket) :
    member table.events key = true ↔
      ∃ node,
        table.forest.place node = .linked bucket ∧
          table.Carries node key := by
  rw [sound.authority key]
  constructor
  · rintro ⟨node, other, linked, carries, lastOther⟩
    obtain ⟨publishedOther, found, sameKey, onOther⟩ :=
      sound.within (.inl linked)
    cases sameKey.symm.trans carries.1
    have same :=
      sound.last_unique onOther onPath publishedOther published
        lastOther last
    exact ⟨node, same ▸ linked, carries⟩
  · rintro ⟨node, linked, carries⟩
    exact ⟨node, bucket, linked, carries, last⟩

/-- A key is a member if its last bucket has an unmarked node of it. -/
theorem member_of_carries
    (sound : table.Sound hash freezing base)
    {bucket : Nat}
    {node : A}
    {key : K}
    (linked : table.forest.place node = .linked bucket)
    (carries : table.Carries node key)
    (last : ¬ table.Moved hash key bucket) :
    member table.events key = true :=
  (sound.authority key).mpr ⟨node, bucket, linked, carries, last⟩

/-- The child of a bucket that is not sealed for it is not published. -/
theorem not_moved_of_level
    (sound : table.Sound hash freezing base)
    {bucket : Nat}
    {key : K}
    (unsealed :
      ∀ {child},
        NextBucket (hash key) bucket child →
        2 ^ base ≤ child ∧ table.level bucket ≤ child.log2) :
    ¬ table.Moved hash key bucket := by
  rintro ⟨child, next, published⟩
  obtain ⟨large, level⟩ := unsealed next
  have high := sound.sealedParent large published
  rw [next.parent] at high
  omega

/-- The bucket that a table of the current size names is the last. -/
theorem not_moved_of_home
    (sound : table.Sound hash freezing base)
    {bucket : Nat}
    {key : K}
    (home : hash key % 2 ^ table.bits = bucket) :
    ¬ table.Moved hash key bucket := by
  rintro ⟨child, next, published⟩
  exact next.not_lt_of_mod_eq home (sound.inTable published)

/-- A bucket that is not published has handed on nothing. -/
theorem not_moved_of_unpublished
    (sound : table.Sound hash freezing base)
    {bucket : Nat}
    (unpublished : table.published bucket = false)
    (key : K) :
    ¬ table.Moved hash key bucket := by
  rintro ⟨child, next, published⟩
  have parent := sound.ancestors next.positive published
  rw [next.parent, unpublished] at parent
  cases parent

/-- A frozen node is not marked. -/
theorem unmarked_of_frozen
    (sound : table.Sound hash freezing base)
    {node : A}
    (present : table.forest.place node ≠ .off)
    (frozen : table.frozen node = true) :
    table.marked node = false := by
  cases marked : table.marked node with
  | false =>
      rfl
  | true =>
      rw [sound.exclusive present marked] at frozen
      cases frozen

/-- An unmarked node that was cut has a successor in the child. -/
theorem moved_of_cut
    (sound : table.Sound hash freezing base)
    {bucket stamp : Nat}
    {node : A}
    {key : K}
    (cut : table.forest.place node = .cut bucket stamp)
    (carries : table.Carries node key) :
    table.Moved hash key bucket := by
  rcases sound.cutDead cut with marked | ⟨_, other, sameKey, moved⟩
  · rw [carries.2] at marked
    cases marked
  · cases sameKey.symm.trans carries.1
    exact moved

/-- An unmarked node in a bucket whose key has not moved makes it a member. -/
theorem member_of_within
    (sound : table.Sound hash freezing base)
    {bucket : Nat}
    {node : A}
    {key : K}
    (within : table.Within bucket node)
    (carries : table.Carries node key)
    (last : ¬ table.Moved hash key bucket) :
    member table.events key = true := by
  rcases within with linked | ⟨stamp, cut⟩
  · exact sound.member_of_carries linked carries last
  · exact absurd (sound.moved_of_cut cut carries) last

end Sound

end SplitTable

end ConcurrentCpp
