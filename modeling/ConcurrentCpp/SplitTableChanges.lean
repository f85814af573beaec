import ConcurrentCpp.SplitTable

namespace ConcurrentCpp.SplitTable

/-!
# The changes of a split table

A node is put in front of a bucket, marked or frozen; a bucket is sealed or
published; the table doubles; a run of dead nodes is unlinked; nodes that are
on no chain are rewritten.  Each change keeps the table sound.
-/

variable {A K T : Type}

section Definitions

variable [DecidableEq A]

/-- Record an event that does not change the set. -/
def record
    (table : SplitTable A K T)
    (event : SetEvent T K) :
    SplitTable A K T :=
  { table with events := event :: table.events }

/-- Put a node in front of a bucket. -/
def prepend
    (table : SplitTable A K T)
    (thread : T)
    (bucket : Nat)
    (node : A)
    (key : K) :
    SplitTable A K T :=
  { table with
    forest := table.forest.insertAfter bucket (.root bucket) node
    events := .added thread key :: table.events }

/-- Mark a node. -/
def mark
    (table : SplitTable A K T)
    (thread : T)
    (node : A)
    (key : K) :
    SplitTable A K T :=
  { table with
    marked := Function.update table.marked node true
    events := .removed thread key :: table.events }

/-- Freeze a node. -/
def freeze
    (table : SplitTable A K T)
    (node : A) :
    SplitTable A K T :=
  { table with frozen := Function.update table.frozen node true }

/-- Raise the seal level of a bucket. -/
def sealBucket
    (table : SplitTable A K T)
    (bucket level : Nat) :
    SplitTable A K T :=
  { table with level := Function.update table.level bucket level }

/-- Make a list of copies the chain of an unpublished bucket. -/
def publish
    (table : SplitTable A K T)
    (bucket : Nat)
    (copies : List A) :
    SplitTable A K T :=
  { table with
    forest := table.forest.publish bucket copies
    published := Function.update table.published bucket true
    level := Function.update table.level bucket 0 }

/-- Double the table. -/
def double
    (table : SplitTable A K T) :
    SplitTable A K T :=
  { table with bits := table.bits + 1 }

/-- Bypass a run of nodes. -/
def unlink
    (table : SplitTable A K T)
    (bucket : Nat)
    (cell : Cell Nat A)
    (run : List A) :
    SplitTable A K T :=
  { table with forest := table.forest.cutRun bucket cell run }

/-- Rewrite the words of a node. -/
def rewrite
    (table : SplitTable A K T)
    (node : A)
    (next : Option A)
    (key : Option K)
    (marked frozen : Bool) :
    SplitTable A K T :=
  { table with
    forest := table.forest.setLink node next
    key := Function.update table.key node key
    marked := Function.update table.marked node marked
    frozen := Function.update table.frozen node frozen }

end Definitions

section Requirements

variable [DecidableEq A] (hash : K → Nat) (freezing : Bool) (base : Nat)

/-- The node may be put in front of the bucket. -/
structure Prependable
    (table : SplitTable A K T)
    (bucket : Nat)
    (node : A)
    (key : K) : Prop where
  off : table.forest.place node = .off
  published : table.published bucket = true
  onPath : OnPath (hash key) bucket
  holds : table.key node = some key
  unmarked : table.marked node = false
  unfrozen : table.frozen node = false
  leads :
    table.forest.links (.node node) = table.forest.links (.root bucket)
  unsealed :
    ∀ {child},
      NextBucket (hash key) bucket child →
      2 ^ base ≤ child ∧ table.level bucket ≤ child.log2
  absent :
    ∀ {other},
      table.forest.place other = .linked bucket →
      ¬ table.Carries other key

/-- The node may be marked. -/
structure Markable
    (table : SplitTable A K T)
    (bucket : Nat)
    (node : A)
    (key : K) : Prop where
  freezes : freezing = true
  linked : table.forest.place node = .linked bucket
  carries : table.Carries node key
  unfrozen : table.frozen node = false

/-- The node may be frozen for a child of its bucket. -/
structure Freezable
    (table : SplitTable A K T)
    (bucket child : Nat)
    (node : A)
    (key : K) : Prop where
  linked : table.forest.place node = .linked bucket
  carries : table.Carries node key
  next : NextBucket (hash key) bucket child
  inTable : child < 2 ^ table.bits
  sealedFor : child.log2 + 1 ≤ table.level bucket

/-- The copies may become the chain of the bucket. -/
structure Splittable
    (table : SplitTable A K T)
    (bucket : Nat)
    (copies : List A) : Prop where
  positive : bucket ≠ 0
  unpublished : table.published bucket = false
  inTable : bucket < 2 ^ table.bits
  parent : table.published (parentOf bucket) = true
  sealedFor : bucket.log2 + 1 ≤ table.level (parentOf bucket)
  publishable : table.forest.Publishable bucket copies
  live :
    ∀ node ∈ copies,
      table.marked node = false ∧ table.frozen node = false
  copied :
    ∀ {key},
      (∃ node ∈ copies, table.key node = some key) ↔
        NextBucket (hash key) (parentOf bucket) bucket ∧
          ∃ original,
            table.forest.place original = .linked (parentOf bucket) ∧
              table.Carries original key
  keyed : ∀ node ∈ copies, table.key node ≠ none
  distinct :
    ∀ {first second key},
      first ∈ copies →
      second ∈ copies →
      table.key first = some key →
      table.key second = some key →
      first = second
  originals :
    freezing = true →
    ∀ {original key},
      table.forest.place original = .linked (parentOf bucket) →
      table.Carries original key →
      NextBucket (hash key) (parentOf bucket) bucket →
      table.frozen original = true

/-- The run behind the cell may be bypassed. -/
structure Unlinkable
    (table : SplitTable A K T)
    (bucket : Nat)
    (cell : Cell Nat A)
    (run : List A) : Prop where
  attached : table.forest.Attached bucket cell
  segment : Segment table.forest.links cell run
  dead : ∀ node ∈ run, table.Dead hash bucket node
  untagged :
    ∀ {node},
      cell = .node node →
      table.marked node = false ∧ table.frozen node = false

end Requirements

variable [DecidableEq K]

variable
  {hash : K → Nat}
  {freezing : Bool}
  {base : Nat}
  {table : SplitTable A K T}

/-- Events that change nothing are invisible. -/
theorem record_sound
    (sound : table.Sound hash freezing base)
    (event : SetEvent T K)
    (neutral : ¬ event.Updates) :
    (table.record event).Sound hash freezing base :=
  { sound with
    authority := fun key => by
      have same :
          member (table.record event).events key =
            member table.events key :=
        member_of_not_updates neutral table.events key
      rw [same]
      exact sound.authority key }

/-- A table that differs only in nodes that are on no chain any more. -/
theorem Sound.of_agree
    {changed : SplitTable A K T}
    (sound : table.Sound hash freezing base)
    (wellFormed : changed.forest.WellFormed)
    (roots :
      ∀ bucket,
        changed.forest.links (.root bucket) =
          table.forest.links (.root bucket))
    (place :
      ∀ node,
        changed.forest.place node = table.forest.place node ∨
          (∃ bucket stamp,
            table.forest.place node = .cut bucket stamp) ∧
          changed.forest.place node = .off)
    (agree :
      ∀ node,
        changed.forest.place node ≠ .off →
        changed.key node = table.key node ∧
          changed.marked node = table.marked node ∧
          changed.frozen node = table.frozen node)
    (published : changed.published = table.published)
    (level : changed.level = table.level)
    (bits : changed.bits = table.bits)
    (events : changed.events = table.events) :
    changed.Sound hash freezing base := by
  have linked :
      ∀ {node bucket},
        changed.forest.place node = .linked bucket ↔
          table.forest.place node = .linked bucket := by
    intro node bucket
    rcases place node with same | ⟨⟨_, _, cut⟩, off⟩
    · rw [same]
    · simp [cut, off]
  have cut :
      ∀ {node bucket stamp},
        changed.forest.place node = .cut bucket stamp →
        table.forest.place node = .cut bucket stamp := by
    intro node bucket stamp known
    rcases place node with same | ⟨_, off⟩
    · rwa [same] at known
    · rw [off] at known
      cases known
  have present :
      ∀ {node},
        changed.forest.place node ≠ .off →
        table.forest.place node ≠ .off := by
    intro node known off
    rcases place node with same | ⟨_, gone⟩
    · exact known (same.trans off)
    · exact known gone
  have carries :
      ∀ {node bucket key},
        table.forest.place node = .linked bucket →
        (changed.Carries node key ↔ table.Carries node key) := by
    intro node bucket key known
    obtain ⟨sameKey, sameMark, _⟩ :=
      agree node (by simp [linked.mpr known])
    simp [Carries, sameKey, sameMark]
  have moved :
      ∀ {key bucket},
        changed.Moved hash key bucket ↔ table.Moved hash key bucket := by
    intro key bucket
    simp [Moved, published]
  refine
    { forest := wellFormed
      hidden := ?_
      foundation := ?_
      baseBits := bits ▸ sound.baseBits
      inTable := ?_
      ancestors := ?_
      sealedParent := ?_
      levels := ?_
      within := ?_
      exclusive := ?_
      unmarked := ?_
      frozenSealed := ?_
      movedFrozen := ?_
      cutDead := ?_
      single := ?_
      authority := ?_ }
  · intro bucket unpublished
    rw [roots]
    exact sound.hidden (published ▸ unpublished)
  · intro bucket small
    rw [published]
    exact sound.foundation small
  · intro bucket known
    rw [bits]
    exact sound.inTable (published ▸ known)
  · intro bucket positive known
    rw [published] at known ⊢
    exact sound.ancestors positive known
  · intro bucket large known
    rw [published] at known
    rw [level]
    exact sound.sealedParent large known
  · intro bucket known
    rw [level, bits]
    exact sound.levels (published ▸ known)
  · intro bucket node within
    have before : table.Within bucket node := by
      rcases within with known | ⟨stamp, known⟩
      · exact .inl (linked.mp known)
      · exact .inr ⟨stamp, cut known⟩
    rw [published, (agree node within.ne_off).1]
    exact sound.within before
  · intro node known
    rw [(agree node known).2.1, (agree node known).2.2]
    exact sound.exclusive (present known)
  · intro without node known
    rw [(agree node known).2.1]
    exact sound.unmarked without (present known)
  · intro bucket node key known
    rw [(agree node (by simp [known])).1,
      (agree node (by simp [known])).2.2, level, bits]
    exact sound.frozenSealed (linked.mp known)
  · intro freezes bucket node key known holds movedKey
    rw [(agree node (by simp [known])).2.2]
    exact sound.movedFrozen freezes (linked.mp known)
      ((carries (linked.mp known)).mp holds) (moved.mp movedKey)
  · intro bucket node stamp known
    obtain ⟨sameKey, sameMark, sameFrozen⟩ :=
      agree node (by simp [known])
    simp only [Dead, sameKey, sameMark, sameFrozen, moved]
    exact sound.cutDead (cut known)
  · intro bucket first second key onFirst onSecond left right last
    exact sound.single (linked.mp onFirst) (linked.mp onSecond)
      ((carries (linked.mp onFirst)).mp left)
      ((carries (linked.mp onSecond)).mp right)
      (fun movedKey => last (moved.mpr movedKey))
  · intro key
    rw [events, sound.authority key]
    refine exists_congr fun node => exists_congr fun bucket => ?_
    rw [linked, moved]
    exact and_congr_right fun known => by rw [carries known]

/-- A node that was unmarked keeps its key in the set until it is marked. -/
theorem mark_sound
    [DecidableEq A]
    (sound : table.Sound hash freezing base)
    {thread : T}
    {bucket : Nat}
    {node : A}
    {key : K}
    (markable : table.Markable freezing bucket node key) :
    (table.mark thread node key).Sound hash freezing base := by
  have last : ¬ table.Moved hash key bucket := by
    intro moved
    have frozen :=
      sound.movedFrozen markable.freezes markable.linked
        markable.carries moved
    rw [markable.unfrozen] at frozen
    cases frozen
  have carries :
      ∀ {other found},
        (table.mark thread node key).Carries other found ↔
          other ≠ node ∧ table.Carries other found := by
    intro other found
    by_cases same : other = node
    · subst same
      simp [Carries, mark]
    · simp [Carries, mark, same]
  refine
    { sound with
      exclusive := ?_
      unmarked := ?_
      movedFrozen := ?_
      cutDead := ?_
      single := ?_
      authority := ?_ }
  · intro other present marked
    by_cases same : other = node
    · subst same
      exact markable.unfrozen
    · exact sound.exclusive present (by simpa [mark, same] using marked)
  · intro without
    rw [markable.freezes] at without
    cases without
  · intro freezes chain other found linked holds moved
    exact sound.movedFrozen freezes linked (carries.mp holds).2 moved
  · intro chain other stamp cut
    rcases sound.cutDead cut with marked | frozen
    · refine .inl ?_
      by_cases same : other = node
      · simp [mark, same]
      · simpa [mark, same] using marked
    · exact .inr frozen
  · intro chain first second found onFirst onSecond left right stays
    exact sound.single onFirst onSecond (carries.mp left).2
      (carries.mp right).2 stays
  · intro found
    by_cases same : key = found
    · subst same
      have gone : member (table.mark thread node key).events key = false := by
        simp [mark, member]
      rw [gone]
      simp only [Bool.false_eq_true, false_iff]
      rintro ⟨other, chain, linked, holds, stays⟩
      obtain ⟨different, before⟩ := carries.mp holds
      obtain ⟨published, _, sameKey, onPath⟩ := sound.within (.inl linked)
      obtain ⟨publishedHere, _, keyHere, onPathHere⟩ :=
        sound.within (.inl markable.linked)
      cases sameKey.symm.trans before.1
      cases keyHere.symm.trans markable.carries.1
      have sameBucket :=
        sound.last_unique onPath onPathHere published publishedHere
          stays last
      exact different
        (sound.single (sameBucket ▸ linked) markable.linked before
          markable.carries last)
    · have kept :
          member (table.mark thread node key).events found =
            member table.events found := by
        simp [mark, member, same]
      rw [kept, sound.authority found]
      refine exists_congr fun other => exists_congr fun chain => ?_
      refine and_congr_right fun linked => ?_
      rw [carries]
      constructor
      · rintro ⟨holds, stays⟩
        refine ⟨⟨?_, holds⟩, stays⟩
        rintro rfl
        exact same
          (Option.some.inj (markable.carries.1.symm.trans holds.1))
      · rintro ⟨⟨_, holds⟩, stays⟩
        exact ⟨holds, stays⟩

/-- Freezing a node for a child of its bucket. -/
theorem freeze_sound
    [DecidableEq A]
    (sound : table.Sound hash freezing base)
    {bucket child : Nat}
    {node : A}
    {key : K}
    (freezable : table.Freezable hash bucket child node key) :
    (table.freeze node).Sound hash freezing base := by
  refine
    { sound with
      exclusive := ?_
      frozenSealed := ?_
      movedFrozen := ?_
      cutDead := ?_ }
  · intro other present marked
    by_cases same : other = node
    · subst same
      exact absurd marked (by simp [freeze, freezable.carries.2])
    · simpa [freeze, same] using sound.exclusive present marked
  · intro chain other found linked frozen holds
    by_cases same : other = node
    · subst same
      cases freezable.linked.symm.trans linked
      cases freezable.carries.1.symm.trans holds
      exact ⟨child, freezable.next, freezable.inTable,
        freezable.sealedFor⟩
    · exact sound.frozenSealed linked
        (by simpa [freeze, same] using frozen) holds
  · intro freezes chain other found linked holds moved
    by_cases same : other = node
    · simp [freeze, same]
    · simpa [freeze, same] using
        sound.movedFrozen freezes linked holds moved
  · intro chain other stamp cut
    rcases sound.cutDead cut with marked | ⟨frozen, dead⟩
    · exact .inl marked
    · refine .inr ⟨?_, dead⟩
      by_cases same : other = node
      · simp [freeze, same]
      · simpa [freeze, same] using frozen

omit [DecidableEq K] in
private theorem sealBucket_level
    {bucket level : Nat}
    (higher : table.level bucket ≤ level)
    (other : Nat) :
    table.level other ≤ (table.sealBucket bucket level).level other := by
  by_cases same : other = bucket
  · subst same
    simpa [sealBucket] using higher
  · simp [sealBucket, same]

/-- Sealing a bucket for a size that the table has. -/
theorem sealBucket_sound
    (sound : table.Sound hash freezing base)
    {bucket level : Nat}
    (higher : table.level bucket ≤ level)
    (inTable : level ≤ table.bits) :
    (table.sealBucket bucket level).Sound hash freezing base := by
  refine
    { sound with
      sealedParent := ?_
      levels := ?_
      frozenSealed := ?_ }
  · intro child large published
    exact Nat.le_trans (sound.sealedParent large published)
      (sealBucket_level higher _)
  · intro other published
    by_cases same : other = bucket
    · subst same
      simpa [sealBucket] using inTable
    · simpa [sealBucket, same] using sound.levels published
  · intro chain node key linked frozen holds
    obtain ⟨child, next, small, low⟩ :=
      sound.frozenSealed linked frozen holds
    exact ⟨child, next, small,
      Nat.le_trans low (sealBucket_level higher _)⟩

/-- Doubling adds buckets that are not published. -/
theorem double_sound
    (sound : table.Sound hash freezing base) :
    table.double.Sound hash freezing base := by
  have larger : 2 ^ table.bits ≤ 2 ^ (table.bits + 1) :=
    Nat.pow_le_pow_right (by decide) (Nat.le_succ _)
  refine
    { sound with
      baseBits := Nat.le_succ_of_le sound.baseBits
      inTable := ?_
      levels := ?_
      frozenSealed := ?_ }
  · intro bucket published
    exact Nat.lt_of_lt_of_le (sound.inTable published) larger
  · intro bucket published
    exact Nat.le_succ_of_le (sound.levels published)
  · intro chain node key linked frozen holds
    obtain ⟨child, next, small, low⟩ :=
      sound.frozenSealed linked frozen holds
    exact ⟨child, next, Nat.lt_of_lt_of_le small larger, low⟩

section Chains

variable [DecidableEq A]

/-- A key that is absent from its last bucket may be put there. -/
theorem prepend_sound
    (sound : table.Sound hash freezing base)
    {thread : T}
    {bucket : Nat}
    {node : A}
    {key : K}
    (prependable : table.Prependable hash base bucket node key) :
    (table.prepend thread bucket node key).Sound hash freezing base := by
  have last : ¬ table.Moved hash key bucket :=
    sound.not_moved_of_level prependable.unsealed
  have linked :
      ∀ {other chain},
        (table.prepend thread bucket node key).forest.place other =
            .linked chain ↔
          other = node ∧ chain = bucket ∨
            other ≠ node ∧ table.forest.place other = .linked chain := by
    intro other chain
    by_cases same : other = node
    · subst same
      simp [prepend, Forest.insertAfter, eq_comm]
    · simp [prepend, Forest.insertAfter, same]
  have cut :
      ∀ {other chain stamp},
        (table.prepend thread bucket node key).forest.place other =
            .cut chain stamp →
          table.forest.place other = .cut chain stamp := by
    intro other chain stamp known
    by_cases same : other = node
    · subst same
      simp [prepend, Forest.insertAfter] at known
    · simpa [prepend, Forest.insertAfter, same] using known
  have present :
      ∀ {other},
        (table.prepend thread bucket node key).forest.place other ≠ .off →
        other ≠ node →
        table.forest.place other ≠ .off := by
    intro other known different
    simpa [prepend, Forest.insertAfter, different] using known
  refine
    { sound with
      forest :=
        Forest.insertAfter_wellFormed sound.forest (.inl rfl)
          prependable.off prependable.leads
      hidden := ?_
      within := ?_
      exclusive := ?_
      unmarked := ?_
      frozenSealed := ?_
      movedFrozen := ?_
      cutDead := fun known => sound.cutDead (cut known)
      single := ?_
      authority := ?_ }
  · intro chain unpublished
    have different : chain ≠ bucket := by
      rintro rfl
      have published := prependable.published
      rw [show table.published chain = false from unpublished] at published
      cases published
    simpa [prepend, Forest.insertAfter, different] using
      sound.hidden unpublished
  · intro chain other within
    rcases within with known | ⟨stamp, known⟩
    · rcases linked.mp known with ⟨rfl, rfl⟩ | ⟨_, before⟩
      · exact ⟨prependable.published, key, prependable.holds,
          prependable.onPath⟩
      · exact sound.within (.inl before)
    · exact sound.within (.inr ⟨stamp, cut known⟩)
  · intro other known marked
    by_cases same : other = node
    · subst same
      exact prependable.unfrozen
    · exact sound.exclusive (present known same) marked
  · intro without other known
    by_cases same : other = node
    · subst same
      exact prependable.unmarked
    · exact sound.unmarked without (present known same)
  · intro chain other found known frozen holds
    rcases linked.mp known with ⟨rfl, rfl⟩ | ⟨_, before⟩
    · exact absurd frozen (by simp [prepend, prependable.unfrozen])
    · exact sound.frozenSealed before frozen holds
  · intro freezes chain other found known holds moved
    rcases linked.mp known with ⟨rfl, rfl⟩ | ⟨_, before⟩
    · cases prependable.holds.symm.trans holds.1
      exact absurd moved last
    · exact sound.movedFrozen freezes before holds moved
  · intro chain first second found onFirst onSecond left right stays
    rcases linked.mp onFirst with ⟨rfl, rfl⟩ | ⟨_, firstBefore⟩
    · cases prependable.holds.symm.trans left.1
      rcases linked.mp onSecond with ⟨rfl, _⟩ | ⟨_, secondBefore⟩
      · rfl
      · exact absurd right (prependable.absent secondBefore)
    · rcases linked.mp onSecond with ⟨rfl, rfl⟩ | ⟨_, secondBefore⟩
      · cases prependable.holds.symm.trans right.1
        exact absurd left (prependable.absent firstBefore)
      · exact sound.single firstBefore secondBefore left right stays
  · intro found
    by_cases same : key = found
    · subst same
      have added :
          member (table.prepend thread bucket node key).events key =
            true := by
        simp [prepend, member]
      simp only [added, true_iff]
      exact ⟨node, bucket, linked.mpr (.inl ⟨rfl, rfl⟩),
        ⟨prependable.holds, prependable.unmarked⟩, last⟩
    · have kept :
          member (table.prepend thread bucket node key).events found =
            member table.events found := by
        simp [prepend, member, same]
      rw [kept, sound.authority found]
      refine exists_congr fun other => exists_congr fun chain => ?_
      rw [linked]
      constructor
      · rintro ⟨before, holds, stays⟩
        refine ⟨.inr ⟨?_, before⟩, holds, stays⟩
        rintro rfl
        rw [prependable.off] at before
        cases before
      · rintro ⟨⟨rfl, rfl⟩ | ⟨_, before⟩, holds, stays⟩
        · exact absurd
            (Option.some.inj (prependable.holds.symm.trans holds.1)) same
        · exact ⟨before, holds, stays⟩

/-- Dead nodes may be bypassed. -/
theorem unlink_sound
    (sound : table.Sound hash freezing base)
    {bucket : Nat}
    {cell : Cell Nat A}
    {run : List A}
    (unlinkable : table.Unlinkable hash bucket cell run) :
    (table.unlink bucket cell run).Sound hash freezing base := by
  have runLinked :
      ∀ {node}, node ∈ run → table.forest.place node = .linked bucket :=
    sound.forest.run_linked unlinkable.attached unlinkable.segment
  have linked :
      ∀ {node chain},
        (table.unlink bucket cell run).forest.place node =
            .linked chain ↔
          node ∉ run ∧ table.forest.place node = .linked chain := by
    intro node chain
    by_cases inRun : node ∈ run <;> simp [unlink, Forest.cutRun, inRun]
  have cut :
      ∀ {node chain stamp},
        (table.unlink bucket cell run).forest.place node =
            .cut chain stamp →
          node ∈ run ∧ chain = bucket ∨
            table.forest.place node = .cut chain stamp := by
    intro node chain stamp known
    by_cases inRun : node ∈ run
    · simp only [unlink, Forest.cutRun, inRun, ↓reduceIte,
        Place.cut.injEq] at known
      exact .inl ⟨inRun, known.1.symm⟩
    · exact .inr (by simpa [unlink, Forest.cutRun, inRun] using known)
  have present :
      ∀ {node},
        (table.unlink bucket cell run).forest.place node ≠ .off →
        table.forest.place node ≠ .off := by
    intro node known
    by_cases inRun : node ∈ run
    · simp [runLinked inRun]
    · simpa [unlink, Forest.cutRun, inRun] using known
  refine
    { sound with
      forest :=
        Forest.cutRun_wellFormed sound.forest unlinkable.attached
          unlinkable.segment
      hidden := ?_
      within := ?_
      exclusive := fun known => sound.exclusive (present known)
      unmarked := fun without _ known =>
        sound.unmarked without (present known)
      frozenSealed := fun known => sound.frozenSealed (linked.mp known).2
      movedFrozen := fun freezes _ _ _ known =>
        sound.movedFrozen freezes (linked.mp known).2
      cutDead := ?_
      single := fun onFirst onSecond =>
        sound.single (linked.mp onFirst).2 (linked.mp onSecond).2
      authority := ?_ }
  · intro chain unpublished
    have before := sound.hidden unpublished
    by_cases same : cell = .root chain
    · subst same
      have empty : run = [] := by
        cases run with
        | nil =>
            rfl
        | cons first rest =>
            exact absurd (unlinkable.segment.1.symm.trans before) (by simp)
      simp [unlink, Forest.cutRun, empty, before]
    · simpa [unlink, Forest.cutRun, Function.update_of_ne (Ne.symm same)]
        using before
  · intro chain node within
    rcases within with known | ⟨stamp, known⟩
    · exact sound.within (.inl (linked.mp known).2)
    · rcases cut known with ⟨inRun, rfl⟩ | before
      · exact sound.within (.inl (runLinked inRun))
      · exact sound.within (.inr ⟨stamp, before⟩)
  · intro chain node stamp known
    rcases cut known with ⟨inRun, rfl⟩ | before
    · exact unlinkable.dead node inRun
    · exact sound.cutDead before
  · intro key
    have same := sound.authority key
    refine same.trans
      (exists_congr fun node => exists_congr fun chain => ?_)
    rw [linked]
    constructor
    · rintro ⟨before, holds, stays⟩
      refine ⟨⟨?_, before⟩, holds, stays⟩
      intro inRun
      have sameChain : chain = bucket :=
        Place.linked.inj (before.symm.trans (runLinked inRun))
      subst sameChain
      rcases unlinkable.dead node inRun with
          marked | ⟨_, found, sameKey, moved⟩
      · rw [holds.2] at marked
        cases marked
      · cases sameKey.symm.trans holds.1
        exact stays moved
    · rintro ⟨⟨_, before⟩, holds, stays⟩
      exact ⟨before, holds, stays⟩

omit [DecidableEq K] in
/-- Publishing a bucket moves the keys that its parent holds for it. -/
private theorem publish_moved
    {bucket : Nat}
    {copies : List A}
    {key : K}
    {chain : Nat} :
    (table.publish bucket copies).Moved hash key chain ↔
      table.Moved hash key chain ∨
        NextBucket (hash key) chain bucket := by
  constructor
  · rintro ⟨child, next, published⟩
    by_cases same : child = bucket
    · exact .inr (same ▸ next)
    · exact .inl ⟨child, next, by simpa [publish, same] using published⟩
  · rintro (⟨child, next, published⟩ | next)
    · refine ⟨child, next, ?_⟩
      by_cases same : child = bucket
      · simp [publish, same]
      · simpa [publish, same] using published
    · exact ⟨bucket, next, by simp [publish]⟩

/-- The copies of what a parent holds may become the chain of its child. -/
theorem publish_sound
    (sound : table.Sound hash freezing base)
    {bucket : Nat}
    {copies : List A}
    (splittable : table.Splittable hash freezing bucket copies) :
    (table.publish bucket copies).Sound hash freezing base := by
  have unlinked :
      ∀ {node}, table.forest.place node ≠ .linked bucket :=
    fun {node} => splittable.publishable.noChain node
  have linked :
      ∀ {node chain},
        (table.publish bucket copies).forest.place node =
            .linked chain ↔
          node ∈ copies ∧ chain = bucket ∨
            node ∉ copies ∧ table.forest.place node = .linked chain := by
    intro node chain
    by_cases copy : node ∈ copies <;>
      simp [publish, Forest.publish, copy, eq_comm]
  have cut :
      ∀ {node chain stamp},
        (table.publish bucket copies).forest.place node =
            .cut chain stamp →
          table.forest.place node = .cut chain stamp := by
    intro node chain stamp known
    by_cases copy : node ∈ copies
    · simp [publish, Forest.publish, copy] at known
    · simpa [publish, Forest.publish, copy] using known
  have present :
      ∀ {node},
        node ∉ copies →
        (table.publish bucket copies).forest.place node ≠ .off →
        table.forest.place node ≠ .off := by
    intro node other known
    simpa [publish, Forest.publish, other] using known
  have published :
      ∀ {chain},
        (table.publish bucket copies).published chain = true ↔
          chain = bucket ∨ table.published chain = true := by
    intro chain
    by_cases same : chain = bucket <;> simp [publish, same]
  have level :
      ∀ {chain},
        table.published chain = true →
        (table.publish bucket copies).level chain = table.level chain := by
    intro chain known
    have different : chain ≠ bucket := by
      rintro rfl
      rw [splittable.unpublished] at known
      cases known
    simp [publish, different]
  have last :
      ∀ key, ¬ (table.publish bucket copies).Moved hash key bucket := by
    intro key moved
    rcases publish_moved.mp moved with before | next
    · exact sound.not_moved_of_unpublished splittable.unpublished key
        before
    · exact Nat.lt_irrefl _ next.lt
  have carried :
      ∀ {node key},
        node ∈ copies →
        table.key node = some key →
        NextBucket (hash key) (parentOf bucket) bucket :=
    fun copy holds => (splittable.copied.mp ⟨_, copy, holds⟩).1
  refine
    { forest := Forest.publish_wellFormed sound.forest splittable.publishable
      hidden := ?_
      foundation := fun small =>
        published.mpr (.inr (sound.foundation small))
      baseBits := sound.baseBits
      inTable := ?_
      ancestors := ?_
      sealedParent := ?_
      levels := ?_
      within := ?_
      exclusive := ?_
      unmarked := ?_
      frozenSealed := ?_
      movedFrozen := ?_
      cutDead := ?_
      single := ?_
      authority := ?_ }
  · intro chain unpublished
    have different : chain ≠ bucket := by
      rintro rfl
      simp [publish] at unpublished
    have before : table.published chain = false := by
      simpa [publish, different] using unpublished
    simpa [publish, Forest.publish, different] using sound.hidden before
  · intro chain known
    rcases published.mp known with rfl | before
    · exact splittable.inTable
    · exact sound.inTable before
  · intro chain positive known
    refine published.mpr (.inr ?_)
    rcases published.mp known with rfl | before
    · exact splittable.parent
    · exact sound.ancestors positive before
  · intro chain large known
    rcases published.mp known with rfl | before
    · rw [level splittable.parent]
      exact splittable.sealedFor
    · have positive : chain ≠ 0 := by
        have power := Nat.two_pow_pos base
        omega
      rw [level (sound.ancestors positive before)]
      exact sound.sealedParent large before
  · intro chain known
    rcases published.mp known with rfl | before
    · simp [publish]
    · rw [level before]
      exact sound.levels before
  · intro chain node within
    rcases within with known | ⟨stamp, known⟩
    · rcases linked.mp known with ⟨copy, rfl⟩ | ⟨_, before⟩
      · obtain ⟨key, holds⟩ :=
          Option.ne_none_iff_exists'.mp (splittable.keyed node copy)
        exact ⟨published.mpr (.inl rfl), key, holds,
          (carried copy holds).onPath⟩
      · obtain ⟨knownChain, rest⟩ := sound.within (.inl before)
        exact ⟨published.mpr (.inr knownChain), rest⟩
    · obtain ⟨knownChain, rest⟩ :=
        sound.within (.inr ⟨stamp, cut known⟩)
      exact ⟨published.mpr (.inr knownChain), rest⟩
  · intro node known marked
    by_cases copy : node ∈ copies
    · exact (splittable.live node copy).2
    · exact sound.exclusive (present copy known) marked
  · intro without node known
    by_cases copy : node ∈ copies
    · exact (splittable.live node copy).1
    · exact sound.unmarked without (present copy known)
  · intro chain node key known frozen holds
    rcases linked.mp known with ⟨copy, rfl⟩ | ⟨_, before⟩
    · exact absurd frozen (by simp [publish, splittable.live node copy])
    · rw [level (sound.within (.inl before)).1]
      exact sound.frozenSealed before frozen holds
  · intro freezes chain node key known holds moved
    rcases linked.mp known with ⟨_, rfl⟩ | ⟨_, before⟩
    · exact absurd moved (last key)
    · rcases publish_moved.mp moved with movedBefore | next
      · exact sound.movedFrozen freezes before holds movedBefore
      · have same : chain = parentOf bucket := next.parent.symm
        subst same
        exact splittable.originals freezes before holds next
  · intro chain node stamp known
    rcases sound.cutDead (cut known) with marked | ⟨frozen, key, holds, moved⟩
    · exact .inl marked
    · exact .inr ⟨frozen, key, holds, publish_moved.mpr (.inl moved)⟩
  · intro chain first second key onFirst onSecond left right stays
    rcases linked.mp onFirst with ⟨firstCopy, rfl⟩ | ⟨_, firstBefore⟩
    · rcases linked.mp onSecond with ⟨secondCopy, _⟩ | ⟨_, secondBefore⟩
      · exact splittable.distinct firstCopy secondCopy left.1 right.1
      · exact absurd secondBefore unlinked
    · rcases linked.mp onSecond with ⟨_, rfl⟩ | ⟨_, secondBefore⟩
      · exact absurd firstBefore unlinked
      · exact sound.single firstBefore secondBefore left right
          fun moved => stays (publish_moved.mpr (.inl moved))
  · intro key
    refine (sound.authority key).trans ⟨?_, ?_⟩
    · rintro ⟨node, chain, before, holds, stays⟩
      by_cases next : NextBucket (hash key) chain bucket
      · have same : chain = parentOf bucket := next.parent.symm
        subst same
        obtain ⟨copy, isCopy, copyHolds⟩ :=
          splittable.copied.mpr ⟨next, node, before, holds⟩
        exact ⟨copy, bucket, linked.mpr (.inl ⟨isCopy, rfl⟩),
          ⟨copyHolds, (splittable.live copy isCopy).1⟩, last key⟩
      · refine ⟨node, chain, linked.mpr (.inr ⟨?_, before⟩), holds, ?_⟩
        · intro copy
          rw [splittable.publishable.unlinked node copy] at before
          cases before
        · intro moved
          exact (publish_moved.mp moved).elim stays next
    · rintro ⟨node, chain, known, holds, stays⟩
      rcases linked.mp known with ⟨copy, rfl⟩ | ⟨_, before⟩
      · obtain ⟨next, original, before, carries⟩ :=
          splittable.copied.mp ⟨node, copy, holds.1⟩
        exact ⟨original, _, before, carries,
          not_moved_to next splittable.unpublished⟩
      · exact ⟨node, chain, before, holds,
          fun moved => stays (publish_moved.mpr (.inl moved))⟩

/-- A node on no chain may be rewritten. -/
theorem rewrite_sound
    (sound : table.Sound hash freezing base)
    {node : A}
    (off : table.forest.place node = .off)
    (next : Option A)
    (key : Option K)
    (marked frozen : Bool) :
    (table.rewrite node next key marked frozen).Sound
      hash freezing base := by
  refine sound.of_agree
    (Forest.setLink_wellFormed sound.forest off next)
    (fun bucket => by simp [rewrite, Forest.setLink])
    (fun _ => .inl rfl) ?_ rfl rfl rfl rfl
  intro other present
  have different : other ≠ node := by
    rintro rfl
    exact present off
  simp [rewrite, different]

end Chains

end ConcurrentCpp.SplitTable
