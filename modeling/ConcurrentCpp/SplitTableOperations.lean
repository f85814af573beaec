import ConcurrentCpp.SplitTableAdvance

namespace ConcurrentCpp.SplitTable

/-!
# What an operation on a split table knows

An operation walks a chain with a cursor while other threads change the table.
Each of the following facts about its walk survives every change, can be
established where the walk begins, is carried along from node to node, and
justifies the answer where the walk ends.
-/

variable {A K T : Type} [DecidableEq K]

/-- The node is at the cursor or behind it. -/
def Behind
    (table : SplitTable A K T)
    (cursor : Option A)
    (node : A) : Prop :=
  ∃ first, cursor = some first ∧ LeadsTo table.forest.links first node

/--
The cursor is on the chain of the bucket or was cut from it above the floor.
-/
def Held
    (table : SplitTable A K T)
    (bucket : Nat)
    (cursor : Option A) : Prop :=
  ∀ first ∈ cursor,
    table.forest.Visible bucket table.forest.floor first

/-- The key was a member at an instant of the thread's call. -/
def SeenMember
    (thread : T)
    (table : SplitTable A K T)
    (key : K) : Prop :=
  Since thread table.events fun instant => member instant key = true

/-- The key was no member at an instant of the thread's call. -/
def SeenAbsent
    (thread : T)
    (table : SplitTable A K T)
    (key : K) : Prop :=
  Since thread table.events fun instant => member instant key = false

variable
  {hash : K → Nat}
  {freezing : Bool}
  {base : Nat}
  {thread mover : T}
  {table before after : SplitTable A K T}

section Cursor

variable {bucket : Nat} {cursor : Option A} {node : A}

omit [DecidableEq K] in
theorem not_behind_none : ¬ table.Behind none node := by
  rintro ⟨first, same, _⟩
  cases same

omit [DecidableEq K] in
/-- What is behind a node is behind its successor, the node itself apart. -/
theorem behind_some
    {first : A} :
    table.Behind (some first) node ↔
      node = first ∨
        table.Behind (table.forest.links (.node first)) node := by
  constructor
  · rintro ⟨start, same, leads⟩
    cases same
    rcases Relation.ReflTransGen.cases_head leads with rfl | ⟨next, edge, rest⟩
    · exact .inl rfl
    · exact .inr ⟨next, edge, rest⟩
  · rintro (rfl | ⟨next, edge, rest⟩)
    · exact ⟨node, rfl, Relation.ReflTransGen.refl⟩
    · exact ⟨first, rfl, Relation.ReflTransGen.head edge rest⟩

/-- The whole chain is behind its first node. -/
theorem behind_root
    (sound : table.Sound hash freezing base)
    (linked : table.forest.place node = .linked bucket) :
    table.Behind (table.forest.links (.root bucket)) node := by
  obtain ⟨nodes, chained⟩ := sound.forest.chain bucket
  have member := (chained.members node).mpr linked
  cases nodes with
  | nil =>
      simp at member
  | cons first rest =>
      exact ⟨first, chained.path.1,
        chained.path.2.mem_iff_leadsTo.mp member⟩

/-- A linked node is not behind its own successor. -/
theorem not_behind_successor
    (sound : table.Sound hash freezing base)
    (linked : table.forest.place node = .linked bucket) :
    ¬ table.Behind (table.forest.links (.node node)) node := by
  rintro ⟨next, edge, leads⟩
  obtain ⟨nodes, chained⟩ := sound.forest.chain bucket
  obtain ⟨leading, trailing, shape, path⟩ :=
    chained.path.split_at ((chained.members node).mpr linked)
  cases trailing with
  | nil =>
      exact absurd (path.symm.trans edge) (by simp)
  | cons first rest =>
      cases Option.some.inj (path.1.symm.trans edge)
      have member := path.2.mem_iff_leadsTo.mpr leads
      have distinct := chained.noDuplicates
      rw [shape] at distinct
      simp only [List.append_assoc, List.singleton_append,
        List.nodup_append, List.nodup_cons] at distinct
      exact distinct.2.1.1 member

/-- The successor of a held node is held. -/
theorem Held.next
    (sound : table.Sound hash freezing base)
    (held : table.Held bucket (some node)) :
    table.Held bucket (table.forest.links (.node node)) := by
  intro first leads
  exact sound.forest.visible_next (Nat.le_refl _) (held node rfl) leads

/-- Whatever is behind a held cursor is held as well. -/
theorem Held.behind
    (sound : table.Sound hash freezing base)
    (held : table.Held bucket cursor)
    (behind : table.Behind cursor node) :
    table.Held bucket (some node) := by
  obtain ⟨first, rfl, leads⟩ := behind
  rintro other ⟨⟩
  exact sound.forest.visible_leadsTo (Nat.le_refl _) (held first rfl) leads

/-- A node that stays linked stays behind the cursor. -/
theorem Behind.step
    (advances : Advances hash mover before after)
    (held : before.Held bucket cursor)
    (behind : before.Behind cursor node)
    (linked : before.forest.place node = .linked bucket)
    (stays : after.forest.place node = .linked bucket) :
    after.Behind cursor node := by
  obtain ⟨first, rfl, leads⟩ := behind
  exact ⟨first, rfl,
    advances.forest.leadsTo (held first rfl) leads linked stays⟩

/-- Nothing is put behind a cursor. -/
theorem Behind.back
    (advances : Advances hash mover before after)
    (held : before.Held bucket cursor)
    (behind : after.Behind cursor node) :
    before.Behind cursor node := by
  obtain ⟨first, rfl, leads⟩ := behind
  exact ⟨first, rfl, advances.shrinks (held first rfl) leads⟩

/-- A held node that is linked afterwards was linked before. -/
theorem linked_back
    (advances : Advances hash mover before after)
    (held : before.Held bucket (some node))
    {other : Nat}
    (linked : after.forest.place node = .linked other) :
    before.forest.place node = .linked bucket := by
  rcases held node rfl with known | ⟨stamp, _, cut⟩
  · exact known
  · exact absurd cut (advances.forest.not_cut_of_linked linked)

/-- A node that is unmarked afterwards was unmarked before. -/
theorem Carries.back
    (advances : Advances hash mover before after)
    {key : K}
    (present : before.forest.place node ≠ .off)
    (presentAfter : after.forest.place node ≠ .off)
    (carries : after.Carries node key) :
    before.Carries node key := by
  refine ⟨?_, ?_⟩
  · rw [← advances.key present presentAfter]
    exact carries.1
  · cases known : before.marked node with
    | false =>
        rfl
    | true =>
        exact absurd (advances.marked present presentAfter known)
          carries.not_marked

/-- A node that was in a bucket afterwards was there or is new. -/
theorem Within.back
    (advances : Advances hash mover before after)
    (within : after.Within bucket node)
    {key : K}
    (holds : after.key node = some key)
    (moved : after.Moved hash key bucket) :
    before.Within bucket node := by
  rcases within with linked | ⟨stamp, cut⟩
  · by_contra outside
    have new : before.forest.place node ≠ .linked bucket :=
      fun known => outside (.inl known)
    exact (advances.fresh new linked holds).1 moved
  · exact advances.cutWithin cut

end Cursor

section Found

variable {bucket : Nat} {key : K}

/-- An unmarked node of the key in this bucket proves that it was present. -/
def NotStale
    (hash : K → Nat)
    (thread : T)
    (table : SplitTable A K T)
    (key : K)
    (bucket : Nat) : Prop :=
  table.Moved hash key bucket →
    ∀ {node},
      table.Within bucket node →
      table.Carries node key →
      SeenMember thread table key

/-- The bucket that the current size names has not been left by the key. -/
theorem NotStale.of_home
    (sound : table.Sound hash freezing base)
    (home : hash key % 2 ^ table.bits = bucket) :
    NotStale hash thread table key bucket :=
  fun moved => absurd moved (sound.not_moved_of_home home)

theorem NotStale.found
    (sound : table.Sound hash freezing base)
    (notStale : NotStale hash thread table key bucket)
    {node : A}
    (within : table.Within bucket node)
    (carries : table.Carries node key) :
    SeenMember thread table key := by
  by_cases moved : table.Moved hash key bucket
  · exact notStale moved within carries
  · exact Since.now (sound.member_of_within within carries moved)

theorem NotStale.step
    (sound : before.Sound hash freezing base)
    (advances : Advances hash mover before after)
    (continues : Continues thread before after)
    (notStale : NotStale hash thread before key bucket) :
    NotStale hash thread after key bucket := by
  intro moved node within carries
  have withinBefore := within.back advances carries.1 moved
  have carriesBefore :=
    carries.back advances withinBefore.ne_off within.ne_off
  exact continues.since
    (notStale.found sound withinBefore carriesBefore)

end Found

section Miss

variable {bucket bits : Nat} {key : K} {cursor : Option A}

/--
The key was absent at some instant, or the table has grown, or an unmarked
node of the key is still ahead of the cursor.
-/
def MayMiss
    (thread : T)
    (table : SplitTable A K T)
    (key : K)
    (bucket bits : Nat)
    (cursor : Option A) : Prop :=
  SeenAbsent thread table key ∨ bits < table.bits ∨
    ∃ node,
      table.forest.place node = .linked bucket ∧
        table.Carries node key ∧ table.Behind cursor node

theorem MayMiss.start
    (sound : table.Sound hash freezing base)
    (home : hash key % 2 ^ bits = bucket)
    (known : bits ≤ table.bits)
    (published : table.published bucket = true) :
    MayMiss thread table key bucket bits
      (table.forest.links (.root bucket)) := by
  rcases Nat.eq_or_lt_of_le known with same | larger
  · subst same
    have onPath : OnPath (hash key) bucket :=
      home ▸ onPath_mod (hash key) table.bits
    have decided :=
      sound.member_iff onPath published (sound.not_moved_of_home home)
    cases present : member table.events key with
    | false =>
        exact .inl (Since.now present)
    | true =>
        obtain ⟨node, linked, carries⟩ := decided.mp present
        exact .inr (.inr
          ⟨node, linked, carries, behind_root sound linked⟩)
  · exact .inr (.inl larger)

theorem MayMiss.step
    (soundAfter : after.Sound hash freezing base)
    (advances : Advances hash mover before after)
    (continues : Continues thread before after)
    (home : hash key % 2 ^ bits = bucket)
    (held : before.Held bucket cursor)
    (mayMiss : MayMiss thread before key bucket bits cursor) :
    MayMiss thread after key bucket bits cursor := by
  rcases mayMiss with absent | larger | ⟨node, linked, carries, behind⟩
  · exact .inl (continues.since absent)
  · exact .inr (.inl (Nat.lt_of_lt_of_le larger advances.bits))
  · have present : before.forest.place node ≠ .off := by
      simp [linked]
    rcases advances.forest.linked linked with stays | cut
    · have presentAfter : after.forest.place node ≠ .off := by
        simp [stays]
      cases marked : after.marked node with
      | true =>
          exact .inl (Since.now
            (advances.removes present presentAfter carries marked))
      | false =>
          exact .inr (.inr
            ⟨node, stays,
              ⟨(advances.key present presentAfter).trans carries.1,
                marked⟩,
              behind.step advances held linked stays⟩)
    · refine .inr (.inl ?_)
      rcases advances.cuts linked cut with
          marked | ⟨_, found, holds, child, next, published⟩
      · exact absurd marked carries.not_marked
      · cases holds.symm.trans carries.1
        have small := soundAfter.inTable (advances.published published)
        have large := next.le_of_mod_eq home
        have log := (Nat.log2_lt next.positive).mpr small
        omega

/-- The walk passes a node that does not stand for the key. -/
theorem MayMiss.pass
    {node : A}
    (mayMiss : MayMiss thread table key bucket bits (some node))
    (other : ¬ table.Carries node key) :
    MayMiss thread table key bucket bits
      (table.forest.links (.node node)) := by
  rcases mayMiss with absent | larger | ⟨found, linked, carries, behind⟩
  · exact .inl absent
  · exact .inr (.inl larger)
  · rcases behind_some.mp behind with rfl | ahead
    · exact absurd carries other
    · exact .inr (.inr ⟨found, linked, carries, ahead⟩)

theorem MayMiss.finish
    (mayMiss : MayMiss thread table key bucket bits none)
    (same : table.bits = bits) :
    SeenAbsent thread table key := by
  rcases mayMiss with absent | larger | ⟨node, _, _, behind⟩
  · exact absent
  · omega
  · exact absurd behind not_behind_none

end Miss

section Erase

variable {bucket : Nat} {key : K} {node : A}

/-- The node is unmarked, or the key was absent at some instant. -/
def Unmarked
    (thread : T)
    (table : SplitTable A K T)
    (key : K)
    (node : A) : Prop :=
  table.Carries node key ∨ SeenAbsent thread table key

theorem Unmarked.step
    (advances : Advances hash mover before after)
    (continues : Continues thread before after)
    (present : before.forest.place node ≠ .off)
    (presentAfter : after.forest.place node ≠ .off)
    (unmarked : Unmarked thread before key node) :
    Unmarked thread after key node := by
  rcases unmarked with carries | absent
  · cases marked : after.marked node with
    | true =>
        exact .inr (Since.now
          (advances.removes present presentAfter carries marked))
    | false =>
        exact .inl
          ⟨(advances.key present presentAfter).trans carries.1, marked⟩
  · exact .inr (continues.since absent)

end Erase

section Scan

variable {bucket : Nat} {key : K} {first cursor : Option A}

/-- No unmarked node of the key lies between the two cursors. -/
def Scanned
    (table : SplitTable A K T)
    (bucket : Nat)
    (key : K)
    (first cursor : Option A) : Prop :=
  ∀ {node},
    table.forest.place node = .linked bucket →
    table.Carries node key →
    table.Behind first node →
    table.Behind cursor node

theorem Scanned.step
    (sound : before.Sound hash freezing base)
    (advances : Advances hash mover before after)
    (heldFirst : before.Held bucket first)
    (held : before.Held bucket cursor)
    (scanned : before.Scanned bucket key first cursor) :
    after.Scanned bucket key first cursor := by
  intro node linked carries behind
  have behindBefore := behind.back advances heldFirst
  have linkedBefore :=
    linked_back advances (heldFirst.behind sound behindBefore) linked
  have carriesBefore :=
    carries.back advances (by simp [linkedBefore]) (by simp [linked])
  exact (scanned linkedBefore carriesBefore behindBefore).step
    advances held linkedBefore linked

omit [DecidableEq K] in
theorem Scanned.pass
    {node : A}
    (scanned : table.Scanned bucket key first (some node))
    (other : ¬ table.Carries node key) :
    table.Scanned bucket key first
      (table.forest.links (.node node)) := by
  intro found linked carries behind
  rcases behind_some.mp (scanned linked carries behind) with rfl | ahead
  · exact absurd carries other
  · exact ahead

/-- A walk that has reached the end has seen the whole chain. -/
theorem Scanned.absent
    (sound : table.Sound hash freezing base)
    (scanned :
      table.Scanned bucket key (table.forest.links (.root bucket)) none)
    {node : A}
    (linked : table.forest.place node = .linked bucket) :
    ¬ table.Carries node key :=
  fun carries =>
    not_behind_none
      (scanned linked carries (behind_root sound linked))

end Scan

section Split

variable {child : Nat} {copies : List K} {cursor : Option A}

/-- The key moves to the child when the child is published. -/
def Moving
    (hash : K → Nat)
    (child : Nat)
    (key : K) : Prop :=
  NextBucket (hash key) (parentOf child) child

/--
As long as the child is not published, an unmarked node that moves to it is
either ahead of the cursor or frozen and copied.
-/
structure Splitting
    (hash : K → Nat)
    (freezing : Bool)
    (table : SplitTable A K T)
    (child : Nat)
    (copies : List K)
    (cursor : Option A) : Prop where
  originals :
    table.published child = false →
    ∀ {node key},
      table.forest.place node = .linked (parentOf child) →
      table.Carries node key →
      Moving hash child key →
      table.Behind cursor node ∧ key ∉ copies ∨
        ¬ table.Behind cursor node ∧ key ∈ copies ∧
          (freezing = true → table.frozen node = true)
  copied :
    table.published child = false →
    ∀ key ∈ copies,
      Moving hash child key ∧
        ∃ node,
          table.forest.place node = .linked (parentOf child) ∧
            table.Carries node key

/-- The parent is published and sealed for the child. -/
structure SealedFor
    (table : SplitTable A K T)
    (child : Nat) : Prop where
  positive : child ≠ 0
  parent : table.published (parentOf child) = true
  level : child.log2 + 1 ≤ table.level (parentOf child)
  inTable : child < 2 ^ table.bits

theorem SealedFor.step
    (advances : Advances hash mover before after)
    (sealedFor : before.SealedFor child) :
    after.SealedFor child where
  positive := sealedFor.positive
  parent := advances.published sealedFor.parent
  level :=
    Nat.le_trans sealedFor.level (advances.level sealedFor.parent)
  inTable :=
    Nat.lt_of_lt_of_le sealedFor.inTable
      (Nat.pow_le_pow_right (by decide) advances.bits)

/-- The snapshot of a sealed parent. -/
theorem Splitting.start
    (sound : table.Sound hash freezing base) :
    Splitting hash freezing table child []
      (table.forest.links (.root (parentOf child))) where
  originals _ _ _ linked _ _ :=
    .inl ⟨behind_root sound linked, by simp⟩
  copied _ _ member := by simp at member

theorem Splitting.step
    (soundAfter : after.Sound hash freezing base)
    (advances : Advances hash mover before after)
    (sealedFor : before.SealedFor child)
    (held : before.Held (parentOf child) cursor)
    (splitting : Splitting hash freezing before child copies cursor) :
    Splitting hash freezing after child copies cursor := by
  have unpublished :
      after.published child = false → before.published child = false := by
    intro known
    cases was : before.published child with
    | false =>
        rfl
    | true =>
        rw [advances.published was] at known
        cases known
  refine ⟨?_, ?_⟩
  · intro hidden node key linked carries moving
    have linkedBefore :
        before.forest.place node = .linked (parentOf child) := by
      by_contra new
      have low := (advances.fresh new linked carries.1).2 moving
      have high := (sealedFor.step advances).level
      omega
    have present : before.forest.place node ≠ .off := by
      simp [linkedBefore]
    have presentAfter : after.forest.place node ≠ .off := by
      simp [linked]
    have carriesBefore := carries.back advances present presentAfter
    rcases splitting.originals (unpublished hidden) linkedBefore
      carriesBefore moving with ⟨behind, new⟩ | ⟨past, copied, frozen⟩
    · exact .inl ⟨behind.step advances held linkedBefore linked, new⟩
    · exact .inr
        ⟨fun behind => past (behind.back advances held), copied,
          fun freezes =>
            advances.frozen present presentAfter (frozen freezes)⟩
  · intro hidden key member
    obtain ⟨moving, node, linked, carries⟩ :=
      splitting.copied (unpublished hidden) key member
    have last : ¬ before.Moved hash key (parentOf child) :=
      not_moved_to moving (unpublished hidden)
    have present : before.forest.place node ≠ .off := by
      simp [linked]
    rcases advances.forest.linked linked with stays | cut
    · have presentAfter : after.forest.place node ≠ .off := by
        simp [stays]
      refine ⟨moving, node, stays,
        (advances.key present presentAfter).trans carries.1, ?_⟩
      cases freezes : freezing with
      | false =>
          exact soundAfter.unmarked freezes presentAfter
      | true =>
          rcases splitting.originals (unpublished hidden) linked carries
            moving with ⟨_, new⟩ | ⟨_, _, frozen⟩
          · exact absurd member new
          · cases marked : after.marked node with
            | false =>
                rfl
            | true =>
                have unfrozen := soundAfter.exclusive presentAfter marked
                rw [advances.frozen present presentAfter
                  (frozen freezes)] at unfrozen
                cases unfrozen
    · rcases advances.cuts linked cut with
          marked | ⟨_, found, holds, moved⟩
      · exact absurd marked carries.not_marked
      · cases holds.symm.trans carries.1
        exact absurd moved last

omit [DecidableEq K] in
/-- The walk passes a node that does not move to the child. -/
theorem Splitting.pass
    {node : A}
    (splitting :
      Splitting hash freezing table child copies (some node))
    (stays :
      ∀ {key}, table.Carries node key → ¬ Moving hash child key) :
    Splitting hash freezing table child copies
      (table.forest.links (.node node)) where
  originals hidden found key linked carries moving := by
    rcases splitting.originals hidden linked carries moving with
        ⟨behind, new⟩ | ⟨past, copied, frozen⟩
    · rcases behind_some.mp behind with rfl | ahead
      · exact absurd moving (stays carries)
      · exact .inl ⟨ahead, new⟩
    · exact .inr
        ⟨fun ahead => past (behind_some.mpr (.inr ahead)), copied, frozen⟩
  copied := splitting.copied

/-- The walk passes a node that it has frozen and copied. -/
theorem Splitting.copy
    (sound : table.Sound hash freezing base)
    {node : A}
    {key : K}
    (splitting :
      Splitting hash freezing table child copies (some node))
    (within : table.Within (parentOf child) node)
    (carries : table.Carries node key)
    (moving : Moving hash child key)
    (frozen : freezing = true → table.frozen node = true) :
    (table.published child = false → key ∉ copies) ∧
      Splitting hash freezing table child (key :: copies)
        (table.forest.links (.node node)) := by
  have here :
      table.published child = false →
      table.forest.place node = .linked (parentOf child) := by
    intro hidden
    rcases within with linked | ⟨stamp, cut⟩
    · exact linked
    · exact absurd (sound.moved_of_cut cut carries)
        (not_moved_to moving hidden)
  have new : table.published child = false → key ∉ copies := by
    intro hidden
    rcases splitting.originals hidden (here hidden) carries moving with
        ⟨_, absent⟩ | ⟨past, _⟩
    · exact absent
    · exact absurd (behind_some.mpr (.inl rfl)) past
  refine ⟨new, ?_, ?_⟩
  · intro hidden other found linked carriesOther movingOther
    by_cases same : other = node
    · subst same
      cases carriesOther.1.symm.trans carries.1
      exact .inr ⟨not_behind_successor sound linked, by simp, frozen⟩
    · have different : found ≠ key := by
        rintro rfl
        exact same (sound.single linked (here hidden) carriesOther
          carries (not_moved_to moving hidden))
      have ahead :
          table.Behind (some node) other ↔
            table.Behind (table.forest.links (.node node)) other := by
        rw [behind_some]
        simp [same]
      rw [← ahead]
      simp only [List.mem_cons, different, false_or]
      exact splitting.originals hidden linked carriesOther movingOther
  · intro hidden found member
    rcases List.mem_cons.mp member with rfl | old
    · exact ⟨moving, node, here hidden, carries⟩
    · exact splitting.copied hidden found old

omit [DecidableEq K] in
/-- At the end of the walk everything that moves has been copied. -/
theorem Splitting.finish
    (splitting : Splitting hash freezing table child copies none)
    (hidden : table.published child = false) :
    (∀ {key},
      key ∈ copies ↔
        Moving hash child key ∧
          ∃ node,
            table.forest.place node = .linked (parentOf child) ∧
              table.Carries node key) ∧
      (freezing = true →
        ∀ {node key},
          table.forest.place node = .linked (parentOf child) →
          table.Carries node key →
          Moving hash child key →
          table.frozen node = true) := by
  have decided :
      ∀ {node key},
        table.forest.place node = .linked (parentOf child) →
        table.Carries node key →
        Moving hash child key →
        key ∈ copies ∧ (freezing = true → table.frozen node = true) := by
    intro node key linked carries moving
    rcases splitting.originals hidden linked carries moving with
        ⟨behind, _⟩ | ⟨_, copied, frozen⟩
    · exact absurd behind not_behind_none
    · exact ⟨copied, frozen⟩
  refine ⟨fun {key} => ⟨splitting.copied hidden key, ?_⟩, ?_⟩
  · rintro ⟨moving, node, linked, carries⟩
    exact (decided linked carries moving).1
  · intro freezes node key linked carries moving
    exact (decided linked carries moving).2 freezes

end Split

end ConcurrentCpp.SplitTable
