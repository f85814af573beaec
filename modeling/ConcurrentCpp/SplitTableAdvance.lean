import ConcurrentCpp.SplitTableChanges

namespace ConcurrentCpp.SplitTable

/-!
# What one change of a split table may do

`Advances` collects what every change guarantees to a thread that is in the
middle of an operation: nodes keep their keys, marks and seals are final, a
node that leaves its chain is dead, and a node that enters one belongs there.
-/

variable {A K T : Type} [DecidableEq K]

/-- One change, made by the thread. -/
structure Advances
    (hash : K → Nat)
    (thread : T)
    (before after : SplitTable A K T) : Prop where
  forest : before.forest.Advances after.forest
  shrinks :
    ∀ {bucket first last},
      before.forest.Visible bucket before.forest.floor first →
      LeadsTo after.forest.links first last →
      LeadsTo before.forest.links first last
  key :
    ∀ {node},
      before.forest.place node ≠ .off →
      after.forest.place node ≠ .off →
      after.key node = before.key node
  marked :
    ∀ {node},
      before.forest.place node ≠ .off →
      after.forest.place node ≠ .off →
      before.marked node = true →
      after.marked node = true
  frozen :
    ∀ {node},
      before.forest.place node ≠ .off →
      after.forest.place node ≠ .off →
      before.frozen node = true →
      after.frozen node = true
  removes :
    ∀ {node key},
      before.forest.place node ≠ .off →
      after.forest.place node ≠ .off →
      before.Carries node key →
      after.marked node = true →
      member after.events key = false
  tagged :
    ∀ {node},
      before.forest.place node ≠ .off →
      after.forest.place node ≠ .off →
      before.marked node = true ∨ before.frozen node = true →
      after.forest.links (.node node) = before.forest.links (.node node)
  fresh :
    ∀ {node bucket key},
      before.forest.place node ≠ .linked bucket →
      after.forest.place node = .linked bucket →
      after.key node = some key →
      ¬ after.Moved hash key bucket ∧
        ∀ {child},
          NextBucket (hash key) bucket child →
          after.level bucket ≤ child.log2
  cuts :
    ∀ {node bucket stamp},
      before.forest.place node = .linked bucket →
      after.forest.place node = .cut bucket stamp →
      before.Dead hash bucket node
  cutWithin :
    ∀ {node bucket stamp},
      after.forest.place node = .cut bucket stamp →
      before.Within bucket node
  published :
    ∀ {bucket},
      before.published bucket = true → after.published bucket = true
  level :
    ∀ {bucket},
      before.published bucket = true →
      before.level bucket ≤ after.level bucket
  bits : before.bits ≤ after.bits
  events :
    ∃ recent,
      after.events = recent ++ before.events ∧
        ∀ event ∈ recent, event.thread = thread

/-- The history has grown without a new call of the thread. -/
def Continues
    (thread : T)
    (before after : SplitTable A K T) : Prop :=
  ∃ recent,
    after.events = recent ++ before.events ∧
      ∀ operation, .called thread operation ∉ recent

omit [DecidableEq K] in
/-- What held at some time since the call began still did. -/
theorem Continues.since
    {thread : T}
    {before after : SplitTable A K T}
    {property : List (SetEvent T K) → Prop}
    (continues : Continues thread before after)
    (since : Since thread before.events property) :
    Since thread after.events property := by
  obtain ⟨recent, same, noCall⟩ := continues
  rw [same]
  exact since.later noCall

omit [DecidableEq K] in
/-- No history grows by itself. -/
theorem Continues.of_same
    (thread : T)
    {before after : SplitTable A K T}
    (same : after.events = before.events) :
    Continues thread before after :=
  ⟨[], by simpa using same, by simp⟩

namespace Advances

variable
  {hash : K → Nat}
  {thread : T}
  {before after : SplitTable A K T}

/-- The steps of other threads do not begin a call of this one. -/
theorem continues
    (advances : Advances hash thread before after)
    {other : T}
    (different : thread ≠ other) :
    Continues other before after := by
  obtain ⟨recent, same, owns⟩ := advances.events
  refine ⟨recent, same, ?_⟩
  intro operation member
  exact different (owns _ member).symm

/-- What has moved stays moved. -/
theorem moved
    (advances : Advances hash thread before after)
    {key : K}
    {bucket : Nat}
    (moved : before.Moved hash key bucket) :
    after.Moved hash key bucket := by
  obtain ⟨child, next, published⟩ := moved
  exact ⟨child, next, advances.published published⟩

/-- A dead node stays dead. -/
theorem dead
    (advances : Advances hash thread before after)
    {bucket : Nat}
    {node : A}
    (present : before.forest.place node ≠ .off)
    (presentAfter : after.forest.place node ≠ .off)
    (dead : before.Dead hash bucket node) :
    after.Dead hash bucket node := by
  rcases dead with marked | ⟨frozen, key, holds, moved⟩
  · exact .inl (advances.marked present presentAfter marked)
  · exact .inr
      ⟨advances.frozen present presentAfter frozen, key,
        (advances.key present presentAfter).trans holds,
        advances.moved moved⟩

/-- A change that leaves the chains alone. -/
theorem of_same_forest
    (forest : after.forest = before.forest)
    (key : after.key = before.key)
    (marked :
      ∀ {node}, before.marked node = true → after.marked node = true)
    (frozen :
      ∀ {node}, before.frozen node = true → after.frozen node = true)
    (removes :
      ∀ {node key},
        before.Carries node key →
        after.marked node = true →
        member after.events key = false)
    (published :
      ∀ {bucket},
        before.published bucket = true → after.published bucket = true)
    (level :
      ∀ {bucket},
        before.published bucket = true →
        before.level bucket ≤ after.level bucket)
    (bits : before.bits ≤ after.bits)
    (events :
      ∃ recent,
        after.events = recent ++ before.events ∧
          ∀ event ∈ recent, event.thread = thread) :
    Advances hash thread before after where
  forest := forest ▸ Forest.Advances.refl _
  shrinks _ leads := by rwa [forest] at leads
  key _ _ := by rw [key]
  marked _ _ := marked
  frozen _ _ := frozen
  removes _ _ := removes
  tagged _ _ _ := by rw [forest]
  fresh outside linked := absurd (forest ▸ linked) outside
  cuts linked cut := by
    rw [forest, linked] at cut
    cases cut
  cutWithin cut := .inr ⟨_, forest ▸ cut⟩
  published := published
  level := level
  bits := bits
  events := events

/-- Nothing happens. -/
theorem refl
    (hash : K → Nat)
    (thread : T)
    (table : SplitTable A K T) :
    Advances hash thread table table :=
  of_same_forest rfl rfl id id
    (fun carries marked =>
      absurd marked carries.not_marked)
    id (fun _ => Nat.le_refl _) (Nat.le_refl _)
    ⟨[], rfl, by simp⟩

end Advances

section Changes

variable
  {hash : K → Nat}
  {freezing : Bool}
  {base : Nat}
  {table : SplitTable A K T}
  {thread : T}

/-- A call begins or returns. -/
theorem record_advances
    (event : SetEvent T K)
    (own : event.thread = thread) :
    Advances hash thread table (table.record event) :=
  Advances.of_same_forest rfl rfl id id
    (fun carries marked =>
      absurd marked carries.not_marked)
    id (fun _ => Nat.le_refl _) (Nat.le_refl _)
    ⟨[event], rfl, by simpa using own⟩

variable [DecidableEq A]

/-- A node is marked, which removes its key. -/
theorem mark_advances
    {node : A}
    {key : K}
    (holds : table.key node = some key) :
    Advances hash thread table (table.mark thread node key) := by
  refine Advances.of_same_forest rfl rfl ?_ id ?_ id
    (fun _ => Nat.le_refl _) (Nat.le_refl _)
    ⟨[.removed thread key], rfl, by simp [SetEvent.thread]⟩
  · intro other marked
    by_cases same : other = node
    · simp [mark, same]
    · simpa [mark, same] using marked
  · intro other found carries marked
    by_cases same : other = node
    · subst same
      cases holds.symm.trans carries.1
      simp [mark, member]
    · rw [show (table.mark thread node key).marked other =
        table.marked other by simp [mark, same], carries.2] at marked
      cases marked

/-- A node is frozen. -/
theorem freeze_advances
    (node : A) :
    Advances hash thread table (table.freeze node) := by
  refine Advances.of_same_forest rfl rfl id ?_ ?_ id
    (fun _ => Nat.le_refl _) (Nat.le_refl _) ⟨[], rfl, by simp⟩
  · intro other frozen
    by_cases same : other = node
    · simp [freeze, same]
    · simpa [freeze, same] using frozen
  · intro other key carries marked
    exact absurd marked carries.not_marked

omit [DecidableEq A] in
/-- A bucket is sealed for more of its children. -/
theorem sealBucket_advances
    {bucket level : Nat}
    (higher : table.level bucket ≤ level) :
    Advances hash thread table (table.sealBucket bucket level) := by
  refine Advances.of_same_forest rfl rfl id id ?_ id ?_ (Nat.le_refl _)
    ⟨[], rfl, by simp⟩
  · intro other key carries marked
    exact absurd marked carries.not_marked
  · intro other _
    by_cases same : other = bucket
    · subst same
      simpa [sealBucket] using higher
    · simp [sealBucket, same]

omit [DecidableEq A] in
/-- The table doubles. -/
theorem double_advances :
    Advances hash thread table table.double := by
  refine Advances.of_same_forest rfl rfl id id ?_ id
    (fun _ => Nat.le_refl _) (Nat.le_succ _) ⟨[], rfl, by simp⟩
  intro other key carries marked
  exact absurd marked carries.not_marked

/-- A node is put in front of a chain, which adds its key. -/
theorem prepend_advances
    (sound : table.Sound hash freezing base)
    {bucket : Nat}
    {node : A}
    {key : K}
    (prependable : table.Prependable hash base bucket node key) :
    Advances hash thread table (table.prepend thread bucket node key) where
  forest :=
    Forest.insertAfter_advances sound.forest (.inl rfl)
      prependable.off prependable.leads
  shrinks _ leads := by
    refine Relation.ReflTransGen.mono (fun first second edge => ?_) _ _ leads
    simpa [prepend, Forest.insertAfter] using edge
  key _ _ := rfl
  marked _ _ := id
  frozen _ _ := id
  removes _ _ carries marked :=
    absurd marked carries.not_marked
  tagged _ _ _ := by simp [prepend, Forest.insertAfter]
  fresh {other chain found} outside linked holds := by
    have same : other = node := by
      by_contra different
      exact outside
        (by simpa [prepend, Forest.insertAfter, different] using linked)
    subst same
    have here : bucket = chain := by
      simpa [prepend, Forest.insertAfter] using linked
    subst here
    cases prependable.holds.symm.trans holds
    exact ⟨sound.not_moved_of_level prependable.unsealed,
      fun next => (prependable.unsealed next).2⟩
  cuts {other chain stamp} linked cut := by
    have different : other ≠ node := by
      rintro rfl
      rw [prependable.off] at linked
      cases linked
    simp [prepend, Forest.insertAfter, different, linked] at cut
  cutWithin {other chain stamp} cut := by
    have different : other ≠ node := by
      rintro rfl
      simp [prepend, Forest.insertAfter] at cut
    exact .inr
      ⟨stamp, by simpa [prepend, Forest.insertAfter, different] using cut⟩
  published := id
  level _ := Nat.le_refl _
  bits := Nat.le_refl _
  events :=
    ⟨[.added thread key], rfl, by simp [SetEvent.thread]⟩

/-- A run of dead nodes is unlinked. -/
theorem unlink_advances
    (sound : table.Sound hash freezing base)
    {bucket : Nat}
    {cell : Cell Nat A}
    {run : List A}
    (unlinkable : table.Unlinkable hash bucket cell run) :
    Advances hash thread table (table.unlink bucket cell run) where
  forest :=
    Forest.cutRun_advances sound.forest unlinkable.attached
      unlinkable.segment
  shrinks _ leads :=
    Forest.leadsTo_of_cutRun unlinkable.segment leads
  key _ _ := rfl
  marked _ _ := id
  frozen _ _ := id
  removes _ _ carries marked :=
    absurd marked carries.not_marked
  tagged {node} _ _ tagged := by
    have different : (.node node : Cell Nat A) ≠ cell := by
      intro same
      obtain ⟨unmarked, unfrozen⟩ := unlinkable.untagged same.symm
      simp [unmarked, unfrozen] at tagged
    simp [unlink, Forest.cutRun, Function.update_of_ne different]
  fresh {node chain key} outside linked _ := by
    by_cases inRun : node ∈ run
    · simp [unlink, Forest.cutRun, inRun] at linked
    · exact absurd
        (by simpa [unlink, Forest.cutRun, inRun] using linked) outside
  cuts {node chain stamp} linked cut := by
    by_cases inRun : node ∈ run
    · have same : chain = bucket :=
        Place.linked.inj (linked.symm.trans
          (sound.forest.run_linked unlinkable.attached
            unlinkable.segment inRun))
      subst same
      exact unlinkable.dead node inRun
    · simp [unlink, Forest.cutRun, inRun, linked] at cut
  cutWithin {node chain stamp} cut := by
    by_cases inRun : node ∈ run
    · have same : bucket = chain := by
        simp only [unlink, Forest.cutRun, inRun, ↓reduceIte,
          Place.cut.injEq] at cut
        exact cut.1
      subst same
      exact .inl (sound.forest.run_linked unlinkable.attached
        unlinkable.segment inRun)
    · exact .inr
        ⟨stamp, by simpa [unlink, Forest.cutRun, inRun] using cut⟩
  published := id
  level _ := Nat.le_refl _
  bits := Nat.le_refl _
  events := ⟨[], rfl, by simp⟩

/-- A bucket is published with copies of its keys. -/
theorem publish_advances
    (sound : table.Sound hash freezing base)
    {bucket : Nat}
    {copies : List A}
    (splittable : table.Splittable hash freezing bucket copies) :
    Advances hash thread table (table.publish bucket copies) where
  forest :=
    Forest.publish_advances sound.forest splittable.publishable
  shrinks _ leads := by
    refine Relation.ReflTransGen.mono (fun first second edge => ?_) _ _ leads
    simpa [publish, Forest.publish] using edge
  key _ _ := rfl
  marked _ _ := id
  frozen _ _ := id
  removes _ _ carries marked :=
    absurd marked carries.not_marked
  tagged _ _ _ := by simp [publish, Forest.publish]
  fresh {node chain key} outside linked holds := by
    have copy : node ∈ copies := by
      by_contra other
      exact outside
        (by simpa [publish, Forest.publish, other] using linked)
    have here : bucket = chain := by
      simpa [publish, Forest.publish, copy] using linked
    subst here
    refine ⟨?_, fun _ => by simp [publish]⟩
    rintro ⟨child, next, published⟩
    by_cases same : child = bucket
    · exact absurd next.lt (by simp [same])
    · have parent := sound.ancestors next.positive
        (by simpa [publish, same] using published)
      rw [next.parent, splittable.unpublished] at parent
      cases parent
  cuts {node chain stamp} linked cut := by
    have other : node ∉ copies := by
      intro copy
      rw [splittable.publishable.unlinked node copy] at linked
      cases linked
    simp [publish, Forest.publish, other, linked] at cut
  cutWithin {node chain stamp} cut := by
    have other : node ∉ copies := by
      intro copy
      simp [publish, Forest.publish, copy] at cut
    exact .inr
      ⟨stamp, by simpa [publish, Forest.publish, other] using cut⟩
  published {chain} known := by
    by_cases same : chain = bucket
    · simp [publish, same]
    · simpa [publish, same] using known
  level {chain} known := by
    have different : chain ≠ bucket := by
      rintro rfl
      rw [splittable.unpublished] at known
      cases known
    simp [publish, different]
  bits := Nat.le_refl _
  events := ⟨[], rfl, by simp⟩

/-- A node that is on no chain is written. -/
theorem rewrite_advances
    (sound : table.Sound hash freezing base)
    {node : A}
    (off : table.forest.place node = .off)
    (next : Option A)
    (key : Option K)
    (marked frozen : Bool) :
    Advances hash thread table
      (table.rewrite node next key marked frozen) := by
  have other :
      ∀ {found}, table.forest.place found ≠ .off → found ≠ node := by
    rintro found present rfl
    exact present off
  refine
    { forest := Forest.setLink_advances sound.forest off next
      shrinks := fun visible =>
        (Forest.setLink_leadsTo sound.forest off (Nat.le_refl _)
          visible).mp
      key := ?_
      marked := ?_
      frozen := ?_
      removes := ?_
      tagged := ?_
      fresh := fun outside linked => absurd linked outside
      cuts := ?_
      cutWithin := fun cut => .inr ⟨_, cut⟩
      published := id
      level := fun _ => Nat.le_refl _
      bits := Nat.le_refl _
      events := ⟨[], rfl, by simp⟩ }
  · intro found present _
    simp [rewrite, other present]
  · intro found present _ known
    simpa [rewrite, other present] using known
  · intro found present _ known
    simpa [rewrite, other present] using known
  · intro found holds present _ carries known
    simp only [rewrite, Function.update_of_ne (other present),
      carries.2] at known
    cases known
  · intro found present _ _
    simp [rewrite, Forest.setLink, other present]
  · intro found bucket stamp linked cut
    rw [show (table.rewrite node next key marked frozen).forest.place
      found = table.forest.place found from rfl, linked] at cut
    cases cut

end Changes

end ConcurrentCpp.SplitTable
