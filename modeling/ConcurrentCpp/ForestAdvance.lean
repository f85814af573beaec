import ConcurrentCpp.LinkForest

namespace ConcurrentCpp.Forest

/-!
# What one change of a forest may do

`Advances` collects what every change of a forest guarantees to a thread that
holds some of its nodes: a linked node stays linked or is cut now, a cut node
keeps its link until it is released below the floor, and a node that stays
linked is still found from wherever it was found before.
-/

variable {R A : Type}

/-- One change, as seen by the holder of a visible node. -/
structure Advances (before after : Forest R A) : Prop where
  now_le : before.now ≤ after.now
  floor_le : before.floor ≤ after.floor
  linked :
    ∀ {node chain},
      before.place node = .linked chain →
      after.place node = .linked chain ∨
        after.place node = .cut chain before.now
  cut :
    ∀ {node chain stamp},
      before.place node = .cut chain stamp →
      after.place node = .cut chain stamp ∨
        after.place node = .off ∧ stamp < after.floor
  cutLink :
    ∀ {node chain stamp},
      before.place node = .cut chain stamp →
      after.place node = .cut chain stamp →
      after.links (.node node) = before.links (.node node)
  leadsTo :
    ∀ {chain first last},
      before.Visible chain before.floor first →
      LeadsTo before.links first last →
      before.place last = .linked chain →
      after.place last = .linked chain →
      LeadsTo after.links first last
  order :
    ∀ {chain nodes later},
      before.Chain chain nodes →
      after.Chain chain later →
      nodes.Sublist later ∨ later.Sublist nodes

/-- A duplicate-free list cannot hold two nodes in both orders. -/
private theorem not_both_orders
    {first second : A}
    {nodes : List A}
    (noDuplicates : nodes.Nodup)
    (ordered : [first, second].Sublist nodes) :
    ¬ [second, first].Sublist nodes := by
  induction nodes with
  | nil =>
      simp at ordered
  | cons head rest inductionHypothesis =>
      obtain ⟨fresh, restNodup⟩ := List.nodup_cons.mp noDuplicates
      intro reversed
      cases ordered with
      | cons _ inRest =>
          cases reversed with
          | cons _ reversedInRest =>
              exact inductionHypothesis restNodup inRest reversedInRest
          | cons_cons _ _ =>
              exact fresh (inRest.subset (by simp))
      | cons_cons _ secondInRest =>
          cases reversed with
          | cons _ reversedInRest =>
              exact fresh (reversedInRest.subset (by simp))
          | cons_cons _ _ =>
              exact fresh (secondInRest.subset (by simp))

namespace Advances

variable {before after : Forest R A}

/-- A visible node stays visible while the floor stays at or below its bound. -/
theorem visible
    (advances : before.Advances after)
    {chain : R}
    {since : Nat}
    {node : A}
    (pinned : after.floor ≤ since)
    (past : since ≤ before.now)
    (visible : before.Visible chain since node) :
    after.Visible chain since node := by
  rcases visible with linked | ⟨stamp, bound, cut⟩
  · rcases advances.linked linked with stays | cutNow
    · exact .inl stays
    · exact .inr ⟨before.now, past, cutNow⟩
  · rcases advances.cut cut with stays | ⟨_, below⟩
    · exact .inr ⟨stamp, bound, stays⟩
    · exact absurd (Nat.lt_of_lt_of_le below
        (Nat.le_trans pinned bound)) (Nat.lt_irrefl _)

/-- A node that is linked afterwards was linked or off before. -/
theorem not_cut_of_linked
    (advances : before.Advances after)
    {chain other : R}
    {stamp : Nat}
    {node : A}
    (linked : after.place node = .linked chain) :
    before.place node ≠ .cut other stamp := by
  intro cut
  rcases advances.cut cut with stays | ⟨off, _⟩
  · rw [linked] at stays
    cases stays
  · rw [linked] at off
    cases off

/-- Two nodes of a chain that both stay linked keep their order. -/
theorem keeps_order
    (advances : before.Advances after)
    {chain : R}
    {nodes later : List A}
    (chained : before.Chain chain nodes)
    (laterChained : after.Chain chain later)
    {first second : A}
    (ordered : [first, second].Sublist nodes)
    (firstStays : after.place first = .linked chain)
    (secondStays : after.place second = .linked chain) :
    [first, second].Sublist later := by
  rcases advances.order chained laterChained with grown | shrunk
  · exact ordered.trans grown
  · have different : first ≠ second :=
      chained.noDuplicates.forall_sublist ordered
    have firstMember := (laterChained.members first).mpr firstStays
    have secondMember := (laterChained.members second).mpr secondStays
    obtain ⟨leading, trailing, rfl⟩ := List.append_of_mem firstMember
    rcases List.mem_append.mp secondMember with inLeading | inTrailing
    · have reversed : [second, first].Sublist nodes :=
        ((List.singleton_sublist.mpr inLeading).append
          ((List.nil_sublist trailing).cons_cons first)).trans shrunk
      exact (not_both_orders chained.noDuplicates ordered
        reversed).elim
    · have behind :=
        (List.mem_cons.mp inTrailing).resolve_left (Ne.symm different)
      exact (List.nil_sublist leading).append
        ((List.singleton_sublist.mpr behind).cons_cons first)

end Advances

/-- Doing nothing is a change. -/
theorem Advances.refl
    (forest : Forest R A) :
    forest.Advances forest where
  now_le := Nat.le_refl _
  floor_le := Nat.le_refl _
  linked known := .inl known
  cut known := .inl known
  cutLink _ _ := rfl
  leadsTo _ leads _ _ := leads
  order chained later := by
    rw [chained.path.unique later.path]
    exact .inl (List.Sublist.refl _)

/-- Chains whose nodes and links a change leaves alone keep their order. -/
private theorem order_of_same
    {after : Forest R A}
    {chain : R}
    {nodes later : List A}
    (laterChained : after.Chain chain later)
    (kept : after.Chain chain nodes) :
    nodes.Sublist later ∨ later.Sublist nodes := by
  rw [kept.path.unique laterChained.path]
  exact .inl (List.Sublist.refl _)

variable [DecidableEq R] [DecidableEq A]
variable {forest : Forest R A} {chain : R} {cell : Cell R A} {node : A}

theorem insertAfter_advances
    (wellFormed : forest.WellFormed)
    (attached : forest.Attached chain cell)
    (fresh : forest.place node = .off)
    (prepared : forest.links (.node node) = forest.links cell) :
    forest.Advances (forest.insertAfter chain cell node) where
  now_le := Nat.le_refl _
  floor_le := Nat.le_refl _
  linked {other here} linked := by
    have different : other ≠ node := by
      rintro rfl
      rw [fresh] at linked
      cases linked
    exact .inl (by simp [insertAfter, different, linked])
  cut {other here stamp} cut := by
    have different : other ≠ node := by
      rintro rfl
      rw [fresh] at cut
      cases cut
    exact .inl (by simp [insertAfter, different, cut])
  cutLink {other here stamp} cut _ := by
    have different : (.node other : Cell R A) ≠ cell :=
      attached.ne_of_unlinked (by simp [cut])
    simp [insertAfter, Function.update_of_ne different]
  leadsTo _ leads _ _ :=
    insertAfter_leadsTo prepared
      (attached.ne_of_unlinked (by simp [fresh])) leads
  order {here nodes later} chained laterChained := by
    by_cases same : here = chain
    · subst same
      obtain ⟨before, after, split, inserted⟩ :=
        insertAfter_chain wellFormed attached fresh prepared
      rw [chained.path.unique split.path,
        laterChained.path.unique inserted.path]
      exact .inl
        ((List.Sublist.refl before).append
          (List.sublist_cons_self node after))
    · refine order_of_same laterChained
        (chained.transfer ?_ ?_ ?_)
      · rcases attached with rfl | ⟨_, rfl, _⟩ <;>
          simp [insertAfter, same]
      · intro other member
        have different :=
          attached.ne_of_linked
            ((chained.members other).mp member) same
        simp [insertAfter, Function.update_of_ne different]
      · intro other
        by_cases isNode : other = node
        · subst isNode
          simp [insertAfter, fresh, Ne.symm same]
        · simp [insertAfter, Function.update_of_ne isNode]

theorem cutRun_advances
    {run : List A}
    (wellFormed : forest.WellFormed)
    (attached : forest.Attached chain cell)
    (segment : Segment forest.links cell run) :
    forest.Advances (forest.cutRun chain cell run) where
  now_le := Nat.le_refl _
  floor_le := Nat.le_refl _
  linked {other here} linked := by
    by_cases inRun : other ∈ run
    · have same : here = chain :=
        Place.linked.inj (linked.symm.trans
          (wellFormed.run_linked attached segment inRun))
      subst same
      exact .inr (by simp [cutRun, inRun])
    · exact .inl (by simp [cutRun, inRun, linked])
  cut {other here stamp} cut := by
    have outside : other ∉ run := fun inRun => by
      rw [wellFormed.run_linked attached segment inRun] at cut
      cases cut
    exact .inl (by simp [cutRun, outside, cut])
  cutLink {other here stamp} cut _ := by
    have different : (.node other : Cell R A) ≠ cell :=
      attached.ne_of_unlinked (by simp [cut])
    simp [cutRun, Function.update_of_ne different]
  leadsTo {here first last} visible leads _ stays := by
    have outside : last ∉ run := fun inRun => by
      simp [cutRun, inRun] at stays
    obtain ⟨nodes, path⟩ :=
      wellFormed.visible_ends (Nat.le_refl _) visible
    exact cutRun_leadsTo segment path
      (path.mem_iff_leadsTo.mpr leads) outside
  order {here nodes later} chained laterChained := by
    by_cases same : here = chain
    · subst same
      obtain ⟨before, after, split, joined, _, _⟩ :=
        cutRun_chain wellFormed attached segment
      rw [chained.path.unique split.path,
        laterChained.path.unique joined.path]
      exact .inr
        ((List.Sublist.refl before).append
          (List.sublist_append_right run after))
    · refine order_of_same laterChained
        (chained.transfer ?_ ?_ ?_)
      · rcases attached with rfl | ⟨_, rfl, _⟩ <;>
          simp [cutRun, same]
      · intro other member
        have different :=
          attached.ne_of_linked
            ((chained.members other).mp member) same
        simp [cutRun, Function.update_of_ne different]
      · intro other
        by_cases inRun : other ∈ run
        · simp [cutRun, inRun, Ne.symm same,
            wellFormed.run_linked attached segment inRun]
        · simp [cutRun, inRun]

theorem publish_advances
    {nodes : List A}
    (wellFormed : forest.WellFormed)
    (publishable : forest.Publishable chain nodes) :
    forest.Advances (forest.publish chain nodes) where
  now_le := Nat.le_refl _
  floor_le := Nat.le_refl _
  linked {other here} linked := by
    have outside : other ∉ nodes := fun member => by
      rw [publishable.unlinked other member] at linked
      cases linked
    exact .inl (by simp [publish, outside, linked])
  cut {other here stamp} cut := by
    have outside : other ∉ nodes := fun member => by
      rw [publishable.unlinked other member] at cut
      cases cut
    exact .inl (by simp [publish, outside, cut])
  cutLink {other here stamp} _ _ := by
    simp [publish]
  leadsTo {here first last} visible leads _ _ := by
    obtain ⟨others, path⟩ :=
      wellFormed.visible_ends (Nat.le_refl _) visible
    have kept :
        Path (forest.publish chain nodes).links
          (.node first) others :=
      path.transfer (by simp [publish])
        (fun other _ => by simp [publish])
    exact kept.mem_iff_leadsTo.mp (path.mem_iff_leadsTo.mpr leads)
  order {here others later} chained laterChained := by
    by_cases same : here = chain
    · subst same
      have empty : others = [] := by
        cases others with
        | nil =>
            rfl
        | cons first rest =>
            exact (publishable.noChain first
              ((chained.members first).mp (by simp))).elim
      subst empty
      exact .inl (List.nil_sublist later)
    · refine order_of_same laterChained
        (chained.transfer ?_ (fun _ _ => ?_) ?_)
      · simp [publish, same]
      · simp [publish]
      · intro other
        by_cases member : other ∈ nodes
        · simp [publish, member, publishable.unlinked other member,
            Ne.symm same]
        · simp [publish, member]

omit [DecidableEq R] in
theorem release_advances
    {stamp : Nat}
    (cut : forest.place node = .cut chain stamp)
    (below : stamp < forest.floor) :
    forest.Advances (forest.release node) where
  now_le := Nat.le_refl _
  floor_le := Nat.le_refl _
  linked {other here} linked := by
    have different : other ≠ node := by
      rintro rfl
      rw [cut] at linked
      cases linked
    exact .inl (by simp [release, different, linked])
  cut {other here later} cutOther := by
    by_cases same : other = node
    · subst same
      rw [cut] at cutOther
      cases cutOther
      exact .inr ⟨by simp [release], below⟩
    · exact .inl (by simp [release, same, cutOther])
  cutLink _ _ := rfl
  leadsTo _ leads _ _ := leads
  order {here nodes later} chained laterChained :=
    .inl (by
      rw [chained.path.unique laterChained.path])

theorem setLink_advances
    (wellFormed : forest.WellFormed)
    (free : forest.place node = .off)
    (next : Option A) :
    forest.Advances (forest.setLink node next) where
  now_le := Nat.le_refl _
  floor_le := Nat.le_refl _
  linked linked := .inl linked
  cut cut := .inl cut
  cutLink {other here stamp} cut _ := by
    have different : other ≠ node := by
      rintro rfl
      rw [free] at cut
      cases cut
    simp [setLink, different]
  leadsTo visible leads _ _ :=
    (setLink_leadsTo wellFormed free (Nat.le_refl _) visible).mpr leads
  order {here nodes later} chained laterChained := by
    refine order_of_same laterChained
      (chained.transfer ?_ ?_ (fun _ => Iff.rfl))
    · simp [setLink]
    · intro other member
      have different : other ≠ node := by
        rintro rfl
        rw [(chained.members other).mp member] at free
        cases free
      simp [setLink, different]

omit [DecidableEq R] [DecidableEq A] in
/-- Time may pass and the floor may rise. -/
theorem later_advances
    {later higher : Nat}
    (laterNow : forest.now ≤ later)
    (higherFloor : forest.floor ≤ higher) :
    forest.Advances { forest with now := later, floor := higher } where
  now_le := laterNow
  floor_le := higherFloor
  linked linked := .inl linked
  cut cut := .inl cut
  cutLink _ _ := rfl
  leadsTo _ leads _ _ := leads
  order {here nodes after} chained laterChained :=
    .inl (by
      rw [chained.path.unique laterChained.path])

end ConcurrentCpp.Forest
