import ConcurrentCpp.SplitTableChanges

namespace ConcurrentCpp

/-!
# Sweeping a table that nobody uses

While no walk is in progress, a node that decides nothing any more can be
taken off its chain at once: it need not wait for walks that still hold it.
-/

namespace Forest

variable {R A : Type} [DecidableEq R] [DecidableEq A]

/-- Take the node behind a cell off every chain. -/
def expel
    (forest : Forest R A)
    (cell : Cell R A)
    (node : A) :
    Forest R A :=
  { forest with
    links :=
      Function.update forest.links cell (forest.links (.node node))
    place := Function.update forest.place node .off }

variable
  {forest : Forest R A}
  {chain : R}
  {before after : List A}
  {node : A}

/-- The parts of the chain before and after the node are joined. -/
theorem expel_chain
    (chained : forest.Chain chain (before ++ node :: after)) :
    (forest.expel (endCell (.root chain) before) node).Chain chain
      (before ++ after) := by
  have parts := List.nodup_append'.mp chained.noDuplicates
  have inner := List.nodup_cons.mp parts.2.1
  have path := path_append.mp chained.path
  have atCell :
      ∀ other ∈ node :: after,
        (.node other : Cell R A) ≠ endCell (.root chain) before :=
    fun other member => chained.after_ne_cell rfl member
  refine ⟨path_append.mpr ⟨?_, ?_⟩, ?_, ?_⟩
  · exact path.1.update_end parts.1 (Chain.root_outside chain) _
  · refine path.2.2.transfer (by simp [expel]) fun other member => ?_
    have different := atCell other (List.mem_cons_of_mem _ member)
    simp [expel, Function.update_of_ne different]
  · exact List.nodup_append'.mpr
      ⟨parts.1, inner.2, fun other first second =>
        parts.2.2 first (List.mem_cons_of_mem _ second)⟩
  · intro other
    have members := chained.members other
    by_cases same : other = node
    · subst same
      have notBefore : other ∉ before := fun member =>
        parts.2.2 member (by simp)
      simp [expel, notBefore, inner.1]
    · simp only [List.mem_append, List.mem_cons, same, false_or] at members
      simpa [expel, same] using members

/-- The other chains stay as they are. -/
theorem expel_other
    (chained : forest.Chain chain (before ++ node :: after))
    {other : R}
    (different : other ≠ chain)
    {nodes : List A}
    (otherChained : forest.Chain other nodes) :
    (forest.expel (endCell (.root chain) before) node).Chain other
      nodes := by
  have linked : forest.place node = .linked chain :=
    (chained.members node).mp (by simp)
  have cell :
      endCell (.root chain) before = (.root chain : Cell R A) ∨
        ∃ last ∈ before,
          endCell (.root chain) before = (.node last : Cell R A) := by
    cases before with
    | nil =>
        exact .inl rfl
    | cons first rest =>
        exact .inr (endCell_cons_mem _ _ _)
  refine otherChained.transfer ?_ ?_ ?_
  · rcases cell with here | ⟨last, _, here⟩
    · simp [expel, here, different]
    · simp [expel, here]
  · intro slot member
    have home := (otherChained.members slot).mp member
    rcases cell with here | ⟨last, inside, here⟩
    · simp [expel, here]
    · have apart : slot ≠ last := by
        rintro rfl
        have here := (chained.members slot).mp (by simp [inside])
        exact different (Place.linked.inj (home.symm.trans here))
      simp [expel, here, apart]
  · intro slot
    by_cases same : slot = node
    · subst same
      simp [expel, linked, Ne.symm different]
    · simp [expel, same]

/-- Where no node is cut, a node may be taken off its chain. -/
theorem expel_wellFormed
    (wellFormed : forest.WellFormed)
    (uncut : ∀ {node chain stamp}, forest.place node ≠ .cut chain stamp)
    (chained : forest.Chain chain (before ++ node :: after)) :
    (forest.expel (endCell (.root chain) before) node).WellFormed := by
  have stillUncut :
      ∀ {other here stamp},
        (forest.expel (endCell (.root chain) before) node).place other ≠
          .cut here stamp := by
    intro other here stamp
    by_cases same : other = node
    · simp [expel, same]
    · simpa [expel, same] using uncut
  refine
    { chain := ?_
      cutStamp := fun cut => absurd cut stillUncut
      cutNext := fun cut => absurd cut stillUncut
      cutEnds := fun cut => absurd cut stillUncut }
  intro other
  by_cases same : other = chain
  · subst same
    exact ⟨_, expel_chain chained⟩
  · obtain ⟨nodes, otherChained⟩ := wellFormed.chain other
    exact ⟨nodes, expel_other chained same otherChained⟩

end Forest

namespace SplitTable

variable {A K T : Type} [DecidableEq A]

/-- Take the node behind a cell off every chain. -/
def expel
    (table : SplitTable A K T)
    (cell : Cell Nat A)
    (node : A) :
    SplitTable A K T :=
  { table with forest := table.forest.expel cell node }

/-- The node decides nothing: it is marked or its key has moved on. -/
def Stale
    (hash : K → Nat)
    (table : SplitTable A K T)
    (bucket : Nat)
    (node : A) : Prop :=
  table.marked node = true ∨
    ∃ key, table.key node = some key ∧ table.Moved hash key bucket

variable [DecidableEq K]

variable
  {hash : K → Nat}
  {freezing : Bool}
  {base : Nat}
  {table : SplitTable A K T}
  {bucket : Nat}
  {before after : List A}
  {node : A}

/-- A node that decides nothing may be taken off its chain. -/
theorem expel_sound
    (sound : table.Sound hash freezing base)
    (uncut :
      ∀ {node chain stamp}, table.forest.place node ≠ .cut chain stamp)
    (chained : table.forest.Chain bucket (before ++ node :: after))
    (stale : table.Stale hash bucket node) :
    (table.expel (endCell (.root bucket) before) node).Sound
      hash freezing base := by
  have onChain : table.forest.place node = .linked bucket :=
    (chained.members node).mp (by simp)
  have linked :
      ∀ {other chain},
        (table.expel (endCell (.root bucket) before) node).forest.place
            other = .linked chain ↔
          other ≠ node ∧ table.forest.place other = .linked chain := by
    intro other chain
    by_cases same : other = node <;> simp [expel, Forest.expel, same]
  have cut :
      ∀ {other chain stamp},
        (table.expel (endCell (.root bucket) before) node).forest.place
          other ≠ .cut chain stamp := by
    intro other chain stamp
    by_cases same : other = node
    · simp [expel, Forest.expel, same]
    · simpa [expel, Forest.expel, same] using uncut
  have present :
      ∀ {other},
        (table.expel (endCell (.root bucket) before) node).forest.place
          other ≠ .off →
        table.forest.place other ≠ .off := by
    intro other known
    by_cases same : other = node
    · simp [same, onChain]
    · simpa [expel, Forest.expel, same] using known
  refine
    { sound with
      forest := Forest.expel_wellFormed sound.forest uncut chained
      hidden := ?_
      within := ?_
      exclusive := fun known => sound.exclusive (present known)
      unmarked := fun without _ known =>
        sound.unmarked without (present known)
      frozenSealed := fun known => sound.frozenSealed (linked.mp known).2
      movedFrozen := fun freezes _ _ _ known =>
        sound.movedFrozen freezes (linked.mp known).2
      cutDead := fun known => absurd known cut
      single := fun onFirst onSecond =>
        sound.single (linked.mp onFirst).2 (linked.mp onSecond).2
      authority := ?_ }
  · intro chain unpublished
    have none := sound.hidden unpublished
    have different : chain ≠ bucket := by
      rintro rfl
      have published := (sound.within (.inl onChain)).1
      exact absurd (published.symm.trans unpublished) (by simp)
    obtain ⟨nodes, otherChained⟩ := sound.forest.chain chain
    have kept := Forest.expel_other chained different otherChained
    have same := otherChained.path.head.symm.trans none
    exact kept.path.head.trans same
  · intro chain other within
    rcases within with known | ⟨stamp, known⟩
    · exact sound.within (.inl (linked.mp known).2)
    · exact absurd known cut
  · intro key
    have same := sound.authority key
    refine same.trans
      (exists_congr fun other => exists_congr fun chain => ?_)
    rw [linked]
    constructor
    · rintro ⟨known, holds, stays⟩
      refine ⟨⟨?_, known⟩, holds, stays⟩
      rintro rfl
      cases Place.linked.inj (known.symm.trans onChain)
      rcases stale with marked | ⟨found, sameKey, moved⟩
      · rw [holds.2] at marked
        cases marked
      · cases sameKey.symm.trans holds.1
        exact stays moved
    · rintro ⟨⟨_, known⟩, holds, stays⟩
      exact ⟨known, holds, stays⟩

end SplitTable

end ConcurrentCpp
