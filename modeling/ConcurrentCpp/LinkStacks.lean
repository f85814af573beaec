import ConcurrentCpp.LinkPath

namespace ConcurrentCpp

/-!
# Stacks threaded through one link word

Any number of stacks share the link words of one set of nodes, so a node is on
at most one of them.  A stack grows by splicing a privately linked run of nodes
in front of it, shrinks by popping its top, and can be taken as a whole.  The
link of a node that is on a stack is never written.
-/

variable {L A : Type}

/-- The head and link words, and the stack that every node is on. -/
structure Stacks (L A : Type) where
  links : Links L A
  listed : A → Option L

/-- A nonempty private run of nodes and the link of its last node. -/
def Run
    (links : Links L A)
    (first : A)
    (rest : List A)
    (target : Option A) : Prop :=
  Segment links (.node first) rest ∧
    links (endCell (.node first) rest) = target

/-- Every node of a run that ends in null leads to the next one. -/
theorem Run.link_at
    {links : Links L A}
    {first node : A}
    {rest before ahead : List A}
    (run : Run links first rest none)
    (split : first :: rest = before ++ node :: ahead) :
    links (.node node) = ahead.head? := by
  have path : Path links (.node first) rest := by
    have joined := path_append.mpr
      (⟨run.1, run.2⟩ : _ ∧ Path links (endCell (.node first) rest) [])
    rwa [List.append_nil] at joined
  cases before with
  | nil =>
      simp only [List.nil_append, List.cons.injEq] at split
      obtain ⟨rfl, rfl⟩ := split
      exact path.head
  | cons head before =>
      simp only [List.cons_append, List.cons.injEq] at split
      obtain ⟨rfl, rfl⟩ := split
      have shape : before ++ node :: ahead = (before ++ [node]) ++ ahead := by
        simp
      rw [shape] at path
      simpa using path.tail_head

/-- A run depends only on the links of its own nodes. -/
theorem Run.congr
    {links changed : Links L A}
    {first : A}
    {rest : List A}
    {target : Option A}
    (run : Run links first rest target)
    (same :
      ∀ node ∈ first :: rest,
        changed (.node node) = links (.node node)) :
    Run changed first rest target := by
  induction rest generalizing first with
  | nil =>
      exact ⟨trivial, (same first (by simp)).trans run.2⟩
  | cons second rest inductionHypothesis =>
      have later := inductionHypothesis ⟨run.1.2, run.2⟩
        fun node member => same node (List.mem_cons_of_mem _ member)
      exact ⟨⟨(same first (by simp)).trans run.1.1, later.1⟩, later.2⟩

/-- The last node of a run may be made to lead elsewhere. -/
theorem Run.redirect
    [DecidableEq L]
    [DecidableEq A]
    {links : Links L A}
    {first last : A}
    {rest : List A}
    {old : Option A}
    (run : Run links first rest old)
    (noDuplicates : (first :: rest).Nodup)
    (isLast : (first :: rest).getLast? = some last)
    (target : Option A) :
    Run (Function.update links (.node last) target) first rest target := by
  rw [← endCell_getLast? isLast]
  obtain ⟨outside, rest⟩ := List.nodup_cons.mp noDuplicates
  refine ⟨run.1.update_end rest ?_ target, by simp⟩
  intro node member same
  cases same
  exact outside member

namespace Stacks

/-- The nodes of one stack, top first. -/
structure Holds
    (stacked : Stacks L A)
    (stack : L)
    (items : List A) : Prop where
  path : Path stacked.links (.root stack) items
  noDuplicates : items.Nodup
  members : ∀ node, node ∈ items ↔ stacked.listed node = some stack

/-- Every stack is a finite duplicate-free list of its nodes. -/
def WellFormed (stacked : Stacks L A) : Prop :=
  ∀ stack, ∃ items, stacked.Holds stack items

namespace Holds

variable {stacked : Stacks L A} {stack : L}

/-- A nonempty stack is a run that ends in null. -/
theorem run
    {first : A}
    {rest : List A}
    (holds : stacked.Holds stack (first :: rest)) :
    Run stacked.links first rest none := by
  have path : Path stacked.links (.node first) (rest ++ []) := by
    simpa using holds.path.2
  exact path_append.mp path

/-- The top of a stack is listed on it. -/
theorem top_listed
    {items : List A}
    (holds : stacked.Holds stack items)
    {top : A}
    (leads : stacked.links (.root stack) = some top) :
    stacked.listed top = some stack := by
  rw [holds.path.head] at leads
  exact (holds.members top).mp (List.mem_of_mem_head? leads)

/-- The stack without its top. -/
theorem below
    {items : List A}
    (holds : stacked.Holds stack items)
    {top : A}
    (leads : stacked.links (.root stack) = some top) :
    ∃ rest, items = top :: rest := by
  rw [holds.path.head] at leads
  cases items with
  | nil =>
      cases leads
  | cons first rest =>
      cases leads
      exact ⟨rest, rfl⟩

/-- A stack that keeps its words and its members keeps its nodes. -/
theorem transfer
    {changed : Stacks L A}
    {items : List A}
    (holds : stacked.Holds stack items)
    (sameRoot : changed.links (.root stack) = stacked.links (.root stack))
    (sameLinks :
      ∀ {node},
        stacked.listed node = some stack →
        changed.links (.node node) = stacked.links (.node node))
    (sameListed :
      ∀ node,
        changed.listed node = some stack ↔
          stacked.listed node = some stack) :
    changed.Holds stack items where
  path := holds.path.transfer sameRoot fun node member =>
    sameLinks ((holds.members node).mp member)
  noDuplicates := holds.noDuplicates
  members node := (holds.members node).trans (sameListed node).symm

end Holds

variable [DecidableEq L] [DecidableEq A]

/-- Write the link of a node. -/
def setLink
    (stacked : Stacks L A)
    (node : A)
    (target : Option A) :
    Stacks L A :=
  { stacked with
    links := Function.update stacked.links (.node node) target }

/-- Put a run in front of a stack. -/
def splice
    (stacked : Stacks L A)
    (stack : L)
    (first : A)
    (rest : List A) :
    Stacks L A where
  links := Function.update stacked.links (.root stack) (some first)
  listed node :=
    if node ∈ first :: rest then some stack else stacked.listed node

/-- Empty a stack. -/
def take
    (stacked : Stacks L A)
    (stack : L) :
    Stacks L A where
  links := Function.update stacked.links (.root stack) none
  listed node :=
    if stacked.listed node = some stack then
      none
    else
      stacked.listed node

/-- Pop the top of a stack. -/
def pop
    (stacked : Stacks L A)
    (stack : L)
    (top : A) :
    Stacks L A where
  links :=
    Function.update stacked.links (.root stack) (stacked.links (.node top))
  listed := Function.update stacked.listed top none

variable {stacked : Stacks L A} {stack : L}

section SetLink

variable {node : A} {target : Option A}

theorem setLink_holds
    (unlisted : stacked.listed node = none)
    {items : List A}
    (holds : stacked.Holds stack items) :
    (stacked.setLink node target).Holds stack items := by
  refine holds.transfer ?_ ?_ fun _ => Iff.rfl
  · simp [setLink]
  · intro other listed
    have different : other ≠ node := by
      rintro rfl
      simp [unlisted] at listed
    simp [setLink, different]

theorem setLink_wellFormed
    (wellFormed : stacked.WellFormed)
    (unlisted : stacked.listed node = none) :
    (stacked.setLink node target).WellFormed := by
  intro stack
  obtain ⟨items, holds⟩ := wellFormed stack
  exact ⟨items, setLink_holds unlisted holds⟩

end SetLink

section Splice

variable {first : A} {rest : List A}

/-- A private run whose last node already leads to the top of the stack. -/
structure Spliceable
    (stacked : Stacks L A)
    (stack : L)
    (first : A)
    (rest : List A) : Prop where
  run : Run stacked.links first rest (stacked.links (.root stack))
  noDuplicates : (first :: rest).Nodup
  unlisted : ∀ node ∈ first :: rest, stacked.listed node = none

theorem splice_holds
    (spliceable : stacked.Spliceable stack first rest)
    {items : List A}
    (holds : stacked.Holds stack items) :
    (stacked.splice stack first rest).Holds stack
      ((first :: rest) ++ items) where
  path := by
    have behind :
        Path stacked.links (.node first) (rest ++ items) := by
      refine path_append.mpr ⟨spliceable.run.1, ?_⟩
      exact holds.path.transfer spliceable.run.2 fun _ _ => rfl
    refine ⟨by simp [splice], ?_⟩
    exact behind.transfer (by simp [splice]) fun _ _ => by simp [splice]
  noDuplicates := by
    refine List.nodup_append.mpr
      ⟨spliceable.noDuplicates, holds.noDuplicates, ?_⟩
    rintro node new _ old rfl
    have listed := (holds.members node).mp old
    rw [spliceable.unlisted node new] at listed
    cases listed
  members node := by
    by_cases new : node ∈ first :: rest
    · simp only [splice, new, ↓reduceIte, List.mem_append, true_or]
    · simp only [splice, new, ↓reduceIte, List.mem_append, false_or,
        holds.members node]

theorem splice_other
    (spliceable : stacked.Spliceable stack first rest)
    {other : L}
    (different : other ≠ stack)
    {items : List A}
    (holds : stacked.Holds other items) :
    (stacked.splice stack first rest).Holds other items := by
  refine holds.transfer ?_ ?_ ?_
  · simp [splice, different]
  · intro node _
    simp [splice]
  · intro node
    by_cases new : node ∈ first :: rest
    · simp only [splice, new, ↓reduceIte, Option.some.injEq,
        spliceable.unlisted node new, reduceCtorEq, iff_false]
      exact Ne.symm different
    · simp only [splice, new, ↓reduceIte]

theorem splice_wellFormed
    (wellFormed : stacked.WellFormed)
    (spliceable : stacked.Spliceable stack first rest) :
    (stacked.splice stack first rest).WellFormed := by
  intro other
  obtain ⟨items, holds⟩ := wellFormed other
  by_cases same : other = stack
  · subst same
    exact ⟨_, splice_holds spliceable holds⟩
  · exact ⟨items, splice_other spliceable same holds⟩

end Splice

section Take

theorem take_empty :
    (stacked.take stack).Holds stack [] where
  path := by simp [Path, take]
  noDuplicates := List.nodup_nil
  members node := by
    by_cases here : stacked.listed node = some stack
    · simp [take, here]
    · simp [take, here]

theorem take_other
    {other : L}
    (different : other ≠ stack)
    {items : List A}
    (holds : stacked.Holds other items) :
    (stacked.take stack).Holds other items := by
  refine holds.transfer ?_ ?_ ?_
  · simp [take, different]
  · intro node _
    simp [take]
  · intro node
    by_cases here : stacked.listed node = some stack
    · simp [take, here, Ne.symm different]
    · simp [take, here]

theorem take_wellFormed
    (wellFormed : stacked.WellFormed) :
    (stacked.take stack).WellFormed := by
  intro other
  obtain ⟨items, holds⟩ := wellFormed other
  by_cases same : other = stack
  · subst same
    exact ⟨[], take_empty⟩
  · exact ⟨items, take_other same holds⟩

end Take

section Pop

variable {top : A}

theorem pop_holds
    {items : List A}
    (holds : stacked.Holds stack (top :: items)) :
    (stacked.pop stack top).Holds stack items where
  path :=
    holds.path.2.transfer (by simp [pop]) fun _ _ => by simp [pop]
  noDuplicates := (List.nodup_cons.mp holds.noDuplicates).2
  members node := by
    have fresh := (List.nodup_cons.mp holds.noDuplicates).1
    by_cases same : node = top
    · subst same
      simp [pop, fresh]
    · have member := holds.members node
      simp only [List.mem_cons, same, false_or] at member
      simpa [pop, same] using member

theorem pop_other
    (listed : stacked.listed top = some stack)
    {other : L}
    (different : other ≠ stack)
    {items : List A}
    (holds : stacked.Holds other items) :
    (stacked.pop stack top).Holds other items := by
  refine holds.transfer ?_ ?_ ?_
  · simp [pop, different]
  · intro node _
    simp [pop]
  · intro node
    by_cases same : node = top
    · subst same
      simp [pop, listed, Ne.symm different]
    · simp [pop, same]

theorem pop_wellFormed
    (wellFormed : stacked.WellFormed)
    (leads : stacked.links (.root stack) = some top) :
    (stacked.pop stack top).WellFormed := by
  intro other
  obtain ⟨items, holds⟩ := wellFormed other
  by_cases same : other = stack
  · subst same
    obtain ⟨rest, rfl⟩ := holds.below leads
    exact ⟨rest, pop_holds holds⟩
  · obtain ⟨own, ownHolds⟩ := wellFormed stack
    exact ⟨items,
      pop_other (ownHolds.top_listed leads) same holds⟩

end Pop

end Stacks

end ConcurrentCpp
