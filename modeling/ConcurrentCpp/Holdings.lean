import Mathlib.Data.Set.Card

namespace ConcurrentCpp

/-!
# Counting who refers to what

Two ways of holding references.  A family of places holds at most one
reference each; `holding` counts the places that refer to a given object.  A
tagged list holds any number of entries per owner; `own` is the part of it that
belongs to one owner.
-/

section Places

variable {X A : Type}

/-- How many places refer to an object. -/
noncomputable def holding
    (refers : X → Option A)
    (object : A) : Nat :=
  Set.ncard { place | refers place = some object }

/-- Only finitely many places refer to anything. -/
def Bounded
    (refers : X → Option A) : Prop :=
  { place | refers place ≠ none }.Finite

/-- Finitely many places refer to one object. -/
theorem Bounded.of_object
    {refers : X → Option A}
    (bounded : Bounded refers)
    (object : A) :
    { place | refers place = some object }.Finite := by
  refine bounded.subset ?_
  intro place refersTo
  have known : refers place = some object := refersTo
  simp [known]

/-- One more place that refers to something is still finitely many. -/
theorem Bounded.update
    [DecidableEq X]
    {refers : X → Option A}
    (bounded : Bounded refers)
    (place : X)
    (value : Option A) :
    Bounded (Function.update refers place value) := by
  refine (bounded.insert place).subset ?_
  intro other refersTo
  by_cases same : other = place
  · exact Or.inl same
  · right
    simpa [Function.update_of_ne same] using refersTo

/-- A place that refers to an object is counted. -/
theorem holding_pos
    {refers : X → Option A}
    {place : X}
    {object : A}
    (bounded : Bounded refers)
    (refersTo : refers place = some object) :
    0 < holding refers object :=
  (Set.ncard_pos (bounded.of_object object)).mpr ⟨place, refersTo⟩

/-- A place that is emptied is not counted any more. -/
private theorem holding_update_none
    [DecidableEq X]
    [DecidableEq A]
    {refers : X → Option A}
    (bounded : Bounded refers)
    (place : X)
    (object : A) :
    holding (Function.update refers place none) object +
        (if refers place = some object then 1 else 0) =
      holding refers object := by
  have shape :
      { other | Function.update refers place none other = some object } =
        { other | refers other = some object } \ {place} := by
    ext other
    by_cases same : other = place
    · simp [same]
    · simp [same]
  unfold holding
  rw [shape]
  split
  case isTrue refersTo =>
      exact Set.ncard_sdiff_singleton_add_one refersTo
        (bounded.of_object object)
  case isFalse refersElse =>
      rw [Nat.add_zero]
      congr 1
      exact Set.sdiff_singleton_eq_self refersElse

/-- A place that was empty adds one to what it is given. -/
private theorem holding_update_some
    [DecidableEq X]
    [DecidableEq A]
    {refers : X → Option A}
    {place : X}
    (bounded : Bounded refers)
    (vacant : refers place = none)
    (value : Option A)
    (object : A) :
    holding (Function.update refers place value) object =
      holding refers object + (if value = some object then 1 else 0) := by
  have back := holding_update_none (bounded.update place value) place object
  simp only [Function.update_idem, Function.update_self] at back
  rw [← vacant, Function.update_eq_self] at back
  exact back.symm

/-- Changing what one place refers to moves one reference. -/
theorem holding_update
    [DecidableEq X]
    [DecidableEq A]
    {refers : X → Option A}
    (bounded : Bounded refers)
    (place : X)
    (value : Option A)
    (object : A) :
    holding (Function.update refers place value) object +
        (if refers place = some object then 1 else 0) =
      holding refers object + (if value = some object then 1 else 0) := by
  have emptied := holding_update_none bounded place object
  have filled :=
    holding_update_some (bounded.update place none)
      (Function.update_self place none refers) value object
  rw [Function.update_idem] at filled
  omega

end Places

section Tagged

variable {T X : Type} [DecidableEq T]

/-- The entries of a tagged list that belong to one owner. -/
def own
    (owner : T)
    (entries : List (T × X)) :
    List X :=
  (entries.filter fun entry => decide (entry.1 = owner)).map Prod.snd

/-- An entry added for the owner. -/
@[simp] theorem own_cons_self
    {owner : T}
    {value : X}
    {entries : List (T × X)} :
    own owner ((owner, value) :: entries) = value :: own owner entries := by
  simp [own]

/-- An entry added for somebody else. -/
theorem own_cons_other
    {owner other : T}
    {value : X}
    {entries : List (T × X)}
    (different : other ≠ owner) :
    own owner ((other, value) :: entries) = own owner entries := by
  simp [own, different]

/-- The own entries are those tagged with the owner. -/
theorem mem_own
    {owner : T}
    {value : X}
    {entries : List (T × X)} :
    value ∈ own owner entries ↔ (owner, value) ∈ entries := by
  simp [own]

/-- The own entries of two lists. -/
theorem own_append
    {owner : T}
    {first second : List (T × X)} :
    own owner (first ++ second) = own owner first ++ own owner second := by
  simp [own]

/-- Entries added for one owner. -/
theorem own_map_self
    {owner : T}
    {values : List X} :
    own owner (values.map fun value => (owner, value)) = values := by
  induction values with
  | nil =>
      rfl
  | cons value values inductionHypothesis =>
      simp [inductionHypothesis]

/-- Entries added for somebody else. -/
theorem own_map_other
    {owner other : T}
    {values : List X}
    (different : other ≠ owner) :
    own owner (values.map fun value => (other, value)) = [] := by
  induction values with
  | nil =>
      rfl
  | cons value values inductionHypothesis =>
      simp [own_cons_other different, inductionHypothesis]

variable [BEq X] [LawfulBEq X]

/-- An entry of the owner is erased from the own ones. -/
theorem own_erase_self
    {owner : T}
    {value : X}
    {entries : List (T × X)} :
    own owner (entries.erase (owner, value)) =
      (own owner entries).erase value := by
  induction entries with
  | nil =>
      rfl
  | cons entry entries inductionHypothesis =>
      obtain ⟨tag, other⟩ := entry
      by_cases sameOwner : tag = owner
      · subst tag
        by_cases sameValue : other = value
        · simp [sameValue]
        · simp [sameValue, List.erase_cons_tail, inductionHypothesis]
      · have differs : (tag, other) ≠ (owner, value) := by
          simp [sameOwner]
        rw [List.erase_cons_tail (by simpa using differs),
          own_cons_other sameOwner, own_cons_other sameOwner,
          inductionHypothesis]

/-- An entry of somebody else is erased. -/
theorem own_erase_other
    {owner other : T}
    {value : X}
    {entries : List (T × X)}
    (different : other ≠ owner) :
    own owner (entries.erase (other, value)) = own owner entries := by
  induction entries with
  | nil =>
      rfl
  | cons entry entries inductionHypothesis =>
      obtain ⟨tag, content⟩ := entry
      by_cases same : (tag, content) = (other, value)
      · cases same
        rw [List.erase_cons_head, own_cons_other different]
      · rw [List.erase_cons_tail (by simpa using same)]
        by_cases sameOwner : tag = owner
        · subst tag
          simp [inductionHypothesis]
        · rw [own_cons_other sameOwner, own_cons_other sameOwner,
            inductionHypothesis]

end Tagged

end ConcurrentCpp
