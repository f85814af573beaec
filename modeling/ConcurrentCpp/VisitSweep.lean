import ConcurrentCpp.LinkPath
import Mathlib.Data.List.Basic
import Mathlib.Data.List.Nodup
import Mathlib.Data.List.Perm.Subperm
import Mathlib.Data.Set.Card

namespace ConcurrentCpp

/-!
# Sweeps that visit every slot once

A walk follows links from a root and is given by the address it meets after
each number of links.  A sweep takes one walk after the other and leaves a
walk at the first address that is no slot or that it has visited before.  The
sweep is a checker: all of its walks ran to their end and together took as
many nodes as there are slots if and only if the walks, followed without any
such check, meet nothing but slots and every slot exactly once.
-/

section Walk

variable {A : Type}

/-- The address that a walk meets after a number of links. -/
def met (next : A → Option A) (start : Option A) : Nat → Option A
  | 0 => start
  | count + 1 => met next (start.bind next) count

/-- A walk that has ended meets nothing more. -/
theorem met_none
    (next : A → Option A)
    (count : Nat) :
    met next none count = none := by
  induction count with
  | zero =>
      rfl
  | succ count inductionHypothesis =>
      exact inductionHypothesis

/-- The addresses before one that a walk meets are met as well. -/
theorem met_before
    {next : A → Option A}
    {start : Option A}
    {count later : Nat}
    {address : A}
    (reached : met next start later = some address)
    (order : count ≤ later) :
    ∃ earlier, met next start count = some earlier := by
  induction count generalizing start later with
  | zero =>
      cases start with
      | none =>
          rw [met_none] at reached
          cases reached
      | some first =>
          exact ⟨first, rfl⟩
  | succ count inductionHypothesis =>
      cases later with
      | zero =>
          omega
      | succ later =>
          exact inductionHypothesis reached (Nat.le_of_succ_le_succ order)

/-- A walk along words that name the nodes of a path meets these nodes. -/
theorem met_path
    {R B : Type}
    {links : Links R B}
    {cell : Cell R B}
    {nodes : List B}
    (path : Path links cell nodes)
    (name : B → A)
    {next : A → Option A}
    (named :
      ∀ node ∈ nodes,
        next (name node) = (links (.node node)).map name)
    (count : Nat) :
    met next ((links cell).map name) count =
      (nodes.map name)[count]? := by
  induction nodes generalizing cell count with
  | nil =>
      rw [show links cell = none from path]
      simpa using met_none next count
  | cons first rest inductionHypothesis =>
      rw [path.1]
      cases count with
      | zero =>
          rfl
      | succ count =>
          have later := inductionHypothesis path.2
            (fun node member =>
              named node (List.mem_cons_of_mem first member)) count
          rw [← named first List.mem_cons_self] at later
          exact later

/--
One walk of a sweep: the nodes that it visits after those already seen, and
whether it ran to its end.
-/
structure Visit
    (slots : List A)
    (seen : Set A)
    (walk : Nat → Option A)
    (nodes : List A)
    (whole : Bool) : Prop where
  found : ∀ count < nodes.length, walk count = nodes[count]?
  distinct : nodes.Nodup
  slot : ∀ node ∈ nodes, node ∈ slots
  fresh : ∀ node ∈ nodes, node ∉ seen
  ended : whole = true → walk nodes.length = none
  stopped :
    whole = false →
      ∃ address,
        walk nodes.length = some address ∧
          (address ∈ slots → address ∈ seen ∨ address ∈ nodes)

namespace Visit

/-- A walk with nothing to visit runs to its end. -/
theorem done
    (slots : List A)
    (seen : Set A)
    (next : A → Option A) :
    Visit slots seen (met next none) [] true where
  found count within := by simp at within
  distinct := List.nodup_nil
  slot node member := by simp at member
  fresh node member := by simp at member
  ended _ := rfl
  stopped broken := by simp at broken

/-- A walk stops at an address that is no slot or was seen. -/
theorem refused
    {slots : List A}
    {seen : Set A}
    {next : A → Option A}
    {address : A}
    (bad : address ∈ slots → address ∈ seen) :
    Visit slots seen (met next (some address)) [] false where
  found count within := by simp at within
  distinct := List.nodup_nil
  slot node member := by simp at member
  fresh node member := by simp at member
  ended whole := by simp at whole
  stopped _ := ⟨address, rfl, fun known => Or.inl (bad known)⟩

/-- A walk that accepts an address goes on behind it. -/
theorem accepted
    {slots nodes : List A}
    {seen : Set A}
    {next : A → Option A}
    {address : A}
    {whole : Bool}
    (known : address ∈ slots)
    (unseen : address ∉ seen)
    (rest :
      Visit slots (insert address seen) (met next (next address)) nodes
        whole) :
    Visit slots seen (met next (some address)) (address :: nodes)
      whole where
  found count within := by
    cases count with
    | zero =>
        rfl
    | succ count =>
        exact rest.found count (by simpa using within)
  distinct := by
    refine List.nodup_cons.2 ⟨fun member => ?_, rest.distinct⟩
    exact rest.fresh address member (Set.mem_insert address seen)
  slot := by
    intro node member
    rcases List.mem_cons.1 member with rfl | member
    · exact known
    · exact rest.slot node member
  fresh := by
    intro node member seenBefore
    rcases List.mem_cons.1 member with rfl | member
    · exact unseen seenBefore
    · exact rest.fresh node member
        (Set.mem_insert_of_mem address seenBefore)
  ended complete := rest.ended complete
  stopped incomplete := by
    obtain ⟨last, reached, bad⟩ := rest.stopped incomplete
    refine ⟨last, reached, fun isSlot => ?_⟩
    rcases bad isSlot with before | visited
    · rcases Set.mem_insert_iff.1 before with rfl | before
      · exact Or.inr List.mem_cons_self
      · exact Or.inl before
    · exact Or.inr (List.mem_cons_of_mem _ visited)

end Visit

end Walk

section Tour

variable {R A : Type}
variable (slots : List A)
variable (next : R → A → Option A) (start : R → Option A)

/-- The address that the walk from a root meets after a number of links. -/
def meets (root : R) : Nat → Option A :=
  met (next root) (start root)

/-- The walks meet nothing but slots, and every slot exactly once. -/
structure Covers (roots : List R) : Prop where
  known :
    ∀ root ∈ roots, ∀ count address,
      meets next start root count = some address → address ∈ slots
  once :
    ∀ slot ∈ slots, ∃! place : R × Nat,
      place.1 ∈ roots ∧ meets next start place.1 place.2 = some slot

/-- The addresses that the walks from some of the roots meet. -/
def population
    (roots : List R)
    (kind : R → Prop) :
    Set A :=
  {address |
    ∃ root ∈ roots, kind root ∧
      ∃ count, meets next start root count = some address}

/-- A sweep: its roots with the nodes visited from each. -/
inductive Tour : Set A → List (R × List A) → Bool → Prop
  | done (seen : Set A) : Tour seen [] true
  | visit
      {seen : Set A}
      {root : R}
      {nodes : List A}
      {stops : List (R × List A)}
      {whole rest : Bool}
      (first : Visit slots seen (meets next start root) nodes whole)
      (later : Tour (seen ∪ {node | node ∈ nodes}) stops rest) :
      Tour seen ((root, nodes) :: stops) (whole && rest)

variable {slots next start}

namespace Tour

variable {seen : Set A} {stops : List (R × List A)} {whole : Bool}

/-- A sweep goes on where another left off. -/
theorem append
    (tour : Tour slots next start seen stops whole)
    {further : List (R × List A)}
    {rest : Bool}
    (later :
      Tour slots next start
        (seen ∪ {node | node ∈ stops.flatMap Prod.snd}) further rest) :
    Tour slots next start seen (stops ++ further) (whole && rest) := by
  induction tour with
  | done seen =>
      simpa using later
  | @visit seen root nodes stops whole others first second
      inductionHypothesis =>
      rw [Bool.and_assoc]
      refine .visit first (inductionHypothesis ?_)
      have same :
          seen ∪ {node | node ∈ ((root, nodes) :: stops).flatMap Prod.snd} =
            seen ∪ {node | node ∈ nodes} ∪
              {node | node ∈ stops.flatMap Prod.snd} := by
        ext node
        simp [or_assoc]
      rwa [same] at later

/-- A sweep visits slots. -/
theorem slot
    (tour : Tour slots next start seen stops whole) :
    ∀ node ∈ stops.flatMap Prod.snd, node ∈ slots := by
  induction tour with
  | done seen =>
      intro node member
      simp at member
  | visit first later inductionHypothesis =>
      intro node member
      rw [List.flatMap_cons, List.mem_append] at member
      rcases member with member | member
      · exact first.slot node member
      · exact inductionHypothesis node member

/-- A sweep visits nothing that was seen before it. -/
theorem fresh
    (tour : Tour slots next start seen stops whole) :
    ∀ node ∈ stops.flatMap Prod.snd, node ∉ seen := by
  induction tour with
  | done seen =>
      intro node member
      simp at member
  | visit first later inductionHypothesis =>
      intro node member before
      rw [List.flatMap_cons, List.mem_append] at member
      rcases member with member | member
      · exact first.fresh node member before
      · exact inductionHypothesis node member (Or.inl before)

/-- A sweep visits no node twice. -/
theorem distinct
    (tour : Tour slots next start seen stops whole) :
    (stops.flatMap Prod.snd).Nodup := by
  induction tour with
  | done seen =>
      exact List.nodup_nil
  | visit first later inductionHypothesis =>
      rw [List.flatMap_cons, List.nodup_append']
      refine ⟨first.distinct, inductionHypothesis, ?_⟩
      intro node inFirst inLater
      exact later.fresh node inLater (Or.inr inFirst)

/-- A sweep takes at most as many nodes as there are slots. -/
theorem length_le
    (tour : Tour slots next start seen stops whole) :
    (stops.flatMap Prod.snd).length ≤ slots.length :=
  (tour.distinct.subperm fun node member =>
    tour.slot node member).length_le

/-- What a sweep visits is met by the walk from its root. -/
theorem found
    (tour : Tour slots next start seen stops whole) :
    ∀ stop ∈ stops, ∀ count < stop.2.length,
      meets next start stop.1 count = stop.2[count]? := by
  induction tour with
  | done seen =>
      intro stop member
      simp at member
  | visit first later inductionHypothesis =>
      intro stop member count within
      rcases List.mem_cons.1 member with rfl | member
      · exact first.found count within
      · exact inductionHypothesis stop member count within

/-- The walks of a complete sweep meet exactly the nodes visited. -/
theorem complete
    (tour : Tour slots next start seen stops true) :
    ∀ stop ∈ stops, ∀ count,
      meets next start stop.1 count = stop.2[count]? := by
  generalize complete : true = whole at tour
  induction tour with
  | done seen =>
      intro stop member
      simp at member
  | @visit seen root nodes stops whole rest first later
      inductionHypothesis =>
      have both := (Bool.and_eq_true whole rest).mp complete.symm
      intro stop member count
      rcases List.mem_cons.1 member with rfl | member
      · rcases Nat.lt_or_ge count nodes.length with within | beyond
        · exact first.found count within
        · rw [List.getElem?_eq_none beyond]
          by_contra notNone
          obtain ⟨address, reached⟩ :=
            Option.ne_none_iff_exists'.1 notNone
          obtain ⟨earlier, present⟩ := met_before reached beyond
          rw [show met (next root) (start root) nodes.length = none
            from first.ended both.1] at present
          cases present
      · exact inductionHypothesis both.2.symm stop member count

/--
A sweep that did not complete met an address that is no slot, or one that was
seen before the sweep or is also met elsewhere.
-/
theorem broken
    (tour : Tour slots next start seen stops false)
    (roots : (stops.map Prod.fst).Nodup) :
    ∃ root ∈ stops.map Prod.fst, ∃ count address,
      meets next start root count = some address ∧
        (address ∈ slots →
          address ∈ seen ∨
            ∃ place : R × Nat,
              place ≠ (root, count) ∧
                place.1 ∈ stops.map Prod.fst ∧
                  meets next start place.1 place.2 = some address) := by
  generalize incomplete : false = whole at tour
  induction tour with
  | done seen =>
      cases incomplete
  | @visit seen root nodes stops whole rest first later
      inductionHypothesis =>
      rw [List.map_cons, List.nodup_cons] at roots
      have visited :
          ∀ address ∈ nodes, ∃ count < nodes.length,
            meets next start root count = some address := by
        intro address member
        obtain ⟨count, within, value⟩ := List.mem_iff_getElem.1 member
        refine ⟨count, within, ?_⟩
        rw [first.found count within, List.getElem?_eq_getElem within,
          value]
      cases whole with
      | false =>
          obtain ⟨address, reached, bad⟩ := first.stopped rfl
          refine ⟨root, List.mem_cons_self, nodes.length, address,
            reached, fun isSlot => ?_⟩
          rcases bad isSlot with before | member
          · exact Or.inl before
          · obtain ⟨count, within, value⟩ := visited address member
            refine Or.inr ⟨(root, count), ?_, List.mem_cons_self, value⟩
            intro same
            exact Nat.ne_of_lt within (Prod.ext_iff.1 same).2
      | true =>
          obtain ⟨other, isRoot, count, address, reached, bad⟩ :=
            inductionHypothesis roots.2 (by simpa using incomplete)
          refine ⟨other, List.mem_cons_of_mem _ isRoot, count, address,
            reached, fun isSlot => ?_⟩
          rcases bad isSlot with before | ⟨place, apart, among, value⟩
          · rcases before with before | member
            · exact Or.inl before
            · obtain ⟨earlier, -, value⟩ := visited address member
              refine Or.inr ⟨(root, earlier), ?_, List.mem_cons_self,
                value⟩
              intro same
              apply roots.1
              rw [show root = other from (Prod.ext_iff.1 same).1]
              exact isRoot
          · exact Or.inr
              ⟨place, apart, List.mem_cons_of_mem _ among, value⟩

/-- Two stops of a sweep that share a node are one. -/
theorem stop_unique
    (tour : Tour slots next start seen stops whole)
    {first second : R × List A}
    (isFirst : first ∈ stops)
    (isSecond : second ∈ stops)
    {node : A}
    (inFirst : node ∈ first.2)
    (inSecond : node ∈ second.2) :
    first = second := by
  by_contra different
  have apart :
      stops.Pairwise fun one other => one.2.Disjoint other.2 :=
    (List.nodup_flatMap.1 tour.distinct).2
  have symmetric :
      Std.Symm fun one other : R × List A => one.2.Disjoint other.2 :=
    ⟨fun _ _ => List.Disjoint.symm⟩
  exact apart.forall isFirst isSecond different inFirst inSecond

/-- The walks of a complete sweep of all slots cover them. -/
theorem covers
    (tour : Tour slots next start seen stops true)
    (all : (stops.flatMap Prod.snd).length = slots.length) :
    Covers slots next start (stops.map Prod.fst) := by
  have meet := tour.complete
  have same : (stops.flatMap Prod.snd).Perm slots :=
    (tour.distinct.subperm fun node member =>
      tour.slot node member).perm_of_length_le (Nat.le_of_eq all.symm)
  constructor
  · intro root isRoot count address reached
    obtain ⟨stop, member, rfl⟩ := List.mem_map.1 isRoot
    rw [meet stop member] at reached
    exact tour.slot address
      (List.mem_flatMap.2 ⟨stop, member, List.mem_of_getElem? reached⟩)
  · intro slot isSlot
    obtain ⟨stop, member, visited⟩ :=
      List.mem_flatMap.1 (same.mem_iff.2 isSlot)
    obtain ⟨count, value⟩ := List.mem_iff_getElem?.1 visited
    refine ⟨(stop.1, count),
      ⟨List.mem_map_of_mem member, (meet stop member count).trans value⟩,
      ?_⟩
    rintro ⟨other, later⟩ ⟨isRoot, reached⟩
    obtain ⟨stop', member', rfl⟩ := List.mem_map.1 isRoot
    rw [meet stop' member'] at reached
    obtain rfl : stop' = stop :=
      tour.stop_unique member' member (List.mem_of_getElem? reached)
        visited
    have nodup : stop'.2.Nodup :=
      (List.nodup_flatMap.1 tour.distinct).1 stop' member'
    obtain ⟨within, -⟩ := List.getElem?_eq_some_iff.1 reached
    have sameCount : later = count :=
      (List.getElem?_inj within nodup).1 (reached.trans value.symm)
    rw [sameCount]

/--
The sweep is a sound and complete checker: it completed and visited as many
nodes as there are slots exactly if the walks cover the slots.
-/
theorem whole_iff
    (tour : Tour slots next start ∅ stops whole)
    (distinctSlots : slots.Nodup)
    (distinctRoots : (stops.map Prod.fst).Nodup) :
    whole = true ∧ (stops.flatMap Prod.snd).length = slots.length ↔
      Covers slots next start (stops.map Prod.fst) := by
  constructor
  · rintro ⟨rfl, all⟩
    exact tour.covers all
  · intro covered
    have complete : whole = true := by
      cases whole with
      | true =>
          rfl
      | false =>
          obtain ⟨root, isRoot, count, address, reached, bad⟩ :=
            tour.broken distinctRoots
          have isSlot := covered.known root isRoot count address reached
          rcases bad isSlot with seenBefore | ⟨place, apart, among, value⟩
          · exact absurd seenBefore (Set.notMem_empty address)
          · exact absurd
              ((covered.once address isSlot).unique ⟨among, value⟩
                ⟨isRoot, reached⟩) apart
    subst complete
    refine ⟨rfl, Nat.le_antisymm tour.length_le ?_⟩
    refine (distinctSlots.subperm fun slot isSlot => ?_).length_le
    obtain ⟨place, ⟨isRoot, reached⟩, -⟩ := covered.once slot isSlot
    obtain ⟨stop, member, same⟩ := List.mem_map.1 isRoot
    rw [← same, tour.complete stop member] at reached
    exact List.mem_flatMap.2
      ⟨stop, member, List.mem_of_getElem? reached⟩

/-- A complete sweep counts the populations of its kinds of roots. -/
theorem population_ncard
    (tour : Tour slots next start seen stops true)
    (kind : R → Prop)
    [DecidablePred kind] :
    (population next start (stops.map Prod.fst) kind).ncard =
      ((stops.filter fun stop => kind stop.1).flatMap
        Prod.snd).length := by
  classical
  have sublist :
      ((stops.filter fun stop => kind stop.1).flatMap Prod.snd).Sublist
        (stops.flatMap Prod.snd) :=
    List.filter_sublist.flatMap _
  have asFinset :
      population next start (stops.map Prod.fst) kind =
        (((stops.filter fun stop => kind stop.1).flatMap
          Prod.snd).toFinset : Set A) := by
    ext address
    simp only [population, Set.mem_ofPred_eq, List.coe_toFinset,
      List.mem_flatMap, List.mem_filter, decide_eq_true_eq]
    constructor
    · rintro ⟨root, isRoot, ofKind, count, reached⟩
      obtain ⟨stop, member, rfl⟩ := List.mem_map.1 isRoot
      rw [tour.complete stop member] at reached
      exact ⟨stop, ⟨member, ofKind⟩, List.mem_of_getElem? reached⟩
    · rintro ⟨stop, ⟨member, ofKind⟩, visited⟩
      obtain ⟨count, value⟩ := List.mem_iff_getElem?.1 visited
      exact ⟨stop.1, List.mem_map_of_mem member, ofKind, count,
        (tour.complete stop member count).trans value⟩
  rw [asFinset, Set.ncard_coe_finset,
    List.toFinset_card_of_nodup (tour.distinct.sublist sublist)]

end Tour

end Tour

end ConcurrentCpp
