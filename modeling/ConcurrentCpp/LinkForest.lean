import Mathlib.Data.List.Sublists
import ConcurrentCpp.LinkPath

namespace ConcurrentCpp

/-!
# Chains whose nodes can be bypassed

A forest is a heap of linked nodes together with the place of every node: on
the chain of some root, cut out of that chain, or off every chain.  A cut is
stamped with the value of a clock, and a node may leave its cut place only
when its stamp has fallen below the floor.  Whoever holds a node that is
linked, or was cut at a stamp of at least the floor, can therefore follow
links without ever leaving such nodes.

Three changes of a forest matter: a node that is off every chain is inserted
behind a cell of a chain, a run of nodes behind such a cell is bypassed, and a
private list becomes the chain of a root that had none.
-/

/-- Where a node is: off every chain, on one, or cut out of one. -/
inductive Place (R : Type) where
  | off
  | linked (chain : R)
  | cut (chain : R) (stamp : Nat)
  deriving DecidableEq

/-- The links of a heap, the place of every node, the clock and the floor. -/
structure Forest (R A : Type) where
  links : Links R A
  place : A → Place R
  now : Nat
  floor : Nat

namespace Forest

variable {R A : Type}

/-- The nodes of a root's chain, in order. -/
structure Chain
    (forest : Forest R A)
    (chain : R)
    (nodes : List A) : Prop where
  path : Path forest.links (.root chain) nodes
  noDuplicates : nodes.Nodup
  members : ∀ node, node ∈ nodes ↔ forest.place node = .linked chain

/-- The node is on the chain, or was cut out of it at this stamp or later. -/
def Visible
    (forest : Forest R A)
    (chain : R)
    (since : Nat)
    (node : A) : Prop :=
  forest.place node = .linked chain ∨
    ∃ stamp, since ≤ stamp ∧ forest.place node = .cut chain stamp

/-- The cell is the root of the chain or the link of one of its nodes. -/
def Attached
    (forest : Forest R A)
    (chain : R)
    (cell : Cell R A) : Prop :=
  cell = .root chain ∨
    ∃ node, cell = .node node ∧ forest.place node = .linked chain

/-- Every root has a chain and cut nodes above the floor lead back to it. -/
structure WellFormed (forest : Forest R A) : Prop where
  chain : ∀ chain, ∃ nodes, forest.Chain chain nodes
  cutStamp :
    ∀ {node chain stamp},
      forest.place node = .cut chain stamp →
      stamp ≤ forest.now
  cutNext :
    ∀ {node next chain stamp},
      forest.place node = .cut chain stamp →
      forest.floor ≤ stamp →
      forest.links (.node node) = some next →
      forest.Visible chain stamp next
  cutEnds :
    ∀ {node chain stamp},
      forest.place node = .cut chain stamp →
      forest.floor ≤ stamp →
      ∃ nodes, Path forest.links (.node node) nodes

namespace Visible

variable {forest : Forest R A}

theorem mono
    {chain : R}
    {earlier later : Nat}
    {node : A}
    (ordered : earlier ≤ later)
    (visible : forest.Visible chain later node) :
    forest.Visible chain earlier node := by
  rcases visible with linked | ⟨stamp, bound, cut⟩
  · exact .inl linked
  · exact .inr ⟨stamp, Nat.le_trans ordered bound, cut⟩

theorem ne_off
    {chain : R}
    {since : Nat}
    {node : A}
    (visible : forest.Visible chain since node) :
    forest.place node ≠ .off := by
  rcases visible with linked | ⟨stamp, _, cut⟩
  · simp [linked]
  · simp [cut]

end Visible

namespace WellFormed

variable {forest : Forest R A}

/-- The successor of a linked node is linked on the same chain. -/
theorem linked_next
    (wellFormed : forest.WellFormed)
    {chain : R}
    {node next : A}
    (linked : forest.place node = .linked chain)
    (leads : forest.links (.node node) = some next) :
    forest.place next = .linked chain := by
  obtain ⟨nodes, chained⟩ := wellFormed.chain chain
  obtain ⟨before, after, shape, path⟩ :=
    chained.path.split_at ((chained.members node).mpr linked)
  cases after with
  | nil =>
      exact absurd (path.symm.trans leads) (by simp)
  | cons first rest =>
      have same := Option.some.inj (path.1.symm.trans leads)
      subst same
      exact (chained.members first).mp (by simp [shape])

/-- The first node behind a root is linked on its chain. -/
theorem root_next
    (wellFormed : forest.WellFormed)
    {chain : R}
    {next : A}
    (leads : forest.links (.root chain) = some next) :
    forest.place next = .linked chain := by
  obtain ⟨nodes, chained⟩ := wellFormed.chain chain
  rw [chained.path.head] at leads
  exact (chained.members next).mp (List.mem_of_mem_head? leads)

/-- Whatever an attached cell leads to is linked. -/
theorem attached_next
    (wellFormed : forest.WellFormed)
    {chain : R}
    {cell : Cell R A}
    {next : A}
    (attached : forest.Attached chain cell)
    (leads : forest.links cell = some next) :
    forest.place next = .linked chain := by
  rcases attached with rfl | ⟨node, rfl, linked⟩
  · exact wellFormed.root_next leads
  · exact wellFormed.linked_next linked leads

/-- Following a link from a visible node stays visible. -/
theorem visible_next
    (wellFormed : forest.WellFormed)
    {chain : R}
    {since : Nat}
    {node next : A}
    (aboveFloor : forest.floor ≤ since)
    (visible : forest.Visible chain since node)
    (leads : forest.links (.node node) = some next) :
    forest.Visible chain since next := by
  rcases visible with linked | ⟨stamp, bound, cut⟩
  · exact .inl (wellFormed.linked_next linked leads)
  · exact (wellFormed.cutNext cut
      (Nat.le_trans aboveFloor bound) leads).mono bound

/-- Everything a visible node leads to is visible. -/
theorem visible_leadsTo
    (wellFormed : forest.WellFormed)
    {chain : R}
    {since : Nat}
    {node target : A}
    (aboveFloor : forest.floor ≤ since)
    (visible : forest.Visible chain since node)
    (leads : LeadsTo forest.links node target) :
    forest.Visible chain since target :=
  leads.closed (wellFormed.visible_next aboveFloor) visible

/-- The links behind a linked node end. -/
theorem linked_ends
    (wellFormed : forest.WellFormed)
    {chain : R}
    {node : A}
    (linked : forest.place node = .linked chain) :
    ∃ nodes, Path forest.links (.node node) nodes := by
  obtain ⟨nodes, chained⟩ := wellFormed.chain chain
  obtain ⟨_, after, _, path⟩ :=
    chained.path.split_at ((chained.members node).mpr linked)
  exact ⟨after, path⟩

/-- The links behind a visible node end. -/
theorem visible_ends
    (wellFormed : forest.WellFormed)
    {chain : R}
    {since : Nat}
    {node : A}
    (aboveFloor : forest.floor ≤ since)
    (visible : forest.Visible chain since node) :
    ∃ nodes, Path forest.links (.node node) nodes := by
  rcases visible with linked | ⟨stamp, bound, cut⟩
  · exact wellFormed.linked_ends linked
  · exact wellFormed.cutEnds cut (Nat.le_trans aboveFloor bound)

/-- An attached cell splits its chain in two. -/
theorem attached_split
    (wellFormed : forest.WellFormed)
    {chain : R}
    {cell : Cell R A}
    (attached : forest.Attached chain cell) :
    ∃ before after,
      forest.Chain chain (before ++ after) ∧
        endCell (.root chain) before = cell ∧
        Path forest.links cell after := by
  obtain ⟨nodes, chained⟩ := wellFormed.chain chain
  rcases attached with rfl | ⟨node, rfl, linked⟩
  · exact ⟨[], nodes, chained, rfl, chained.path⟩
  · obtain ⟨before, after, rfl, path⟩ :=
      chained.path.split_at ((chained.members node).mpr linked)
    exact ⟨before ++ [node], after, chained, by simp, path⟩

end WellFormed

namespace Chain

variable {forest changed : Forest R A}

/-- A chain none of whose links or places changed. -/
theorem transfer
    {chain : R}
    {nodes : List A}
    (chained : forest.Chain chain nodes)
    (sameRoot :
      changed.links (.root chain) = forest.links (.root chain))
    (sameNodes :
      ∀ node ∈ nodes,
        changed.links (.node node) = forest.links (.node node))
    (samePlace :
      ∀ node,
        changed.place node = .linked chain ↔
          forest.place node = .linked chain) :
    changed.Chain chain nodes where
  path := chained.path.transfer sameRoot sameNodes
  noDuplicates := chained.noDuplicates
  members node := (chained.members node).trans (samePlace node).symm

/-- The root of a chain is none of its nodes. -/
theorem root_outside
    (chain : R)
    {nodes : List A} :
    ∀ node ∈ nodes, (.root chain : Cell R A) ≠ .node node := by
  intro node _ same
  cases same

end Chain

/-- An attached cell belongs to one chain only. -/
theorem Attached.ne_of_linked
    {forest : Forest R A}
    {chain other : R}
    {cell : Cell R A}
    {node : A}
    (attached : forest.Attached chain cell)
    (linked : forest.place node = .linked other)
    (different : other ≠ chain) :
    (.node node : Cell R A) ≠ cell := by
  rintro rfl
  rcases attached with root | ⟨same, shape, here⟩
  · cases root
  · cases shape
    rw [linked] at here
    exact different (Place.linked.inj here)

/-- An attached cell is not the link of a node that is off or cut. -/
theorem Attached.ne_of_unlinked
    {forest : Forest R A}
    {chain : R}
    {cell : Cell R A}
    {node : A}
    (attached : forest.Attached chain cell)
    (unlinked : ∀ other, forest.place node ≠ .linked other) :
    (.node node : Cell R A) ≠ cell := by
  rintro rfl
  rcases attached with root | ⟨same, shape, here⟩
  · cases root
  · cases shape
    exact unlinked chain here

/-- The run behind an attached cell is a stretch of the chain. -/
theorem WellFormed.run_split
    {forest : Forest R A}
    {chain : R}
    {cell : Cell R A}
    {run : List A}
    (wellFormed : forest.WellFormed)
    (attached : forest.Attached chain cell)
    (segment : Segment forest.links cell run) :
    ∃ before after,
      forest.Chain chain (before ++ (run ++ after)) ∧
        endCell (.root chain) before = cell ∧
        Path forest.links (endCell cell run) after := by
  obtain ⟨before, rest, chained, atCell, path⟩ :=
    wellFormed.attached_split attached
  obtain ⟨after, rfl, later⟩ := path.after_segment segment
  exact ⟨before, after, chained, atCell, later⟩

/-- The nodes of such a run are linked. -/
theorem WellFormed.run_linked
    {forest : Forest R A}
    {chain : R}
    {cell : Cell R A}
    {run : List A}
    (wellFormed : forest.WellFormed)
    (attached : forest.Attached chain cell)
    (segment : Segment forest.links cell run)
    {node : A}
    (member : node ∈ run) :
    forest.place node = .linked chain := by
  obtain ⟨before, after, chained, _, _⟩ :=
    wellFormed.run_split attached segment
  exact (chained.members node).mp (by simp [member])

/-- A cell of a chain is not one of the nodes behind it. -/
theorem Chain.after_ne_cell
    {forest : Forest R A}
    {chain : R}
    {cell : Cell R A}
    {before after : List A}
    (chained : forest.Chain chain (before ++ after))
    (atCell : endCell (.root chain) before = cell)
    {node : A}
    (member : node ∈ after) :
    (.node node : Cell R A) ≠ cell := by
  intro same
  have disjoint := (List.nodup_append'.mp chained.noDuplicates).2.2
  cases before with
  | nil =>
      rw [← atCell] at same
      cases same
  | cons first others =>
      obtain ⟨last, lastMember, shape⟩ :=
        endCell_cons_mem (.root chain) first others
      rw [← atCell, shape] at same
      cases same
      exact disjoint lastMember member

/-- Time may pass and the floor may rise. -/
theorem WellFormed.later
    {forest : Forest R A}
    (wellFormed : forest.WellFormed)
    {later higher : Nat}
    (laterNow : forest.now ≤ later)
    (higherFloor : forest.floor ≤ higher) :
    ({ forest with now := later, floor := higher } :
      Forest R A).WellFormed where
  chain chain := by
    obtain ⟨nodes, chained⟩ := wellFormed.chain chain
    exact ⟨nodes, chained.transfer rfl (fun _ _ => rfl)
      (fun _ => Iff.rfl)⟩
  cutStamp cut := Nat.le_trans (wellFormed.cutStamp cut) laterNow
  cutNext cut aboveFloor leads :=
    wellFormed.cutNext cut (Nat.le_trans higherFloor aboveFloor) leads
  cutEnds cut aboveFloor :=
    wellFormed.cutEnds cut (Nat.le_trans higherFloor aboveFloor)

/--
Cut nodes keep leading to an end when their own links stay and every node that
was linked still leads to an end.
-/
private theorem ends_of_linked_ends
    {forest : Forest R A}
    {changed : Links R A}
    (wellFormed : forest.WellFormed)
    (sameCut :
      ∀ {node chain stamp},
        forest.place node = .cut chain stamp →
        forest.floor ≤ stamp →
        changed (.node node) = forest.links (.node node))
    (linkedEnds :
      ∀ {node chain},
        forest.place node = .linked chain →
        ∃ nodes, Path changed (.node node) nodes)
    {node : A}
    {chain : R}
    {stamp : Nat}
    (cut : forest.place node = .cut chain stamp)
    (aboveFloor : forest.floor ≤ stamp) :
    ∃ nodes, Path changed (.node node) nodes := by
  obtain ⟨nodes, path⟩ := wellFormed.cutEnds cut aboveFloor
  induction nodes generalizing node stamp with
  | nil =>
      exact ⟨[], (sameCut cut aboveFloor).trans path⟩
  | cons first rest inductionHypothesis =>
      have here := (sameCut cut aboveFloor).trans path.1
      rcases wellFormed.cutNext cut aboveFloor path.1 with
          linked | ⟨later, bound, cutFirst⟩
      · obtain ⟨nodes, tail⟩ := linkedEnds linked
        exact ⟨first :: nodes, here, tail⟩
      · obtain ⟨nodes, tail⟩ :=
          inductionHypothesis cutFirst
            (Nat.le_trans aboveFloor bound) path.2
        exact ⟨first :: nodes, here, tail⟩

section Changes

variable [DecidableEq R] [DecidableEq A]

/-- Insert a node behind a cell of a chain. -/
def insertAfter
    (forest : Forest R A)
    (chain : R)
    (cell : Cell R A)
    (node : A) :
    Forest R A :=
  { forest with
    links := Function.update forest.links cell (some node)
    place := Function.update forest.place node (.linked chain) }

/-- Bypass a run of nodes behind a cell of a chain. -/
def cutRun
    (forest : Forest R A)
    (chain : R)
    (cell : Cell R A)
    (run : List A) :
    Forest R A :=
  { forest with
    links :=
      Function.update forest.links cell
        (forest.links (endCell cell run))
    place := fun node =>
      if node ∈ run then .cut chain forest.now
      else forest.place node }

/-- Make a private list the chain of a root. -/
def publish
    (forest : Forest R A)
    (chain : R)
    (nodes : List A) :
    Forest R A :=
  { forest with
    links := Function.update forest.links (.root chain) nodes.head?
    place := fun node =>
      if node ∈ nodes then .linked chain
      else forest.place node }

/-- Take a cut node off its chain for good. -/
def release
    (forest : Forest R A)
    (node : A) :
    Forest R A :=
  { forest with
    place := Function.update forest.place node .off }

/-- Write the link of a node. -/
def setLink
    (forest : Forest R A)
    (node : A)
    (next : Option A) :
    Forest R A :=
  { forest with
    links := Function.update forest.links (.node node) next }

section InsertAfter

variable {forest : Forest R A} {chain : R} {cell : Cell R A} {node : A}

/-- Insertion puts the node between the two halves of the chain. -/
theorem insertAfter_chain
    (wellFormed : forest.WellFormed)
    (attached : forest.Attached chain cell)
    (fresh : forest.place node = .off)
    (prepared : forest.links (.node node) = forest.links cell) :
    ∃ before after,
      forest.Chain chain (before ++ after) ∧
        (forest.insertAfter chain cell node).Chain chain
          (before ++ node :: after) := by
  obtain ⟨before, after, chained, atCell, rest⟩ :=
    wellFormed.attached_split attached
  have freshNode : node ∉ before ++ after := by
    rw [chained.members, fresh]
    simp
  have nodeNotCell : (.node node : Cell R A) ≠ cell :=
    attached.ne_of_unlinked (by simp [fresh])
  have afterNotCell :
      ∀ other ∈ after, (.node other : Cell R A) ≠ cell :=
    fun other member => chained.after_ne_cell atCell member
  refine ⟨before, after, chained, ?_, ?_, ?_⟩
  · refine path_append.mpr ⟨?_, ?_, ?_⟩
    · have segment := (path_append.mp chained.path).1
      have kept :=
        segment.update_end
          (List.nodup_append'.mp chained.noDuplicates).1
          (Chain.root_outside chain) (some node)
      rw [atCell] at kept
      exact kept
    · rw [atCell]
      simp [insertAfter]
    · refine rest.transfer ?_ ?_
      · simp [insertAfter, Function.update_of_ne nodeNotCell, prepared]
      · intro other member
        simp [insertAfter, Function.update_of_ne
          (afterNotCell other member)]
  · have shifted : (node :: (before ++ after)).Nodup :=
      List.nodup_cons.mpr ⟨freshNode, chained.noDuplicates⟩
    exact (List.perm_middle.nodup_iff).mpr shifted
  · intro other
    by_cases same : other = node
    · subst same
      simp [insertAfter]
    · have members := chained.members other
      simp only [List.mem_append, List.mem_cons, same, false_or,
        insertAfter, Function.update_of_ne same] at members ⊢
      exact members

theorem insertAfter_wellFormed
    (wellFormed : forest.WellFormed)
    (attached : forest.Attached chain cell)
    (fresh : forest.place node = .off)
    (prepared : forest.links (.node node) = forest.links cell) :
    (forest.insertAfter chain cell node).WellFormed := by
  have chains :
      ∀ other, ∃ nodes,
        (forest.insertAfter chain cell node).Chain other nodes := by
    intro other
    by_cases same : other = chain
    · subst same
      obtain ⟨before, after, _, inserted⟩ :=
        insertAfter_chain wellFormed attached fresh prepared
      exact ⟨_, inserted⟩
    · obtain ⟨nodes, chained⟩ := wellFormed.chain other
      refine ⟨nodes, chained.transfer ?_ ?_ ?_⟩
      · rcases attached with rfl | ⟨_, rfl, _⟩ <;>
          simp [insertAfter, same]
      · intro node' member
        simp [insertAfter, Function.update_of_ne
          (attached.ne_of_linked
            ((chained.members node').mp member) same)]
      · intro node'
        by_cases isNode : node' = node
        · subst isNode
          simp [insertAfter, fresh, Ne.symm same]
        · simp [insertAfter, Function.update_of_ne isNode]
  have placeOther :
      ∀ {other}, other ≠ node →
        (forest.insertAfter chain cell node).place other =
          forest.place other :=
    fun different => by simp [insertAfter, different]
  have cutPlace :
      ∀ {other here stamp},
        (forest.insertAfter chain cell node).place other =
            .cut here stamp →
          forest.place other = .cut here stamp := by
    intro other here stamp cut
    by_cases isNode : other = node
    · subst isNode
      simp [insertAfter] at cut
    · rwa [placeOther isNode] at cut
  have cutLink :
      ∀ {other here stamp},
        forest.place other = .cut here stamp →
        (forest.insertAfter chain cell node).links (.node other) =
          forest.links (.node other) := by
    intro other here stamp cut
    have different : (.node other : Cell R A) ≠ cell :=
      attached.ne_of_unlinked (by simp [cut])
    simp [insertAfter, Function.update_of_ne different]
  refine ⟨chains, ?_, ?_, ?_⟩
  · intro other here stamp cut
    exact wellFormed.cutStamp (cutPlace cut)
  · intro other next here stamp cut aboveFloor leads
    have cutBefore := cutPlace cut
    rw [cutLink cutBefore] at leads
    have visible := wellFormed.cutNext cutBefore aboveFloor leads
    have nextOld : next ≠ node := by
      rintro rfl
      exact visible.ne_off fresh
    simpa only [Visible, placeOther nextOld] using visible
  · intro other here stamp cut aboveFloor
    refine ends_of_linked_ends wellFormed
      (fun cut _ => cutLink cut) ?_ (cutPlace cut) aboveFloor
    intro linkedNode linkedChain linked
    have different : linkedNode ≠ node := by
      rintro rfl
      rw [fresh] at linked
      cases linked
    obtain ⟨nodes, chained⟩ := chains linkedChain
    have member :=
      (chained.members linkedNode).mpr
        ((placeOther different).trans linked)
    obtain ⟨_, tail, _, path⟩ := chained.path.split_at member
    exact ⟨tail, path⟩

/-- Insertion keeps every connection. -/
theorem insertAfter_leadsTo
    (prepared : forest.links (.node node) = forest.links cell)
    (different : (.node node : Cell R A) ≠ cell)
    {first last : A}
    (leads : LeadsTo forest.links first last) :
    LeadsTo (forest.insertAfter chain cell node).links first last := by
  induction leads with
  | refl =>
      exact Relation.ReflTransGen.refl
  | @tail middle next _ edge inductionHypothesis =>
      by_cases atCell : (.node middle : Cell R A) = cell
      · refine (inductionHypothesis.tail (b := middle)
          (c := node) ?_).tail ?_
        · simp [insertAfter, atCell]
        · rw [atCell, ← prepared] at edge
          simpa [insertAfter, Function.update_of_ne different] using edge
      · refine inductionHypothesis.tail ?_
        simpa [insertAfter, Function.update_of_ne atCell] using edge

end InsertAfter

section CutRun

variable {forest : Forest R A} {chain : R} {cell : Cell R A}
variable {run : List A}

/-- Cutting a run joins the two outer parts of the chain. -/
theorem cutRun_chain
    (wellFormed : forest.WellFormed)
    (attached : forest.Attached chain cell)
    (segment : Segment forest.links cell run) :
    ∃ before after,
      forest.Chain chain (before ++ (run ++ after)) ∧
        (forest.cutRun chain cell run).Chain chain (before ++ after) ∧
        (∀ node ∈ run ++ after, (.node node : Cell R A) ≠ cell) ∧
        Path forest.links (endCell cell run) after := by
  obtain ⟨before, after, chained, atCell, path⟩ :=
    wellFormed.run_split attached segment
  have notCell :
      ∀ node ∈ run ++ after, (.node node : Cell R A) ≠ cell :=
    fun node member =>
      chained.after_ne_cell atCell member
  have parts := List.nodup_append'.mp chained.noDuplicates
  have inner := List.nodup_append'.mp parts.2.1
  refine ⟨before, after, chained, ⟨?_, ?_, ?_⟩, notCell, path⟩
  · refine path_append.mpr ⟨?_, ?_⟩
    · have kept :=
        ((path_append.mp chained.path).1).update_end parts.1
          (Chain.root_outside chain)
          (forest.links (endCell cell run))
      rw [atCell] at kept
      exact kept
    · rw [atCell]
      refine path.transfer ?_ ?_
      · simp [cutRun]
      · intro node member
        have different := notCell node (by simp [member])
        simp [cutRun, Function.update_of_ne different]
  · exact List.nodup_append'.mpr
      ⟨parts.1, inner.2.1, fun node first second =>
        parts.2.2 first (by simp [second])⟩
  · intro node
    have members := chained.members node
    by_cases inRun : node ∈ run
    · have notBefore : node ∉ before := fun member =>
        parts.2.2 member (by simp [inRun])
      have notAfter : node ∉ after := fun member =>
        inner.2.2 inRun member
      simp [cutRun, inRun, notBefore, notAfter]
    · simp only [List.mem_append, inRun, false_or] at members
      simpa [cutRun, inRun] using members

theorem cutRun_wellFormed
    (wellFormed : forest.WellFormed)
    (attached : forest.Attached chain cell)
    (segment : Segment forest.links cell run) :
    (forest.cutRun chain cell run).WellFormed := by
  obtain ⟨before, after, chained, cutChained, notCell, path⟩ :=
    cutRun_chain wellFormed attached segment
  have runLinked :
      ∀ {node}, node ∈ run → forest.place node = .linked chain :=
    wellFormed.run_linked attached segment
  have chains :
      ∀ other, ∃ nodes,
        (forest.cutRun chain cell run).Chain other nodes := by
    intro other
    by_cases same : other = chain
    · subst same
      exact ⟨_, cutChained⟩
    · obtain ⟨nodes, otherChained⟩ := wellFormed.chain other
      refine ⟨nodes, otherChained.transfer ?_ ?_ ?_⟩
      · rcases attached with rfl | ⟨_, rfl, _⟩ <;>
          simp [cutRun, same]
      · intro node member
        have different :=
          attached.ne_of_linked
            ((otherChained.members node).mp member) same
        simp [cutRun, Function.update_of_ne different]
      · intro node
        by_cases inRun : node ∈ run
        · simp [cutRun, inRun, runLinked inRun, Ne.symm same]
        · simp [cutRun, inRun]
  have runLink :
      ∀ {node}, node ∈ run →
        (forest.cutRun chain cell run).links (.node node) =
          forest.links (.node node) := by
    intro node member
    have different := notCell node (by simp [member])
    simp [cutRun, Function.update_of_ne different]
  have cutLink :
      ∀ {node here stamp},
        forest.place node = .cut here stamp →
        (forest.cutRun chain cell run).links (.node node) =
          forest.links (.node node) := by
    intro node here stamp cut
    have different : (.node node : Cell R A) ≠ cell :=
      attached.ne_of_unlinked (by simp [cut])
    simp [cutRun, Function.update_of_ne different]
  have visibleAfter :
      ∀ {node here stamp},
        stamp ≤ forest.now →
        forest.Visible here stamp node →
        (forest.cutRun chain cell run).Visible here stamp node := by
    intro node here stamp bound visible
    by_cases inRun : node ∈ run
    · rcases visible with linked | ⟨later, _, cut⟩
      · have same : here = chain :=
          Place.linked.inj (linked.symm.trans (runLinked inRun))
        subst same
        exact .inr ⟨forest.now, bound, by simp [cutRun, inRun]⟩
      · rw [runLinked inRun] at cut
        cases cut
    · simpa [Visible, cutRun, inRun] using visible
  have linkedEnds :
      ∀ {node here},
        forest.place node = .linked here →
        ∃ nodes,
          Path (forest.cutRun chain cell run).links
            (.node node) nodes := by
    intro node here linked
    by_cases inRun : node ∈ run
    · have cellToRun :
          Path forest.links cell (run ++ after) :=
        path_append.mpr ⟨segment, path⟩
      obtain ⟨leading, trailing, shape, tail⟩ :=
        cellToRun.split_at
          (List.mem_append_left after inRun)
      refine ⟨trailing, tail.transfer (runLink inRun) ?_⟩
      intro other member
      have different := notCell other (by simp [shape, member])
      simp [cutRun, Function.update_of_ne different]
    · obtain ⟨nodes, here'⟩ := chains here
      obtain ⟨_, tail, _, linkedPath⟩ :=
        here'.path.split_at
          ((here'.members node).mpr (by simp [cutRun, inRun, linked]))
      exact ⟨tail, linkedPath⟩
  refine ⟨chains, ?_, ?_, ?_⟩
  · intro node here stamp cut
    by_cases inRun : node ∈ run
    · simp only [cutRun, inRun, ↓reduceIte, Place.cut.injEq] at cut
      exact Nat.le_of_eq cut.2.symm
    · simp only [cutRun, inRun, ↓reduceIte] at cut
      exact wellFormed.cutStamp cut
  · intro node next here stamp cut aboveFloor leads
    by_cases inRun : node ∈ run
    · simp only [cutRun, inRun, ↓reduceIte, Place.cut.injEq] at cut
      obtain ⟨rfl, rfl⟩ := cut
      rw [runLink inRun] at leads
      exact visibleAfter (Nat.le_refl _)
        (.inl (wellFormed.linked_next (runLinked inRun) leads))
    · have cutBefore : forest.place node = .cut here stamp := by
        simpa [cutRun, inRun] using cut
      rw [cutLink cutBefore] at leads
      exact visibleAfter (wellFormed.cutStamp cutBefore)
        (wellFormed.cutNext cutBefore aboveFloor leads)
  · intro node here stamp cut aboveFloor
    by_cases inRun : node ∈ run
    · exact linkedEnds (runLinked inRun)
    · have cutBefore : forest.place node = .cut here stamp := by
        simpa [cutRun, inRun] using cut
      exact ends_of_linked_ends wellFormed
        (fun cut _ => cutLink cut) linkedEnds cutBefore aboveFloor

/-- Cutting a run keeps every connection to a node outside the run. -/
theorem cutRun_leadsTo
    (segment : Segment forest.links cell run)
    {first last : A}
    {nodes : List A}
    (path : Path forest.links (.node first) nodes)
    (member : last ∈ first :: nodes)
    (outside : last ∉ run) :
    LeadsTo (forest.cutRun chain cell run).links first last := by
  induction hlen : nodes.length using Nat.strongRecOn
    generalizing first nodes with
  | _ size inductionHypothesis =>
      rcases List.mem_cons.mp member with same | later
      · subst same
        exact Relation.ReflTransGen.refl
      · by_cases atCell : (.node first : Cell R A) = cell
        · subst atCell
          obtain ⟨after, rfl, tail⟩ := path.after_segment segment
          have inAfter : last ∈ after :=
            (List.mem_append.mp later).resolve_left outside
          cases after with
          | nil =>
              simp at inAfter
          | cons next rest =>
              refine Relation.ReflTransGen.head (b := next) ?_
                (inductionHypothesis rest.length ?_ tail.2
                  inAfter rfl)
              · simp [cutRun, tail.1]
              · subst hlen
                simp only [List.length_append, List.length_cons]
                omega
        · cases nodes with
          | nil =>
              simp at later
          | cons next rest =>
              refine Relation.ReflTransGen.head (b := next) ?_
                (inductionHypothesis rest.length ?_ path.2 later rfl)
              · simpa [cutRun, Function.update_of_ne atCell]
                  using path.1
              · subst hlen
                simp

/-- Cutting a run creates no connection. -/
theorem leadsTo_of_cutRun
    (segment : Segment forest.links cell run)
    {first last : A}
    (leads :
      LeadsTo (forest.cutRun chain cell run).links first last) :
    LeadsTo forest.links first last := by
  induction leads with
  | refl =>
      exact Relation.ReflTransGen.refl
  | @tail middle next _ edge inductionHypothesis =>
      by_cases atCell : (.node middle : Cell R A) = cell
      · subst atCell
        refine Relation.ReflTransGen.trans inductionHypothesis
          (segment.leadsTo ?_)
        simpa [cutRun] using edge
      · refine inductionHypothesis.tail ?_
        simpa [cutRun, Function.update_of_ne atCell] using edge

end CutRun

section Publish

variable {forest : Forest R A} {chain : R} {nodes : List A}

/-- A private list that may become the chain of an empty root. -/
structure Publishable
    (forest : Forest R A)
    (chain : R)
    (nodes : List A) : Prop where
  noChain : ∀ node, forest.place node ≠ .linked chain
  unlinked : ∀ node ∈ nodes, forest.place node = .off
  noDuplicates : nodes.Nodup
  path :
    Path (Function.update forest.links (.root chain) nodes.head?)
      (.root chain) nodes

theorem publish_chain
    (publishable : forest.Publishable chain nodes) :
    (forest.publish chain nodes).Chain chain nodes where
  path := publishable.path
  noDuplicates := publishable.noDuplicates
  members node := by
    by_cases member : node ∈ nodes
    · simp [publish, member]
    · simp [publish, member, publishable.noChain node]

theorem publish_wellFormed
    (wellFormed : forest.WellFormed)
    (publishable : forest.Publishable chain nodes) :
    (forest.publish chain nodes).WellFormed := by
  have nodeLink :
      ∀ node,
        (forest.publish chain nodes).links (.node node) =
          forest.links (.node node) := by
    intro node
    simp [publish]
  have placeOther :
      ∀ {node}, forest.place node ≠ .off →
        (forest.publish chain nodes).place node =
          forest.place node := by
    intro node present
    have outside : node ∉ nodes := fun member =>
      present (publishable.unlinked node member)
    simp [publish, outside]
  have cutBefore :
      ∀ {node here stamp},
        (forest.publish chain nodes).place node = .cut here stamp →
        forest.place node = .cut here stamp := by
    intro node here stamp cut
    by_cases member : node ∈ nodes
    · simp [publish, member] at cut
    · simpa [publish, member] using cut
  refine ⟨?_, ?_, ?_, ?_⟩
  · intro other
    by_cases same : other = chain
    · subst same
      exact ⟨nodes, publish_chain publishable⟩
    · obtain ⟨others, chained⟩ := wellFormed.chain other
      refine ⟨others, chained.transfer ?_ (fun node _ => nodeLink node) ?_⟩
      · simp [publish, same]
      · intro node
        by_cases member : node ∈ nodes
        · simp [publish, member, publishable.unlinked node member,
            Ne.symm same]
        · simp [publish, member]
  · intro node here stamp cut
    exact wellFormed.cutStamp (cutBefore cut)
  · intro node next here stamp cut aboveFloor leads
    rw [nodeLink] at leads
    have visible := wellFormed.cutNext (cutBefore cut) aboveFloor leads
    simpa only [Visible, placeOther visible.ne_off] using visible
  · intro node here stamp cut aboveFloor
    obtain ⟨others, path⟩ :=
      wellFormed.cutEnds (cutBefore cut) aboveFloor
    exact ⟨others, path.transfer (nodeLink node)
      (fun other _ => nodeLink other)⟩

end Publish

section Private

variable {forest : Forest R A} {node : A}

omit [DecidableEq R] in
/-- A node whose stamp is below the floor may be released. -/
theorem release_wellFormed
    (wellFormed : forest.WellFormed)
    {chain : R}
    {stamp : Nat}
    (cut : forest.place node = .cut chain stamp)
    (below : stamp < forest.floor) :
    (forest.release node).WellFormed := by
  have placeOther :
      ∀ {other}, other ≠ node →
        (forest.release node).place other = forest.place other :=
    fun different => by simp [release, different]
  have cutBefore :
      ∀ {other here later},
        (forest.release node).place other = .cut here later →
        forest.place other = .cut here later := by
    intro other here later cutOther
    by_cases same : other = node
    · subst same
      simp [release] at cutOther
    · rwa [placeOther same] at cutOther
  refine ⟨?_, ?_, ?_, ?_⟩
  · intro other
    obtain ⟨nodes, chained⟩ := wellFormed.chain other
    refine ⟨nodes, chained.transfer rfl (fun _ _ => rfl) ?_⟩
    intro here
    by_cases same : here = node
    · subst same
      simp [release, cut]
    · rw [placeOther same]
  · intro other here later cutOther
    exact wellFormed.cutStamp (cutBefore cutOther)
  · intro other next here later cutOther aboveFloor leads
    have visible :=
      wellFormed.cutNext (cutBefore cutOther) aboveFloor leads
    have different : next ≠ node := by
      rintro rfl
      rcases visible with linked | ⟨stamp', bound, cutNext⟩
      · rw [cut] at linked
        cases linked
      · rw [cut] at cutNext
        cases cutNext
        exact absurd (Nat.lt_of_lt_of_le below
          (Nat.le_trans aboveFloor bound)) (Nat.lt_irrefl _)
    simpa only [Visible, placeOther different] using visible
  · intro other here later cutOther aboveFloor
    exact wellFormed.cutEnds (cutBefore cutOther) aboveFloor

/-- A node off every chain may be rewritten at will. -/
theorem setLink_wellFormed
    (wellFormed : forest.WellFormed)
    (free : forest.place node = .off)
    (next : Option A) :
    (forest.setLink node next).WellFormed := by
  have sameLink :
      ∀ {other}, forest.place other ≠ .off →
        (forest.setLink node next).links (.node other) =
          forest.links (.node other) := by
    intro other present
    have different : other ≠ node := by
      rintro rfl
      exact present free
    simp [setLink, different]
  have linkedLink :
      ∀ {other chain}, forest.place other = .linked chain →
        (forest.setLink node next).links (.node other) =
          forest.links (.node other) :=
    fun linked => sameLink (by simp [linked])
  have chains :
      ∀ chain, ∃ nodes,
        (forest.setLink node next).Chain chain nodes := by
    intro chain
    obtain ⟨nodes, chained⟩ := wellFormed.chain chain
    refine ⟨nodes, chained.transfer ?_ ?_ (fun _ => Iff.rfl)⟩
    · simp [setLink]
    · intro other member
      exact linkedLink ((chained.members other).mp member)
  refine ⟨chains, wellFormed.cutStamp, ?_, ?_⟩
  · intro other later chain stamp cut aboveFloor leads
    rw [sameLink (by rw [show forest.place other = _ from cut]; simp)]
      at leads
    exact wellFormed.cutNext cut aboveFloor leads
  · intro other chain stamp cut aboveFloor
    refine ends_of_linked_ends wellFormed
      (fun cut _ => sameLink (by simp [cut])) ?_ cut aboveFloor
    intro linkedNode here linked
    obtain ⟨nodes, chained⟩ := chains here
    obtain ⟨_, tail, _, path⟩ :=
      chained.path.split_at ((chained.members linkedNode).mpr linked)
    exact ⟨tail, path⟩

/-- Rewriting a node off every chain is unobservable from visible nodes. -/
theorem setLink_leadsTo
    (wellFormed : forest.WellFormed)
    (free : forest.place node = .off)
    {next : Option A}
    {chain : R}
    {since : Nat}
    (aboveFloor : forest.floor ≤ since)
    {first last : A}
    (visible : forest.Visible chain since first) :
    LeadsTo (forest.setLink node next).links first last ↔
      LeadsTo forest.links first last := by
  obtain ⟨nodes, path⟩ := wellFormed.visible_ends aboveFloor visible
  have kept :
      Path (forest.setLink node next).links (.node first) nodes := by
    have sameLink :
        ∀ other ∈ first :: nodes,
          (forest.setLink node next).links (.node other) =
            forest.links (.node other) := by
      intro other member
      have present :=
        (wellFormed.visible_leadsTo aboveFloor visible
          (path.mem_iff_leadsTo.mp member)).ne_off
      have different : other ≠ node := by
        rintro rfl
        exact present free
      simp [setLink, different]
    exact path.transfer (sameLink first (by simp))
      (fun other member =>
        sameLink other (List.mem_cons_of_mem _ member))
  exact (kept.mem_iff_leadsTo).symm.trans path.mem_iff_leadsTo

end Private

end Changes

end Forest

end ConcurrentCpp
