import Mathlib.Data.List.Nodup
import Mathlib.Logic.Function.Basic
import Mathlib.Logic.Relation

namespace ConcurrentCpp

/-!
# Paths through link words

A heap of singly linked nodes is a function from cells to successors, where a
cell is either the root word of a chain or the link word of a node.  `Path`
says that the successors of a cell are exactly a given list, ending in a null
link; `Segment` says that they begin with it.  The lemmas below describe how
both react when one cell is redirected.
-/

/-- A word that may lead to a node: the root of a chain or a node's link. -/
inductive Cell (R A : Type) where
  | root (chain : R)
  | node (address : A)
  deriving DecidableEq

/-- Where every cell leads. -/
abbrev Links (R A : Type) := Cell R A → Option A

variable {R A : Type}

/-- The nodes behind a cell, up to the null link, are exactly these. -/
def Path (links : Links R A) : Cell R A → List A → Prop
  | cell, [] => links cell = none
  | cell, first :: rest =>
      links cell = some first ∧ Path links (.node first) rest

/-- The nodes behind a cell begin with these. -/
def Segment (links : Links R A) : Cell R A → List A → Prop
  | _, [] => True
  | cell, first :: rest =>
      links cell = some first ∧ Segment links (.node first) rest

/-- The cell reached after the nodes of a segment. -/
def endCell : Cell R A → List A → Cell R A
  | cell, [] => cell
  | _, first :: rest => endCell (.node first) rest

/-- One node leads to the other through zero or more links. -/
def LeadsTo (links : Links R A) : A → A → Prop :=
  Relation.ReflTransGen fun first second =>
    links (.node first) = some second

@[simp] theorem endCell_nil
    (cell : Cell R A) :
    endCell cell [] = cell :=
  rfl

@[simp] theorem endCell_concat
    (cell : Cell R A)
    (leading : List A)
    (last : A) :
    endCell cell (leading ++ [last]) = .node last := by
  induction leading generalizing cell with
  | nil =>
      rfl
  | cons first rest inductionHypothesis =>
      exact inductionHypothesis (.node first)

theorem endCell_append
    (cell : Cell R A)
    (leading trailing : List A) :
    endCell cell (leading ++ trailing) =
      endCell (endCell cell leading) trailing := by
  induction leading generalizing cell with
  | nil =>
      rfl
  | cons first rest inductionHypothesis =>
      exact inductionHypothesis (.node first)

/-- A nonempty segment ends at one of its nodes. -/
theorem endCell_cons_mem
    (cell : Cell R A)
    (first : A)
    (rest : List A) :
    ∃ last ∈ first :: rest,
      endCell cell (first :: rest) = .node last := by
  induction rest generalizing cell first with
  | nil =>
      exact ⟨first, by simp, rfl⟩
  | cons second rest inductionHypothesis =>
      obtain ⟨last, member, shape⟩ :=
        inductionHypothesis (.node first) second
      exact ⟨last, List.mem_cons_of_mem _ member, shape⟩

/-- A nonempty segment ends at its last node. -/
theorem endCell_getLast?
    {first last : A}
    {rest : List A}
    (isLast : (first :: rest).getLast? = some last) :
    endCell (.node first : Cell R A) rest = .node last := by
  induction rest generalizing first with
  | nil =>
      simp only [List.getLast?_singleton, Option.some.injEq] at isLast
      simp [isLast]
  | cons second rest inductionHypothesis =>
      rw [List.getLast?_cons_cons] at isLast
      exact inductionHypothesis isLast

theorem path_append
    {links : Links R A}
    {cell : Cell R A}
    {leading trailing : List A} :
    Path links cell (leading ++ trailing) ↔
      Segment links cell leading ∧
        Path links (endCell cell leading) trailing := by
  induction leading generalizing cell with
  | nil =>
      simp [Segment]
  | cons first rest inductionHypothesis =>
      simp [Path, Segment, endCell, inductionHypothesis, and_assoc]

/-- The head of a path is what its cell leads to. -/
theorem Path.head
    {links : Links R A}
    {cell : Cell R A}
    {nodes : List A}
    (path : Path links cell nodes) :
    links cell = nodes.head? := by
  cases nodes with
  | nil =>
      exact path
  | cons first rest =>
      exact path.1

/-- A cell has at most one path. -/
theorem Path.unique
    {links : Links R A}
    {cell : Cell R A}
    {first second : List A}
    (left : Path links cell first)
    (right : Path links cell second) :
    first = second := by
  induction first generalizing cell second with
  | nil =>
      cases second with
      | nil =>
          rfl
      | cons node rest =>
          exact absurd (left.symm.trans right.1) (by simp)
  | cons node rest inductionHypothesis =>
      cases second with
      | nil =>
          exact absurd (right.symm.trans left.1) (by simp)
      | cons other others =>
          have same : node = other :=
            Option.some.inj (left.1.symm.trans right.1)
          subst same
          rw [inductionHypothesis left.2 right.2]

/--
A path survives when its nodes keep their links and the cell it starts from,
possibly another one, leads where the old one did.
-/
theorem Path.transfer
    {R' : Type}
    {links : Links R A}
    {changed : Links R' A}
    {cell : Cell R A}
    {start : Cell R' A}
    {nodes : List A}
    (path : Path links cell nodes)
    (sameStart : changed start = links cell)
    (sameNodes :
      ∀ node ∈ nodes, changed (.node node) = links (.node node)) :
    Path changed start nodes := by
  induction nodes generalizing cell start with
  | nil =>
      exact sameStart.trans path
  | cons first rest inductionHypothesis =>
      exact ⟨sameStart.trans path.1,
        inductionHypothesis path.2
          (sameNodes first (by simp))
          (fun node member =>
            sameNodes node (List.mem_cons_of_mem _ member))⟩

/-- The successor of a segment's end heads what remains of a path. -/
theorem Path.tail_head
    {links : Links R A}
    {cell : Cell R A}
    {leading trailing : List A}
    (path : Path links cell (leading ++ trailing)) :
    links (endCell cell leading) = trailing.head? :=
  (path_append.mp path).2.head

/-- The successor of a node on a path is on it. -/
theorem Path.next_mem
    {links : Links R A}
    {cell : Cell R A}
    {nodes : List A}
    (path : Path links cell nodes)
    {node successor : A}
    (member : node ∈ nodes)
    (next : links (.node node) = some successor) :
    successor ∈ nodes := by
  induction nodes generalizing cell with
  | nil =>
      cases member
  | cons first rest inductionHypothesis =>
      rcases List.mem_cons.1 member with rfl | member
      · rw [path.2.head] at next
        exact List.mem_cons_of_mem _ (List.mem_of_mem_head? next)
      · exact List.mem_cons_of_mem _ (inductionHypothesis path.2 member)

/-- The nodes behind a node are the ones it leads to. -/
theorem Path.mem_iff_leadsTo
    {links : Links R A}
    {first : A}
    {nodes : List A}
    (path : Path links (.node first) nodes)
    {target : A} :
    target ∈ first :: nodes ↔ LeadsTo links first target := by
  constructor
  · intro member
    induction nodes generalizing first with
    | nil =>
        rw [List.mem_singleton] at member
        subst member
        exact Relation.ReflTransGen.refl
    | cons second rest inductionHypothesis =>
        rcases List.mem_cons.mp member with same | later
        · subst same
          exact Relation.ReflTransGen.refl
        · exact Relation.ReflTransGen.head path.1
            (inductionHypothesis path.2 later)
  · intro leads
    induction leads using Relation.ReflTransGen.head_induction_on
      generalizing nodes with
    | refl =>
        simp
    | head edge _ inductionHypothesis =>
        cases nodes with
        | nil =>
            exact absurd (edge.symm.trans path) (by simp)
        | cons second rest =>
            have same := Option.some.inj (edge.symm.trans path.1)
            subst same
            exact List.mem_cons_of_mem _ (inductionHypothesis path.2)

/-- A property that links preserve holds of everything a node leads to. -/
theorem LeadsTo.closed
    {links : Links R A}
    {property : A → Prop}
    (closed :
      ∀ {node next},
        property node →
        links (.node node) = some next →
        property next)
    {first last : A}
    (leads : LeadsTo links first last)
    (known : property first) :
    property last := by
  induction leads with
  | refl =>
      exact known
  | tail _ edge inductionHypothesis =>
      exact closed inductionHypothesis edge

/-- Splitting a duplicate-free path at a node fixes both sides. -/
theorem Path.split_at
    {links : Links R A}
    {cell : Cell R A}
    {nodes : List A}
    (path : Path links cell nodes)
    {node : A}
    (member : node ∈ nodes) :
    ∃ before after,
      nodes = (before ++ [node]) ++ after ∧
        Path links (.node node) after := by
  obtain ⟨before, after, rfl⟩ := List.append_of_mem member
  refine ⟨before, after, by simp, ?_⟩
  have whole : Path links cell ((before ++ [node]) ++ after) := by
    simpa using path
  simpa using (path_append.mp whole).2

/-- A segment leads its starting node to whatever follows the segment. -/
theorem Segment.leadsTo
    {links : Links R A}
    {first next : A}
    {nodes : List A}
    (segment : Segment links (.node first) nodes)
    (follows : links (endCell (.node first) nodes) = some next) :
    LeadsTo links first next := by
  induction nodes generalizing first with
  | nil =>
      exact Relation.ReflTransGen.single follows
  | cons second rest inductionHypothesis =>
      exact Relation.ReflTransGen.head segment.1
        (inductionHypothesis segment.2 follows)

/-- A path that starts with the nodes of a segment continues after them. -/
theorem Path.after_segment
    {links : Links R A}
    {cell : Cell R A}
    {nodes leading : List A}
    (path : Path links cell nodes)
    (segment : Segment links cell leading) :
    ∃ trailing,
      nodes = leading ++ trailing ∧
        Path links (endCell cell leading) trailing := by
  induction leading generalizing cell nodes with
  | nil =>
      exact ⟨nodes, rfl, path⟩
  | cons first rest inductionHypothesis =>
      cases nodes with
      | nil =>
          exact absurd (path.symm.trans segment.1) (by simp)
      | cons other others =>
          have same := Option.some.inj (path.1.symm.trans segment.1)
          subst same
          obtain ⟨trailing, shape, later⟩ :=
            inductionHypothesis path.2 segment.2
          exact ⟨trailing, by rw [shape]; rfl, later⟩

variable [DecidableEq R] [DecidableEq A]

/-- Redirecting the end of a segment keeps the segment. -/
theorem Segment.update_end
    {links : Links R A}
    {cell : Cell R A}
    {nodes : List A}
    (segment : Segment links cell nodes)
    (noDuplicates : nodes.Nodup)
    (outside : ∀ node ∈ nodes, cell ≠ .node node)
    (target : Option A) :
    Segment (Function.update links (endCell cell nodes) target)
      cell nodes := by
  induction nodes generalizing cell with
  | nil =>
      trivial
  | cons first rest inductionHypothesis =>
      have restNodup := (List.nodup_cons.mp noDuplicates).2
      have firstFresh := (List.nodup_cons.mp noDuplicates).1
      obtain ⟨last, lastMember, endShape⟩ :=
        endCell_cons_mem cell first rest
      refine ⟨?_, inductionHypothesis segment.2 restNodup ?_⟩
      · rw [endShape, Function.update_of_ne
          (outside last lastMember)]
        exact segment.1
      · intro node member same
        cases same
        exact firstFresh member

omit [DecidableEq R] [DecidableEq A] in
/-- Two paths through a node agree on what comes after it. -/
theorem Path.sublist_of_shared
    {links : Links R A}
    {cell : Cell R A}
    {start first second : A}
    {nodes visited : List A}
    (path : Path links cell nodes)
    (noDuplicates : nodes.Nodup)
    (ordered : [first, second].Sublist nodes)
    (walk : Path links (.node start) visited)
    (member : first ∈ start :: visited) :
    [first, second].Sublist (start :: visited) := by
  have onPath : first ∈ nodes := ordered.subset (by simp)
  obtain ⟨before, after, rfl, behind⟩ := path.split_at onPath
  have secondAfter : second ∈ after := by
    rw [List.append_assoc] at ordered noDuplicates
    have outside : first ∉ before := fun early =>
      (List.nodup_append.mp noDuplicates).2.2 first early first
        (by simp) rfl
    have shorter : [first, second].Sublist ([first] ++ after) := by
      obtain ⟨left, right, shape, leftSub, rightSub⟩ :=
        List.sublist_append_iff.mp ordered
      cases left with
      | nil =>
          rw [shape]
          exact rightSub
      | cons head rest =>
          simp only [List.cons_append, List.cons.injEq] at shape
          rw [← shape.1] at leftSub
          exact (outside (leftSub.subset (by simp))).elim
    simpa using shorter
  rcases List.mem_cons.mp member with same | later
  · subst same
    rw [walk.unique behind]
    simpa using secondAfter
  · obtain ⟨front, rest, rfl, behindToo⟩ := walk.split_at later
    rw [behindToo.unique behind]
    have tail : [first, second].Sublist (first :: after) := by
      simpa using secondAfter
    refine List.Sublist.cons _ ?_
    rw [List.append_assoc]
    exact tail.trans (List.sublist_append_right front _)

section Splice

variable
  {links : Links R A}
  {cell : Cell R A}
  {before after : List A}

/-- A path with one of its cells made to lead elsewhere. -/
theorem Path.redirect
    {dropped : List A}
    (path : Path links cell (before ++ dropped))
    (noDuplicates : before.Nodup)
    (outside : ∀ node ∈ before, cell ≠ .node node)
    {changed : Links R A}
    (same :
      ∀ other, other ≠ endCell cell before → changed other = links other)
    (kept : Path changed (endCell cell before) after) :
    Path changed cell (before ++ after) := by
  have shape :
      changed =
        Function.update links (endCell cell before)
          (changed (endCell cell before)) := by
    funext other
    by_cases here : other = endCell cell before
    · rw [here, Function.update_self]
    · rw [Function.update_of_ne here, same other here]
  refine path_append.mpr ⟨?_, kept⟩
  rw [shape]
  exact (path_append.mp path).1.update_end noDuplicates outside _

omit [DecidableEq R] [DecidableEq A] in
/-- The cell that leads to a node of a path ends what is before the node. -/
theorem Path.cell_before
    {node : A}
    (path : Path links cell (before ++ node :: after))
    (noDuplicates : (before ++ node :: after).Nodup)
    {target : Cell R A}
    (attached :
      target = cell ∨
        ∃ other ∈ before ++ node :: after, target = .node other)
    (leads : links target = some node) :
    target = endCell cell before := by
  have fresh : node ∉ before := fun early =>
    (List.nodup_append.mp noDuplicates).2.2 node early node
      List.mem_cons_self rfl
  rcases attached with rfl | ⟨other, member, rfl⟩
  · rw [path.head] at leads
    cases before with
    | nil =>
        rfl
    | cons first rest =>
        cases leads
        exact absurd List.mem_cons_self fresh
  · obtain ⟨early, late, shape, behind⟩ := path.split_at member
    rw [behind.head] at leads
    cases late with
    | nil =>
        cases leads
    | cons first late =>
        cases leads
        have notLater : node ∉ after :=
          (List.nodup_cons.mp
            (List.nodup_append.mp noDuplicates).2.1).1
        have same :=
          (List.append_cons_inj_of_notMem fresh notLater).mp shape
        rw [same.1, endCell_concat]

end Splice

end ConcurrentCpp
