import Mathlib.Data.List.TakeWhile
import ConcurrentCpp.ListView

namespace ConcurrentCpp

/-!
# Erasing behind an anchor

What `erase_after` does to the words of a marked list when nobody interferes:
it unlinks the marked nodes right behind the anchor, one after the other, and
then marks and unlinks the first node that is not marked.
-/

variable {A : Type}

/-- The words of a marked list. -/
abbrev Words (A : Type) := Cell Unit A → MarkedPtr A

/-- Where words lead when marks are stripped. -/
def Words.links (words : Words A) : Links Unit A :=
  fun cell => (words cell).ptr

/-- The nodes behind an anchor that is not marked. -/
structure Ahead
    (words : Words A)
    (anchor : Cell Unit A)
    (nodes : List A) : Prop where
  path : Path words.links anchor nodes
  distinct : nodes.Nodup
  outside : ∀ node ∈ nodes, anchor ≠ .node node
  clear : (words anchor).mark = false

/-- The marked nodes right behind an anchor. -/
def deadRun
    (words : Words A)
    (nodes : List A) :
    List A :=
  nodes.takeWhile fun node => (words (.node node)).mark

/-- What follows the marked nodes right behind an anchor. -/
def behindRun
    (words : Words A)
    (nodes : List A) :
    List A :=
  nodes.dropWhile fun node => (words (.node node)).mark

/-- The nodes that an erasure unlinks. -/
def unlinkedRun
    (words : Words A)
    (nodes : List A) :
    List A :=
  deadRun words nodes ++ (behindRun words nodes).head?.toList

/-- The nodes that are not marked. -/
def unmarkedNodes
    (words : Words A)
    (nodes : List A) :
    List A :=
  nodes.filter fun node => (words (.node node)).mark = false

variable [DecidableEq A]

/-- The words after an erasure. -/
def eraseWords
    (words : Words A)
    (anchor : Cell Unit A)
    (nodes : List A) :
    Words A :=
  match behindRun words nodes with
  | [] => Function.update words anchor ⟨none, false⟩
  | target :: rest =>
      Function.update
        (Function.update words (.node target)
          (words (.node target)).setMark)
        anchor ⟨rest.head?, false⟩

variable
  {words : Words A}
  {anchor : Cell Unit A}
  {node : A}
  {nodes : List A}

omit [DecidableEq A] in
/-- The word of the anchor leads to the first node. -/
theorem Ahead.word
    (ahead : Ahead words anchor nodes) :
    words anchor = ⟨nodes.head?, false⟩ := by
  have leads := ahead.path.head
  have clear := ahead.clear
  simp only [Words.links] at leads
  rw [← leads, ← clear]

omit [DecidableEq A] in
/-- The word of the first node leads to the second. -/
theorem Ahead.next
    (ahead : Ahead words anchor (node :: nodes)) :
    (words (.node node)).ptr = nodes.head? :=
  ahead.path.2.head

/-- The first node is bypassed. -/
theorem Ahead.unlink
    (ahead : Ahead words anchor (node :: nodes)) :
    Ahead (Function.update words anchor ⟨nodes.head?, false⟩) anchor
      nodes where
  path := by
    refine ahead.path.2.transfer ?_ ?_
    · simp [Words.links, ahead.next]
    · intro other member
      have apart := ahead.outside other (List.mem_cons_of_mem _ member)
      simp [Words.links, Function.update_of_ne (Ne.symm apart)]
  distinct := (List.nodup_cons.mp ahead.distinct).2
  outside other member :=
    ahead.outside other (List.mem_cons_of_mem _ member)
  clear := by simp

/-- A node behind the anchor is marked. -/
theorem Ahead.mark
    (ahead : Ahead words anchor nodes)
    (member : node ∈ nodes) :
    Ahead
      (Function.update words (.node node) (words (.node node)).setMark)
      anchor nodes where
  path := by
    have same :
        Words.links
            (Function.update words (.node node)
              (words (.node node)).setMark) =
          words.links := by
      funext cell
      by_cases here : cell = .node node
      · simp [Words.links, here]
      · simp [Words.links, Function.update_of_ne here]
    rw [same]
    exact ahead.path
  distinct := ahead.distinct
  outside := ahead.outside
  clear := by
    rw [Function.update_of_ne (ahead.outside node member)]
    exact ahead.clear

omit [DecidableEq A] in
/-- The words of the nodes decide which of them are in the run. -/
theorem behindRun_congr
    {changed : Words A}
    (same :
      ∀ node ∈ nodes,
        (changed (.node node)).mark = (words (.node node)).mark) :
    deadRun changed nodes = deadRun words nodes ∧
      behindRun changed nodes = behindRun words nodes ∧
      unmarkedNodes changed nodes = unmarkedNodes words nodes := by
  induction nodes with
  | nil =>
      exact ⟨rfl, rfl, rfl⟩
  | cons first rest induct =>
      have here := same first List.mem_cons_self
      obtain ⟨dead, behind, live⟩ :=
        induct fun node member => same node (List.mem_cons_of_mem _ member)
      simp only [deadRun, behindRun, unmarkedNodes] at dead behind live ⊢
      rw [List.takeWhile_cons, List.takeWhile_cons, List.dropWhile_cons,
        List.dropWhile_cons, List.filter_cons, List.filter_cons, here, dead,
        behind, live]
      exact ⟨rfl, rfl, rfl⟩

/-- The anchor's own word does not count. -/
theorem Ahead.runs_update
    (ahead : Ahead words anchor nodes)
    (value : MarkedPtr A) :
    deadRun (Function.update words anchor value) nodes =
        deadRun words nodes ∧
      behindRun (Function.update words anchor value) nodes =
        behindRun words nodes ∧
      unmarkedNodes (Function.update words anchor value) nodes =
        unmarkedNodes words nodes := by
  refine behindRun_congr fun node member => ?_
  rw [Function.update_of_ne (Ne.symm (ahead.outside node member))]

/-- An erasure with nothing behind the anchor. -/
theorem Ahead.erase_nil
    (ahead : Ahead words anchor []) :
    eraseWords words anchor [] = words := by
  have word := ahead.word
  simp only [List.head?_nil] at word
  simp [eraseWords, behindRun, ← word]

/-- An erasure goes on behind a marked node when that is unlinked. -/
theorem Ahead.erase_marked
    (ahead : Ahead words anchor (node :: nodes))
    (marked : (words (.node node)).mark = true) :
    eraseWords
          (Function.update words anchor ⟨nodes.head?, false⟩) anchor
          nodes =
        eraseWords words anchor (node :: nodes) ∧
      behindRun
          (Function.update words anchor ⟨nodes.head?, false⟩) nodes =
        behindRun words (node :: nodes) ∧
      unlinkedRun words (node :: nodes) =
        node ::
          unlinkedRun
            (Function.update words anchor ⟨nodes.head?, false⟩) nodes := by
  have later := ahead.unlink
  have behind :
      behindRun words (node :: nodes) = behindRun words nodes := by
    simp [behindRun, marked]
  have dead :
      deadRun words (node :: nodes) = node :: deadRun words nodes := by
    simp [deadRun, marked]
  obtain ⟨thisDead, thisBehind, -⟩ :=
    later.runs_update (words anchor)
  simp only [Function.update_idem, Function.update_eq_self]
    at thisDead thisBehind
  refine ⟨?_, ?_, ?_⟩
  · simp only [eraseWords, ← thisBehind, behind]
    split
    case h_1 =>
        rw [Function.update_idem]
    case h_2 target rest shape =>
        have member : target ∈ nodes := by
          have inside : target ∈ behindRun words nodes := by
            rw [shape]
            exact List.mem_cons_self
          exact (List.dropWhile_sublist _).subset inside
        have apart := later.outside target member
        rw [Function.update_of_ne (Ne.symm apart),
          Function.update_comm apart, Function.update_idem]
  · rw [← thisBehind, behind]
  · simp only [unlinkedRun, dead, behind, ← thisDead, ← thisBehind,
      List.cons_append]

variable (anchor nodes) in
/-- An erasure ends at the first node that is not marked. -/
theorem Ahead.erase_unmarked
    (clear : (words (.node node)).mark = false) :
    eraseWords words anchor (node :: nodes) =
        Function.update
          (Function.update words (.node node) (words (.node node)).setMark)
          anchor ⟨nodes.head?, false⟩ ∧
      behindRun words (node :: nodes) = node :: nodes ∧
      unlinkedRun words (node :: nodes) = [node] := by
  simp [eraseWords, behindRun, unlinkedRun, deadRun, clear]

/-- What is behind the anchor after an erasure, and what is left unmarked. -/
theorem Ahead.erased
    (ahead : Ahead words anchor nodes) :
    Ahead (eraseWords words anchor nodes) anchor
        (behindRun words nodes).tail ∧
      (unmarkedNodes words nodes).length =
        (behindRun words nodes).head?.toList.length +
          (unmarkedNodes (eraseWords words anchor nodes)
            (behindRun words nodes).tail).length := by
  induction nodes generalizing words with
  | nil =>
      rw [ahead.erase_nil]
      exact ⟨ahead, by simp [unmarkedNodes, behindRun]⟩
  | cons node nodes induct =>
      cases marked : (words (.node node)).mark with
      | true =>
          obtain ⟨same, behind, -⟩ := ahead.erase_marked marked
          obtain ⟨later, counted⟩ := induct ahead.unlink
          rw [same, behind] at later counted
          refine ⟨later, ?_⟩
          rw [← counted]
          obtain ⟨-, -, alike⟩ := ahead.unlink.runs_update (words anchor)
          simp only [Function.update_idem, Function.update_eq_self]
            at alike
          simp [unmarkedNodes, marked] at alike ⊢
          rw [alike]
      | false =>
          obtain ⟨words', behind, -⟩ :=
            Ahead.erase_unmarked anchor nodes marked
          have member : node ∈ node :: nodes := List.mem_cons_self
          have later := (ahead.mark member).unlink
          rw [words', behind]
          refine ⟨later, ?_⟩
          obtain ⟨-, -, alike⟩ :=
            later.runs_update
              (Function.update words (.node node)
                (words (.node node)).setMark anchor)
          simp only [Function.update_idem, Function.update_eq_self]
            at alike
          have fresh := (List.nodup_cons.mp ahead.distinct).1
          have kept :
              unmarkedNodes
                  (Function.update words (.node node)
                    (words (.node node)).setMark) nodes =
                unmarkedNodes words nodes := by
            refine (behindRun_congr fun other inside => ?_).2.2
            have apart : Cell.node other ≠ (.node node : Cell Unit A) := by
              rintro ⟨⟩
              exact fresh inside
            rw [Function.update_of_ne apart]
          simp only [List.tail_cons, List.head?_cons, Option.toList_some,
            List.length_singleton]
          rw [← alike, kept]
          simp [unmarkedNodes, marked, Nat.add_comm]

omit [DecidableEq A] in
variable (words nodes) in
/-- What an erasure unlinks and what it leaves. -/
theorem unlinkedRun_append :
    unlinkedRun words nodes ++ (behindRun words nodes).tail = nodes := by
  have split : deadRun words nodes ++ behindRun words nodes = nodes :=
    List.takeWhile_append_dropWhile
  cases shape : behindRun words nodes with
  | nil =>
      simpa [unlinkedRun, shape] using split
  | cons target rest =>
      simpa [unlinkedRun, shape] using split

omit [DecidableEq A] in
/-- What is behind a cell of the chain. -/
theorem Ahead.of_path
    {before : List A}
    (path : Path words.links (.root ()) (before ++ nodes))
    (distinct : (before ++ nodes).Nodup)
    (ends : endCell (.root ()) before = anchor)
    (clear : (words anchor).mark = false) :
    Ahead words anchor nodes where
  path := ends ▸ (path_append.mp path).2
  distinct := (List.nodup_append.mp distinct).2.1
  outside := by
    intro node member same
    cases before with
    | nil =>
        cases ends.trans same
    | cons first rest =>
        obtain ⟨last, inside, shape⟩ :=
          endCell_cons_mem (.root () : Cell Unit A) first rest
        rw [← ends, shape] at same
        cases same
        exact (List.nodup_append.mp distinct).2.2 node inside node member
          rfl
  clear := clear

omit [DecidableEq A] in
/-- What is behind the head. -/
theorem Ahead.of_root
    (path : Path words.links (.root ()) nodes)
    (distinct : nodes.Nodup)
    (clear : (words (.root ())).mark = false) :
    Ahead words (.root ()) nodes :=
  Ahead.of_path (show Path words.links (.root ()) ([] ++ nodes) from path)
    distinct rfl clear

/-- Only the anchor and the first unmarked node get other words. -/
theorem eraseWords_of_ne
    {cell : Cell Unit A}
    (notAnchor : cell ≠ anchor)
    (notTarget : ∀ node ∈ (behindRun words nodes).head?, cell ≠ .node node) :
    eraseWords words anchor nodes cell = words cell := by
  cases shape : behindRun words nodes with
  | nil =>
      simp only [eraseWords, shape, Function.update_of_ne notAnchor]
  | cons target rest =>
      have apart := notTarget target (by simp [shape])
      simp only [eraseWords, shape, Function.update_of_ne notAnchor,
        Function.update_of_ne apart]

/-- No erasure changes where another word leads. -/
theorem eraseWords_links
    {cell : Cell Unit A}
    (notAnchor : cell ≠ anchor) :
    (eraseWords words anchor nodes).links cell = words.links cell := by
  cases shape : behindRun words nodes with
  | nil =>
      simp only [Words.links, eraseWords, shape,
        Function.update_of_ne notAnchor]
  | cons target rest =>
      simp only [Words.links, eraseWords, shape,
        Function.update_of_ne notAnchor]
      by_cases here : cell = .node target
      · rw [here, Function.update_self, MarkedPtr.setMark_ptr]
      · rw [Function.update_of_ne here]

namespace ListView

variable {I T : Type} {view later : ListView A I T}

omit [DecidableEq A] in
/--
What `erase_after` does: of the chain it drops the marked nodes right behind
the anchor and the first node after them, if there is one, which it marks.
-/
def ErasesAfter
    (view later : ListView A I T)
    (anchor : Cell Unit A)
    (result : Bool) : Prop :=
  ∃ before dead rest,
    Path view.links (.root ()) (before ++ (dead ++ rest)) ∧
      endCell (.root ()) before = anchor ∧
      (∀ node ∈ dead, ¬ view.Unmarked node) ∧
      (∀ node ∈ rest.head?, view.Unmarked node) ∧
      result = rest.head?.isSome ∧
      Path later.links (.root ()) (before ++ rest.tail) ∧
      later.next anchor = ⟨rest.tail.head?, false⟩ ∧
      (∀ node ∈ rest.head?,
        later.next (.node node) = (view.next (.node node)).setMark) ∧
      ∀ cell,
        cell ≠ anchor →
        (∀ node ∈ rest.head?, cell ≠ .node node) →
        later.next cell = view.next cell

/-- The chain after an erasure. -/
theorem path_of_words
    {before : List A}
    (path : Path view.links (.root ()) (before ++ nodes))
    (distinct : (before ++ nodes).Nodup)
    (ends : endCell (.root ()) before = anchor)
    (clear : (view.next anchor).mark = false)
    (words : later.next = eraseWords view.next anchor nodes) :
    Path later.links (.root ())
      (before ++ (behindRun view.next nodes).tail) := by
  have fresh : ∀ node ∈ before, (.root () : Cell Unit A) ≠ .node node :=
    fun _ _ same => by cases same
  refine path.redirect (List.nodup_append.mp distinct).1 fresh ?_ ?_
  · intro other notAnchor
    rw [ends] at notAnchor
    simp only [ListView.links, words]
    exact eraseWords_links notAnchor
  · rw [ends, show later.links = Words.links later.next from rfl, words]
    exact (Ahead.of_path path distinct ends clear).erased.1.path

/-- What an erasure does to the chain and its words. -/
theorem erasesAfter_of_words
    {before : List A}
    (path : Path view.links (.root ()) (before ++ nodes))
    (distinct : (before ++ nodes).Nodup)
    (ends : endCell (.root ()) before = anchor)
    (clear : (view.next anchor).mark = false)
    (words : later.next = eraseWords view.next anchor nodes) :
    view.ErasesAfter later anchor
      (behindRun view.next nodes).head?.isSome := by
  have ahead := Ahead.of_path path distinct ends clear
  have whole :
      deadRun view.next nodes ++ behindRun view.next nodes = nodes :=
    List.takeWhile_append_dropWhile
  refine ⟨before, deadRun view.next nodes, behindRun view.next nodes,
    by rwa [whole], ends, ?_, ?_, rfl,
    path_of_words path distinct ends clear words, ?_, ?_, ?_⟩
  · intro node member
    have marked := List.mem_takeWhile_imp member
    simpa [Unmarked] using marked
  · intro node first
    have unmarked := List.head?_dropWhile_not
      (fun node => (view.next (.node node)).mark) nodes
    rw [show (nodes.dropWhile fun node => (view.next (.node node)).mark) =
      behindRun view.next nodes from rfl, first] at unmarked
    simpa [Unmarked] using unmarked
  · rw [words]
    exact ahead.erased.1.word
  · intro node first
    have member : node ∈ nodes :=
      (List.dropWhile_sublist _).subset (List.mem_of_mem_head? first)
    rw [words]
    cases shape : behindRun view.next nodes with
    | nil =>
        rw [shape] at first
        cases first
    | cons target rest =>
        rw [shape] at first
        cases first
        simp only [eraseWords, shape, Function.update_self,
          Function.update_of_ne (Ne.symm (ahead.outside node member))]
  · intro cell notAnchor notTarget
    rw [words]
    exact eraseWords_of_ne notAnchor notTarget

omit [DecidableEq A] in
/-- The nodes that an erasure unlinks are the ones that leave the chain. -/
theorem unlinkedRun_exact
    {before : List A}
    (path : Path view.links (.root ()) (before ++ nodes))
    (distinct : (before ++ nodes).Nodup)
    (after :
      Path later.links (.root ())
        (before ++ (behindRun view.next nodes).tail)) :
    ∀ node,
      node ∈ unlinkedRun view.next nodes ↔
        view.OnChain node ∧ ¬ later.OnChain node := by
  intro node
  rw [← unlinkedRun_append view.next nodes] at path distinct
  have onChain : view.OnChain node ↔
      node ∈ before ++
        (unlinkedRun view.next nodes ++ (behindRun view.next nodes).tail) :=
    ⟨fun ⟨_, other, member⟩ => other.unique path ▸ member,
      fun member => ⟨_, path, member⟩⟩
  have still : later.OnChain node ↔
      node ∈ before ++ (behindRun view.next nodes).tail :=
    ⟨fun ⟨_, other, member⟩ => other.unique after ▸ member,
      fun member => ⟨_, after, member⟩⟩
  obtain ⟨-, restDistinct, apart⟩ := List.nodup_append.mp distinct
  obtain ⟨-, -, apartRest⟩ := List.nodup_append.mp restDistinct
  rw [onChain, still]
  constructor
  · intro member
    refine ⟨List.mem_append_right _ (List.mem_append_left _ member), ?_⟩
    intro kept
    rcases List.mem_append.mp kept with early | late
    · exact apart node early node (List.mem_append_left _ member) rfl
    · exact apartRest node member node late rfl
  · rintro ⟨member, gone⟩
    rcases List.mem_append.mp member with early | late
    · exact absurd (List.mem_append_left _ early) gone
    · rcases List.mem_append.mp late with unlinked | late
      · exact unlinked
      · exact absurd (List.mem_append_right _ late) gone

/-- What a drain does. -/
def Drains
    (view later : ListView A I T)
    (count : Nat) : Prop :=
  ∃ nodes,
    Path view.links (.root ()) nodes ∧ nodes.Nodup ∧
      count = (unmarkedNodes view.next nodes).length ∧
      later.next (.root ()) = ⟨none, false⟩

end ListView

end ConcurrentCpp
