import ConcurrentCpp.Completion
import ConcurrentCpp.ListErase
import ConcurrentCpp.LockFreeListRCURuns
import ConcurrentCpp.LockFreeListRuns

namespace ConcurrentCpp

/-!
# Draining a list alone

`erase_after` of `LockFreeList` in marking mode and of `LockFreeListRCU`, from
any reachable state, while no other thread moves.
-/

/-- `while (erase()) ++count;`. -/
def drain
    {S C : Type}
    (erase : Prog S C Bool) :
    Prog S C Nat :=
  Prog.loop 0 fun count => do
    let erased ← erase
    if erased then
      Prog.again (count + 1)
    else
      Prog.leave count

section Drain

variable
  {S C A : Type}
  [DecidableEq A]
  {likely : C → Prop}
  {erase : Prog S C Bool}
  (words : S → Words A)

/--
In the middle of a drain: what is left behind the head, and how many nodes of
it are still to be counted.
-/
def Draining
    (extra : List A → S → Prop)
    (total length count : Nat)
    (state : S) : Prop :=
  ∃ nodes,
    Ahead (words state) (.root ()) nodes ∧
      extra nodes state ∧
      nodes.length = length ∧
      count + (unmarkedNodes (words state) nodes).length = total

/--
A loop of erasures at the head, each of which is exact, empties the list and
counts the nodes that were not marked.
-/
theorem drain_completes
    (extra : List A → S → Prop)
    (enabled : ∃ choice, likely choice)
    (erases :
      ∀ budget state nodes,
        Ahead (words state) (.root ()) nodes →
        extra nodes state →
        Completes likely
          (fun result _ after =>
            result = (behindRun (words state) nodes).head?.isSome ∧
              words after = eraseWords (words state) (.root ()) nodes ∧
              extra (behindRun (words state) nodes).tail after)
          budget erase state)
    {budget : Nat}
    {state : S}
    {nodes : List A}
    (ahead : Ahead (words state) (.root ()) nodes)
    (known : extra nodes state) :
    Completes likely
      (fun count _ after =>
        count = (unmarkedNodes (words state) nodes).length ∧
          words after (.root ()) = ⟨none, false⟩ ∧
          extra [] after)
      budget (drain erase) state := by
  refine Completes.loop
    (Draining words extra (unmarkedNodes (words state) nodes).length)
    nodes.length enabled ?_ ⟨nodes, ahead, known, rfl, Nat.zero_add _⟩
  rintro left length count now - ⟨rest, behind, kept, rfl, total⟩
  obtain ⟨later, counted⟩ := behind.erased
  refine Completes.bind (erases left now rest behind kept) ?_
  rintro result less after - ⟨rfl, changed, keeps⟩
  rw [← changed] at later counted
  cases shape : behindRun (words now) rest with
  | nil =>
      simp only [shape, List.tail_nil, List.head?_nil, Option.toList_none,
        List.length_nil, unmarkedNodes, List.filter_nil]
        at later counted keeps
      refine .ret ⟨?_, later.word, keeps⟩
      simp only [unmarkedNodes] at total ⊢
      omega
  | cons target behindTarget =>
      simp only [shape, List.tail_cons, List.head?_cons,
        Option.toList_some, List.length_singleton] at later counted keeps
      refine .ret
        ⟨_, ⟨behindTarget, later, keeps, rfl, by omega⟩, .inr ?_⟩
      have shorter : (behindRun (words now) rest).length ≤ rest.length :=
        (List.dropWhile_sublist _).length_le
      rw [shape, List.length_cons] at shorter
      omega

end Drain

section Turns

variable
  {A : Type}
  [DecidableEq A]
  {start words : Words A}
  {anchor : Cell Unit A}
  {node : A}
  {first rest nodes : List A}

/--
In the middle of an erasure: with these nodes behind the anchor it ends as the
erasure from the start does.
-/
structure Erasing
    (start : Words A)
    (first : List A)
    (anchor : Cell Unit A)
    (words : Words A)
    (nodes : List A) : Prop where
  ahead : Ahead words anchor nodes
  ends : eraseWords words anchor nodes = eraseWords start anchor first
  behind : behindRun words nodes = behindRun start first

/-- The words once the first node is marked and bypassed. -/
def turnWords
    (words : Words A)
    (anchor : Cell Unit A)
    (node : A) :
    Words A :=
  Function.update
    (Function.update words (.node node) (words (.node node)).setMark)
    anchor (words (.node node)).setMark.clearMark

/-- A turn that finds a marked node. -/
theorem Erasing.turn_marked
    (erasing : Erasing start first anchor words (node :: rest))
    (marked : (words (.node node)).mark = true) :
    Erasing start first anchor (turnWords words anchor node) rest ∧
      unlinkedRun words (node :: rest) =
        node :: unlinkedRun (turnWords words anchor node) rest := by
  have ahead := erasing.ahead
  have same :
      turnWords words anchor node =
        Function.update words anchor ⟨rest.head?, false⟩ := by
    have word :
        (words (.node node)).setMark = words (.node node) := by
      rw [MarkedPtr.setMark, ← marked]
    rw [turnWords, word, Function.update_eq_self, MarkedPtr.clearMark,
      ahead.next]
  obtain ⟨ends, behind, unlinked⟩ := ahead.erase_marked marked
  rw [same]
  exact ⟨⟨ahead.unlink, ends.trans erasing.ends,
    behind.trans erasing.behind⟩, unlinked⟩

/-- A turn that finds a node that is not marked is the last. -/
theorem Erasing.turn_unmarked
    (erasing : Erasing start first anchor words (node :: rest))
    (clear : (words (.node node)).mark = false) :
    turnWords words anchor node = eraseWords start anchor first ∧
      behindRun start first = node :: rest ∧
      unlinkedRun words (node :: rest) = [node] := by
  obtain ⟨ends, behind, unlinked⟩ :=
    Ahead.erase_unmarked anchor rest clear
  refine ⟨?_, erasing.behind ▸ behind, unlinked⟩
  rw [← erasing.ends, ends, turnWords, MarkedPtr.clearMark,
    MarkedPtr.setMark_ptr, erasing.ahead.next]

/-- Nothing is left behind the anchor. -/
theorem Erasing.done
    (erasing : Erasing start first anchor words []) :
    words = eraseWords start anchor first ∧
      behindRun start first = [] :=
  ⟨by rw [← erasing.ends, erasing.ahead.erase_nil],
    by rw [← erasing.behind]; rfl⟩

end Turns

namespace LockFreeList

variable
  {A T : Type}
  [DecidableEq A]
  [DecidableEq T]
  {budget : Nat}
  {state : State A T}
  {thread : T}

omit [DecidableEq A] [DecidableEq T] in
/-- A load alone. -/
theorem loadNext_completes
    (cell : Cell Unit A) :
    Completes (fun _ => True)
      (fun word _ after => word = state.next cell ∧ after = state)
      budget (loadNext cell : Program A T (MarkedPtr A)) state :=
  Completes.plain ⟨.proceed, trivial⟩ (fun _ => rfl)
    fun _ _ => ⟨rfl, rfl⟩

omit [DecidableEq T] in
/-- A swap that finds what it expects. -/
theorem compareExchange_completes
    {cell : Cell Unit A}
    {expected desired : MarkedPtr A}
    {events : List (ListEvent A T)}
    (found : state.next cell = expected) :
    Completes (fun _ => True)
      (fun outcome _ after =>
        outcome = (true, expected) ∧
          after.next = Function.update state.next cell desired)
      budget (compareExchange cell expected desired events) state :=
  Completes.plain ⟨.proceed, trivial⟩ (fun _ => if_pos found)
    fun _ _ => ⟨rfl, rfl⟩

omit [DecidableEq T] in
/-- The marking race has no second party. -/
theorem markTarget_completes
    (node : A) :
    Completes (fun _ => True)
      (fun outcome _ after =>
        outcome =
            ((state.next (.node node)).setMark,
              !(state.next (.node node)).mark) ∧
          after.next =
            Function.update state.next (.node node)
              (state.next (.node node)).setMark)
      budget (markTarget thread node (state.next (.node node))) state := by
  refine Completes.loop
    (fun _ word now => word = state.next (.node node) ∧ now = state) 0
    ⟨.proceed, trivial⟩ ?_ ⟨rfl, rfl⟩
  rintro left _ word now - ⟨rfl, rfl⟩
  cases marked : (now.next (.node node)).mark with
  | true =>
      have word :
          (now.next (.node node)).setMark = now.next (.node node) := by
        rw [MarkedPtr.setMark, ← marked]
      simp only [if_true]
      refine .ret ⟨?_, ?_⟩
      · rw [word]
        rfl
      · rw [word, Function.update_eq_self]
  | false =>
      simp only [Bool.false_eq_true, if_false]
      refine Completes.bind (compareExchange_completes rfl) ?_
      rintro outcome less after - ⟨rfl, changed⟩
      exact .ret ⟨by simp, changed⟩

omit [DecidableEq T] in
/-- `erase_after` alone. -/
theorem eraseAfter_completes
    {anchor : Cell Unit A}
    {nodes : List A}
    (ahead : Ahead state.next anchor nodes) :
    Completes (fun _ => True)
      (fun result _ after =>
        result = (behindRun state.next nodes).head?.isSome ∧
          after.next = eraseWords state.next anchor nodes)
      budget (eraseAfter thread (some anchor)) state := by
  refine Completes.loop
    (fun length _ now =>
      ∃ rest,
        Erasing state.next nodes anchor now.next rest ∧
          rest.length = length)
    nodes.length ⟨.proceed, trivial⟩ ?_ ⟨nodes, ⟨ahead, rfl, rfl⟩, rfl⟩
  rintro left _ _ now - ⟨rest, erasing, rfl⟩
  refine Completes.bind (loadNext_completes anchor) ?_
  rintro word less now' - ⟨rfl, rfl⟩
  rw [erasing.ahead.word]
  cases rest with
  | nil =>
      obtain ⟨words, behind⟩ := erasing.done
      exact .ret ⟨by rw [behind]; rfl, words⟩
  | cons node rest =>
      simp only [List.head?_cons]
      have apart := erasing.ahead.outside node List.mem_cons_self
      refine Completes.bind (loadNext_completes (.node node)) ?_
      rintro loaded less now - ⟨rfl, rfl⟩
      refine Completes.bind (markTarget_completes node) ?_
      rintro race less marked - ⟨rfl, words⟩
      have found : marked.next anchor = ⟨some node, false⟩ := by
        rw [words, Function.update_of_ne apart, erasing.ahead.word]
        rfl
      refine Completes.bind (compareExchange_completes found) ?_
      rintro outcome less after - ⟨-, changed⟩
      rw [words] at changed
      have turn : after.next = turnWords now.next anchor node := changed
      cases mark : (now.next (.node node)).mark with
      | true =>
          obtain ⟨onward, -⟩ := erasing.turn_marked mark
          rw [← turn] at onward
          exact .ret ⟨_, ⟨rest, onward, rfl⟩, .inr (by simp)⟩
      | false =>
          obtain ⟨ends, behind, -⟩ := erasing.turn_unmarked mark
          exact .ret ⟨by rw [behind]; rfl, turn.trans ends⟩

/-- `erase_after` alone, at an anchor that is not marked. -/
theorem Invariant.erases
    {world : State A T × Ghost A T}
    (inv : Invariant world)
    {anchor : Cell Unit A}
    (present : (chainOf world).Present anchor)
    (clear : (world.1.next anchor).mark = false) :
    Completes (fun _ => True)
      (fun result _ after =>
        (view world.1).ErasesAfter (view after) anchor result)
      budget (eraseAfter thread (some anchor)) world.1 := by
  obtain ⟨before, nodes, chained, ends, -⟩ :=
    inv.sound.wellFormed.attached_split (inv.sound.attached present clear)
  have ahead : Ahead world.1.next anchor nodes :=
    Ahead.of_path chained.path chained.noDuplicates ends clear
  refine (eraseAfter_completes ahead).mono ?_
  rintro result left after - ⟨rfl, words⟩
  exact ListView.erasesAfter_of_words chained.path chained.noDuplicates
    ends clear words

/-- A drain alone. -/
theorem Invariant.drains
    {world : State A T × Ghost A T}
    (inv : Invariant world) :
    Completes (fun _ => True)
      (fun count _ after => (view world.1).Drains (view after) count)
      budget (drain (eraseAfter thread (some (.root ())))) world.1 := by
  obtain ⟨nodes, chained⟩ := inv.sound.wellFormed.chain ()
  have ahead : Ahead world.1.next (.root ()) nodes :=
    Ahead.of_root chained.path chained.noDuplicates inv.sound.rootUnmarked
  refine (drain_completes State.next (fun _ _ => True)
    ⟨.proceed, trivial⟩ ?_ ahead trivial).mono ?_
  · intro budget state nodes ahead _
    refine (eraseAfter_completes ahead).mono ?_
    rintro result left after - ⟨rfl, words⟩
    exact ⟨rfl, words, trivial⟩
  · rintro count left after - ⟨rfl, empty, -⟩
    exact ⟨nodes, chained.path, chained.noDuplicates, rfl, empty⟩

end LockFreeList

namespace LockFreeListRCU

/-- Where the retired list and its links lead. -/
def State.retiredLinks
    {A H T V : Type}
    (state : State A H T V) :
    Links Unit A
  | .root _ => state.retiredHead
  | .node node => state.retireLink node

/-- The retired list, latest first. -/
def State.Retired
    {A H T V : Type}
    (state : State A H T V)
    (nodes : List A) : Prop :=
  Path state.retiredLinks (.root ()) nodes

/-- No weak swap fails without a reason. -/
def Steady
    {A H V : Type}
    (choice : Choice A H V) : Prop :=
  choice ≠ .spurious

variable
  {A H T V : Type}
  [DecidableEq A]
  {budget session : Nat}
  {state : State A H T V}
  {thread : T}

omit [DecidableEq A] in
theorem steady_enabled :
    ∃ choice : Choice A H V, Steady choice :=
  ⟨.proceed, fun same => by cases same⟩

omit [DecidableEq A] in
/-- A read alone. -/
theorem read_completes
    {β : Type}
    (view : State A H T V → β) :
    Completes Steady
      (fun value _ after => value = view state ∧ after = state)
      budget (Prog.read view : Program A H T V β) state :=
  Completes.plain steady_enabled (fun _ => rfl) fun _ _ => ⟨rfl, rfl⟩

/-- The store of a link alone. -/
theorem storeRetireLink_completes
    (node : A)
    (target : Option A) :
    Completes Steady
      (fun _ _ after =>
        after =
          { state with
            retireLink := Function.update state.retireLink node target })
      budget (storeRetireLink node target) state :=
  Completes.plain steady_enabled (fun _ => rfl) fun _ _ => rfl

/-- The swap on the retired list alone. -/
theorem pushRetired_completes
    {head : Option A}
    (node : A)
    (found : state.retiredHead = head) :
    Completes Steady
      (fun outcome less after =>
        (outcome = (true, head) ∧
            after = { state with retiredHead := some node }) ∨
          (outcome = (false, head) ∧ after = state ∧ less < budget))
      budget (pushRetired head node) state := by
  subst found
  have proceeds : Steady (.proceed : Choice A H V) :=
    fun same => by cases same
  refine Completes.atomic ⟨.proceed, proceeds, by rw [if_pos rfl]; rfl⟩ ?_
  intro choice value after left _ fair ran
  split at ran
  case h_1 =>
      cases ran
      exact .inr ⟨rfl, rfl, fair.resolve_left fun steady => steady rfl⟩
  case h_2 =>
      rw [if_pos rfl] at ran
      cases ran
      exact .inl ⟨rfl, rfl⟩

/-- `retire()` alone. -/
theorem retire_completes
    {node : A}
    {retired : List A}
    (known : state.Retired retired)
    (fresh : node ∉ retired) :
    Completes Steady
      (fun _ _ after =>
        after.next = state.next ∧ after.Retired (node :: retired))
      budget (retire node) state := by
  refine Completes.bind (read_completes fun now => now.retiredHead) ?_
  rintro head less now - ⟨rfl, rfl⟩
  refine Completes.loop
    (fun _ head after =>
      head = now.retiredHead ∧ after.retiredHead = now.retiredHead ∧
        after.next = now.next ∧
        ∀ other, other ≠ node →
          after.retireLink other = now.retireLink other)
    0 steady_enabled ?_ ⟨rfl, rfl, rfl, fun _ _ => rfl⟩
  rintro left _ head before - ⟨rfl, top, words, links⟩
  refine Completes.bind (storeRetireLink_completes node _) ?_
  rintro _ less stored within rfl
  refine Completes.bind (pushRetired_completes node top) ?_
  rintro outcome fewer after - (⟨rfl, rfl⟩ | ⟨rfl, rfl, retried⟩)
  · refine .ret ⟨words, ?_, ?_⟩
    · rfl
    · refine known.transfer ?_ ?_
      · simp [State.retiredLinks]
      · intro other member
        have apart : other ≠ node := fun same => fresh (same ▸ member)
        simp [State.retiredLinks, Function.update_of_ne apart,
          links other apart]
  · refine .ret ⟨0, ⟨rfl, top, words, ?_⟩, .inl (by omega)⟩
    intro other apart
    simp [Function.update_of_ne apart, links other apart]

omit [DecidableEq A] in
@[simp] theorem reach_fields
    (target : Option A) :
    (state.reach session target).next = state.next ∧
      (state.reach session target).retiredLinks = state.retiredLinks := by
  cases target <;> exact ⟨rfl, rfl⟩

/-- The state differs only in what sessions and events record. -/
def Alike (state after : State A H T V) : Prop :=
  after.next = state.next ∧ after.retiredLinks = state.retiredLinks

omit [DecidableEq A] in
/-- A load under a session alone. -/
theorem loadNext_completes
    (cell : Cell Unit A) :
    Completes Steady
      (fun word _ after => word = state.next cell ∧ Alike state after)
      budget
      (loadNext session cell : Program A H T V (MarkedPtr A)) state :=
  Completes.plain steady_enabled (fun _ => rfl)
    fun _ _ => ⟨rfl, reach_fields _⟩

omit [DecidableEq A] in
/-- A load of an anchor alone. -/
theorem loadTarget_completes
    (cell : Cell Unit A) :
    Completes Steady
      (fun target _ after =>
        target.1 = state.next cell ∧ Alike state after)
      budget
      (loadTarget session cell : Program A H T V (MarkedPtr A × Nat))
      state :=
  Completes.plain steady_enabled (fun _ => rfl)
    fun _ _ => ⟨rfl, reach_fields _⟩

/-- The marking race has no second party. -/
theorem markTarget_completes
    (node : A) :
    Completes Steady
      (fun outcome _ after =>
        outcome =
            ((state.next (.node node)).setMark,
              !(state.next (.node node)).mark) ∧
          after.next =
            Function.update state.next (.node node)
              (state.next (.node node)).setMark ∧
          after.retiredLinks = state.retiredLinks)
      budget
      (markTarget thread session node (state.next (.node node)) :
        Program A H T V (MarkedPtr A × Bool))
      state := by
  refine Completes.loop
    (fun _ word now => word = state.next (.node node) ∧ now = state) 0
    steady_enabled ?_ ⟨rfl, rfl⟩
  rintro left _ word now - ⟨rfl, rfl⟩
  cases marked : (now.next (.node node)).mark with
  | true =>
      have word :
          (now.next (.node node)).setMark = now.next (.node node) := by
        rw [MarkedPtr.setMark, ← marked]
      simp only [if_true]
      refine .ret ⟨?_, ?_, rfl⟩
      · rw [word]
        rfl
      · rw [word, Function.update_eq_self]
  | false =>
      simp only [Bool.false_eq_true, if_false]
      have marks :
          Completes Steady
            (fun outcome _ after =>
              outcome = (true, (now.next (.node node)).setMark) ∧
                after.next =
                  Function.update now.next (.node node)
                    (now.next (.node node)).setMark ∧
                after.retiredLinks = now.retiredLinks)
            left
            (markNode thread session node (now.next (.node node)) :
              Program A H T V (Bool × MarkedPtr A))
            now :=
        Completes.plain steady_enabled (fun _ => if_pos rfl)
          fun _ _ => ⟨rfl, rfl, rfl⟩
      refine Completes.bind marks ?_
      rintro outcome less after - ⟨rfl, changed, same⟩
      exact .ret ⟨by simp, changed, same⟩

/-- The swap that unlinks finds what it expects. -/
theorem unlinkNode_completes
    {anchor : Cell Unit A}
    {node : A}
    {life : Nat}
    {successor : MarkedPtr A}
    (found : state.next anchor = ⟨some node, false⟩) :
    Completes Steady
      (fun unlinked _ after =>
        unlinked = true ∧
          after.next = Function.update state.next anchor successor ∧
          after.retiredLinks = state.retiredLinks)
      budget
      (unlinkNode anchor node life successor : Program A H T V Bool)
      state :=
  Completes.plain steady_enabled (fun _ => if_pos found)
    fun _ _ => ⟨rfl, rfl, rfl⟩

/-- `erase_after` alone. -/
theorem eraseAfter_completes
    {anchor : Cell Unit A}
    {nodes retired : List A}
    (ahead : Ahead state.next anchor nodes)
    (known : state.Retired retired)
    (fresh : ∀ node ∈ nodes, node ∉ retired) :
    Completes Steady
      (fun result _ after =>
        result = (behindRun state.next nodes).head?.isSome ∧
          after.next = eraseWords state.next anchor nodes ∧
          after.Retired
            ((unlinkedRun state.next nodes).reverse ++ retired))
      budget
      (eraseAfter thread session (some anchor) : Program A H T V Bool)
      state := by
  refine Completes.loop
    (fun length _ now =>
      ∃ rest gone,
        Erasing state.next nodes anchor now.next rest ∧
          now.Retired gone ∧
          (∀ node ∈ rest, node ∉ gone) ∧
          (unlinkedRun now.next rest).reverse ++ gone =
            (unlinkedRun state.next nodes).reverse ++ retired ∧
          rest.length = length)
    nodes.length steady_enabled ?_
    ⟨nodes, retired, ⟨ahead, rfl, rfl⟩, known, fresh, rfl, rfl⟩
  rintro left _ _ now - ⟨rest, gone, erasing, listed, apart, total, rfl⟩
  refine Completes.bind (loadTarget_completes anchor) ?_
  rintro ⟨word, life⟩ less loaded - ⟨rfl, words, links⟩
  rw [erasing.ahead.word]
  cases rest with
  | nil =>
      obtain ⟨done, behind⟩ := erasing.done
      refine .ret ⟨by rw [behind]; rfl, words.trans done, ?_⟩
      rw [State.Retired, links, ← total]
      exact listed
  | cons node rest =>
      simp only [List.head?_cons]
      have outside := erasing.ahead.outside node List.mem_cons_self
      refine Completes.bind (loadNext_completes (.node node)) ?_
      rintro word less loadedNext - ⟨rfl, wordsNext, linksNext⟩
      rw [← wordsNext]
      refine Completes.bind (markTarget_completes node) ?_
      rintro race less marked - ⟨rfl, wordsMarked, linksMarked⟩
      have same : loadedNext.next = now.next := wordsNext.trans words
      rw [same] at wordsMarked ⊢
      have found : marked.next anchor = ⟨some node, false⟩ := by
        rw [wordsMarked, Function.update_of_ne outside,
          erasing.ahead.word]
        rfl
      refine Completes.bind (unlinkNode_completes found) ?_
      rintro unlinked less cut - ⟨rfl, changed, linksCut⟩
      rw [wordsMarked] at changed
      have turn : cut.next = turnWords now.next anchor node := changed
      have kept : cut.Retired gone := by
        rw [State.Retired, linksCut, linksMarked, linksNext, links]
        exact listed
      simp only [if_true]
      refine Completes.bind
        (retire_completes kept (apart node List.mem_cons_self)) ?_
      rintro _ less after - ⟨wordsAfter, retiredAfter⟩
      rw [turn] at wordsAfter
      cases mark : (now.next (.node node)).mark with
      | true =>
          obtain ⟨onward, unlinked⟩ := erasing.turn_marked mark
          rw [← wordsAfter] at onward unlinked
          refine .ret ⟨_, ⟨rest, node :: gone, onward, retiredAfter, ?_, ?_,
            rfl⟩, .inr (by simp)⟩
          · intro other member again
            rcases List.mem_cons.mp again with rfl | again
            · exact (List.nodup_cons.mp erasing.ahead.distinct).1 member
            · exact apart other (List.mem_cons_of_mem _ member) again
          · rw [← total, unlinked]
            simp
      | false =>
          obtain ⟨ends, behind, unlinked⟩ := erasing.turn_unmarked mark
          refine .ret ⟨by rw [behind]; rfl, wordsAfter.trans ends, ?_⟩
          rw [← total, unlinked]
          exact retiredAfter

omit [DecidableEq A] in
/-- New nodes in front of a list, the latest first. -/
theorem nodup_reverse_append
    {new old : List A}
    (newDistinct : new.Nodup)
    (oldDistinct : old.Nodup)
    (fresh : ∀ node ∈ new, node ∉ old) :
    (new.reverse ++ old).Nodup := by
  refine List.nodup_append.mpr
    ⟨List.nodup_reverse.mpr newDistinct, oldDistinct, ?_⟩
  rintro node isNew _ isOld rfl
  exact fresh node (List.mem_reverse.mp isNew) isOld

/-- Every node that left the chain is retired once. -/
def State.Retires (state after : State A H T V) : Prop :=
  ∃ unlinked retired,
    state.Retired retired ∧
      after.Retired (unlinked ++ retired) ∧
      (unlinked ++ retired).Nodup ∧
      ∀ node,
        node ∈ unlinked ↔
          (view state).OnChain node ∧ ¬ (view after).OnChain node

section Reachable

variable
  [DecidableEq T]
  {capacity : Nat}
  {world : State A H T V × Ghost A T}

omit [DecidableEq A] in
/-- The retired list, and what is on the chain is not on it. -/
theorem Invariant.retired
    (inv : Invariant capacity world) :
    ∃ retired,
      world.1.Retired retired ∧ retired.Nodup ∧
        ∀ node, world.2.place node = .linked () → node ∉ retired := by
  obtain ⟨retired, holds⟩ := inv.stacked .retired
  refine ⟨retired, ?_, holds.noDuplicates, ?_⟩
  · exact holds.path.transfer rfl fun _ _ => rfl
  · intro node linked member
    have listed := (holds.members node).mp member
    have chained := inv.chained_of_linked linked
    simp [stacksOf, chained, Stage.label?] at listed

/-- `erase_after` alone, at an anchor that is not marked. -/
theorem Invariant.erases
    (inv : Invariant capacity world)
    {anchor : Cell Unit A}
    (present : (chainOf world).Present anchor)
    (clear : (world.1.next anchor).mark = false) :
    Completes Steady
      (fun result _ after =>
        (view world.1).ErasesAfter (view after) anchor result ∧
          world.1.Retires after)
      budget
      (eraseAfter thread session (some anchor) : Program A H T V Bool)
      world.1 := by
  obtain ⟨before, nodes, chained, ends, -⟩ :=
    inv.chain.wellFormed.attached_split (inv.chain.attached present clear)
  have ahead : Ahead world.1.next anchor nodes :=
    Ahead.of_path chained.path chained.noDuplicates ends clear
  obtain ⟨retired, listed, distinct, apart⟩ := inv.retired
  have fresh : ∀ node ∈ nodes, node ∉ retired := fun node member =>
    apart node
      ((chained.members node).mp (List.mem_append_right _ member))
  refine (eraseAfter_completes ahead listed fresh).mono ?_
  rintro result left after - ⟨rfl, words, retires⟩
  have erases : (view world.1).ErasesAfter (view after) anchor _ :=
    ListView.erasesAfter_of_words chained.path chained.noDuplicates ends
      clear words
  have path : Path (view world.1).links (.root ()) (before ++ nodes) :=
    chained.path
  have shorter :
      Path (view after).links (.root ())
        (before ++ (behindRun (view world.1).next nodes).tail) :=
    ListView.path_of_words path chained.noDuplicates ends clear words
  have whole := unlinkedRun_append world.1.next nodes
  refine ⟨erases, _, retired, listed, retires, ?_, fun node => ?_⟩
  · rw [← whole] at fresh
    refine nodup_reverse_append ?_ distinct fun node member =>
      fresh node (List.mem_append_left _ member)
    have later := (List.nodup_append.mp chained.noDuplicates).2.1
    rw [← whole] at later
    exact (List.nodup_append.mp later).1
  · rw [List.mem_reverse]
    exact ListView.unlinkedRun_exact path chained.noDuplicates shorter node

/-- A drain alone. -/
theorem Invariant.drains
    (inv : Invariant capacity world) :
    Completes Steady
      (fun count _ after =>
        (view world.1).Drains (view after) count ∧ world.1.Retires after)
      budget
      (drain
        (eraseAfter thread session (some (.root ())) :
          Program A H T V Bool))
      world.1 := by
  obtain ⟨nodes, chained⟩ := inv.chain.wellFormed.chain ()
  have ahead : Ahead world.1.next (.root ()) nodes :=
    Ahead.of_root chained.path chained.noDuplicates inv.chain.rootUnmarked
  obtain ⟨retired, listed, distinct, apart⟩ := inv.retired
  have fresh : ∀ node ∈ nodes, node ∉ retired := fun node member =>
    apart node ((chained.members node).mp member)
  refine (drain_completes State.next
    (fun rest state =>
      ∃ gone,
        state.Retired gone ∧
          (∀ node ∈ rest, node ∉ gone) ∧
          rest.reverse ++ gone = nodes.reverse ++ retired)
    steady_enabled ?_ ahead ⟨retired, listed, fresh, rfl⟩).mono ?_
  · rintro budget state rest behind ⟨gone, known, apart, total⟩
    refine (eraseAfter_completes behind known apart).mono ?_
    rintro result left after - ⟨rfl, words, retires⟩
    have whole := unlinkedRun_append state.next rest
    have distinctRest := behind.distinct
    rw [← whole] at apart distinctRest
    refine ⟨rfl, words, _, retires, ?_, ?_⟩
    · intro node late gone'
      rcases List.mem_append.mp gone' with early | old
      · exact (List.nodup_append.mp distinctRest).2.2 node
          (List.mem_reverse.mp early) node late rfl
      · exact apart node (List.mem_append_right _ late) old
    · rw [← total, ← List.append_assoc, ← List.reverse_append, whole]
  · rintro count left after - ⟨rfl, empty, gone, known, -, total⟩
    simp only [List.reverse_nil, List.nil_append] at total
    subst total
    refine ⟨⟨nodes, chained.path, chained.noDuplicates, rfl, empty⟩,
      nodes.reverse, retired, listed, known, ?_, fun node => ?_⟩
    · exact nodup_reverse_append chained.noDuplicates distinct fresh
    · have path : Path (view world.1).links (.root ()) nodes := chained.path
      have nothing : Path (view after).links (.root ()) [] := by
        simp [Path, ListView.links, view, empty]
      rw [List.mem_reverse]
      constructor
      · intro member
        refine ⟨⟨nodes, path, member⟩, ?_⟩
        rintro ⟨others, later, still⟩
        rw [later.unique nothing] at still
        cases still
      · rintro ⟨⟨others, earlier, member⟩, -⟩
        rwa [earlier.unique path] at member

end Reachable

end LockFreeListRCU

section Promise

variable
  {A H T V : Type}
  [DecidableEq A]
  [DecidableEq H]
  [DecidableEq T]

/--
From every reachable state of either list, whatever the other threads have
left unfinished, `erase_after` alone ends at every anchor that is not marked
and unlinks what it should, and repeating it at the head counts the unmarked
nodes and empties the list.  In the list with handles, whatever leaves the
chain is retired once.  `budget` bounds how many weak swaps fail spuriously.
-/
theorem lists_erase_exactly
    {kGenerations : Nat}
    (admitted : 2 ≤ kGenerations)
    (budget : Nat)
    (thread : T) :
    (∀ pool : Pool (LockFreeList.State A T) (LockFreeList.Choice A) T,
      LockFreeList.initialPool.Reaches pool →
      (∀ anchor,
        anchor = .root () ∨ anchor ∈ pool.shared.iterators →
        (pool.shared.next anchor).mark = false →
        Completes (fun _ => True)
          (fun result _ after =>
            (LockFreeList.view pool.shared).ErasesAfter
              (LockFreeList.view after) anchor result)
          budget (LockFreeList.eraseAfter thread (some anchor))
          pool.shared) ∧
        Completes (fun _ => True)
          (fun count _ after =>
            (LockFreeList.view pool.shared).Drains
              (LockFreeList.view after) count)
          budget (drain (LockFreeList.eraseAfter thread (some (.root ()))))
          pool.shared) ∧
      ∀ (session : Nat)
        (pool :
          Pool (LockFreeListRCU.State A H T V)
            (LockFreeListRCU.Choice A H V) T),
        (LockFreeListRCU.initialPool kGenerations).Reaches pool →
        (∀ anchor,
          anchor = .root () ∨
            (session, anchor) ∈ pool.shared.iterators ∧
              LockFreeListRCU.Lasts pool.shared session →
          (pool.shared.next anchor).mark = false →
          Completes LockFreeListRCU.Steady
            (fun result _ after =>
              (LockFreeListRCU.view pool.shared).ErasesAfter
                  (LockFreeListRCU.view after) anchor result ∧
                pool.shared.Retires after)
            budget
            (LockFreeListRCU.eraseAfter thread session (some anchor))
            pool.shared) ∧
          Completes LockFreeListRCU.Steady
            (fun count _ after =>
              (LockFreeListRCU.view pool.shared).Drains
                  (LockFreeListRCU.view after) count ∧
                pool.shared.Retires after)
            budget
            (drain
              (LockFreeListRCU.eraseAfter thread session
                (some (.root ()))))
            pool.shared := by
  refine ⟨?_, ?_⟩
  · intro pool reached
    obtain ⟨needed, runs⟩ := Covered.reaches reached
    obtain ⟨ghost, covered, -⟩ := runs (LockFreeList.covered (0 + needed))
    have inv := covered.1
    refine ⟨fun anchor known clear => inv.erases ?_ clear, inv.drains⟩
    rcases known with rfl | kept
    · intro node same
      cases same
    · exact inv.iterators kept
  · intro session pool reached
    obtain ⟨needed, runs⟩ := Covered.reaches reached
    obtain ⟨ghost, covered, -⟩ :=
      runs (LockFreeListRCU.covered (by omega) (0 + needed))
    have inv := covered.1
    refine ⟨fun anchor known clear => inv.erases ?_ clear, inv.drains⟩
    rcases known with rfl | ⟨kept, handle, live, known, rfl⟩
    · intro node same
      cases same
    · exact inv.present known (inv.sessions.positions kept)

/--
Nodes 7, 8 and 9 are drained from either list, when another thread has marked
node 7 and left it on the chain: the other two are counted.
-/
theorem lists_erase_exactly_seven :
    (∃ pool :
        Pool (LockFreeList.State Nat Nat) (LockFreeList.Choice Nat) Nat,
      LockFreeList.initialPool.run
          (LockFreeList.insertThree ++ LockFreeList.strandFirst) =
          some pool ∧
        pool.shared.next (.root ()) = ⟨some 7, false⟩ ∧
        pool.shared.next (.node 7) = ⟨some 8, true⟩ ∧
        Completes (fun _ => True)
          (fun count _ after =>
            count = 2 ∧
              (LockFreeList.view pool.shared).Drains
                (LockFreeList.view after) count)
          3 (drain (LockFreeList.eraseAfter 0 (some (.root ()))))
          pool.shared) ∧
      ∃ pool :
          Pool (LockFreeListRCU.State Nat Nat Nat Nat)
            (LockFreeListRCU.Choice Nat Nat Nat) Nat,
        2 ≤ 2 ∧
          (LockFreeListRCU.initialPool 2).run
            (LockFreeListRCU.insertThree ++ LockFreeListRCU.strandFirst) =
            some pool ∧
          pool.shared.next (.root ()) = ⟨some 7, false⟩ ∧
          pool.shared.next (.node 7) = ⟨some 8, true⟩ ∧
          Completes LockFreeListRCU.Steady
            (fun count _ after =>
              count = 2 ∧
                (LockFreeListRCU.view pool.shared).Drains
                  (LockFreeListRCU.view after) count ∧
                pool.shared.Retires after)
            3 (drain (LockFreeListRCU.eraseAfter 0 0 (some (.root ()))))
            pool.shared := by
  have promises := lists_erase_exactly (A := Nat) (H := Nat) (T := Nat)
    (V := Nat) (Nat.le_refl 2) 3 0
  refine ⟨?_, ?_⟩
  · obtain ⟨pool, stranded⟩ : ∃ pool,
        (LockFreeList.initialPool (A := Nat) (T := Nat)).run
          (LockFreeList.insertThree ++ LockFreeList.strandFirst) =
          some pool :=
      ⟨_, rfl⟩
    have path :
        Path (LockFreeList.view pool.shared).links (.root ())
          [7, 8, 9] := by
      cases stranded
      exact ⟨rfl, rfl, rfl, rfl⟩
    have two :
        (unmarkedNodes (LockFreeList.view pool.shared).next
          [7, 8, 9]).length = 2 := by
      cases stranded
      rfl
    refine ⟨pool, stranded, ?_, ?_,
      (promises.1 pool ⟨_, stranded⟩).2.mono ?_⟩
    · cases stranded
      rfl
    · cases stranded
      rfl
    · rintro count left after - drains
      refine ⟨?_, drains⟩
      obtain ⟨nodes, chain, -, counted, -⟩ := drains
      rw [counted, chain.unique path, two]
  · obtain ⟨pool, stranded⟩ : ∃ pool,
        (LockFreeListRCU.initialPool 2).run
          (LockFreeListRCU.insertThree ++ LockFreeListRCU.strandFirst) =
          some pool :=
      ⟨_, rfl⟩
    have path :
        Path (LockFreeListRCU.view pool.shared).links (.root ())
          [7, 8, 9] := by
      cases stranded
      exact ⟨rfl, rfl, rfl, rfl⟩
    have two :
        (unmarkedNodes (LockFreeListRCU.view pool.shared).next
          [7, 8, 9]).length = 2 := by
      cases stranded
      rfl
    refine ⟨pool, Nat.le_refl 2, stranded, ?_, ?_,
      (promises.2 0 pool ⟨_, stranded⟩).2.mono ?_⟩
    · cases stranded
      rfl
    · cases stranded
      rfl
    · rintro count left after - ⟨drains, retires⟩
      refine ⟨?_, drains, retires⟩
      obtain ⟨nodes, chain, -, counted, -⟩ := drains
      rw [counted, chain.unique path, two]

end Promise

end ConcurrentCpp
