import ConcurrentCpp.LinkPath
import ConcurrentCpp.RelyGuarantee

namespace ConcurrentCpp.UnmarkedList

/-!
# The reference-counted list without marking

`LockFreeList<T, AtomicPtr>` with `supports_marking` false.  As in marking
mode the model never takes a node away and the dummy head is the root cell.
Clients create nodes, keep every iterator they ever obtained and call
`insert_after` at any of them; only one thread calls `erase_after`.

The events record when a compare-and-swap took effect and when the eraser
loaded the successor of its target; no step reads them.
-/

variable {A T : Type} [DecidableEq A] [DecidableEq T]

/-- An iterator: null for `end()`, else the dummy head or a node. -/
abbrev Iterator (A : Type) := Option (Cell Unit A)

/-- What happened to the list. -/
inductive Event (A T : Type) where
  | linked (anchor : Cell Unit A) (node : A)
  | examined (target : A) (next : Option A)
  | unlinked (anchor : Cell Unit A) (target : A)
  | inserted (thread : T) (node : A) (result : Bool)
  | erased (thread : T) (result : Bool)
  deriving DecidableEq

/-- What a client thread may do next. -/
inductive Call (A : Type) where
  | makeNode
  | beforeBegin
  | increment (position : Cell Unit A)
  | insertAfter (anchor : Iterator A) (newNode : A)
  | eraseAfter (anchor : Iterator A)
  deriving DecidableEq

/-- The scheduler's choices: a client's call and the address of a new node. -/
inductive Choice (A : Type) where
  | proceed
  | call (call : Call A)
  | fresh (node : A)

/--
The shared words of the list and the client side: the nodes created so far,
the positions of all iterators, and what happened, latest first.
-/
structure State (A T : Type) where
  next : Cell Unit A → Option A
  nodes : List A
  iterators : List (Cell Unit A)
  events : List (Event A T)

/-- Programs of the list. -/
abbrev Program (A T : Type) := Prog (State A T) (Choice A)

/-- `next.load()`. -/
def loadNext
    (cell : Cell Unit A) :
    Program A T (Option A) :=
  Prog.read fun state => state.next cell

/-- The load of the successor of a target. -/
def loadTargetNext
    (target : A) :
    Program A T (Option A) :=
  Prog.atomic fun state _ =>
    some (state.next (.node target),
      { state with
        events :=
          .examined target (state.next (.node target)) :: state.events })

/-- `next.store(word)`. -/
def storeNext
    (node : A)
    (word : Option A) :
    Program A T Unit :=
  Prog.write fun state =>
    { state with
      next := Function.update state.next (.node node) word }

/-- Record an event. -/
def record
    (event : Event A T) :
    Program A T Unit :=
  Prog.write fun state =>
    { state with events := event :: state.events }

/--
`next.compare_exchange_strong(expected, desired)`: whether it succeeded, and
the value that `expected` has afterwards.
-/
def compareExchange
    (cell : Cell Unit A)
    (expected desired : Option A)
    (event : Event A T) :
    Program A T (Bool × Option A) :=
  Prog.atomic fun state _ =>
    if state.next cell = expected then
      some ((true, expected),
        { state with
          next := Function.update state.next cell desired
          events := event :: state.events })
    else
      some ((false, state.next cell), state)

/-- `insert_after(anchor, new_node)` without marking. -/
def insertAfter
    (anchor : Iterator A)
    (newNode : A) :
    Program A T Bool :=
  match anchor with
  | none => pure false
  | some anchor => do
      let expectedNext ← loadNext anchor
      storeNext newNode expectedNext
      Prog.loop expectedNext fun expectedNext => do
        let outcome ←
          compareExchange anchor expectedNext (some newNode)
            (.linked anchor newNode)
        if outcome.1 then
          Prog.leave true
        else do
          storeNext newNode outcome.2
          Prog.again outcome.2

/-- `erase_after(anchor)` without marking. -/
def eraseAfter
    (anchor : Iterator A) :
    Program A T Bool :=
  match anchor with
  | none => pure false
  | some anchor => do
      let target ← loadNext anchor
      Prog.loop target fun target =>
        match target with
        | none => Prog.leave false
        | some node => do
            let targetNext ← loadTargetNext node
            let outcome ←
              compareExchange anchor (some node) targetNext
                (.unlinked anchor node)
            if outcome.1 then
              Prog.leave true
            else
              Prog.again outcome.2

/-- `++it`. -/
def increment
    (position : Cell Unit A) :
    Program A T Unit :=
  Prog.write fun state =>
    match state.next position with
    | none => state
    | some node =>
        { state with iterators := .node node :: state.iterators }

/-- `before_begin()`. -/
def beforeBegin : Program A T Unit :=
  Prog.write fun state =>
    { state with iterators := .root () :: state.iterators }

/-- A client allocates a node: a word no node has had before. -/
def makeNode : Program A T A :=
  Prog.atomic fun state choice =>
    match choice with
    | .fresh node =>
        if node ∈ state.nodes then
          none
        else
          some (node,
            { state with
              next := Function.update state.next (.node node) none
              nodes := node :: state.nodes })
    | _ => none

section Clients

variable (eraser : T)

/-- The calls that a client owning `spare` unlinked nodes may make. -/
def Allowed
    (thread : T)
    (state : State A T)
    (spare : List A) :
    Call A → Prop
  | .makeNode => True
  | .beforeBegin => True
  | .increment position => position ∈ state.iterators
  | .insertAfter anchor newNode =>
      (∀ cell ∈ anchor, cell ∈ state.iterators) ∧ newNode ∈ spare
  | .eraseAfter anchor =>
      thread = eraser ∧ ∀ cell ∈ anchor, cell ∈ state.iterators

instance
    (thread : T)
    (state : State A T)
    (spare : List A) :
    ∀ call, Decidable (Allowed eraser thread state spare call)
  | .makeNode => inferInstanceAs (Decidable True)
  | .beforeBegin => inferInstanceAs (Decidable True)
  | .increment position =>
      inferInstanceAs (Decidable (position ∈ state.iterators))
  | .insertAfter anchor newNode =>
      inferInstanceAs
        (Decidable
          ((∀ cell ∈ anchor, cell ∈ state.iterators) ∧
            newNode ∈ spare))
  | .eraseAfter anchor =>
      inferInstanceAs
        (Decidable
          (thread = eraser ∧ ∀ cell ∈ anchor, cell ∈ state.iterators))

/-- A client picks its next call. -/
def pick
    (thread : T)
    (spare : List A) :
    Program A T (Call A) :=
  Prog.atomic fun state choice =>
    match choice with
    | .call call =>
        if Allowed eraser thread state spare call then
          some (call, state)
        else
          none
    | _ => none

/-- A client thread; it owns the nodes it created and has not inserted. -/
def client
    (thread : T) :
    Program A T Unit :=
  Prog.loop [] fun spare => do
    let call ← pick eraser thread spare
    match call with
    | .makeNode => do
        let node ← makeNode
        Prog.again (node :: spare)
    | .beforeBegin => do
        beforeBegin
        Prog.again spare
    | .increment position => do
        increment position
        Prog.again spare
    | .insertAfter anchor newNode => do
        let result ← insertAfter anchor newNode
        record (.inserted thread newNode result)
        Prog.again (if result then spare.erase newNode else spare)
    | .eraseAfter anchor => do
        let result ← eraseAfter anchor
        record (.erased thread result)
        Prog.again spare

/-- The empty list. -/
def State.initial : State A T where
  next _ := none
  nodes := []
  iterators := []
  events := []

/-- Any number of client threads on an empty list, one of them the eraser. -/
def initialPool : Pool (State A T) (Choice A) T where
  shared := State.initial
  threads := client eraser

end Clients

section History

omit [DecidableEq T]

/-- The nodes that insertions have linked. -/
def linkedNodes : List (Event A T) → List A
  | [] => []
  | .linked _ node :: earlier => node :: linkedNodes earlier
  | _ :: earlier => linkedNodes earlier

/-- The nodes that erasures have unlinked. -/
def unlinkedNodes : List (Event A T) → List A
  | [] => []
  | .unlinked _ target :: earlier => target :: unlinkedNodes earlier
  | _ :: earlier => unlinkedNodes earlier

/--
What the eraser last examined, the nodes that were linked behind that target
since then, and the nodes that were cut off together with a target.
-/
structure Fate (A : Type) where
  target : Option (A × Option A)
  behind : List A
  cutOff : List A

/-- The cell is the target of the eraser or one of the nodes behind it. -/
def Fate.Follows (fate : Fate A) : Cell Unit A → Prop
  | .root _ => False
  | .node anchor =>
      (∃ next, fate.target = some (anchor, next)) ∨ anchor ∈ fate.behind

instance (fate : Fate A) : ∀ cell, Decidable (fate.Follows cell)
  | .root _ => .isFalse id
  | .node anchor =>
      decidable_of_iff
        (fate.target.map Prod.fst = some anchor ∨ anchor ∈ fate.behind)
        (by simp [Fate.Follows])

/-- The cell is a node that was cut off. -/
def Fate.Adrift (fate : Fate A) : Cell Unit A → Prop
  | .root _ => False
  | .node anchor => anchor ∈ fate.cutOff

instance (fate : Fate A) : ∀ cell, Decidable (fate.Adrift cell)
  | .root _ => .isFalse id
  | .node anchor => inferInstanceAs (Decidable (anchor ∈ fate.cutOff))

/--
A node is cut off if it was linked behind a target, directly or behind such a
node, after the eraser had loaded the target's successor and before it
unlinked the target; and so is what is linked behind it later.
-/
def fate : List (Event A T) → Fate A
  | [] => ⟨none, [], []⟩
  | .linked anchor node :: earlier =>
      let known := fate earlier
      { known with
        behind :=
          if known.Follows anchor then
            node :: known.behind
          else
            known.behind
        cutOff :=
          if known.Adrift anchor then
            node :: known.cutOff
          else
            known.cutOff }
  | .examined target next :: earlier =>
      { fate earlier with target := some (target, next), behind := [] }
  | .unlinked _ _ :: earlier =>
      let known := fate earlier
      { target := none
        behind := []
        cutOff := known.behind ++ known.cutOff }
  | .inserted _ _ _ :: earlier => fate earlier
  | .erased _ _ :: earlier => fate earlier

/-- The cell is not a node that was unlinked. -/
def Intact (events : List (Event A T)) : Cell Unit A → Prop
  | .root _ => True
  | .node anchor => anchor ∉ unlinkedNodes events

/-- No insertion took effect behind a node that had been erased. -/
def InsertsIntact : List (Event A T) → Prop
  | [] => True
  | .linked anchor _ :: earlier =>
      Intact earlier anchor ∧ InsertsIntact earlier
  | _ :: earlier => InsertsIntact earlier

/-- No erasure took effect behind a node that was erased or cut off. -/
def ErasesAttached : List (Event A T) → Prop
  | [] => True
  | .unlinked anchor _ :: earlier =>
      (Intact earlier anchor ∧ ¬ (fate earlier).Adrift anchor) ∧
        ErasesAttached earlier
  | _ :: earlier => ErasesAttached earlier

end History

end ConcurrentCpp.UnmarkedList
