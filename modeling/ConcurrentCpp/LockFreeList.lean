import ConcurrentCpp.EraseLedger
import ConcurrentCpp.MarkedChain
import ConcurrentCpp.RelyGuarantee

namespace ConcurrentCpp.LockFreeList

/-!
# The reference-counted list in marking mode

`LockFreeList<T, AtomicPtr>` with `supports_marking`.  The pointer policy is
taken at its word: a `next` is an atomic word holding a node and a mark, and a
node that anybody can still reach is neither destroyed nor reused, so the
model never takes a node away.  The dummy head is the root cell.

Clients create nodes, keep every iterator they ever obtained and call
`insert_after` and `erase_after` at any of them.
-/

variable {A T : Type} [DecidableEq A] [DecidableEq T]

/-- An iterator: null for `end()`, else the dummy head or a node. -/
abbrev Iterator (A : Type) := Option (Cell Unit A)

/-- What a client thread may do next. -/
inductive Call (A : Type) where
  | makeNode
  | beforeBegin
  | increment (position : Cell Unit A)
  | insertAfter (anchor : Iterator A) (newNode : A)
  | eraseAfter (anchor : Iterator A)
  deriving DecidableEq

/-- The scheduler's choices: a client's call and the address of a new node. -/
inductive Choice (A : Type) where
  | proceed
  | call (call : Call A)
  | fresh (node : A)

/--
The shared words of the list and the client side: the nodes created so far,
the positions of all iterators, and what happened, latest first.  No step
reads the events.
-/
structure State (A T : Type) where
  next : Cell Unit A → MarkedPtr A
  nodes : List A
  iterators : List (Cell Unit A)
  events : List (ListEvent A T)

/-- Programs of the list. -/
abbrev Program (A T : Type) := Prog (State A T) (Choice A)

/-- `next.load()`. -/
def loadNext
    (cell : Cell Unit A) :
    Program A T (MarkedPtr A) :=
  Prog.read fun state => state.next cell

/-- `next.store(word)`. -/
def storeNext
    (node : A)
    (word : MarkedPtr A) :
    Program A T Unit :=
  Prog.write fun state =>
    { state with
      next := Function.update state.next (.node node) word }

/-- Record an event. -/
def record
    (event : ListEvent A T) :
    Program A T Unit :=
  Prog.write fun state =>
    { state with events := event :: state.events }

/--
`next.compare_exchange_strong(expected, desired)`: whether it succeeded, and
the value that `expected` has afterwards.
-/
def compareExchange
    (cell : Cell Unit A)
    (expected desired : MarkedPtr A)
    (events : List (ListEvent A T)) :
    Program A T (Bool × MarkedPtr A) :=
  Prog.atomic fun state _ =>
    if state.next cell = expected then
      some ((true, expected),
        { state with
          next := Function.update state.next cell desired
          events := events ++ state.events })
    else
      some ((false, state.next cell), state)

/-- `insert_after(anchor, new_node)`, marking mode. -/
def insertAfter
    (anchor : Iterator A)
    (newNode : A) :
    Program A T Bool :=
  match anchor with
  | none => pure false
  | some anchor =>
      Prog.loop () fun _ => do
        let expectedNext ← loadNext anchor
        if expectedNext.mark then
          Prog.leave false
        else do
          storeNext newNode expectedNext
          let outcome ←
            compareExchange anchor expectedNext ⟨some newNode, false⟩ []
          if outcome.1 then
            Prog.leave true
          else
            Prog.again ()

/--
The marking race of `erase_after`: the target's final word, and whether this
call marked it.
-/
def markTarget
    (thread : T)
    (target : A)
    (targetNext : MarkedPtr A) :
    Program A T (MarkedPtr A × Bool) :=
  Prog.loop targetNext fun targetNext =>
    if targetNext.mark then
      Prog.leave (targetNext, false)
    else do
      let outcome ←
        compareExchange (.node target) targetNext targetNext.setMark
          [.marked thread target]
      if outcome.1 then
        Prog.leave (targetNext.setMark, true)
      else
        Prog.again outcome.2

/-- `erase_after(anchor)`, marking mode. -/
def eraseAfter
    (thread : T)
    (anchor : Iterator A) :
    Program A T Bool :=
  match anchor with
  | none => pure false
  | some anchor =>
      Prog.loop () fun _ => do
        let target ← loadNext anchor
        match target with
        | ⟨some node, false⟩ => do
            let loaded ← loadNext (.node node)
            let race ← markTarget thread node loaded
            let _ ←
              compareExchange anchor target race.1.clearMark []
            if race.2 then
              Prog.leave true
            else
              Prog.again ()
        | _ => Prog.leave false

/-- `++it`: load the successor and strip the mark; no node is `end()`. -/
def increment
    (position : Cell Unit A) :
    Program A T (Option A) :=
  Prog.atomic fun state _ =>
    match (state.next position).ptr with
    | none => some (none, state)
    | some node =>
        some (some node,
          { state with iterators := .node node :: state.iterators })

/-- `before_begin()`. -/
def beforeBegin : Program A T Unit :=
  Prog.write fun state =>
    { state with iterators := .root () :: state.iterators }

/-- A client allocates a node: a word no node has had before. -/
def makeNode : Program A T A :=
  Prog.atomic fun state choice =>
    match choice with
    | .fresh node =>
        if node ∈ state.nodes then
          none
        else
          some (node,
            { state with
              next :=
                Function.update state.next (.node node) ⟨none, false⟩
              nodes := node :: state.nodes })
    | _ => none

/-- The anchor of a call is null or an iterator some client holds. -/
def AnchorAllowed
    (state : State A T)
    (anchor : Iterator A) : Prop :=
  ∀ cell ∈ anchor, cell ∈ state.iterators

/-- The calls that a client owning `spare` unlinked nodes may make. -/
def Allowed
    (state : State A T)
    (spare : List A) :
    Call A → Prop
  | .makeNode => True
  | .beforeBegin => True
  | .increment position => position ∈ state.iterators
  | .insertAfter anchor newNode =>
      AnchorAllowed state anchor ∧ newNode ∈ spare
  | .eraseAfter anchor => AnchorAllowed state anchor

instance
    (state : State A T)
    (spare : List A) :
    ∀ call, Decidable (Allowed state spare call)
  | .makeNode => inferInstanceAs (Decidable True)
  | .beforeBegin => inferInstanceAs (Decidable True)
  | .increment position =>
      inferInstanceAs (Decidable (position ∈ state.iterators))
  | .insertAfter anchor newNode =>
      inferInstanceAs
        (Decidable
          ((∀ cell ∈ anchor, cell ∈ state.iterators) ∧
            newNode ∈ spare))
  | .eraseAfter anchor =>
      inferInstanceAs
        (Decidable (∀ cell ∈ anchor, cell ∈ state.iterators))

/-- A client picks its next call. -/
def pick
    (spare : List A) :
    Program A T (Call A) :=
  Prog.atomic fun state choice =>
    match choice with
    | .call call =>
        if Allowed state spare call then some (call, state) else none
    | _ => none

/-- A client thread; it owns the nodes it created and has not inserted. -/
def client
    (thread : T) :
    Program A T Unit :=
  Prog.loop [] fun spare => do
    let call ← pick spare
    match call with
    | .makeNode => do
        let node ← makeNode
        Prog.again (node :: spare)
    | .beforeBegin => do
        beforeBegin
        Prog.again spare
    | .increment position => do
        let _ ← increment position
        Prog.again spare
    | .insertAfter anchor newNode => do
        let result ← insertAfter anchor newNode
        record (.inserted thread newNode result)
        Prog.again (if result then spare.erase newNode else spare)
    | .eraseAfter anchor => do
        record (.eraseCalled thread)
        let result ← eraseAfter thread anchor
        record (.erased thread result)
        Prog.again spare

/-- The empty list. -/
def State.initial : State A T where
  next _ := ⟨none, false⟩
  nodes := []
  iterators := []
  events := []

/-- Any number of client threads on an empty list. -/
def initialPool : Pool (State A T) (Choice A) T where
  shared := State.initial
  threads := client

end ConcurrentCpp.LockFreeList
