import ConcurrentCpp.EraseLedger
import ConcurrentCpp.MarkedChain
import ConcurrentCpp.RelyGuarantee

namespace ConcurrentCpp.LockFreeListRCU

/-!
# The list with handles and generations

`LockFreeListRCU<T, kGenerations>`.  Nodes are reused: an erased node goes to
the retired list, from there into the bag of a generation, and from the bag to
the free list once no handle of that generation or an older one is left.  All
three are threaded through `retire_link`.

Every access to a shared word is one step.  The plain fields of the ring are
only touched by the holder of the reclaim flag, and a handle only by the
thread that uses it exclusively, so these are read and written together with
the shared access next to them.

The fields of the state after `nextSession` record what happened; no step
depends on them.
-/

variable {A H T V : Type}

/-- Lifecycle of a generation slot. -/
inductive SlotState where
  | empty
  | current
  | sealed
  deriving DecidableEq

/-- The plain fields of one generation slot. -/
structure GenerationBlock (A : Type) where
  bag : Option A
  state : SlotState
  gen : Nat
  deriving DecidableEq

/-- A live handle: the slot it is joined to and its session. -/
structure Handle where
  block : Nat
  session : Nat
  deriving DecidableEq

/-- A call in progress; `exclusive` if it may change its handle. -/
structure Use (H T : Type) where
  thread : T
  handle : Option H
  exclusive : Bool
  deriving DecidableEq

/-- The list, its handles and iterators, and what happened so far. -/
structure State (A H T V : Type) where
  next : Cell Unit A → MarkedPtr A
  retireLink : A → Option A
  value : A → Option V
  allocated : A → Bool
  retiredHead : Option A
  freeHead : Option A
  ring : Nat → GenerationBlock A
  refs : Nat → Int
  current : Nat
  oldest : Nat
  reclaiming : Bool
  handles : H → Option Handle
  uses : List (Use H T)
  iterators : List (Nat × Cell Unit A)
  nextSession : Nat
  /-- How often the address was allocated or reused. -/
  life : A → Nat
  /-- The words whose address a session has obtained, loaded or linked. -/
  reached : List (Nat × Cell Unit A)
  /-- What was read through iterators. -/
  dereferenced : List (Option V)
  /-- The node that a pop loop has read as the top of the free list. -/
  topRead : T → Option A
  /-- How often the thread has read the top of the free list. -/
  topReads : T → Nat
  /-- How often a value was constructed in the node. -/
  constructions : A → Nat
  /-- How often a value was destroyed in the node. -/
  destructions : A → Nat
  /-- The lives of unlinked nodes, when loaded and when unlinked. -/
  unlinked : List (Nat × Nat)
  events : List (ListEvent (A × Nat) T)

/-- What a client may call. -/
inductive Call (A H V : Type) where
  | newHandle (handle : H)
  | refresh (handle : H)
  | moveConstruct (target source : H)
  | moveAssign (target source : H)
  | swap (first second : H)
  | destroy (handle : H)
  | beforeBegin (handle : H)
  | increment (handle : H) (position : Cell Unit A)
  | dereference (handle : H) (node : A)
  | insertAfter (handle : H) (anchor : Option (Cell Unit A)) (value : V)
  | eraseAfter (handle : H) (anchor : Option (Cell Unit A))
  | reclaim

/-- The scheduler's choices. -/
inductive Choice (A H V : Type) where
  | proceed
  | spurious
  | call (call : Call A H V)
  | fresh (node : A)
  | badAlloc

/-- Programs of the list. -/
abbrev Program (A H T V : Type) := Prog (State A H T V) (Choice A H V)

namespace State

/-- Record that a session knows an address. -/
def reach
    (state : State A H T V)
    (session : Nat)
    (target : Option A) :
    State A H T V :=
  match target with
  | none => state
  | some node =>
      { state with reached := (session, .node node) :: state.reached }

/-- Raise the count of a slot. -/
def addRef
    (state : State A H T V)
    (block : Nat) :
    State A H T V :=
  { state with
    refs := Function.update state.refs block (state.refs block + 1) }

/-- Lower the count of a slot. -/
def dropRef
    (state : State A H T V)
    (block : Nat) :
    State A H T V :=
  { state with
    refs := Function.update state.refs block (state.refs block - 1) }

end State

section Words

variable [DecidableEq A]

/-- `next.load()` under a session. -/
def loadNext
    (session : Nat)
    (cell : Cell Unit A) :
    Program A H T V (MarkedPtr A) :=
  Prog.atomic fun state _ =>
    some (state.next cell, state.reach session (state.next cell).ptr)

/-- `next.load()` of an anchor, with the life of the node it leads to. -/
def loadTarget
    (session : Nat)
    (cell : Cell Unit A) :
    Program A H T V (MarkedPtr A × Nat) :=
  Prog.atomic fun state _ =>
    some
      ((state.next cell, (state.next cell).ptr.elim 0 state.life),
        state.reach session (state.next cell).ptr)

/-- `next.store(word)` on a node that is not linked. -/
def storeNext
    (node : A)
    (word : MarkedPtr A) :
    Program A H T V Unit :=
  Prog.write fun state =>
    { state with
      next := Function.update state.next (.node node) word }

/-- `retire_link.store(target)`. -/
def storeRetireLink
    (node : A)
    (target : Option A) :
    Program A H T V Unit :=
  Prog.write fun state =>
    { state with
      retireLink := Function.update state.retireLink node target }

/-- The swap of the insert loop. -/
def linkNode
    (session : Nat)
    (anchor : Cell Unit A)
    (expected : MarkedPtr A)
    (node : A) :
    Program A H T V Bool :=
  Prog.atomic fun state _ =>
    if state.next anchor = expected then
      some (true,
        { state.reach session (some node) with
          next := Function.update state.next anchor ⟨some node, false⟩ })
    else
      some (false, state)

/-- The swap of the marking race; a failure returns the word it found. -/
def markNode
    (thread : T)
    (session : Nat)
    (node : A)
    (expected : MarkedPtr A) :
    Program A H T V (Bool × MarkedPtr A) :=
  Prog.atomic fun state _ =>
    if state.next (.node node) = expected then
      some ((true, expected.setMark),
        { state with
          next :=
            Function.update state.next (.node node) expected.setMark
          events := .marked thread (node, state.life node) :: state.events })
    else
      some ((false, state.next (.node node)),
        state.reach session (state.next (.node node)).ptr)

/-- The swap that unlinks the target, whose life was `life` when loaded. -/
def unlinkNode
    (anchor : Cell Unit A)
    (node : A)
    (life : Nat)
    (successor : MarkedPtr A) :
    Program A H T V Bool :=
  Prog.atomic fun state _ =>
    if state.next anchor = ⟨some node, false⟩ then
      some (true,
        { state with
          next := Function.update state.next anchor successor
          unlinked := (life, state.life node) :: state.unlinked })
    else
      some (false, state)

end Words

section Join

/--
`join()`: count a membership in the slot that `current_` names, and take it
back if the slot is no longer current.
-/
def join : Program A H T V Nat :=
  Prog.loop () fun _ => do
    let block ← Prog.read fun state => state.current
    Prog.write fun state => state.addRef block
    let current ← Prog.read fun state => state.current
    if current = block then
      Prog.leave block
    else do
      Prog.write fun state => state.dropRef block
      Prog.again ()

variable [DecidableEq H]

/-- `new_handle()`. -/
def newHandle
    (handle : H) :
    Program A H T V Unit := do
  let block ← join
  Prog.write fun state =>
    { state with
      handles :=
        Function.update state.handles handle
          (some ⟨block, state.nextSession⟩)
      nextSession := state.nextSession + 1 }

/-- Redraw the session of a handle. -/
def State.redraw
    (state : State A H T V)
    (handle : H)
    (block : Nat) :
    State A H T V :=
  { state with
    handles :=
      Function.update state.handles handle
        (some ⟨block, state.nextSession⟩)
    nextSession := state.nextSession + 1 }

/-- `handle::refresh()` of a handle that is joined to `block`. -/
def refresh
    (handle : H)
    (block : Nat) :
    Program A H T V Bool := do
  let current ← Prog.atomic fun state _ =>
    some (state.current, state.redraw handle block)
  if current = block then
    pure false
  else do
    let joined ← join
    Prog.write fun state =>
      { state.dropRef block with
        handles :=
          Function.update state.handles handle
            ((state.handles handle).map fun old =>
              { old with block := joined }) }
    pure true

end Join

section Retire

variable [DecidableEq A]

/-- `compare_exchange_weak` on the head of the retired list. -/
def pushRetired
    (expected : Option A)
    (node : A) :
    Program A H T V (Bool × Option A) :=
  Prog.atomic fun state choice =>
    match choice with
    | .spurious => some ((false, state.retiredHead), state)
    | _ =>
        if state.retiredHead = expected then
          some ((true, expected),
            { state with retiredHead := some node })
        else
          some ((false, state.retiredHead), state)

/-- `retire(node)`. -/
def retire
    (node : A) :
    Program A H T V Unit := do
  let head ← Prog.read fun state => state.retiredHead
  Prog.loop head fun head => do
    storeRetireLink node head
    let outcome ← pushRetired head node
    if outcome.1 then
      Prog.leave ()
    else
      Prog.again outcome.2

/-- `dispose_unlinked(node)`. -/
def disposeUnlinked
    (node : A) :
    Program A H T V Unit := do
  storeNext node ⟨none, true⟩
  retire node

end Retire

section Allocation

variable [DecidableEq A] [DecidableEq T]

/-- Record what a pop loop has read as the top of the free list. -/
def State.seeTop
    (state : State A H T V)
    (thread : T) :
    State A H T V :=
  { state with
    topRead := Function.update state.topRead thread state.freeHead
    topReads :=
      Function.update state.topReads thread (state.topReads thread + 1) }

/-- `compare_exchange_weak` on the head of the free list. -/
def popFree
    (thread : T)
    (top : A)
    (below : Option A) :
    Program A H T V (Bool × Option A) :=
  Prog.atomic fun state choice =>
    match choice with
    | .spurious => some ((false, state.freeHead), state.seeTop thread)
    | _ =>
        if state.freeHead = some top then
          some ((true, some top),
            { state with
              freeHead := below
              life := Function.update state.life top (state.life top + 1)
              topRead := Function.update state.topRead thread none })
        else
          some ((false, state.freeHead), state.seeTop thread)

/-- The pop loop of `alloc_node()`. -/
def popLoop
    (thread : T) :
    Program A H T V (Option A) := do
  let head ← Prog.atomic fun state _ =>
    some (state.freeHead, state.seeTop thread)
  Prog.loop head fun head =>
    match head with
    | none => Prog.leave none
    | some top => do
        let below ← Prog.read fun state => state.retireLink top
        let outcome ← popFree thread top below
        if outcome.1 then
          Prog.leave (some top)
        else
          Prog.again outcome.2

/-- `new Node`: an unused address, or `std::bad_alloc`. -/
def newNode : Program A H T V (Option A) :=
  Prog.atomic fun state choice =>
    match choice with
    | .fresh node =>
        if state.allocated node then
          none
        else
          some (some node,
            { state with
              allocated := Function.update state.allocated node true
              life := Function.update state.life node (state.life node + 1)
              next :=
                Function.update state.next (.node node) ⟨none, false⟩
              retireLink := Function.update state.retireLink node none })
    | .badAlloc => some (none, state)
    | _ => none

/-- `alloc_node()`: a node and whether it was popped; `none` if it throws. -/
def allocNode
    (thread : T) :
    Program A H T V (Option (A × Bool)) := do
  let popped ← popLoop thread
  match popped with
  | some node => pure (some (node, true))
  | none => do
      let fresh ← newNode
      pure (fresh.map fun node => (node, false))

/-- Construct a value in a node. -/
def construct
    (node : A)
    (value : V) :
    Program A H T V Unit :=
  Prog.write fun state =>
    { state with
      value := Function.update state.value node (some value)
      constructions :=
        Function.update state.constructions node
          (state.constructions node + 1) }

/-- Destroy the value of a node. -/
def State.destroyValue
    (state : State A H T V)
    (node : A) :
    State A H T V :=
  { state with
    value := Function.update state.value node none
    destructions :=
      Function.update state.destructions node
        (state.destructions node + 1) }

/-- `delete_node(node)`. -/
def deleteNode
    (node : A) :
    Program A H T V Unit :=
  Prog.write fun state =>
    { state with
      allocated := Function.update state.allocated node false }

/-- The insert loop: whether the node was linked behind the anchor. -/
def linkLoop
    (session : Nat)
    (anchor : Cell Unit A)
    (node : A) :
    Program A H T V Bool :=
  Prog.loop () fun _ => do
    let expectedNext ← loadNext session anchor
    if expectedNext.mark then
      Prog.leave false
    else do
      storeNext node expectedNext
      let linked ← linkNode session anchor expectedNext node
      if linked then
        Prog.leave true
      else
        Prog.again ()

/--
`init_node()` behind `insert_after` and `emplace_after`, with the node that it
has linked; `none` if it throws.
-/
def initNode
    (thread : T)
    (session : Nat)
    (anchor : Option (Cell Unit A))
    (value : V) :
    Program A H T V (Option (Bool × Option A)) :=
  match anchor with
  | none => pure (some (false, none))
  | some anchor => do
      let allocated ← allocNode thread
      match allocated with
      | none => pure none
      | some (node, popped) => do
          construct node value
          let linked ← linkLoop session anchor node
          if linked then
            pure (some (true, some node))
          else if popped then do
            disposeUnlinked node
            pure (some (false, none))
          else do
            Prog.write fun state => state.destroyValue node
            deleteNode node
            pure (some (false, none))

end Allocation

section Erase

variable [DecidableEq A]

/-- The marking race: the target's final word, and whether this call won. -/
def markTarget
    (thread : T)
    (session : Nat)
    (target : A)
    (targetNext : MarkedPtr A) :
    Program A H T V (MarkedPtr A × Bool) :=
  Prog.loop targetNext fun targetNext =>
    if targetNext.mark then
      Prog.leave (targetNext, false)
    else do
      let outcome ← markNode thread session target targetNext
      if outcome.1 then
        Prog.leave (outcome.2, true)
      else
        Prog.again outcome.2

/-- `erase_after()`. -/
def eraseAfter
    (thread : T)
    (session : Nat)
    (anchor : Option (Cell Unit A)) :
    Program A H T V Bool :=
  match anchor with
  | none => pure false
  | some anchor =>
      Prog.loop () fun _ => do
        let target ← loadTarget session anchor
        match target.1 with
        | ⟨some node, false⟩ => do
            let loaded ← loadNext session (.node node)
            let race ← markTarget thread session node loaded
            let unlinked ←
              unlinkNode anchor node target.2 race.1.clearMark
            if unlinked then
              retire node
            if race.2 then
              Prog.leave true
            else
              Prog.again ()
        | _ => Prog.leave false

end Erase

section Reclaim

variable [DecidableEq A] (kGenerations : Nat)

/-- Whether and how a call of `reclaim()` advanced the generation. -/
inductive Advance where
  | nothingRetired
  | advanced
  | ringFull
  | contended
  deriving DecidableEq

/-- What one call of `reclaim()` did. -/
structure ReclaimResult where
  freedNodes : Nat
  freedBags : Nat
  advance : Advance
  deriving DecidableEq

/-- Destroy the values of a bag; the last node of it and their number. -/
def destroyBag
    (bag : Option A) :
    Program A H T V (Option A × Nat) :=
  Prog.loop (bag, none, 0) fun (walk : Option A × Option A × Nat) =>
    match walk with
    | (none, tail, count) => Prog.leave (tail, count)
    | (some node, _, count) => do
        let link ← Prog.atomic fun state _ =>
          some (state.retireLink node, state.destroyValue node)
        Prog.again (link, some node, count + 1)

/-- `compare_exchange_weak` that puts a bag in front of the free list. -/
def spliceFree
    (expected bag : Option A) :
    Program A H T V (Bool × Option A) :=
  Prog.atomic fun state choice =>
    match choice with
    | .spurious => some ((false, state.freeHead), state)
    | _ =>
        if state.freeHead = expected then
          some ((true, expected), { state with freeHead := bag })
        else
          some ((false, state.freeHead), state)

/-- The splice loop of `free_oldest()`; a bag without a last node is null. -/
def spliceLoop
    (bag tail : Option A) :
    Program A H T V Unit :=
  match tail with
  | none => Prog.atomic fun _ _ => none
  | some tail => do
      let head ← Prog.read fun state => state.freeHead
      Prog.loop head fun head => do
        storeRetireLink tail head
        let outcome ← spliceFree head bag
        if outcome.1 then
          Prog.leave ()
        else
          Prog.again outcome.2

/-- `free_oldest()`: free closed bags, oldest first, while nobody is left. -/
def freeOldest
    (result : ReclaimResult) :
    Program A H T V ReclaimResult :=
  Prog.loop result fun result => do
    let oldest ← Prog.read fun state =>
      (state.oldest, state.ring state.oldest)
    if oldest.2.state ≠ .sealed then
      Prog.leave result
    else do
      let refs ← Prog.read fun state => state.refs oldest.1
      if refs ≠ 0 then
        Prog.leave result
      else do
        let walked ← destroyBag oldest.2.bag
        spliceLoop oldest.2.bag walked.1
        Prog.write fun state =>
          { state with
            ring :=
              Function.update state.ring oldest.1
                { oldest.2 with bag := none, state := .empty }
            oldest := (oldest.1 + 1) % kGenerations }
        Prog.again
          { result with
            freedNodes := result.freedNodes + walked.2
            freedBags := result.freedBags + 1 }

/-- Close the current slot with a bag and publish the next one. -/
def State.publish
    (state : State A H T V)
    (closing : Nat)
    (bag : Option A) :
    State A H T V :=
  let next := (closing + 1) % kGenerations
  let sealing :=
    Function.update state.ring closing
      { state.ring closing with bag := bag, state := .sealed }
  { state with
    ring :=
      Function.update sealing next
        { sealing next with
          state := .current
          gen := (state.ring closing).gen + 1 }
    current := next }

/-- Take the retired list and make it the bag of the closing slot. -/
def closeCurrent
    (closing : Nat)
    (result : ReclaimResult) :
    Program A H T V ReclaimResult := do
  let chain ← Prog.atomic fun state _ =>
    some (state.retiredHead, { state with retiredHead := none })
  match chain with
  | none => pure { result with advance := .nothingRetired }
  | some first => do
      Prog.write fun state =>
        state.publish kGenerations closing (some first)
      pure { result with advance := .advanced }

/-- `advance()`. -/
def advance
    (result : ReclaimResult) :
    Program A H T V ReclaimResult := do
  let retired ← Prog.read fun state => state.retiredHead
  match retired with
  | none => pure { result with advance := .nothingRetired }
  | some _ => do
      let closing ← Prog.read fun state => state.current
      let next := (closing + 1) % kGenerations
      let before ← Prog.read fun state => (state.ring next).state
      if before = .empty then
        closeCurrent kGenerations closing result
      else do
        let freed ← freeOldest kGenerations result
        let after ← Prog.read fun state => (state.ring next).state
        if after = .empty then
          closeCurrent kGenerations closing freed
        else
          pure { freed with advance := .ringFull }

/-- `reclaim()`. -/
def reclaim : Program A H T V ReclaimResult := do
  let busy ← Prog.atomic fun state _ =>
    some (state.reclaiming, { state with reclaiming := true })
  if busy then
    pure ⟨0, 0, .contended⟩
  else do
    let advanced ← advance kGenerations ⟨0, 0, .nothingRetired⟩
    let result ← freeOldest kGenerations advanced
    Prog.write fun state => { state with reclaiming := false }
    pure result

end Reclaim

section Client

variable [DecidableEq H]

/-- Nobody is using the handle. -/
def Unused
    (state : State A H T V)
    (handle : H) : Prop :=
  ∀ use ∈ state.uses, use.handle ≠ some handle

/-- Nobody may be changing the handle. -/
def Unchanging
    (state : State A H T V)
    (handle : H) : Prop :=
  ∀ use ∈ state.uses, use.handle = some handle → use.exclusive = false

instance
    (state : State A H T V)
    (handle : H) :
    Decidable (Unused state handle) :=
  inferInstanceAs
    (Decidable (∀ use ∈ state.uses, use.handle ≠ some handle))

instance
    (state : State A H T V)
    (handle : H) :
    Decidable (Unchanging state handle) :=
  inferInstanceAs
    (Decidable
      (∀ use ∈ state.uses,
        use.handle = some handle → use.exclusive = false))

/-- A thread begins a call. -/
def State.beginUse
    (state : State A H T V)
    (use : Use H T) :
    State A H T V :=
  { state with uses := use :: state.uses }

/-- End the session of a handle, if it has one, and leave it empty. -/
def State.leaveHandle
    (state : State A H T V)
    (handle : H) :
    State A H T V :=
  match state.handles handle with
  | none => state
  | some live =>
      { state.dropRef live.block with
        handles := Function.update state.handles handle none }

/-- Move the session of one handle into another, which is empty. -/
def State.moveHandle
    (state : State A H T V)
    (target source : H) :
    State A H T V :=
  { state with
    handles :=
      Function.update
        (Function.update state.handles source none)
        target (state.handles source) }

/-- Exchange the sessions of two handles. -/
def State.swapHandles
    (state : State A H T V)
    (first second : H) :
    State A H T V :=
  { state with
    handles :=
      Function.update
        (Function.update state.handles first (state.handles second))
        second (state.handles first) }

variable [DecidableEq A]

/-- The anchor of a call is null or was obtained under the session. -/
def AnchorAllowed
    (state : State A H T V)
    (session : Nat)
    (anchor : Option (Cell Unit A)) : Prop :=
  ∀ cell ∈ anchor, (session, cell) ∈ state.iterators

instance
    (state : State A H T V)
    (session : Nat)
    (anchor : Option (Cell Unit A)) :
    Decidable (AnchorAllowed state session anchor) :=
  inferInstanceAs
    (Decidable (∀ cell ∈ anchor, (session, cell) ∈ state.iterators))

/--
`++it`: load the successor, strip the mark and keep the position; no node is
`end()`.
-/
def State.increment
    (state : State A H T V)
    (session : Nat)
    (position : Cell Unit A) :
    Option A × State A H T V :=
  match (state.next position).ptr with
  | none => (none, state)
  | some node =>
      (some node,
        { state.reach session (some node) with
          iterators := (session, .node node) :: state.iterators })

/-- `++it` of a client, in one step. -/
def increment
    (session : Nat)
    (position : Cell Unit A) :
    Program A H T V (Option A) :=
  Prog.atomic fun state _ => some (state.increment session position)

/--
A client begins a call that its contract allows; a call that makes a single
access is performed at once.  The result holds the handle's block and session.
-/
def startCall
    (state : State A H T V)
    (thread : T) :
    Call A H V → Option (Handle × State A H T V)
  | .newHandle handle =>
      if Unused state handle ∧ state.handles handle = none then
        some (⟨0, 0⟩, state.beginUse ⟨thread, some handle, true⟩)
      else
        none
  | .refresh handle =>
      if Unused state handle then
        (state.handles handle).map fun live =>
          (live, state.beginUse ⟨thread, some handle, true⟩)
      else
        none
  | .moveConstruct target source =>
      if Unused state target ∧ Unused state source ∧
          state.handles target = none then
        some (⟨0, 0⟩, state.moveHandle target source)
      else
        none
  | .moveAssign target source =>
      if Unused state target ∧ Unused state source then
        if target = source then
          some (⟨0, 0⟩, state)
        else
          some
            (⟨0, 0⟩, (state.leaveHandle target).moveHandle target source)
      else
        none
  | .swap first second =>
      if Unused state first ∧ Unused state second then
        some (⟨0, 0⟩, state.swapHandles first second)
      else
        none
  | .destroy handle =>
      if Unused state handle then
        some (⟨0, 0⟩, state.leaveHandle handle)
      else
        none
  | .beforeBegin handle =>
      if Unchanging state handle then
        (state.handles handle).map fun live =>
          (live,
            { state with
              iterators := (live.session, .root ()) :: state.iterators
              reached := (live.session, .root ()) :: state.reached })
      else
        none
  | .increment handle position =>
      (state.handles handle).bind fun live =>
        if Unchanging state handle ∧
            (live.session, position) ∈ state.iterators then
          some (live, (state.increment live.session position).2)
        else
          none
  | .dereference handle node =>
      (state.handles handle).bind fun live =>
        if Unchanging state handle ∧
            (live.session, .node node) ∈ state.iterators then
          some (live,
            { state with
              dereferenced := state.value node :: state.dereferenced })
        else
          none
  | .insertAfter handle anchor _ =>
      (state.handles handle).bind fun live =>
        if Unchanging state handle ∧
            AnchorAllowed state live.session anchor then
          some (live, state.beginUse ⟨thread, some handle, false⟩)
        else
          none
  | .eraseAfter handle anchor =>
      (state.handles handle).bind fun live =>
        if Unchanging state handle ∧
            AnchorAllowed state live.session anchor then
          some (live,
            { state.beginUse ⟨thread, some handle, false⟩ with
              events := .eraseCalled thread :: state.events })
        else
          none
  | .reclaim =>
      some (⟨0, 0⟩, state.beginUse ⟨thread, none, false⟩)

/-- A client picks its next call. -/
def pick
    (thread : T) :
    Program A H T V (Call A H V × Handle) :=
  Prog.atomic fun state choice =>
    match choice with
    | .call call =>
        (startCall state thread call).map fun outcome =>
          ((call, outcome.1), outcome.2)
    | _ => none

variable [DecidableEq T]

/-- A thread ends a call. -/
def endUse
    (use : Use H T) :
    Program A H T V Unit :=
  Prog.write fun state =>
    { state with uses := state.uses.erase use }

/-- A thread ends a call of `insert_after` or `emplace_after`. -/
def endInsert
    (thread : T)
    (handle : H)
    (result : Option (Bool × Option A)) :
    Program A H T V Unit :=
  Prog.write fun state =>
    { state with
      uses := state.uses.erase ⟨thread, some handle, false⟩
      events :=
        match result with
        | some (true, some node) =>
            .inserted thread (node, state.life node) true :: state.events
        | _ => state.events }

/-- A thread ends a call of `erase_after`. -/
def endErase
    (thread : T)
    (handle : H)
    (result : Bool) :
    Program A H T V Unit :=
  Prog.write fun state =>
    { state with
      uses := state.uses.erase ⟨thread, some handle, false⟩
      events := .erased thread result :: state.events }

/-- What is left of a call after it has begun. -/
def perform
    (kGenerations : Nat)
    (thread : T)
    (live : Handle) :
    Call A H V → Program A H T V Unit
  | .newHandle handle => do
      newHandle handle
      endUse ⟨thread, some handle, true⟩
  | .refresh handle => do
      let _ ← refresh handle live.block
      endUse ⟨thread, some handle, true⟩
  | .insertAfter handle anchor value => do
      let result ← initNode thread live.session anchor value
      endInsert thread handle result
  | .eraseAfter handle anchor => do
      let result ← eraseAfter thread live.session anchor
      endErase thread handle result
  | .reclaim => do
      let _ ← reclaim kGenerations
      endUse ⟨thread, none, false⟩
  | _ => pure ()

/-- A client thread makes one call after the other. -/
def client
    (kGenerations : Nat)
    (thread : T) :
    Program A H T V Unit :=
  Prog.loop () fun _ => do
    let begun ← pick thread
    perform kGenerations thread begun.2 begun.1
    Prog.again ()

end Client

section Destructor

variable [DecidableEq A]

/--
Delete a node, and before that destroy its value if there has to be one.
Neither may be done twice.
-/
def State.tearNode
    (state : State A H T V)
    (destroy : Bool)
    (node : A) :
    Option (State A H T V) :=
  if state.allocated node = false ∨
      destroy = true ∧ state.value node = none then
    none
  else
    let destroyed := if destroy then state.destroyValue node else state
    some
      { destroyed with
        allocated := Function.update destroyed.allocated node false }

/-- One loop of the destructor; the link is loaded before the node goes. -/
def tearLoop
    (link : State A H T V → A → Option A)
    (destroy : Bool) :
    Nat → State A H T V → Option A → Option (State A H T V)
  | _, state, none => some state
  | 0, _, some _ => none
  | fuel + 1, state, some node =>
      (state.tearNode destroy node).bind fun torn =>
        tearLoop link destroy fuel torn (link state node)

/-- The loop over the chain from the head. -/
def tearChain
    (fuel : Nat)
    (state : State A H T V) :
    Option (State A H T V) :=
  tearLoop (fun state node => (state.next (.node node)).ptr) true fuel
    state (state.next (.root ())).ptr

/-- The loop over a list that is threaded through `retire_link`. -/
def tearList
    (destroy : Bool)
    (fuel : Nat)
    (state : State A H T V)
    (head : Option A) :
    Option (State A H T V) :=
  tearLoop (fun state node => state.retireLink node) destroy fuel state head

/-- The part of the destructor's loop that concerns one slot of the ring. -/
def tearBag
    (fuel : Nat)
    (state : State A H T V)
    (slot : Nat) :
    Option (State A H T V) :=
  if (state.ring slot).state ≠ .sealed then
    some state
  else
    tearList true fuel state (state.ring slot).bag

/-- `~LockFreeListRCU()` after its assertions. -/
def destructor
    (kGenerations : Nat)
    (fuel : Nat)
    (state : State A H T V) :
    Option (State A H T V) := do
  let unchained ← tearChain fuel state
  let unretired ← tearList true fuel unchained unchained.retiredHead
  let unbagged ←
    (List.range kGenerations).foldlM (tearBag fuel) unretired
  tearList false fuel unbagged unbagged.freeHead

end Destructor

/-- The empty list: slot 0 is current, no node is allocated. -/
def State.initial : State A H T V where
  next _ := ⟨none, false⟩
  retireLink _ := none
  value _ := none
  allocated _ := false
  retiredHead := none
  freeHead := none
  ring slot :=
    { bag := none
      state := if slot = 0 then .current else .empty
      gen := 0 }
  refs _ := 0
  current := 0
  oldest := 0
  reclaiming := false
  handles _ := none
  uses := []
  iterators := []
  nextSession := 0
  life _ := 0
  reached := []
  dereferenced := []
  topRead _ := none
  topReads _ := 0
  constructions _ := 0
  destructions _ := 0
  unlinked := []
  events := []

/-- Any number of client threads on an empty list. -/
def initialPool
    [DecidableEq A]
    [DecidableEq H]
    [DecidableEq T]
    (kGenerations : Nat) :
    Pool (State A H T V) (Choice A H V) T where
  shared := State.initial
  threads := client kGenerations

end ConcurrentCpp.LockFreeListRCU
