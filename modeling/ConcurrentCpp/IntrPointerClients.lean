import ConcurrentCpp.IntrPointer

namespace ConcurrentCpp.IntrPointer

/-!
# Clients of the intrusive pointers

Whoever operates on an atomic word records the call with its arguments, and
when it returns what it was told and what its handles hold.

`LockFreeList` over the intrusive pointers is such a client: the operations on
iterators and on the links, and the walk of `~Node()`.  A client thread runs
any number of pointer and list operations on handles of its own; the rules for
handles are those of `std::shared_ptr`.
-/

variable {A W H T : Type}
variable [DecidableEq A] [DecidableEq W] [DecidableEq H] [DecidableEq T]

section Words

/-- A call on an atomic word begins. -/
def beginCall
    (thread : T)
    (w : W)
    (operation : Operation A) :
    Program A W H T (T × Nat) :=
  Prog.atomic fun state _ =>
    let call := (thread, state.calls thread)
    some (call,
      ({ state with
          calls :=
            Function.update state.calls thread (state.calls thread + 1) } :
        State A W H T).note (.called call w operation))

/-- A call on an atomic word returns. -/
def endCall
    (call : T × Nat)
    (outcome : State A W H T → Outcome A) :
    Program A W H T Unit :=
  Prog.write fun state => state.note (.returned call (outcome state))

variable
  (config : Config A W)
  (dispose : A → Program A W H T Unit)

/-- A call of `load()`; the caller sees the handle, or an exception. -/
def callLoad
    (thread : T)
    (w : W)
    (dst : H) :
    Program A W H T Bool := do
  let call ← beginCall thread w .load
  let loaded ← load config dispose call w dst
  if loaded then do
    endCall call fun state => .loaded (state.handleAt dst)
    pure true
  else do
    endCall call fun _ => .threw
    pure false

/-- A call of `store()` with what a handle holds. -/
def callStore
    (thread : T)
    (w : W)
    (desired : H) :
    Program A W H T Unit := do
  let word ← Prog.read fun state => state.handleAt desired
  let call ← beginCall thread w (.store word)
  store config dispose call w desired
  endCall call fun _ => .stored

/-- A call of a compare-exchange; `expected` is seen again when it returns. -/
def callCompareExchange
    (thread : T)
    (strong : Bool)
    (w : W)
    (expected desired : H) :
    Program A W H T (Option Bool) := do
  let original ← Prog.read fun state => state.handleAt expected
  let new ← Prog.read fun state => state.handleAt desired
  let call ← beginCall thread w (.compareExchange strong original new)
  let result ← compareExchange config dispose call strong w expected desired
  endCall call fun state =>
    match result with
    | some swapped => .exchanged swapped (state.handleAt expected)
    | none => .threw
  pure result

end Words

section Lists

variable
  (config : Config A W)
  (dispose : A → Program A W H T Unit)

/-- `p->next` for the pointee of a handle. -/
def nextOf
    (h : H) :
    Program A W H T (Option W) :=
  Prog.read fun state => (state.handleAt h).ptr.bind config.next

/-- `before_begin()` into a new handle. -/
def beforeBegin
    (thread : T)
    (head : W)
    (dst : H) :
    Program A W H T Unit := do
  let current ← newCell thread
  let loaded ← callLoad config dispose thread head current
  if loaded then do
    moveConstruct .clear dst current
    leaveScope dispose thread current
  else unpin thread ⟨.handle current, true⟩

/-- `curr_ = curr_->next.load().get_unmarked()`. -/
def advance
    (thread : T)
    (h : H) :
    Option W → Program A W H T Unit
  | none => pure ()
  | some edge => do
      let current ← newCell thread
      let loaded ← callLoad config dispose thread edge current
      if loaded then do
        let unmarked ← newCell thread
        moveConstruct .clear unmarked current
        let old ← takeOver thread h unmarked
        release dispose thread false old
        leaveScope dispose thread unmarked
        leaveScope dispose thread current
      else unpin thread ⟨.handle current, true⟩

/-- `iterator::operator++()`. -/
def increment
    (thread : T)
    (h : H) :
    Program A W H T Unit := do
  let edge ← nextOf config h
  advance config dispose thread h edge

/--
The marking loop of `insert_after()`: `edge` is the anchor's next and `place`
the new node's.  The result is `none` if a load threw.
-/
def linkAfter
    (thread : T)
    (newNode : H) :
    Option W → Option W → Program A W H T (Option Bool)
  | some edge, some place =>
      Prog.loop () fun _ => do
        let expected ← newCell thread
        let loaded ← callLoad config dispose thread edge expected
        if loaded then do
          let word ← Prog.read fun state => state.handleAt expected
          if word.mark then do
            leaveScope dispose thread expected
            Prog.leave (some false)
          else do
            callStore config dispose thread place expected
            let swapped ←
              callCompareExchange config dispose thread true edge expected
                newNode
            leaveScope dispose thread expected
            match swapped with
            | some false => Prog.again ()
            | outcome => Prog.leave outcome
        else do
          unpin thread ⟨.handle expected, true⟩
          Prog.leave none
  | _, _ => pure (some false)

/-- `insert_after()`; the arguments are passed by value. -/
def insertAfter
    (thread : T)
    (anchor newNode : H) :
    Program A W H T (Option Bool) := do
  let from_ ← newCell thread
  copyConstruct .keep from_ anchor
  let node ← newCell thread
  copyConstruct .keep node newNode
  let edge ← nextOf config from_
  let place ← nextOf config node
  let outcome ← linkAfter config dispose thread node edge place
  leaveScope dispose thread node
  leaveScope dispose thread from_
  pure outcome

/-- The race to mark the target's next: `some true` if this call marked it. -/
def markNext
    (thread : T)
    (place : W)
    (targetNext : H) :
    Program A W H T (Option Bool) :=
  Prog.loop () fun _ => do
    let word ← Prog.read fun state => state.handleAt targetNext
    if word.mark then Prog.leave (some false)
    else do
      let marked ← newCell thread
      copyConstruct .set marked targetNext
      let swapped ←
        callCompareExchange config dispose thread true place targetNext marked
      match swapped with
      | some true => do
          let value ← Prog.read fun state => state.handleAt marked
          addRef thread value.ptr
          replace dispose thread targetNext value
          leaveScope dispose thread marked
          Prog.leave (some true)
      | some false => do
          leaveScope dispose thread marked
          Prog.again ()
      | none => do
          leaveScope dispose thread marked
          Prog.leave none

/-- `anchor->next` is swung past a target that is marked. -/
def unlinkTarget
    (thread : T)
    (edge : W)
    (target targetNext : H) :
    Program A W H T (Option Bool) := do
  let unmarked ← newCell thread
  copyConstruct .clear unmarked targetNext
  let swung ←
    callCompareExchange config dispose thread true edge target unmarked
  leaveScope dispose thread unmarked
  pure swung

/-- One turn of `erase_after()` on a target whose next is `place`. -/
def eraseTarget
    (thread : T)
    (edge place : W)
    (target : H) :
    Program A W H T (Unit ⊕ Option Bool) := do
  let targetNext ← newCell thread
  let loaded ← callLoad config dispose thread place targetNext
  if loaded then do
    let marking ← markNext config dispose thread place targetNext
    match marking with
    | some markedByUs => do
        let swung ←
          unlinkTarget config dispose thread edge target targetNext
        leaveScope dispose thread targetNext
        match swung, markedByUs with
        | some _, true => Prog.leave (some true)
        | some _, false => Prog.again ()
        | none, _ => Prog.leave none
    | none => do
        leaveScope dispose thread targetNext
        Prog.leave none
  else do
    unpin thread ⟨.handle targetNext, true⟩
    Prog.leave none

/-- The marking loop of `erase_after()`. -/
def eraseFrom
    (thread : T) :
    Option W → Program A W H T (Option Bool)
  | none => pure (some false)
  | some edge =>
      Prog.loop () fun _ => do
        let target ← newCell thread
        let loaded ← callLoad config dispose thread edge target
        if loaded then do
          let word ← Prog.read fun state => state.handleAt target
          match word.mark, word.ptr.bind config.next with
          | false, some place => do
              let turn ← eraseTarget config dispose thread edge place target
              leaveScope dispose thread target
              pure turn
          | _, _ => do
              leaveScope dispose thread target
              Prog.leave (some false)
        else do
          unpin thread ⟨.handle target, true⟩
          Prog.leave none

/-- `erase_after()`. -/
def eraseAfter
    (thread : T)
    (anchor : H) :
    Program A W H T (Option Bool) := do
  let from_ ← newCell thread
  copyConstruct .keep from_ anchor
  let edge ← nextOf config from_
  let outcome ← eraseFrom config dispose thread edge
  leaveScope dispose thread from_
  pure outcome

/-- `store(nullptr)`. -/
def storeNull
    (thread : T)
    (w : W) :
    Program A W H T Unit := do
  let empty ← newCell thread
  constructNull empty
  callStore config dispose thread w empty
  leaveScope dispose thread empty

/--
`curr && curr.use_count() == 1`.  From a test that holds to the end of the
store into `curr->next`, the walk counts the node as its own.
-/
def judge
    (thread : T)
    (curr : H) :
    Program A W H T (Option A) :=
  Prog.atomic fun state _ =>
    match (state.handleAt curr).ptr with
    | none => some (none, state)
    | some a =>
        if state.count a = 1 then
          some (some a,
            { state.did (.touched a) with
              walking := (thread, (a, curr)) :: state.walking })
        else some (none, state.did (.touched a))

/-- The store into `curr->next` is over. -/
def judged
    (thread : T)
    (curr : H)
    (a : A) :
    Program A W H T Unit :=
  Prog.write fun state =>
    { state with walking := state.walking.erase (thread, (a, curr)) }

/-- One node of the walk; an exception ends the program. -/
def dismantle
    (thread : T)
    (curr : H)
    (a : A) :
    Option W → Program A W H T Unit
  | none => judged thread curr a
  | some place => do
      let nextCurr ← newCell thread
      let loaded ← callLoad config dispose thread place nextCurr
      if loaded then do
        storeNull config dispose thread place
        judged thread curr a
        let old ← takeOver thread curr nextCurr
        release dispose thread false old
        leaveScope dispose thread nextCurr
      else stuck

/-- The chain walk while sole owner. -/
def walk
    (thread : T)
    (curr : H) :
    Program A W H T Unit :=
  Prog.loop () fun _ => do
    let found ← judge thread curr
    match found with
    | none => Prog.leave ()
    | some a => do
        dismantle config dispose thread curr a (config.next a)
        Prog.again ()

end Lists

section Clients

/-- What a call uses of its access path. -/
def Access.pins : Access W H → List (Pin W H)
  | .direct w => [⟨.word w, false⟩]
  | .through h _ => [⟨.handle h, false⟩]
  | .own _ => []

/-- The path leads to an existing word. -/
def Access.Valid
    (config : Config A W)
    (this : Option A)
    (state : State A W H T) :
    Access W H → Prop
  | .direct w => config.home w = none ∧ state.word w ≠ none
  | .through h w =>
      config.home w ≠ none ∧ (state.handleAt h).ptr = config.home w
  | .own w => config.home w ≠ none ∧ this = config.home w

instance
    (config : Config A W)
    (this : Option A)
    (state : State A W H T)
    (access : Access W H) :
    Decidable (access.Valid config this state) := by
  cases access <;> unfold Access.Valid <;> infer_instance

/-- What a call uses. -/
def Call.pins : Call A W H → List (Pin W H)
  | .make dst => [⟨.handle dst, true⟩]
  | .null dst => [⟨.handle dst, true⟩]
  | .copy _ dst src => [⟨.handle dst, true⟩, ⟨.handle src, false⟩]
  | .move _ dst src => [⟨.handle dst, true⟩, ⟨.handle src, true⟩]
  | .copyAssign dst src =>
      if dst = src then [⟨.handle dst, true⟩]
      else [⟨.handle src, false⟩, ⟨.handle dst, true⟩]
  | .moveAssign dst src =>
      if dst = src then [⟨.handle dst, true⟩]
      else [⟨.handle src, true⟩, ⟨.handle dst, true⟩]
  | .destroy h => [⟨.handle h, true⟩]
  | .useCount h => [⟨.handle h, false⟩]
  | .load access dst => ⟨.handle dst, true⟩ :: access.pins
  | .store access desired => ⟨.handle desired, false⟩ :: access.pins
  | .compareExchange _ access expected desired =>
      if expected = desired then ⟨.handle expected, true⟩ :: access.pins
      else
        ⟨.handle expected, true⟩ :: ⟨.handle desired, false⟩ :: access.pins
  | .build w desired => [⟨.word w, true⟩, ⟨.handle desired, false⟩]
  | .unbuild w => [⟨.word w, true⟩]
  | .scan => [⟨.domain, false⟩]
  | .beforeBegin access dst => ⟨.handle dst, true⟩ :: access.pins
  | .increment h => [⟨.handle h, true⟩]
  | .insertAfter anchor newNode =>
      [⟨.handle anchor, false⟩, ⟨.handle newNode, false⟩]
  | .eraseAfter anchor => [⟨.handle anchor, false⟩]

/-- The arguments of a call are what it expects. -/
def Call.Valid
    (config : Config A W)
    (this : Option A)
    (state : State A W H T) :
    Call A W H → Prop
  | .make dst => state.handle dst = none
  | .null dst => state.handle dst = none
  | .copy _ dst src => state.handle dst = none ∧ state.handle src ≠ none
  | .move _ dst src => state.handle dst = none ∧ state.handle src ≠ none
  | .copyAssign dst src => state.handle dst ≠ none ∧ state.handle src ≠ none
  | .moveAssign dst src => state.handle dst ≠ none ∧ state.handle src ≠ none
  | .destroy h => state.handle h ≠ none
  | .useCount h => state.handle h ≠ none
  | .load access dst =>
      state.handle dst = none ∧ access.Valid config this state
  | .store access desired =>
      state.handle desired ≠ none ∧ access.Valid config this state
  | .compareExchange strong access expected desired =>
      state.handle expected ≠ none ∧ state.handle desired ≠ none ∧
        access.Valid config this state ∧
        (config.flavour = .spinning → strong = true)
  | .build w desired =>
      config.home w = none ∧ state.word w = none ∧
        state.handle desired ≠ none
  | .unbuild w => config.home w = none ∧ state.word w ≠ none
  | .scan => config.flavour = .hazard
  | .beforeBegin access dst =>
      state.handle dst = none ∧ access.Valid config this state
  | .increment h => state.handle h ≠ none
  | .insertAfter anchor newNode =>
      state.handle anchor ≠ none ∧ (state.handleAt newNode).ptr ≠ none
  | .eraseAfter anchor => state.handle anchor ≠ none

instance
    (config : Config A W)
    (this : Option A)
    (state : State A W H T)
    (call : Call A W H) :
    Decidable (call.Valid config this state) := by
  cases call <;> unfold Call.Valid <;> infer_instance

/-- A client picks its next call within the rules for handles, or stops. -/
def pick
    (config : Config A W)
    (thread : T)
    (this : Option A) :
    Program A W H T (Option (Call A W H)) :=
  Prog.atomic fun state choice =>
    match choice with
    | .done => some (none, state)
    | .call call =>
        let pins :=
          call.pins.map (fun pin => (thread, pin)) ++ state.pins
        if call.Valid config this state ∧ Disciplined pins then
          some (some call,
            { state with
              running := (thread, call) :: state.running
              pins := pins })
        else none
    | _ => none

/-- Several uses end. -/
def unpinAll
    (thread : T) :
    List (Pin W H) → Program A W H T Unit
  | [] => pure ()
  | pin :: rest => do
      unpin thread pin
      unpinAll thread rest

/-- One call of a client. -/
def perform
    (config : Config A W)
    (services : Services A W H T)
    (thread : T) :
    Call A W H → Program A W H T Unit
  | .make dst => do
      make config thread dst
      unpinAll thread (Call.pins (A := A) (.make dst))
  | .null dst => do
      constructNull dst
      unpinAll thread (Call.pins (A := A) (.null dst))
  | .copy remark dst src => do
      copyConstruct remark dst src
      unpinAll thread (Call.pins (A := A) (.copy remark dst src))
  | .move remark dst src => do
      moveConstruct remark dst src
      unpinAll thread (Call.pins (A := A) (.move remark dst src))
  | .copyAssign dst src => do
      copyAssign services.dispose thread dst src
      unpin thread ⟨.handle dst, true⟩
  | .moveAssign dst src => do
      moveAssign services.dispose thread dst src
      unpin thread ⟨.handle dst, true⟩
  | .destroy h => do
      destroyHandle services.dispose thread h
      unpinAll thread (Call.pins (A := A) (.destroy h))
  | .useCount h => do
      let _ ← useCount h
      unpinAll thread (Call.pins (A := A) (.useCount h))
  | .load access dst => do
      let _ ← callLoad config services.dispose thread access.word dst
      unpinAll thread (Call.pins (A := A) (.load access dst))
  | .store access desired => do
      callStore config services.dispose thread access.word desired
      unpinAll thread (Call.pins (A := A) (.store access desired))
  | .compareExchange strong access expected desired => do
      let _ ←
        callCompareExchange config services.dispose thread strong
          access.word expected desired
      unpinAll thread
        (Call.pins (A := A)
          (.compareExchange strong access expected desired))
  | .build w desired => do
      let word ← Prog.read fun state => state.handleAt desired
      addRef thread word.ptr
      buildWord thread w word
      unpinAll thread (Call.pins (A := A) (.build w desired))
  | .unbuild w => do
      let old ← unbuildWord thread w
      release services.dispose thread false old
      unpinAll thread (Call.pins (A := A) (.unbuild w))
  | .scan => do
      services.scan
      unpinAll thread (Call.pins (A := A) .scan)
  | .beforeBegin access dst => do
      beforeBegin config services.dispose thread access.word dst
      unpinAll thread (Call.pins (A := A) (.beforeBegin access dst))
  | .increment h => do
      increment config services.dispose thread h
      unpinAll thread (Call.pins (A := A) (.increment h))
  | .insertAfter anchor newNode => do
      let _ ← insertAfter config services.dispose thread anchor newNode
      unpinAll thread (Call.pins (A := A) (.insertAfter anchor newNode))
  | .eraseAfter anchor => do
      let _ ← eraseAfter config services.dispose thread anchor
      unpinAll thread (Call.pins (A := A) (.eraseAfter anchor))

/-- A client has returned from a call. -/
def finish
    (thread : T)
    (call : Call A W H) :
    Program A W H T Unit :=
  Prog.write fun state =>
    { state with running := state.running.erase (thread, call) }

/-- Any number of calls. -/
def session
    (config : Config A W)
    (services : Services A W H T)
    (thread : T)
    (this : Option A) :
    Program A W H T Unit :=
  Prog.loop () fun _ => do
    let picked ← pick config thread this
    match picked with
    | none => Prog.leave ()
    | some call => do
        perform config services thread call
        finish thread call
        Prog.again ()

/-- A destructor may do whatever a client may do, and use its members. -/
def anyBody
    (config : Config A W) :
    Body A W H T :=
  fun services thread a => session config services thread (some a)

/-- A client thread, with destructors nested to some depth. -/
def client
    (config : Config A W)
    (body : Body A W H T)
    (depth : Nat)
    (thread : T) :
    Program A W H T Unit :=
  session config (services config body depth thread) thread none

/-- Nothing exists yet. -/
def State.initial : State A W H T where
  status _ := .free
  count _ := 0
  word _ := none
  lock _ := none
  handle _ := none
  running := []
  pins := []
  flights := []
  hazard _ := none
  records := []
  guards _ := []
  releasing _ := none
  walking := []
  calls _ := 0
  deeds := []
  events := []

/-- Any number of clients. -/
def initialPool
    (config : Config A W)
    (body : Body A W H T)
    (depth : Nat) :
    Pool (State A W H T) (Choice A W H) T where
  shared := State.initial
  threads := client config body depth

end Clients

end ConcurrentCpp.IntrPointer
