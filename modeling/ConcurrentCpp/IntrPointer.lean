import ConcurrentCpp.Holdings
import ConcurrentCpp.Prog

namespace ConcurrentCpp.IntrPointer

/-!
# The intrusive atomic shared pointers

`intr_shared_ptr` and `intr_shared_ptr_hp`: atomic words that own a counted
reference to an object with an intrusive count.  The value type and its
releases are common to both; the first closes the gap between a load and its
`AddRef` by a lock bit in the word, the second by a hazard pointer.

Objects are named by their addresses, which are reused.  A destructor is a
program that runs inside the release that reached 0 (or inside a scan of the
hazard pointer domain), so all operations take the program that disposes of an
object as an argument.

The lists `deeds` and `events`, the references in flight, the running calls and
their pins are kept for the statements; no step of the source reads them.
-/

/-- Which of the two pointers. -/
inductive Flavour where
  /-- `intr_shared_ptr`: bit 1 of the word is a spinlock. -/
  | spinning
  /-- `intr_shared_ptr_hp`. -/
  | hazard
  deriving DecidableEq

/-- A raw word: the pointer and the mark in bit 0. -/
structure Word (A : Type) where
  ptr : Option A
  mark : Bool
  deriving DecidableEq

/-- The null word. -/
def Word.null {A : Type} : Word A :=
  ⟨none, false⟩

variable {A W H T : Type}

/--
The pointer in use and the layout of its pointees: an atomic word is a member
of one object or stands alone.  A list node has a `next` among its members.
-/
structure Config (A W : Type) where
  flavour : Flavour
  home : W → Option A
  members : A → List W
  mem_members : ∀ a w, w ∈ members a ↔ home w = some a
  nodup_members : ∀ a, (members a).Nodup
  next : A → Option W
  home_next : ∀ a w, next a = some w → home w = some a

/-- The life of the object at an address. -/
inductive Status (T : Type) where
  /-- There is no object. -/
  | free
  /-- Constructed by a thread and not owned yet. -/
  | fresh (thread : T)
  | owned
  /-- A thread has taken the count to 0 and is about to dispose of it. -/
  | condemned (thread : T)
  /-- Handed to the hazard pointer domain. -/
  | retired
  /-- A thread runs the destructor. -/
  | dying (thread : T)
  deriving DecidableEq

/-- What happened to objects and to their counts. -/
inductive Deed (A W T : Type) where
  | allocated (thread : T) (a : A)
  | touched (a : A)
  /-- The count left 0. -/
  | owned (a : A)
  /-- The count went from 1 to 0. -/
  | dropped (thread : T) (a : A)
  /-- `delete` or `retire()`. -/
  | disposed (thread : T) (a : A)
  /-- The destructor began. -/
  | destroyed (thread : T) (a : A)
  | freed (a : A)
  /-- An access to a word that does not exist. -/
  | strayed (w : W)
  deriving DecidableEq

/-- An operation on an atomic word, with the words of its arguments. -/
inductive Operation (A : Type) where
  | load
  | store (desired : Word A)
  | compareExchange (strong : Bool) (expected desired : Word A)
  deriving DecidableEq

/-- How an operation ended, with the caller's handle at that time. -/
inductive Outcome (A : Type) where
  | loaded (result : Word A)
  | stored
  | exchanged (success : Bool) (expected : Word A)
  /-- `std::bad_alloc` from `make_hazard_pointer()`. -/
  | threw
  deriving DecidableEq

/-- What happened to the atomic words; a call is a thread and a number. -/
inductive Event (A W T : Type) where
  | called (call : T × Nat) (w : W) (operation : Operation A)
  | read (call : T × Nat) (w : W) (value : Word A)
  | swapped (call : T × Nat) (w : W) (old new : Word A)
  | returned (call : T × Nat) (outcome : Outcome A)
  | built (w : W) (value : Word A)
  | gone (w : W)
  deriving DecidableEq

/--
What a call may use: a handle, an atomic word of its own, or the hazard
pointer domain.
-/
inductive Place (W H : Type) where
  | handle (h : H)
  | word (w : W)
  | domain
  deriving DecidableEq

/--
The use of a place by a running call.  Const accesses are shared; assignment,
moving from, construction and destruction are exclusive.
-/
structure Pin (W H : Type) where
  place : Place W H
  exclusive : Bool
  deriving DecidableEq

/-- Two uses may coincide. -/
def Pin.Compatible
    (first second : Pin W H) : Prop :=
  first.place = second.place →
    first.exclusive = false ∧ second.exclusive = false

instance
    [DecidableEq W]
    [DecidableEq H] :
    DecidableRel (Pin.Compatible : Pin W H → Pin W H → Prop) :=
  fun first second =>
    inferInstanceAs
      (Decidable
        (first.place = second.place →
          first.exclusive = false ∧ second.exclusive = false))

/--
A counted reference that is in no handle and in no word.  It is tentative
while the load that took it has not validated the word again.
-/
structure Flight (A : Type) where
  object : A
  tentative : Bool
  deriving DecidableEq

/-- How the mark of a copy is chosen: copy, `set_mark()`, `get_unmarked()`. -/
inductive Remark where
  | keep
  | set
  | clear
  deriving DecidableEq

/-- The word of the copy. -/
def Remark.apply
    (remark : Remark)
    (word : Word A) :
    Word A :=
  match remark with
  | .keep => word
  | .set => ⟨word.ptr, true⟩
  | .clear => ⟨word.ptr, false⟩

/-- How a call reaches an atomic word. -/
inductive Access (W H : Type) where
  | direct (w : W)
  /-- As a member of the pointee of a handle. -/
  | through (h : H) (w : W)
  /-- As a member of the object whose destructor runs. -/
  | own (w : W)
  deriving DecidableEq

/-- The word itself. -/
def Access.word : Access W H → W
  | .direct w => w
  | .through _ w => w
  | .own w => w

/-- The calls of a client. -/
inductive Call (A W H : Type) where
  /-- `new U` and its first owner. -/
  | make (dst : H)
  /-- `shared_ptr_type()` -/
  | null (dst : H)
  | copy (remark : Remark) (dst src : H)
  | move (remark : Remark) (dst src : H)
  | copyAssign (dst src : H)
  | moveAssign (dst src : H)
  | destroy (h : H)
  | useCount (h : H)
  | load (access : Access W H) (dst : H)
  | store (access : Access W H) (desired : H)
  | compareExchange
      (strong : Bool) (access : Access W H) (expected desired : H)
  /-- A new atomic word with the value of a handle. -/
  | build (w : W) (desired : H)
  | unbuild (w : W)
  /-- A scan of the hazard pointer domain. -/
  | scan
  /-- `LockFreeList::before_begin()`. -/
  | beforeBegin (access : Access W H) (dst : H)
  /-- `iterator::operator++()`. -/
  | increment (h : H)
  | insertAfter (anchor newNode : H)
  | eraseAfter (anchor : H)
  deriving DecidableEq

/-- The shared state. -/
structure State (A W H T : Type) where
  status : A → Status T
  count : A → Nat
  /-- `aptr_` without the lock bit; `none` where no word is constructed. -/
  word : W → Option (Word A)
  /-- The lock bit, with the thread that set it. -/
  lock : W → Option T
  /-- `p_`; `none` where no handle is constructed. -/
  handle : H → Option (Word A)
  /-- The calls that the clients are in, innermost first. -/
  running : List (T × Call A W H)
  pins : List (T × Pin W H)
  flights : List (T × Flight A)
  /-- The hazard record of a thread. -/
  hazard : T → Option A
  /-- The threads that have published a hazard. -/
  records : List T
  /-- The records that have protected a retired object since before then. -/
  guards : A → List T
  /-- What a thread is about to dispose of. -/
  releasing : T → Option A
  /-- Nodes that a destructor walk has found to be its own. -/
  walking : List (T × (A × H))
  calls : T → Nat
  deeds : List (Deed A W T)
  events : List (Event A W T)

/-- The open outcomes of a step. -/
inductive Choice (A W H : Type) where
  | proceed
  /-- A spurious failure, an allocation failure. -/
  | fail
  | done
  | address (a : A)
  | cell (h : H)
  | call (call : Call A W H)

/-- Programs over the pointers. -/
abbrev Program (A W H T : Type) := Prog (State A W H T) (Choice A W H)

section Updates

variable [DecidableEq A] [DecidableEq W] [DecidableEq H] [DecidableEq T]

/-- Add to the account of the objects. -/
def State.did
    (deed : Deed A W T)
    (state : State A W H T) :
    State A W H T :=
  { state with deeds := deed :: state.deeds }

/-- Add to the account of the words. -/
def State.note
    (event : Event A W T)
    (state : State A W H T) :
    State A W H T :=
  { state with events := event :: state.events }

/-- `p_ = value`, or the end of a handle. -/
def State.setHandle
    (h : H)
    (value : Option (Word A))
    (state : State A W H T) :
    State A W H T :=
  { state with handle := Function.update state.handle h value }

/-- The value of a handle. -/
def State.handleAt
    (state : State A W H T)
    (h : H) :
    Word A :=
  (state.handle h).getD Word.null

/-- One more reference in flight; null is none. -/
def pushFlight
    (thread : T)
    (tentative : Bool)
    (object : Option A)
    (flights : List (T × Flight A)) :
    List (T × Flight A) :=
  match object with
  | none => flights
  | some a => (thread, ⟨a, tentative⟩) :: flights

/-- One reference in flight less. -/
def popFlight
    (thread : T)
    (tentative : Bool)
    (object : Option A)
    (flights : List (T × Flight A)) :
    List (T × Flight A) :=
  match object with
  | none => flights
  | some a => flights.erase (thread, ⟨a, tentative⟩)

/-- A reference is in flight. -/
def State.push
    (thread : T)
    (tentative : Bool)
    (object : Option A)
    (state : State A W H T) :
    State A W H T :=
  { state with
    flights := pushFlight thread tentative object state.flights }

/-- A reference has landed. -/
def State.pop
    (thread : T)
    (tentative : Bool)
    (object : Option A)
    (state : State A W H T) :
    State A W H T :=
  { state with
    flights := popFlight thread tentative object state.flights }

/-- `AddRef()`; null is a no-op. -/
def State.addRef
    (object : Option A)
    (state : State A W H T) :
    State A W H T :=
  { state with
    count :=
      match object with
      | none => state.count
      | some a => Function.update state.count a (state.count a + 1)
    status :=
      match object with
      | none => state.status
      | some a =>
          if state.count a = 0 then
            Function.update state.status a .owned
          else state.status
    deeds :=
      match object with
      | none => state.deeds
      | some a =>
          if state.count a = 0 then
            .owned a :: .touched a :: state.deeds
          else .touched a :: state.deeds }

/-- `DelRef()`; the last one condemns the object. -/
def State.delRef
    (thread : T)
    (tentative : Bool)
    (a : A)
    (state : State A W H T) :
    State A W H T :=
  { state with
    flights := state.flights.erase (thread, ⟨a, tentative⟩)
    count := Function.update state.count a (state.count a - 1)
    status :=
      if state.count a = 1 then
        Function.update state.status a (.condemned thread)
      else state.status
    releasing :=
      if state.count a = 1 then
        Function.update state.releasing thread (some a)
      else state.releasing
    deeds :=
      if state.count a = 1 then
        .dropped thread a :: .touched a :: state.deeds
      else .touched a :: state.deeds }

/-- End the use of a place. -/
def State.unpin
    (thread : T)
    (pin : Pin W H)
    (state : State A W H T) :
    State A W H T :=
  { state with pins := state.pins.erase (thread, pin) }

end Updates

section Handles

variable [DecidableEq A] [DecidableEq W] [DecidableEq H] [DecidableEq T]

/-- Never enabled. -/
def stuck : Program A W H T Unit :=
  Prog.atomic fun _ _ => none

/-- End the use of a place. -/
def unpin
    (thread : T)
    (pin : Pin W H) :
    Program A W H T Unit :=
  Prog.write (State.unpin thread pin)

/-- Storage for a local handle. -/
def newCell
    (thread : T) :
    Program A W H T H :=
  Prog.atomic fun state choice =>
    match choice with
    | .cell h =>
        if state.handle h = none ∧
            ∀ entry ∈ state.pins, entry.2.place ≠ .handle h then
          some (h,
            { state with
              pins := (thread, ⟨.handle h, true⟩) :: state.pins })
        else none
    | _ => none

/-- `DelRef()` on a reference in flight: `fetch_sub(1) == 1`. -/
def delRef
    (thread : T)
    (tentative : Bool)
    (a : A) :
    Program A W H T Bool :=
  Prog.atomic fun state _ =>
    some (decide (state.count a = 1),
      state.delRef thread tentative a)

variable (dispose : A → Program A W H T Unit)

/-- `Disposal::release(p)`. -/
def release
    (thread : T)
    (tentative : Bool) :
    Option A → Program A W H T Unit
  | none => pure ()
  | some a => do
      let last ← delRef thread tentative a
      if last then dispose a else pure ()

/-- `AddRef()` on the pointee of a handle, for a word or another handle. -/
def addRef
    (thread : T)
    (object : Option A) :
    Program A W H T Unit :=
  Prog.write fun state => (state.addRef object).push thread false object

/-- The handle gives its reference away and is no longer constructed. -/
def take
    (thread : T)
    (h : H) :
    Program A W H T (Option A) :=
  Prog.atomic fun state _ =>
    let old := (state.handleAt h).ptr
    some (old, (state.setHandle h none).push thread false old)

/-- A handle takes a reference over that is in flight: `adopt_word`. -/
def adopt
    (thread : T)
    (h : H)
    (word : Word A) :
    Program A W H T Unit :=
  Prog.write fun state =>
    (state.setHandle h (some word)).pop thread false word.ptr

/-- `shared_ptr_type()` -/
def constructNull
    (dst : H) :
    Program A W H T Unit :=
  Prog.write (State.setHandle dst (some Word.null))

/-- The copy constructor, `set_mark()` and the lvalue `get_unmarked()`. -/
def copyConstruct
    (remark : Remark)
    (dst src : H) :
    Program A W H T Unit :=
  Prog.write fun state =>
    let word := state.handleAt src
    (state.addRef word.ptr).setHandle dst (some (remark.apply word))

/-- The move constructor and the rvalue `get_unmarked()`. -/
def moveConstruct
    (remark : Remark)
    (dst src : H) :
    Program A W H T Unit :=
  Prog.write fun state =>
    (state.setHandle src (some Word.null)).setHandle dst
      (some (remark.apply (state.handleAt src)))

/-- The first half of the move assignment: `p_ = x.p_; x.p_ = nullptr`. -/
def takeOver
    (thread : T)
    (dst src : H) :
    Program A W H T (Option A) :=
  Prog.atomic fun state _ =>
    let old := (state.handleAt dst).ptr
    some (old,
      ((state.setHandle dst (some (state.handleAt src))).setHandle src
        (some Word.null)).push thread false old)

/-- `~shared_ptr_type()` -/
def destroyHandle
    (thread : T)
    (h : H) :
    Program A W H T Unit := do
  let old ← take thread h
  release dispose thread false old

/-- A local handle goes out of scope. -/
def leaveScope
    (thread : T)
    (h : H) :
    Program A W H T Unit := do
  destroyHandle dispose thread h
  unpin thread ⟨.handle h, true⟩

/-- The second half of the copy assignment: the old pointee is released. -/
def replace
    (thread : T)
    (dst : H)
    (word : Word A) :
    Program A W H T Unit := do
  let old ← take thread dst
  release dispose thread false old
  adopt thread dst word

/--
The copy assignment.  The source is not used once it has been read: the release
may destroy it.
-/
def copyAssign
    (thread : T)
    (dst src : H) :
    Program A W H T Unit :=
  if dst = src then pure ()
  else do
    let word ← Prog.read fun state => state.handleAt src
    addRef thread word.ptr
    unpin thread ⟨.handle src, false⟩
    replace dispose thread dst word

/-- The move assignment; the source may die in the release as well. -/
def moveAssign
    (thread : T)
    (dst src : H) :
    Program A W H T Unit :=
  if dst = src then pure ()
  else do
    let old ← takeOver thread dst src
    unpin thread ⟨.handle src, true⟩
    release dispose thread false old

/-- `new U` at a free address; its member words are null. -/
def allocate
    (config : Config A W)
    (thread : T) :
    Program A W H T A :=
  Prog.atomic fun state choice =>
    match choice with
    | .address a =>
        if state.status a = .free then
          some (a,
            { state with
              status := Function.update state.status a (.fresh thread)
              count := Function.update state.count a 0
              word := fun w =>
                if config.home w = some a then some Word.null
                else state.word w
              deeds := .allocated thread a :: state.deeds
              events :=
                (config.members a).map (fun w => .built w Word.null) ++
                  state.events })
        else none
    | _ => none

/-- `shared_ptr_type(new U)` -/
def make
    (config : Config A W)
    (thread : T)
    (dst : H) :
    Program A W H T Unit := do
  let a ← allocate config thread
  Prog.write fun state =>
    (state.addRef (some a)).setHandle dst (some ⟨some a, false⟩)

/-- `use_count()` of a handle: 0 for null. -/
def useCount
    (h : H) :
    Program A W H T Nat :=
  Prog.atomic fun state _ =>
    match (state.handleAt h).ptr with
    | none => some (0, state)
    | some a => some (state.count a, state.did (.touched a))

end Handles

section Words

variable [DecidableEq A] [DecidableEq W] [DecidableEq H] [DecidableEq T]

/-- The thread exchanges a reference of its own for the one of a word. -/
def State.swap
    (call : T × Nat)
    (w : W)
    (old new : Word A)
    (state : State A W H T) :
    State A W H T :=
  ((({ state with word := Function.update state.word w (some new) } :
    State A W H T).note (.swapped call w old new)).pop call.1 false
      new.ptr).push call.1 false old.ptr

/-- `aptr_.load()` of the hazard pointer word. -/
def loadWord
    (call : T × Nat)
    (w : W) :
    Program A W H T (Word A) :=
  Prog.atomic fun state _ =>
    match state.word w with
    | none => some (Word.null, state.did (.strayed w))
    | some value => some (value, state.note (.read call w value))

/-- `aptr_.exchange(new)`. -/
def exchange
    (call : T × Nat)
    (w : W)
    (new : Word A) :
    Program A W H T (Word A) :=
  Prog.atomic fun state _ =>
    match state.word w with
    | none => some (Word.null, state.did (.strayed w))
    | some old => some (old, state.swap call w old new)

/-- `aptr_.compare_exchange_strong(observed, new_word)`. -/
def casWord
    (call : T × Nat)
    (w : W)
    (original new : Word A) :
    Program A W H T Bool :=
  Prog.atomic fun state _ =>
    match state.word w with
    | none => some (false, state.did (.strayed w))
    | some observed =>
        if observed = original then
          some (true, state.swap call w observed new)
        else some (false, state)

/-- A word comes into being with a reference in flight. -/
def buildWord
    (thread : T)
    (w : W)
    (value : Word A) :
    Program A W H T Unit :=
  Prog.write fun state =>
    (({ state with word := Function.update state.word w (some value) } :
      State A W H T).note (.built w value)).pop thread false value.ptr

/-- A word ends and leaves its reference to the thread. -/
def unbuildWord
    (thread : T)
    (w : W) :
    Program A W H T (Option A) :=
  Prog.atomic fun state _ =>
    match state.word w with
    | none => some (none, state.did (.strayed w))
    | some old =>
        some (old.ptr,
          (({ state with word := Function.update state.word w none } :
            State A W H T).note (.gone w)).push thread false old.ptr)

end Words

section Spinlock

variable [DecidableEq A] [DecidableEq W] [DecidableEq H] [DecidableEq T]

/-- `aptr_.load()` of the spinlock word: pointer and mark, and the lock bit. -/
def loadRaw
    (w : W) :
    Program A W H T (Word A × Bool) :=
  Prog.atomic fun state _ =>
    match state.word w with
    | none => some ((Word.null, false), state.did (.strayed w))
    | some value => some ((value, (state.lock w).isSome), state)

/--
`aptr_.compare_exchange_weak(val, val | 2)`.  It may fail spuriously; a failure
returns the current word.
-/
def lockWord
    (thread : T)
    (w : W)
    (val : Word A) :
    Program A W H T (Option (Word A × Bool)) :=
  Prog.atomic fun state choice =>
    match state.word w with
    | none => some (some (Word.null, false), state.did (.strayed w))
    | some value =>
        match choice with
        | .fail => some (some (value, (state.lock w).isSome), state)
        | _ =>
            if value = val ∧ state.lock w = none then
              some (none,
                { state with
                  lock := Function.update state.lock w (some thread) })
            else some (some (value, (state.lock w).isSome), state)

/-- The short recheck of a locked word. -/
def recheck
    (w : W) :
    Nat → Word A × Bool → Program A W H T (Word A × Bool)
  | 0, val => pure val
  | tries + 1, _ => do
      let val ← loadRaw w
      if val.2 then recheck w tries val else pure val

/-- `lock()`: the word as it was before locking. -/
def lock
    (thread : T)
    (w : W) :
    Program A W H T (Word A) := do
  let first ← loadRaw w
  Prog.loop first fun val =>
    if val.2 then do
      let seen ← recheck w 8 val
      if seen.2 then do
        let later ← loadRaw w
        Prog.again later
      else Prog.again seen
    else do
      let refreshed ← lockWord thread w val.1
      match refreshed with
      | none => Prog.leave val.1
      | some seen => Prog.again seen

/-- `unlock(val)`. -/
def unlock
    (w : W)
    (val : Word A) :
    Program A W H T Unit :=
  Prog.write fun state =>
    { state with
      word := Function.update state.word w (some val)
      lock := Function.update state.lock w none }

/-- The publishing store, which is also the unlock. -/
def storeUnlock
    (call : T × Nat)
    (w : W)
    (val new : Word A) :
    Program A W H T Unit :=
  Prog.write fun state =>
    { state.swap call w val new with
      lock := Function.update state.lock w none }

/-- A handle for the word that is locked: `adopt_word(val)` and `AddRef()`. -/
def copyLocked
    (call : T × Nat)
    (w : W)
    (val : Word A)
    (dst : H) :
    Program A W H T Unit :=
  Prog.write fun state =>
    ((state.addRef val.ptr).setHandle dst (some val)).note
      (.read call w val)

variable (dispose : A → Program A W H T Unit)

/-- `intr_shared_ptr::load()`. -/
def spinLoad
    (call : T × Nat)
    (w : W)
    (dst : H) :
    Program A W H T Unit := do
  let val ← lock call.1 w
  copyLocked call w val dst
  unlock w val

/-- `intr_shared_ptr::store()`. -/
def spinStore
    (call : T × Nat)
    (w : W)
    (desired : Word A) :
    Program A W H T Unit := do
  addRef call.1 desired.ptr
  let val ← lock call.1 w
  storeUnlock call w val desired
  release dispose call.1 false val.ptr

/-- `intr_shared_ptr::compare_exchange_strong()`. -/
def spinCompareExchange
    (call : T × Nat)
    (w : W)
    (original desired : Word A)
    (expected : H) :
    Program A W H T Bool := do
  let val ← lock call.1 w
  if val = original then do
    addRef call.1 desired.ptr
    storeUnlock call w val desired
    release dispose call.1 false val.ptr
    pure true
  else do
    let res ← newCell call.1
    copyLocked call w val res
    unlock w val
    let old ← takeOver call.1 expected res
    release dispose call.1 false old
    leaveScope dispose call.1 res
    pure false

end Spinlock

section HazardPointer

variable [DecidableEq A] [DecidableEq W] [DecidableEq H] [DecidableEq T]

/-- `make_hazard_pointer()`: a record for the thread, or `bad_alloc`. -/
def makeHazardPointer : Program A W H T Bool :=
  Prog.atomic fun state choice =>
    match choice with
    | .fail => some (false, state)
    | _ => some (true, state)

/-- The record of a thread is aimed elsewhere or cleared. -/
def aim
    (thread : T)
    (target : Option A) :
    Program A W H T Unit :=
  Prog.write fun state =>
    { state with
      hazard := Function.update state.hazard thread target
      records := thread :: state.records
      guards := fun a => (state.guards a).filter (· ≠ thread) }

/-- The load of the count in `TryAddRef()` -/
def loadCount
    (a : A) :
    Program A W H T Nat :=
  Prog.atomic fun state _ =>
    some (state.count a, state.did (.touched a))

/-- `count_.compare_exchange_weak(count, count + 1)`. -/
def casCount
    (thread : T)
    (a : A)
    (count : Nat) :
    Program A W H T (Option Nat) :=
  Prog.atomic fun state choice =>
    match choice with
    | .fail => some (some (state.count a), state.did (.touched a))
    | _ =>
        if state.count a = count then
          some (none, (state.addRef (some a)).push thread true (some a))
        else some (some (state.count a), state.did (.touched a))

/-- `TryAddRef()` -/
def tryAddRef
    (thread : T)
    (a : A) :
    Program A W H T Bool := do
  let first ← loadCount a
  Prog.loop first fun count =>
    if count = 0 then Prog.leave false
    else do
      let refreshed ← casCount thread a count
      match refreshed with
      | none => Prog.leave true
      | some seen =>
          if seen = 0 then do
            let again ← loadCount a
            Prog.again again
          else Prog.again seen

/-- How the protect-and-validate loop of a load ends. -/
inductive Protected (A : Type) where
  /-- The word has no pointee; it is returned as it is. -/
  | empty (word : Word A)
  /-- The pointee is counted for the load. -/
  | counted (a : A)

/-- The protect-and-validate loop of a load: steps 2 to 5. -/
def protect
    (call : T × Nat)
    (w : W)
    (first : A) :
    Program A W H T (Protected A) :=
  Prog.loop first fun x => do
    aim call.1 (some x)
    let reloaded ← loadWord call w
    if reloaded.ptr ≠ some x then
      match reloaded.ptr with
      | none => Prog.leave (.empty reloaded)
      | some next => Prog.again next
    else do
      let taken ← tryAddRef call.1 x
      if taken then Prog.leave (.counted x)
      else do
        let word ← loadWord call w
        match word.ptr with
        | none => Prog.leave (.empty word)
        | some next => Prog.again next

/-- The re-validation: step 6. -/
def revalidate
    (call : T × Nat)
    (w : W)
    (x : A) :
    Program A W H T (Word A) :=
  Prog.atomic fun state _ =>
    match state.word w with
    | none => some (Word.null, state.did (.strayed w))
    | some value =>
        if value.ptr = some x then
          some (value,
            ((state.note (.read call w value)).pop call.1 true
              (some x)).push call.1 false (some x))
        else some (value, state.note (.read call w value))

variable (dispose : A → Program A W H T Unit)

/-- `intr_shared_ptr_hp::load()`; `false` if it threw. -/
def hpLoad
    (call : T × Nat)
    (w : W)
    (dst : H) :
    Program A W H T Bool := do
  let first ← loadWord call w
  Prog.loop first fun word =>
    match word.ptr with
    | none => do
        adopt call.1 dst word
        Prog.leave true
    | some x => do
        let acquired ← makeHazardPointer
        if acquired then do
          let found ← protect call w x
          match found with
          | .empty value => do
              adopt call.1 dst value
              aim call.1 none
              Prog.leave true
          | .counted y => do
              let value ← revalidate call w y
              if value.ptr = some y then do
                adopt call.1 dst value
                aim call.1 none
                Prog.leave true
              else do
                aim call.1 none
                release dispose call.1 true (some y)
                Prog.again value
        else Prog.leave false

/-- `intr_shared_ptr_hp::store()`. -/
def hpStore
    (call : T × Nat)
    (w : W)
    (desired : Word A) :
    Program A W H T Unit := do
  addRef call.1 desired.ptr
  let old ← exchange call w desired
  release dispose call.1 false old.ptr

/--
`compare_exchange()` of the hazard pointer word, strong and weak; `none` if the
load on the failure path threw.
-/
def hpCompareExchange
    (call : T × Nat)
    (strong : Bool)
    (w : W)
    (original desired : Word A)
    (expected : H) :
    Program A W H T (Option Bool) :=
  Prog.loop () fun _ => do
    addRef call.1 desired.ptr
    let swapped ← casWord call w original desired
    if swapped then do
      release dispose call.1 false original.ptr
      Prog.leave (some true)
    else do
      release dispose call.1 false desired.ptr
      let current ← newCell call.1
      let loaded ← hpLoad dispose call w current
      if loaded then do
        let refreshed ← Prog.read fun state => state.handleAt current
        let old ← takeOver call.1 expected current
        release dispose call.1 false old
        leaveScope dispose call.1 current
        if strong = false ∨ refreshed ≠ original then
          Prog.leave (some false)
        else Prog.again ()
      else do
        unpin call.1 ⟨.handle current, true⟩
        Prog.leave none

end HazardPointer

section Operations

variable [DecidableEq A] [DecidableEq W] [DecidableEq H] [DecidableEq T]

variable
  (config : Config A W)
  (dispose : A → Program A W H T Unit)

/-- `load()` of the pointer in use into a new handle; `false` if it threw. -/
def load
    (call : T × Nat)
    (w : W)
    (dst : H) :
    Program A W H T Bool :=
  match config.flavour with
  | .spinning => do
      spinLoad call w dst
      pure true
  | .hazard => hpLoad dispose call w dst

/-- `store(desired)`. -/
def store
    (call : T × Nat)
    (w : W)
    (desired : H) :
    Program A W H T Unit := do
  let word ← Prog.read fun state => state.handleAt desired
  match config.flavour with
  | .spinning => spinStore dispose call w word
  | .hazard => hpStore dispose call w word

/-- `compare_exchange_strong` and `compare_exchange_weak`. -/
def compareExchange
    (call : T × Nat)
    (strong : Bool)
    (w : W)
    (expected desired : H) :
    Program A W H T (Option Bool) := do
  let original ← Prog.read fun state => state.handleAt expected
  let new ← Prog.read fun state => state.handleAt desired
  match config.flavour with
  | .spinning => do
      let swapped ← spinCompareExchange dispose call w original new expected
      pure (some swapped)
  | .hazard =>
      hpCompareExchange dispose call strong w original new expected

end Operations

section Disposal

variable [DecidableEq A] [DecidableEq W] [DecidableEq H] [DecidableEq T]

/-- `delete p` begins. -/
def deleteObject
    (thread : T)
    (a : A) :
    Program A W H T Unit :=
  Prog.write fun state =>
    { state with
      status := Function.update state.status a (.dying thread)
      releasing := Function.update state.releasing thread none
      deeds := .destroyed thread a :: .disposed thread a :: state.deeds }

/-- `p->retire()`: the records that name the object protect it from now on. -/
def retire
    (thread : T)
    (a : A) :
    Program A W H T Unit :=
  Prog.write fun state =>
    { state with
      status := Function.update state.status a .retired
      releasing := Function.update state.releasing thread none
      guards :=
        Function.update state.guards a
          (state.records.filter fun other =>
            state.hazard other = some a)
      deeds := .disposed thread a :: state.deeds }

/--
A scan finds a retired object that no record has protected since before it was
retired, or ends.
-/
def reclaim
    (thread : T) :
    Program A W H T (Option A) :=
  Prog.atomic fun state choice =>
    match choice with
    | .address a =>
        if state.status a = .retired ∧ state.guards a = [] then
          some (some a,
            { state with
              status := Function.update state.status a (.dying thread)
              deeds := .destroyed thread a :: state.deeds })
        else none
    | .done => some (none, state)
    | _ => none

/-- The memory of a destroyed object is free again. -/
def freeObject
    (a : A) :
    Program A W H T Unit :=
  Prog.write fun state =>
    { state with
      status := Function.update state.status a .free
      deeds := .freed a :: state.deeds }

/-- What a thread does when a count reaches 0, and when it scans. -/
structure Services (A W H T : Type) where
  dispose : A → Program A W H T Unit
  scan : Program A W H T Unit

/-- The body of a destructor, given what disposes of other objects. -/
abbrev Body (A W H T : Type) :=
  Services A W H T → T → A → Program A W H T Unit

/-- `~intr_shared_ptr` of member words. -/
def unbuildAll
    (dispose : A → Program A W H T Unit)
    (thread : T) :
    List W → Program A W H T Unit
  | [] => pure ()
  | w :: rest => do
      let old ← unbuildWord thread w
      release dispose thread false old
      unbuildAll dispose thread rest

/-- The destructor of an object: its body, then its members. -/
def destruct
    (config : Config A W)
    (body : Body A W H T)
    (services : Services A W H T)
    (thread : T)
    (a : A) :
    Program A W H T Unit := do
  body services thread a
  unbuildAll services.dispose thread (config.members a)
  freeObject a

/-- A scan destroys any number of retired objects. -/
def scan
    (config : Config A W)
    (body : Body A W H T)
    (services : Services A W H T)
    (thread : T) :
    Program A W H T Unit :=
  Prog.loop () fun _ => do
    let found ← reclaim thread
    match found with
    | none => Prog.leave ()
    | some a => do
        destruct config body services thread a
        Prog.again ()

end Disposal

section Nesting

variable [DecidableEq A] [DecidableEq W] [DecidableEq H] [DecidableEq T]

/--
What a release does when the count reached 0.  Destructors nest: the argument
bounds the nesting, and a thread that would go deeper takes no further step.
-/
def services
    (config : Config A W)
    (body : Body A W H T) :
    Nat → T → Services A W H T
  | 0, _ => ⟨fun _ => stuck, stuck⟩
  | depth + 1, thread =>
      let inner := services config body depth thread
      { dispose := fun a =>
          match config.flavour with
          | .spinning => do
              deleteObject thread a
              destruct config body inner thread a
          | .hazard => do
              retire thread a
              scan config body inner thread
        scan := scan config body inner thread }

end Nesting

section Discipline

variable [DecidableEq W] [DecidableEq H]

/-- The uses of the running calls may coincide. -/
def Disciplined
    (pins : List (T × Pin W H)) : Prop :=
  pins.Pairwise fun first second => first.2.Compatible second.2

instance
    (pins : List (T × Pin W H)) :
    Decidable (Disciplined pins) :=
  inferInstanceAs
    (Decidable
      (pins.Pairwise fun first second => first.2.Compatible second.2))

end Discipline

end ConcurrentCpp.IntrPointer
