import Mathlib.Algebra.Group.Int.Defs
import Mathlib.Algebra.Group.Nat.Defs
import ConcurrentCpp.SpinLock

namespace ConcurrentCpp.AppendDeque

/-!
# The append-only deque

`ConcurrentAppendDeque<T, BlockSize>`: elements live in blocks that never
move, found through an array of block pointers, the directory.  Writers are
serialised by a spinlock; readers take a size and a directory with one load
each and use no lock.  A larger directory replaces a smaller one, which is
kept for the readers that still hold it.

`size_t` values are natural numbers below `2 ^ 64`, reduced where the source
computes with them.  Every access to a directory entry goes through its array:
an access outside it, through a null pointer or to an entry that was never
written makes the state `wild` for good.

A scheduler picks the calls of the clients, the addresses of new arrays and
blocks, and the allocations and constructors that throw.  The history records
what happened and no step reads it.
-/

variable {D B V T α : Type}

/-- `size_t` arithmetic is modulo this number. -/
def wordSize : Nat := 2 ^ 64

/-- `index - 1` of a `size_t`. -/
def previous
    (index : Nat) :
    Nat :=
  if index = 0 then wordSize - 1 else index - 1

/--
No array of pointers is as long as this: its bytes would exceed the largest
size of an object, and `new` throws before it tries.
-/
def arrayBound : Nat := 2 ^ 60

/--
Fewer than this many elements have storage at the same time: an element has at
least one byte and the addresses of a program lie in the lower half of the
address space.
-/
def storageBound : Nat := 2 ^ 63

/-- The parameters of a deque; `initial` is a value-initialized element. -/
structure Config (V : Type) where
  shift : Nat
  narrow : shift < 64
  initial : V

namespace Config

/-- `BlockSize`, a power of two. -/
def blockSize
    (config : Config V) :
    Nat :=
  2 ^ config.shift

/-- `BlockMask`. -/
def blockMask
    (config : Config V) :
    Nat :=
  config.blockSize - 1

/-- `index >> BlockShift`. -/
def blockIndex
    (config : Config V)
    (index : Nat) :
    Nat :=
  index >>> config.shift

/-- `index & BlockMask`. -/
def localOffset
    (config : Config V)
    (index : Nat) :
    Nat :=
  index &&& config.blockMask

/-- `(count + BlockMask) >> BlockShift`. -/
def blocksFor
    (config : Config V)
    (count : Nat) :
    Nat :=
  ((count + config.blockMask) % wordSize) >>> config.shift

/-- `capacity << BlockShift`. -/
def slotsOf
    (config : Config V)
    (capacity : Nat) :
    Nat :=
  (capacity <<< config.shift) % wordSize

end Config

/-- An entry of a directory; a new array holds no values yet. -/
inductive Entry (B : Type) where
  | garbage
  | null
  | block (block : B)
  deriving DecidableEq

/-- A pointer to an element: a block and a distance from its first slot. -/
structure Address (B : Type) where
  block : B
  offset : Int
  deriving DecidableEq

/--
The members of the deque and the storage that they refer to.  Every block that
was ever allocated is listed, latest first; so is, for the proof, every array
that was ever stored to `directory_`.
-/
structure Data (D B V : Type) where
  directory : Option D
  capacity : Nat
  retired : List D
  size : Nat
  arrays : D → Option (List (Entry B))
  blocks : List B
  memory : B → Nat → Option V
  published : List D

namespace Data

/-- The entry at an index of an array, if the access is inside it. -/
def entryAt
    (data : Data D B V)
    (directory : Option D)
    (index : Nat) :
    Option (Entry B) := do
  let array ← directory
  let entries ← data.arrays array
  entries[index]?

/-- The block that an array refers to at an index. -/
def blockAt
    (data : Data D B V)
    (directory : Option D)
    (index : Nat) :
    Option B :=
  match data.entryAt directory index with
  | some (.block block) => some block
  | _ => none

/-- Where an element is found through an array. -/
def addressAt
    (config : Config V)
    (data : Data D B V)
    (directory : Option D)
    (index : Nat) :
    Option (Address B) :=
  (data.blockAt directory (config.blockIndex index)).map fun block =>
    ⟨block, config.localOffset index⟩

end Data

/-- The calls that writers make; `push_back` is `emplace_back`. -/
inductive Call (V : Type) where
  | emplaceBack (value : V)
  | resize (newSize : Nat)
  | reserve (newCapacity : Nat)
  | capacity

/-- What a call gives back to its caller. -/
inductive Outcome where
  | index (index : Nat)
  | count (count : Nat)
  | done
  | threw
  deriving DecidableEq

/-- An iterator. -/
structure Iterator (B : Type) where
  index : Nat
  current : Option (Address B)

/--
An iterator variable of a reader.  The reader keeps the index that it asked
for and the sum of the displacements that it has asked for since.
-/
structure Variable (B : Type) where
  iterator : Iterator B
  start : Nat
  moved : Int

/-- The index where the reader takes its iterator to be. -/
def Variable.position
    (held : Variable B) :
    Nat :=
  ((held.start + held.moved) % (wordSize : Int)).toNat

/-- The reader asks for a change that is to move the iterator that far. -/
def Variable.displace
    (distance : Int)
    (change : Iterator B → Iterator B)
    (held : Variable B) :
    Variable B :=
  ⟨change held.iterator, held.start, held.moved + distance⟩

/-- The calls that readers make, each on its own iterators. -/
inductive Visit (T : Type) where
  | size
  | subscript (index : Nat)
  | atIndex (index : Nat)
  | front
  | back
  | iterate (slot index : Nat)
  | beginAt (slot : Nat)
  | endAt (slot : Nat)
  | increment (slot : Nat)
  | decrement (slot : Nat)
  | advance (slot : Nat) (distance : Int)
  | retreat (slot : Nat) (distance : Int)
  | copy (slot : Nat) (owner : T) (source : Nat)
  | dereference (slot : Nat)
  | subscriptFrom (slot : Nat) (distance : Int)

/-- What happened. -/
inductive Event (D B V T : Type) where
  /-- A writer starts a call. -/
  | called (thread : T) (call : Call V)
  /-- An element was constructed. -/
  | constructed (thread : T) (index : Nat) (address : Address B)
  /-- A new size was stored to `size_`. -/
  | resized (thread : T) (old new : Nat)
  /-- A call gave back the lock; it had found the data `before`. -/
  | released
      (thread : T) (call : Call V)
      (before after : Data D B V) (outcome : Outcome)
  /-- A call of a writer returned or threw. -/
  | returned (thread : T) (call : Call V) (outcome : Outcome)
  /-- `operator[]` gave a reference. -/
  | referred (thread : T) (index : Nat) (address : Option (Address B))
  /-- An iterator was dereferenced that its reader takes to be there. -/
  | dereferenced (thread : T) (index : Nat) (address : Option (Address B))

/--
The shared state.  The holder of the lock with the data it found, the sizes
that threads have observed, and the history are kept for the proof.
-/
structure State (D B V T : Type) where
  lock : Bool
  data : Data D B V
  wild : Bool
  iterators : T → Nat → Option (Variable B)
  holder : Option (T × Data D B V)
  observed : T → Nat
  events : List (Event D B V T)

/-- What the scheduler decides. -/
inductive Choice (D B V T : Type) where
  | proceed
  | fail
  | array (address : D)
  | block (address : B)
  | call (call : Call V)
  | visit (visit : Visit T)

/-- Programs of the deque. -/
abbrev Program (D B V T : Type) := Prog (State D B V T) (Choice D B V T)

namespace State

/-- Add to the history. -/
def record
    (event : Event D B V T)
    (state : State D B V T) :
    State D B V T :=
  { state with events := event :: state.events }

/-- The program has done something undefined. -/
def goWild
    (state : State D B V T) :
    State D B V T :=
  { state with wild := true }

end State

/-- Record an event. -/
def record
    (event : Event D B V T) :
    Program D B V T Unit :=
  Prog.write (State.record event)

/-- `directory_.load()`. -/
def loadDirectory : Program D B V T (Option D) :=
  Prog.read fun state => state.data.directory

/-- Read `directory_capacity_`. -/
def loadCapacity : Program D B V T Nat :=
  Prog.read fun state => state.data.capacity

/-- `size_.load()` of a writer. -/
def loadSize : Program D B V T Nat :=
  Prog.read fun state => state.data.size

/-- `dir[index]`. -/
def readEntry
    (directory : Option D)
    (index : Nat) :
    Program D B V T (Entry B) :=
  Prog.atomic fun state _ =>
    match state.data.entryAt directory index with
    | some .null => some (.null, state)
    | some (.block block) => some (.block block, state)
    | _ => some (.garbage, state.goWild)

/-- `&dir[index >> BlockShift][index & BlockMask]`. -/
def elementAddress
    (config : Config V)
    (directory : Option D)
    (index : Nat) :
    Program D B V T (Option (Address B)) :=
  Prog.atomic fun state _ =>
    match state.data.addressAt config directory index with
    | some address => some (some address, state)
    | none => some (none, state.goWild)

section Writers

variable [DecidableEq D] [DecidableEq B]

/-- The data with other entries in one array. -/
def Data.withArray
    (data : Data D B V)
    (array : D)
    (entries : List (Entry B)) :
    Data D B V :=
  { data with arrays := Function.update data.arrays array (some entries) }

/-- The state after `dir[index] = entry`. -/
def State.setEntry
    (state : State D B V T)
    (directory : Option D)
    (index : Nat)
    (entry : Entry B) :
    State D B V T :=
  match directory with
  | none => state.goWild
  | some array =>
      match state.data.arrays array with
      | none => state.goWild
      | some entries =>
          if index < entries.length then
            { state with
              data := state.data.withArray array (entries.set index entry) }
          else
            state.goWild

/-- `dir[index] = entry`. -/
def writeEntry
    (directory : Option D)
    (index : Nat)
    (entry : Entry B) :
    Program D B V T Unit :=
  Prog.write fun state => state.setEntry directory index entry

/-- `std::make_unique_for_overwrite<T*[]>(length)`. -/
def allocateArray
    (length : Nat) :
    Program D B V T (Option D) :=
  Prog.atomic fun state choice =>
    match choice with
    | .fail => some (none, state)
    | .array address =>
        if length < arrayBound ∧ state.data.arrays address = none then
          some (some address,
            { state with
              data :=
                state.data.withArray address
                  (List.replicate length .garbage) })
        else
          none
    | _ => none

/-- The owning pointer deletes an array that was not published. -/
def freeArray
    (array : D) :
    Program D B V T Unit :=
  Prog.write fun state =>
    { state with
      data :=
        { state.data with
          arrays := Function.update state.data.arrays array none } }

/-- `for (i = 0; i < directory_capacity_; ++i) new_dir[i] = old_dir[i]`. -/
def copyEntries
    (oldDirectory : Option D)
    (newDirectory : D) :
    Program D B V T Unit :=
  Prog.loop 0 fun index => do
    let capacity ← loadCapacity
    if index < capacity then do
      let entry ← readEntry oldDirectory index
      writeEntry (some newDirectory) index entry
      Prog.again (index + 1)
    else
      Prog.leave ()

/-- The rest of the entries become null. -/
def clearEntries
    (newDirectory : D)
    (newCapacity start : Nat) :
    Program D B V T Unit :=
  Prog.loop start fun index =>
    if index < newCapacity then do
      writeEntry (some newDirectory) index .null
      Prog.again (index + 1)
    else
      Prog.leave ()

/-- `if (old_dir) retired_directories_.push_back(old_dir)`. -/
def retire
    (oldDirectory : Option D) :
    Program D B V T Bool :=
  Prog.atomic fun state choice =>
    match oldDirectory, choice with
    | none, _ => some (true, state)
    | some _, .fail => some (false, state)
    | some array, _ =>
        some (true,
          { state with
            data :=
              { state.data with retired := state.data.retired ++ [array] } })

/-- `directory_.store(new_dir.release())`. -/
def publish
    (array : D) :
    Program D B V T Unit :=
  Prog.write fun state =>
    { state with
      data :=
        { state.data with
          directory := some array
          published := array :: state.data.published } }

/-- `directory_capacity_ = new_capacity`. -/
def storeCapacity
    (newCapacity : Nat) :
    Program D B V T Unit :=
  Prog.write fun state =>
    { state with data := { state.data with capacity := newCapacity } }

/-- `reallocate_directory` once the new array is there. -/
def replaceDirectory
    (newDirectory : D)
    (newCapacity : Nat) :
    Program D B V T Bool := do
  let oldDirectory ← loadDirectory
  copyEntries oldDirectory newDirectory
  let start ← loadCapacity
  clearEntries newDirectory newCapacity start
  let recorded ← retire oldDirectory
  if recorded then do
    publish newDirectory
    storeCapacity newCapacity
    pure true
  else do
    freeArray newDirectory
    pure false

/-- `reallocate_directory(new_capacity)`; `false` means that it threw. -/
def reallocateDirectory
    (newCapacity : Nat) :
    Program D B V T Bool := do
  let allocated ← allocateArray newCapacity
  match allocated with
  | none => pure false
  | some newDirectory => replaceDirectory newDirectory newCapacity

/-- `if (needed) reallocate_directory(new_capacity)`. -/
def reallocateIf
    (needed : Bool)
    (newCapacity : Nat) :
    Program D B V T Bool :=
  if needed then reallocateDirectory newCapacity else pure true

/-- `allocate_block()`. -/
def allocateBlock
    (config : Config V) :
    Program D B V T (Option B) :=
  Prog.atomic fun state choice =>
    match choice with
    | .fail => some (none, state)
    | .block address =>
        if address ∉ state.data.blocks ∧
            (state.data.blocks.length + 1) * config.blockSize <
              storageBound then
          some (some address,
            { state with
              data :=
                { state.data with
                  blocks := address :: state.data.blocks } })
        else
          none
    | _ => none

/-- `if (!dir[block_idx]) dir[block_idx] = allocate_block()`. -/
def ensureBlock
    (config : Config V)
    (directory : Option D)
    (blockIndex : Nat) :
    Program D B V T Bool := do
  let entry ← readEntry directory blockIndex
  match entry with
  | .null => do
      let allocated ← allocateBlock config
      match allocated with
      | none => pure false
      | some block => do
          writeEntry directory blockIndex (.block block)
          pure true
  | _ => pure true

/-- The data with a value at an address. -/
def Data.withValue
    (data : Data D B V)
    (address : Address B)
    (value : V) :
    Data D B V :=
  { data with
    memory :=
      Function.update data.memory address.block
        (Function.update (data.memory address.block)
          address.offset.toNat (some value)) }

/-- The state after an element was constructed. -/
def State.construct
    (thread : T)
    (index : Nat)
    (address : Option (Address B))
    (value : V)
    (state : State D B V T) :
    State D B V T :=
  match address with
  | none => state.goWild
  | some address =>
      ({ state with data := state.data.withValue address value } :
        State D B V T).record (.constructed thread index address)

/-- `std::construct_at(address, args...)`; `false` means that it threw. -/
def constructElement
    (thread : T)
    (index : Nat)
    (address : Option (Address B))
    (value : V) :
    Program D B V T Bool :=
  Prog.atomic fun state choice =>
    match choice with
    | .fail => some (false, state)
    | _ => some (true, state.construct thread index address value)

/-- `std::construct_at(address)`, which may not throw. -/
def valueInitialize
    (config : Config V)
    (thread : T)
    (index : Nat)
    (address : Option (Address B)) :
    Program D B V T Unit :=
  Prog.write (State.construct thread index address config.initial)

/-- `size_.store(new_size)`. -/
def storeSize
    (thread : T)
    (oldSize newSize : Nat) :
    Program D B V T Unit :=
  Prog.write fun state =>
    ({ state with data := { state.data with size := newSize } } :
      State D B V T).record (.resized thread oldSize newSize)

/-- The lock `spinlock_`. -/
def spin : SpinLock (State D B V T) where
  word state := state.lock
  store held state := { state with lock := held }

/-- Note who has taken the lock and what it found. -/
def taking
    (thread : T)
    (state : State D B V T) :
    State D B V T :=
  { state with holder := some (thread, state.data) }

/-- Note who gives the lock back and what it leaves. -/
def releasing
    (thread : T)
    (call : Call V)
    (outcome : Outcome)
    (state : State D B V T) :
    State D B V T :=
  match state.holder with
  | none => state
  | some (_, before) =>
      ({ state with holder := none } : State D B V T).record
        (.released thread call before state.data outcome)

/-- A body under `std::lock_guard lock(spinlock_)`. -/
def locked
    (thread : T)
    (call : Call V)
    (body : Program D B V T Outcome) :
    Program D B V T Outcome := do
  spin.lock (taking thread)
  let outcome ← body
  spin.unlock (releasing thread call outcome)
  pure outcome

/-- The end of `emplace_back`, from the construction on. -/
def constructBack
    (config : Config V)
    (thread : T)
    (value : V)
    (directory : Option D)
    (size : Nat) :
    Program D B V T Outcome := do
  let address ← elementAddress config directory size
  let built ← constructElement thread size address value
  if built then do
    storeSize thread size ((size + 1) % wordSize)
    pure (.index size)
  else
    pure .threw

/-- `emplace_back` once the directory is large enough. -/
def appendAt
    (config : Config V)
    (thread : T)
    (value : V)
    (size : Nat) :
    Program D B V T Outcome := do
  let directory ← loadDirectory
  let backed ← ensureBlock config directory (config.blockIndex size)
  if backed then
    constructBack config thread value directory size
  else
    pure .threw

/-- The body of `emplace_back`. -/
def append
    (config : Config V)
    (thread : T)
    (value : V) :
    Program D B V T Outcome := do
  let size ← loadSize
  let capacity ← loadCapacity
  let grown ←
    reallocateIf (capacity ≤ config.blockIndex size)
      (if capacity = 0 then 1 else (capacity * 2) % wordSize)
  if grown then
    appendAt config thread value size
  else
    pure .threw

/-- `emplace_back(args...)`. -/
def emplaceBack
    (config : Config V)
    (thread : T)
    (value : V) :
    Program D B V T Outcome :=
  locked thread (.emplaceBack value) (append config thread value)

/-- The loop of `resize`; `false` means that an allocation threw. -/
def fill
    (config : Config V)
    (thread : T)
    (directory : Option D)
    (newSize size : Nat) :
    Program D B V T Bool :=
  Prog.loop size fun index =>
    if index < newSize then do
      let backed ←
        ensureBlock config directory (config.blockIndex index)
      if backed then do
        let address ← elementAddress config directory index
        valueInitialize config thread index address
        Prog.again (index + 1)
      else
        Prog.leave false
    else
      Prog.leave true

/-- `resize` once the directory is large enough. -/
def fillTo
    (config : Config V)
    (thread : T)
    (newSize size : Nat) :
    Program D B V T Outcome := do
  let directory ← loadDirectory
  let filled ← fill config thread directory newSize size
  if filled then do
    storeSize thread size newSize
    pure .done
  else
    pure .threw

/-- The body of `resize`, from the second check on. -/
def grow
    (config : Config V)
    (thread : T)
    (newSize : Nat) :
    Program D B V T Outcome := do
  let size ← loadSize
  if size < newSize then do
    let newCapacity := config.blocksFor newSize
    let capacity ← loadCapacity
    let grown ← reallocateIf (capacity < newCapacity) newCapacity
    if grown then
      fillTo config thread newSize size
    else
      pure .threw
  else
    pure .done

/-- The body of `reserve`. -/
def extend
    (config : Config V)
    (newCapacity : Nat) :
    Program D B V T Outcome := do
  let capacity ← loadCapacity
  let grown ←
    reallocateIf (config.slotsOf capacity < newCapacity)
      (config.blocksFor newCapacity)
  pure (if grown then .done else .threw)

/-- `reserve(new_capacity)`. -/
def reserve
    (config : Config V)
    (thread : T)
    (newCapacity : Nat) :
    Program D B V T Outcome :=
  locked thread (.reserve newCapacity) (extend config newCapacity)

/-- `capacity()`. -/
def capacity
    (config : Config V)
    (thread : T) :
    Program D B V T Outcome :=
  locked thread .capacity do
    let capacity ← loadCapacity
    pure (.count (config.slotsOf capacity))

end Writers

section Readers

variable [DecidableEq T]

/-- `size()`. -/
def size
    (thread : T) :
    Program D B V T Nat :=
  Prog.atomic fun state _ =>
    some (state.data.size,
      { state with
        observed :=
          Function.update state.observed thread
            (max (state.observed thread) state.data.size) })

/-- `operator[](index)`. -/
def subscript
    (config : Config V)
    (thread : T)
    (index : Nat) :
    Program D B V T Unit := do
  let directory ← loadDirectory
  let address ← elementAddress config directory index
  record (.referred thread index address)

/-- `at(index)`; an index out of range throws. -/
def atIndex
    (config : Config V)
    (thread : T)
    (index : Nat) :
    Program D B V T Unit := do
  let count ← size thread
  if index < count then
    subscript config thread index
  else
    pure ()

/-- `back()`; the deque must not be empty. -/
def back
    (config : Config V)
    (thread : T) :
    Program D B V T Unit := do
  let count ← size thread
  subscript config thread (previous count)

namespace Iterator

/-- The pointer moves inside its block. -/
def shifted
    (distance : Int)
    (current : Option (Address B)) :
    Option (Address B) :=
  current.map fun address => ⟨address.block, address.offset + distance⟩

/-- `operator++()`. -/
def increment
    (config : Config V)
    (iterator : Iterator B) :
    Iterator B :=
  let index := (iterator.index + 1) % wordSize
  ⟨index,
    if config.localOffset index = 0 then none
    else shifted 1 iterator.current⟩

/-- `operator--()`. -/
def decrement
    (config : Config V)
    (iterator : Iterator B) :
    Iterator B :=
  ⟨previous iterator.index,
    if config.localOffset iterator.index = 0 then none
    else shifted (-1) iterator.current⟩

/-- The index at a distance, in `size_t` arithmetic. -/
def indexAt
    (iterator : Iterator B)
    (distance : Int) :
    Nat :=
  ((iterator.index + distance) % (wordSize : Int)).toNat

/-- `operator+=(n)`. -/
def advance
    (config : Config V)
    (distance : Int)
    (iterator : Iterator B) :
    Iterator B :=
  if distance = 0 then
    iterator
  else
    let index := iterator.indexAt distance
    ⟨index,
      if config.blockIndex iterator.index = config.blockIndex index then
        shifted distance iterator.current
      else
        none⟩

/-- `-n` of a `ptrdiff_t`; the least value has no opposite and wraps. -/
def opposite
    (distance : Int) :
    Int :=
  (-distance).bmod wordSize

/-- `operator-=(n)`. -/
def retreat
    (config : Config V)
    (distance : Int)
    (iterator : Iterator B) :
    Iterator B :=
  iterator.advance config (opposite distance)

end Iterator

/-- An assignment to an iterator variable of the thread. -/
def State.assign
    (thread : T)
    (slot : Nat)
    (held : Variable B)
    (state : State D B V T) :
    State D B V T :=
  { state with
    iterators :=
      Function.update state.iterators thread
        (Function.update (state.iterators thread) slot (some held)) }

/-- Store an iterator in a variable of the thread. -/
def assign
    (thread : T)
    (slot : Nat)
    (held : Variable B) :
    Program D B V T Unit :=
  Prog.write (State.assign thread slot held)

/-- Move an iterator variable in place; nothing shared is involved. -/
def displace
    (thread : T)
    (slot : Nat)
    (distance : Int)
    (change : Iterator B → Iterator B) :
    Program D B V T Unit :=
  Prog.write fun state =>
    match state.iterators thread slot with
    | none => state
    | some held =>
        state.assign thread slot (held.displace distance change)

/-- `iterator(deque, index)`. -/
def construct
    (config : Config V)
    (thread : T)
    (index : Nat) :
    Program D B V T (Iterator B) := do
  let count ← size thread
  if index < count then do
    let directory ← loadDirectory
    let address ← elementAddress config directory index
    pure ⟨index, address⟩
  else
    pure ⟨index, none⟩

/-- `operator*()`: the cached pointer, resolved if there is none. -/
def dereference
    (config : Config V)
    (iterator : Iterator B) :
    Program D B V T (Iterator B) :=
  match iterator.current with
  | some _ => pure iterator
  | none => do
      let directory ← loadDirectory
      let address ← elementAddress config directory iterator.index
      pure { iterator with current := address }

/-- A call of a reader; what its precondition asks was checked before. -/
def visit
    (config : Config V)
    (thread : T) :
    Visit T → Program D B V T Unit
  | .size => do
      let _ ← size thread
      pure ()
  | .subscript index => subscript config thread index
  | .atIndex index => atIndex config thread index
  | .front => subscript config thread 0
  | .back => back config thread
  | .iterate slot index => do
      let iterator ← construct config thread index
      assign thread slot ⟨iterator, index, 0⟩
  | .beginAt slot => do
      let iterator ← construct config thread 0
      assign thread slot ⟨iterator, 0, 0⟩
  | .endAt slot => do
      let count ← size thread
      let iterator ← construct config thread count
      assign thread slot ⟨iterator, count, 0⟩
  | .increment slot => displace thread slot 1 (Iterator.increment config)
  | .decrement slot => displace thread slot (-1) (Iterator.decrement config)
  | .advance slot distance =>
      displace thread slot distance (Iterator.advance config distance)
  | .retreat slot distance =>
      displace thread slot (-distance) (Iterator.retreat config distance)
  | .copy slot owner source => do
      let original ← Prog.read fun state => state.iterators owner source
      match original with
      | none => pure ()
      | some held => assign thread slot held
  | .dereference slot => do
      let original ← Prog.read fun state => state.iterators thread slot
      match original with
      | none => pure ()
      | some held => do
          let resolved ← dereference config held.iterator
          assign thread slot { held with iterator := resolved }
          record (.dereferenced thread held.position resolved.current)
  -- `operator[](n)` dereferences a moved copy.
  | .subscriptFrom slot distance => do
      let original ← Prog.read fun state => state.iterators thread slot
      match original with
      | none => pure ()
      | some held => do
          let copy :=
            held.displace distance (Iterator.advance config distance)
          let resolved ← dereference config copy.iterator
          record (.dereferenced thread copy.position resolved.current)

end Readers

section Clients

variable [DecidableEq D] [DecidableEq B] [DecidableEq T]

/-- `resize(new_size)`: the first check takes no lock. -/
def resize
    (config : Config V)
    (thread : T)
    (newSize : Nat) :
    Program D B V T Outcome := do
  let count ← size thread
  if newSize ≤ count then
    pure .done
  else
    locked thread (.resize newSize) (grow config thread newSize)

/-- A call of a writer. -/
def perform
    (config : Config V)
    (thread : T) :
    Call V → Program D B V T Outcome
  | .emplaceBack value => emplaceBack config thread value
  | .resize newSize => resize config thread newSize
  | .reserve newCapacity => reserve config thread newCapacity
  | .capacity => capacity config thread

/-- The argument of the call is a `size_t`. -/
def Call.isWord : Call V → Bool
  | .resize newSize => newSize < wordSize
  | .reserve newCapacity => newCapacity < wordSize
  | _ => true

/-- Rounding the argument of the call up to whole blocks does not wrap. -/
def Call.roundsUp
    (config : Config V) :
    Call V → Bool
  | .resize newSize => newSize + config.blockMask < wordSize
  | .reserve newCapacity => newCapacity + config.blockMask < wordSize
  | _ => true

/-- The distance is a `ptrdiff_t`. -/
def isDistance
    (distance : Int) :
    Bool :=
  -(2 ^ 63) ≤ distance && distance < 2 ^ 63

/--
What the deque asks of a reader: an index that it goes to is below a size that
it has observed, and it has the iterators that it uses.
-/
def Visit.isLegal
    (config : Config V)
    (state : State D B V T)
    (thread : T) :
    Visit T → Bool
  | .size => true
  | .subscript index => index < state.observed thread
  | .atIndex index => index < wordSize
  | .front => 0 < state.observed thread
  | .back => 0 < state.observed thread
  | .iterate _ index => index < wordSize
  | .beginAt _ => true
  | .endAt _ => true
  | .increment slot => (state.iterators thread slot).isSome
  | .decrement slot => (state.iterators thread slot).isSome
  | .advance slot distance =>
      (state.iterators thread slot).isSome && isDistance distance
  | .retreat slot distance =>
      (state.iterators thread slot).isSome && isDistance distance
  | .copy _ owner source => (state.iterators owner source).isSome
  | .dereference slot =>
      match state.iterators thread slot with
      | none => false
      | some held => held.position < state.observed thread
  | .subscriptFrom slot distance =>
      match state.iterators thread slot with
      | none => false
      | some held =>
          isDistance distance &&
            (held.displace distance
                (Iterator.advance config distance)).position <
              state.observed thread

/-- A client picks its next call among those it is allowed to make. -/
def pick
    (config : Config V)
    (admitted : Call V → Bool)
    (thread : T) :
    Program D B V T (Call V ⊕ Visit T) :=
  Prog.atomic fun state choice =>
    match choice with
    | .call call =>
        if call.isWord && admitted call then
          some (.inl call, state.record (.called thread call))
        else
          none
    | .visit visit =>
        if visit.isLegal config state thread then
          some (.inr visit, state)
        else
          none
    | _ => none

/-- What a client does with the call it picked. -/
def act
    (config : Config V)
    (thread : T) :
    Call V ⊕ Visit T → Program D B V T Unit
  | .inl call => do
      let outcome ← perform config thread call
      record (.returned thread call outcome)
  | .inr reading => visit config thread reading

/-- A client thread. -/
def client
    (config : Config V)
    (admitted : Call V → Bool)
    (thread : T) :
    Program D B V T Unit :=
  Prog.loop () fun _ => do
    let next ← pick config admitted thread
    act config thread next
    Prog.again ()

/-- A deque without elements. -/
def Data.initial : Data D B V where
  directory := none
  capacity := 0
  retired := []
  size := 0
  arrays _ := none
  blocks := []
  memory _ _ := none
  published := []

/-- A deque that nobody has used yet. -/
def State.initial : State D B V T where
  lock := false
  data := .initial
  wild := false
  iterators _ _ := none
  holder := none
  observed _ := 0
  events := []

/-- Any number of clients on a deque without elements. -/
def initialPool
    (config : Config V)
    (admitted : Call V → Bool) :
    Pool (State D B V T) (Choice D B V T) T where
  shared := .initial
  threads := client config admitted

end Clients

end ConcurrentCpp.AppendDeque
