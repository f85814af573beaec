import ConcurrentCpp.BucketTree
import ConcurrentCpp.LinkPath
import ConcurrentCpp.Prog
import ConcurrentCpp.SetHistory

namespace ConcurrentCpp.HashSet

/-!
# The resizable hash set

`ConcurrentResizableHashSet<T, AllowDelete, Hash>`.  Every access to a shared
word is one step, and so is every section that a lock protects.  The
scheduler chooses which compare-and-swaps fail spuriously and which calls of
`Hash`, `==`, of a copy operation or of an allocation throw.

A node is named by its shard and its index there.  Head and link words are
kept as records of their fields.  `inside`, `events` and `log` record which
calls are in progress and what happened; no step of a call depends on them.
-/

/-- A slot of the arena. -/
structure Slot where
  shard : Nat
  index : Nat
  deriving DecidableEq

/-- The address field of a bucket head. -/
inductive Address where
  | empty
  | uninitialized
  | node (slot : Slot)
  deriving DecidableEq

/-- The first node that an address names. -/
def Address.first : Address → Option Slot
  | node slot => some slot
  | _ => none

/-- The address of a chain with this first node. -/
def Address.of : Option Slot → Address
  | some slot => node slot
  | none => empty

/-- A bucket head: an address and the seal level. -/
structure Head where
  address : Address
  level : Nat
  deriving DecidableEq

/-- A link word: the successor and the tag bits. -/
structure Link where
  next : Option Slot
  mark : Bool
  frozen : Bool
  deriving DecidableEq

/-- A free-list head: the top node and the pop counter. -/
structure FreeHead where
  top : Option Slot
  pops : Nat
  deriving DecidableEq

/-- A link word without tag bits. -/
def Link.bare (next : Option Slot) : Link :=
  ⟨next, false, false⟩

/-- What a set is constructed with. -/
structure Config (K T : Type) where
  hash : K → Nat
  allowDelete : Bool
  initialCapacity : Nat
  arenaShards : Nat
  hardwareConcurrency : Nat
  threadNumber : T → Nat

/-- `std::bit_ceil`. -/
def bitCeil (number : Nat) : Nat :=
  if number ≤ 1 then 1 else 2 ^ ((number - 1).log2 + 1)

namespace Config

variable {K T : Type} (config : Config K T)

/-- The number of arena shards that the constructor settles on. -/
def shards : Nat :=
  let requested :=
    if config.arenaShards = 0 then
      config.hardwareConcurrency
    else
      config.arenaShards
  let known := if requested = 0 then 1 else requested
  bitCeil (min known (2 ^ 16))

/-- The number of buckets that the constructor settles on. -/
def capacity : Nat :=
  bitCeil (max 4 config.initialCapacity)

/-- `my_shard()`. -/
def myShard (thread : T) : Nat :=
  config.threadNumber thread &&& (config.shards - 1)

end Config

/-- What the history of the arena records. -/
inductive ArenaEvent where
  | popped (shard : Nat)
  | reclaimed (completed : Bool)
  deriving DecidableEq

/-- The set, the calls in progress and what happened so far. -/
structure State (K T : Type) where
  buckets : Nat → Head
  link : Slot → Link
  value : Slot → Option K
  arena : Nat → Nat
  freeHead : Nat → FreeHead
  limboHead : Nat → Option Slot
  tableSize : Nat
  resizing : Bool
  nodeCount : Nat
  inside : List T
  events : List (SetEvent T K)
  log : List ArenaEvent

/--
The scheduler's choices.  A call of `reclaim` also says after how many calls
of `Hash` one throws, if any.
-/
inductive Choice (K : Type) where
  | proceed
  | spurious
  | throws
  | call (operation : SetOp K)
  | reclaim (hashes : Option Nat)

/-- Programs of the set. -/
abbrev Program (K T : Type) := Prog (State K T) (Choice K)

variable {K T : Type}

/-- `level_for(ts)`, the `std::countr_zero` of a power of two. -/
def levelFor (size : Nat) : Nat :=
  size.log2

section Words

/-- `buckets_[j].load()`. -/
def loadHead (bucket : Nat) : Program K T Head :=
  Prog.read fun state => state.buckets bucket

/-- `node->link.load()`. -/
def loadLink (node : Slot) : Program K T Link :=
  Prog.read fun state => state.link node

/-- `table_size_.load()`. -/
def loadSize : Program K T Nat :=
  Prog.read fun state => state.tableSize

/-- `node->link.store(next)` on a node that is not published. -/
def storeLink
    (node : Slot)
    (next : Option Slot) :
    Program K T Unit :=
  Prog.write fun state =>
    { state with
      link := Function.update state.link node (.bare next) }

/-- `Hash{}(key)`; `none` if it throws. -/
def hashKey
    (config : Config K T)
    (key : K) :
    Program K T (Option Nat) :=
  Prog.atomic fun state choice =>
    match choice with
    | .throws => some (none, state)
    | _ => some (some (config.hash key), state)

/-- `Hash{}(node->value)` with the value; the inner `none` if it throws. -/
def hashValue
    (config : Config K T)
    (node : Slot) :
    Program K T (Option (K × Nat)) :=
  Prog.atomic fun state choice =>
    (state.value node).map fun value =>
      match choice with
      | .throws => (none, state)
      | _ => (some (value, config.hash value), state)

/-- `node->value == key`; the inner `none` if it throws. -/
def equalKey
    [DecidableEq K]
    (node : Slot)
    (key : K) :
    Program K T (Option Bool) :=
  Prog.atomic fun state choice =>
    (state.value node).map fun value =>
      match choice with
      | .throws => (none, state)
      | _ => (some (decide (value = key)), state)

end Words

section Arena

/-- `compare_exchange_weak` on the head of a limbo list. -/
def casLimbo
    (shard : Nat)
    (expected : Option Slot)
    (first : Slot) :
    Program K T (Bool × Option Slot) :=
  Prog.atomic fun state choice =>
    match choice with
    | .spurious => some ((false, state.limboHead shard), state)
    | _ =>
        if state.limboHead shard = expected then
          some ((true, expected),
            { state with
              limboHead :=
                Function.update state.limboHead shard (some first) })
        else
          some ((false, state.limboHead shard), state)

/-- `push_limbo(shard, first, last)`. -/
def pushLimbo
    (shard : Nat)
    (first last : Slot) :
    Program K T Unit := do
  let head ← Prog.read fun state => state.limboHead shard
  Prog.loop head fun head => do
    storeLink last head
    let outcome ← casLimbo shard head first
    if outcome.1 then
      Prog.leave ()
    else
      Prog.again outcome.2

/-- `compare_exchange_weak` on the head of a free list: pop and count. -/
def casFree
    (shard : Nat)
    (expected : FreeHead)
    (successor : Option Slot) :
    Program K T (Bool × FreeHead) :=
  Prog.atomic fun state choice =>
    match choice with
    | .spurious => some ((false, state.freeHead shard), state)
    | _ =>
        if state.freeHead shard = expected then
          some ((true, expected),
            { state with
              freeHead :=
                Function.update state.freeHead shard
                  ⟨successor, (expected.pops + 1) % 512⟩
              log := .popped shard :: state.log })
        else
          some ((false, state.freeHead shard), state)

/-- The pop loop of `alloc_node()`: the node and the head it replaced. -/
def popFree
    (shard : Nat) :
    Program K T (Option (Slot × FreeHead)) := do
  let head ← Prog.read fun state => state.freeHead shard
  Prog.loop head fun head =>
    match head.top with
    | none => Prog.leave none
    | some node => do
        let link ← loadLink node
        let outcome ← casFree shard head link.next
        if outcome.1 then
          Prog.leave (some (node, head))
        else
          Prog.again outcome.2

/-- `node_count_.fetch_add(256)` if the batch is opened. -/
def countBatch (opens : Bool) : Program K T Unit :=
  if opens then
    Prog.write fun state =>
      { state with nodeCount := state.nodeCount + 256 }
  else
    pure ()

/-- `node->value = val`; `false` if the assignment throws. -/
def assignValue
    (node : Slot)
    (value : K) :
    Program K T Bool :=
  Prog.atomic fun state choice =>
    match choice with
    | .throws => some (false, state)
    | _ =>
        some (true,
          { state with
            value := Function.update state.value node (some value) })

/-- `shard.nodes.emplace_back(val, next)`; `none` if it throws. -/
def emplaceBack
    (shard : Nat)
    (value : K)
    (next : Option Slot) :
    Program K T (Option Nat) :=
  Prog.atomic fun state choice =>
    match choice with
    | .throws => some (none, state)
    | _ =>
        some (some (state.arena shard),
          { state with
            arena :=
              Function.update state.arena shard (state.arena shard + 1)
            link :=
              Function.update state.link ⟨shard, state.arena shard⟩
                (.bare next)
            value :=
              Function.update state.value ⟨shard, state.arena shard⟩
                (some value) })

/-- `alloc_node(val, next)`; `none` if it throws. -/
def allocNode
    (config : Config K T)
    (thread : T)
    (value : K)
    (next : Option Slot) :
    Program K T (Option Slot) := do
  let shard := config.myShard thread
  let popped ← popFree shard
  match popped with
  | some (node, head) => do
      countBatch (decide (head.pops % 256 = 0))
      let assigned ← assignValue node value
      if assigned then do
        storeLink node next
        pure (some node)
      else do
        pushLimbo shard node node
        pure none
  | none => do
      let appended ← emplaceBack shard value next
      match appended with
      | none => pure none
      | some index => do
          countBatch (decide (index % 256 = 0))
          pure (some ⟨shard, index⟩)

end Arena

section Split

/-- `compare_exchange_weak` that seals a head. -/
def casSeal
    (bucket : Nat)
    (expected : Head)
    (level : Nat) :
    Program K T (Bool × Head) :=
  Prog.atomic fun state choice =>
    match choice with
    | .spurious => some ((false, state.buckets bucket), state)
    | _ =>
        if state.buckets bucket = expected then
          some ((true, { expected with level := level }),
            { state with
              buckets :=
                Function.update state.buckets bucket
                  { expected with level := level } })
        else
          some ((false, state.buckets bucket), state)

/-- The seal loop of `split_bucket()`: the snapshot. -/
def sealParent
    (parent level : Nat)
    (head : Head) :
    Program K T Head :=
  Prog.loop head fun head =>
    if head.level < level then do
      let outcome ← casSeal parent head level
      Prog.again outcome.2
    else
      Prog.leave head

/-- `compare_exchange_strong` that freezes a node; the word it leaves. -/
def casFreeze
    (node : Slot)
    (expected : Link) :
    Program K T Link :=
  Prog.atomic fun state _ =>
    if state.link node = expected then
      some ({ expected with frozen := true },
        { state with
          link :=
            Function.update state.link node
              { expected with frozen := true } })
    else
      some (state.link node, state)

/-- Freeze a node that is to be copied, unless nodes are never erased. -/
def freezeNode
    (config : Config K T)
    (node : Slot)
    (link : Link) :
    Program K T Link :=
  if config.allowDelete = true ∧ link.frozen = false then
    casFreeze node link
  else
    pure link

/-- The private subchain: its first and its last node. -/
structure Subchain where
  head : Option Slot
  tail : Option Slot
  deriving DecidableEq

/-- Prepend a copy to the subchain. -/
def Subchain.push
    (subchain : Subchain)
    (copy : Slot) :
    Subchain :=
  ⟨some copy, subchain.tail <|> some copy⟩

/--
One node of the parent's chain: the subchain after it and the next cursor;
`none` if something threw.
-/
def copyNode
    (config : Config K T)
    (thread : T)
    (child : Nat)
    (node : Slot)
    (subchain : Subchain) :
    Program K T (Option (Subchain × Option Slot)) := do
  let link ← loadLink node
  if link.mark then
    pure (some (subchain, link.next))
  else do
    let hashed ← hashValue config node
    match hashed with
    | none => pure none
    | some (value, hash) =>
        if hash &&& (bitFloor child * 2 - 1) = child then do
          let final ← freezeNode config node link
          if final.mark then
            pure (some (subchain, final.next))
          else do
            let copied ← allocNode config thread value subchain.head
            match copied with
            | none => pure none
            | some copy =>
                pure (some (subchain.push copy, final.next))
        else
          pure (some (subchain, link.next))

/-- The walk over the snapshot; whether it ended without a throw. -/
def copyChain
    (config : Config K T)
    (thread : T)
    (child : Nat)
    (start : Option Slot) :
    Program K T (Subchain × Bool) :=
  Prog.loop (⟨none, none⟩, start) fun (walk : Subchain × Option Slot) =>
    match walk.2 with
    | none => Prog.leave (walk.1, true)
    | some node => do
        let outcome ← copyNode config thread child node walk.1
        match outcome with
        | none => Prog.leave (walk.1, false)
        | some next => Prog.again next

/-- Send a subchain that will not be published to limbo. -/
def abandonSubchain
    (config : Config K T)
    (thread : T)
    (subchain : Subchain) :
    Program K T Unit :=
  match subchain.head, subchain.tail with
  | some first, some last => pushLimbo (config.myShard thread) first last
  | _, _ => pure ()

/-- `compare_exchange_strong` that publishes a bucket. -/
def casPublish
    (bucket : Nat)
    (first : Option Slot) :
    Program K T Bool :=
  Prog.atomic fun state _ =>
    if state.buckets bucket = ⟨.uninitialized, 0⟩ then
      some (true,
        { state with
          buckets :=
            Function.update state.buckets bucket ⟨.of first, 0⟩ })
    else
      some (false, state)

/-- Steps 2 and 3 of `split_bucket()`: copy the snapshot and publish it. -/
def copyAndPublish
    (config : Config K T)
    (thread : T)
    (child : Nat)
    (snapshot : Head) :
    Program K T Bool := do
  let copied ← copyChain config thread child snapshot.address.first
  if copied.2 then do
    let published ← casPublish child copied.1.head
    if published then
      pure true
    else do
      abandonSubchain config thread copied.1
      pure true
  else do
    abandonSubchain config thread copied.1
    pure false

/-- `split_bucket(j)` once the parent is published. -/
def splitFrom
    (config : Config K T)
    (thread : T)
    (child : Nat)
    (head : Head) :
    Program K T Bool := do
  let snapshot ←
    sealParent (child - bitFloor child)
      (levelFor (bitFloor child * 2)) head
  copyAndPublish config thread child snapshot

/--
`split_bucket(j)`; `false` if it throws.  The depth bounds the ancestors that
have to be split first; it is used up only by bucket 0, which has no parent.
-/
def splitBucket
    (config : Config K T)
    (thread : T) :
    Nat → Nat → Program K T Bool
  | 0, _ => Prog.atomic fun _ _ => none
  | depth + 1, child =>
      if child = 0 then
        Prog.atomic fun _ _ => none
      else do
        let parent := child - bitFloor child
        let head ← loadHead parent
        if head.address = .uninitialized then do
          let ready ← splitBucket config thread depth parent
          if ready then do
            let head ← loadHead parent
            splitFrom config thread child head
          else
            pure false
        else
          splitFrom config thread child head

end Split

section Operations

variable [DecidableEq K]

/-- The head of a bucket, which is split first if need be. -/
def enterBucket
    (config : Config K T)
    (thread : T)
    (bucket : Nat) :
    Program K T (Option Head) := do
  let head ← loadHead bucket
  if head.address = .uninitialized then do
    let ready ← splitBucket config thread bucket bucket
    if ready then do
      let head ← loadHead bucket
      pure (some head)
    else
      pure none
  else
    pure (some head)

/-- The walk of `contains()` and `insert()`; `none` if `==` throws. -/
def findKey
    (key : K)
    (start : Option Slot) :
    Program K T (Option Bool) :=
  Prog.loop start fun cursor =>
    match cursor with
    | none => Prog.leave (some false)
    | some node => do
        let link ← loadLink node
        let same ← equalKey node key
        match same with
        | none => Prog.leave none
        | some same =>
            if same = true ∧ link.mark = false then
              Prog.leave (some true)
            else
              Prog.again link.next

/-- `contains(key)`; `none` if it throws. -/
def contains
    (config : Config K T)
    (thread : T)
    (key : K) :
    Program K T (Option Bool) := do
  let size ← loadSize
  Prog.loop size fun size => do
    let hashed ← hashKey config key
    match hashed with
    | none => Prog.leave none
    | some hash => do
        let entered ← enterBucket config thread (hash &&& (size - 1))
        match entered with
        | none => Prog.leave none
        | some head => do
            let found ← findKey key head.address.first
            match found with
            | none => Prog.leave none
            | some true => Prog.leave (some true)
            | some false => do
                let newSize ← loadSize
                if newSize = size then
                  Prog.leave (some false)
                else
                  Prog.again newSize

/-- `compare_exchange_strong` that publishes a key in front of a bucket. -/
def casInsert
    (thread : T)
    (bucket : Nat)
    (expected : Head)
    (node : Slot)
    (key : K) :
    Program K T Bool :=
  Prog.atomic fun state _ =>
    if state.buckets bucket = expected then
      some (true,
        { state with
          buckets :=
            Function.update state.buckets bucket
              { expected with address := .node node }
          events := .added thread key :: state.events })
    else
      some (false, state)

/-- The store loop of a doubling: mark the new buckets. -/
def markBuckets (size : Nat) : Program K T Unit :=
  Prog.loop size fun bucket =>
    if bucket < size * 2 then do
      Prog.write fun state =>
        { state with
          buckets :=
            Function.update state.buckets bucket ⟨.uninitialized, 0⟩ }
      Prog.again (bucket + 1)
    else
      Prog.leave ()

/-- `resize_lock_.lock()`. -/
def lockResize : Program K T Unit :=
  Prog.atomic fun state _ =>
    if state.resizing then
      none
    else
      some ((), { state with resizing := true })

/-- `resize_lock_.unlock()`. -/
def unlockResize : Program K T Unit :=
  Prog.write fun state => { state with resizing := false }

/-- `buckets_.resize(new_ts)`; `false` if it throws `bad_alloc`. -/
def resizeBuckets : Program K T Bool :=
  Prog.atomic fun state choice =>
    match choice with
    | .throws => some (false, state)
    | _ => some (true, state)

/-- The doubling that may follow a publication. -/
def doubleTable (size : Nat) : Program K T Unit := do
  let count ← Prog.read fun state => state.nodeCount
  if size * 2 < count then do
    lockResize
    let current ← loadSize
    if current = size then do
      let resized ← resizeBuckets
      if resized then do
        markBuckets size
        Prog.write fun state => { state with tableSize := size * 2 }
        unlockResize
      else
        unlockResize
    else
      unlockResize
  else
    pure ()

/-- Send a node that was never published to limbo. -/
def abandonNode
    (config : Config K T)
    (thread : T)
    (pending : Option Slot) :
    Program K T Unit :=
  match pending with
  | none => pure ()
  | some node => pushLimbo (config.myShard thread) node node

/-- The node to prepend: allocated once, then only repointed. -/
def prepareNode
    (config : Config K T)
    (thread : T)
    (key : K)
    (pending : Option Slot)
    (next : Option Slot) :
    Program K T (Option Slot) :=
  match pending with
  | none => allocNode config thread key next
  | some node => do
      storeLink node next
      pure (some node)

/-- One attempt of `insert()` at a bucket with this head. -/
def insertAt
    (config : Config K T)
    (thread : T)
    (key : K)
    (size bucket : Nat)
    (head : Head)
    (pending : Option Slot) :
    Program K T (Option Slot ⊕ Option Bool) := do
  let found ← findKey key head.address.first
  match found with
  | none => do
      abandonNode config thread pending
      Prog.leave none
  | some true => do
      abandonNode config thread pending
      Prog.leave (some false)
  | some false => do
      let prepared ←
        prepareNode config thread key pending head.address.first
      match prepared with
      | none => Prog.leave none
      | some node => do
          let published ← casInsert thread bucket head node key
          if published then do
            doubleTable size
            Prog.leave (some true)
          else
            Prog.again (some node)

/-- `insert(key)`; `none` if it throws. -/
def insert
    (config : Config K T)
    (thread : T)
    (key : K) :
    Program K T (Option Bool) :=
  Prog.loop none fun pending => do
    let size ← loadSize
    let hashed ← hashKey config key
    match hashed with
    | none => do
        abandonNode config thread pending
        Prog.leave none
    | some hash => do
        let bucket := hash &&& (size - 1)
        let head ← loadHead bucket
        if head.address = .uninitialized then do
          let ready ← splitBucket config thread bucket bucket
          if ready then
            Prog.again pending
          else do
            abandonNode config thread pending
            Prog.leave none
        else if levelFor size < head.level then
          Prog.again pending
        else
          insertAt config thread key size bucket head pending

/-- How a walk of `erase()` ended. -/
inductive EraseWalk where
  | threw
  | erased
  | missed (stale : Bool)
  deriving DecidableEq

/-- `compare_exchange_strong` that marks a node; the word it found. -/
def casMark
    (thread : T)
    (node : Slot)
    (expected : Link)
    (key : K) :
    Program K T (Bool × Link) :=
  Prog.atomic fun state _ =>
    if state.link node = expected then
      some ((true, expected),
        { state with
          link :=
            Function.update state.link node { expected with mark := true }
          events := .removed thread key :: state.events })
    else
      some ((false, state.link node), state)

/-- An unmarked node of the key was found. -/
def eraseNode
    (thread : T)
    (key : K)
    (node : Slot)
    (link : Link) :
    Program K T EraseWalk :=
  if link.frozen then
    pure (.missed true)
  else do
    let outcome ← casMark thread node link key
    if outcome.1 then
      pure .erased
    else
      pure (.missed outcome.2.frozen)

/-- The walk of `erase()`. -/
def eraseKey
    (thread : T)
    (key : K)
    (start : Option Slot) :
    Program K T EraseWalk :=
  Prog.loop start fun cursor =>
    match cursor with
    | none => Prog.leave (.missed false)
    | some node => do
        let link ← loadLink node
        let same ← equalKey node key
        match same with
        | none => Prog.leave .threw
        | some same =>
            if same = true ∧ link.mark = false then do
              let outcome ← eraseNode thread key node link
              Prog.leave outcome
            else
              Prog.again link.next

/-- `erase(key)`; `none` if it throws. -/
def erase
    (config : Config K T)
    (thread : T)
    (key : K) :
    Program K T (Option Bool) := do
  let size ← loadSize
  Prog.loop size fun size => do
    let hashed ← hashKey config key
    match hashed with
    | none => Prog.leave none
    | some hash => do
        let entered ← enterBucket config thread (hash &&& (size - 1))
        match entered with
        | none => Prog.leave none
        | some head => do
            let walked ← eraseKey thread key head.address.first
            match walked with
            | .threw => Prog.leave none
            | .erased => Prog.leave (some true)
            | .missed stale => do
                let newSize ← loadSize
                if newSize = size ∧ stale = false then
                  Prog.leave (some false)
                else
                  Prog.again newSize

end Operations

section Reclaim

variable (config : Config K T)

/-- `push_free(shard, node)`. -/
def State.pushFree
    (state : State K T)
    (shard : Nat)
    (node : Slot) :
    State K T :=
  { state with
    link :=
      Function.update state.link node (.bare (state.freeHead shard).top)
    freeHead :=
      Function.update state.freeHead shard
        { state.freeHead shard with top := some node } }

/-- What `reclaim()` carries along: the cursor of the deal and its count. -/
structure Sweep (K T : Type) where
  state : State K T
  deal : Nat
  live : Nat
  /-- How many calls of `Hash` are left until one throws. -/
  hashes : Option Nat

/-- Deal a node to the next shard. -/
def Sweep.free
    (sweep : Sweep K T)
    (node : Slot) :
    Sweep K T :=
  { sweep with
    state :=
      sweep.state.pushFree (sweep.deal &&& (config.shards - 1)) node
    deal := sweep.deal + 1 }

/-- Step 1: clear the pop counters. -/
def State.clearPops
    (state : State K T) :
    State K T :=
  { state with
    freeHead := fun shard =>
      if shard < config.shards then
        { state.freeHead shard with pops := 0 }
      else
        state.freeHead shard }

/-- The walk over a limbo chain; `none` if the fuel is used up. -/
def drainChain :
    Nat → Sweep K T → Option Slot → Option (Sweep K T)
  | _, sweep, none => some sweep
  | 0, _, some _ => none
  | fuel + 1, sweep, some node =>
      drainChain fuel (sweep.free config node) (sweep.state.link node).next

/-- Step 2 for one shard. -/
def drainShard
    (fuel : Nat)
    (sweep : Sweep K T)
    (shard : Nat) :
    Option (Sweep K T) :=
  let state :=
    { sweep.state with
      limboHead := Function.update sweep.state.limboHead shard none }
  drainChain config fuel { sweep with state := state }
    (sweep.state.limboHead shard)

/-- `is_dead(node, link, j, ts)` of an unmarked node whose key is known. -/
def State.hasMoved
    (state : State K T)
    (key : K)
    (bucket size : Nat) :
    Bool :=
  let child := nextChild (config.hash key) bucket
  decide (child ≠ bucket) && decide (child < size) &&
    decide ((state.buckets child).address ≠ .uninitialized)

/-- Store an address into a head or link word and keep its other bits. -/
def State.setNext
    (state : State K T)
    (next : Option Slot) :
    Cell Nat Slot → State K T
  | .root bucket =>
      { state with
        buckets :=
          Function.update state.buckets bucket
            { state.buckets bucket with address := .of next } }
  | .node node =>
      { state with
        link :=
          Function.update state.link node
            { state.link node with next := next } }

/-- Bypass and free a dead node. -/
def Sweep.unlink
    (sweep : Sweep K T)
    (cell : Cell Nat Slot)
    (node : Slot) :
    Sweep K T :=
  { sweep with
    state := sweep.state.setNext (sweep.state.link node).next cell }.free
      config node

/-- Whether a node is dead; `none` if `Hash` throws or has nothing to hash. -/
def Sweep.isDead
    (sweep : Sweep K T)
    (bucket size : Nat)
    (node : Slot) :
    Option (Bool × Sweep K T) :=
  if (sweep.state.link node).mark then
    some (true, sweep)
  else
    match sweep.hashes, sweep.state.value node with
    | some 0, _ => none
    | _, none => none
    | hashes, some key =>
        some (sweep.state.hasMoved config key bucket size,
          { sweep with hashes := hashes.map Nat.pred })

/--
Step 3 for one chain: the cell before the cursor and the cursor.  The result
tells whether the walk ended without a throw; `none` if the fuel is used up.
-/
def sweepChain
    (bucket size : Nat) :
    Nat → Sweep K T → Cell Nat Slot → Option Slot →
      Option (Bool × Sweep K T)
  | _, sweep, _, none => some (true, sweep)
  | 0, _, _, some _ => none
  | fuel + 1, sweep, cell, some node =>
      match sweep.isDead config bucket size node with
      | none => some (false, sweep)
      | some (true, hashed) =>
          sweepChain bucket size fuel (hashed.unlink config cell node) cell
            (sweep.state.link node).next
      | some (false, hashed) =>
          sweepChain bucket size fuel
            { hashed with live := hashed.live + 1 } (.node node)
            (sweep.state.link node).next

/-- Step 3 for one bucket, unless an earlier one has thrown. -/
def sweepBucket
    (size fuel : Nat)
    (swept : Bool × Sweep K T)
    (bucket : Nat) :
    Option (Bool × Sweep K T) :=
  if swept.1 = false ∨
      (swept.2.state.buckets bucket).address = .uninitialized then
    some swept
  else
    sweepChain config bucket size fuel swept.2 (.root bucket)
      (swept.2.state.buckets bucket).address.first

/-- The number of slots of the arena. -/
def State.slots (state : State K T) : Nat :=
  ((List.range config.shards).map state.arena).sum

/-- The appends that remain until each shard's next batch. -/
def State.credit (state : State K T) : Nat :=
  ((List.range config.shards).map fun shard =>
    (256 - state.arena shard % 256) % 256).sum

/--
`reclaim()` on a quiescent set: what it returns, `none` if it throws, and the
set afterwards.
-/
def reclaim
    (hashes : Option Nat)
    (state : State K T) :
    Option (Option Nat × State K T) := do
  let fuel := state.slots config
  let cleared : Sweep K T := ⟨state.clearPops config, 0, 0, hashes⟩
  let drained ←
    (List.range config.shards).foldlM (drainShard config fuel) cleared
  let swept ←
    (List.range state.tableSize).foldlM
      (sweepBucket config state.tableSize fuel) (true, drained)
  if swept.1 then
    some (some swept.2.live,
      { swept.2.state with
        nodeCount := swept.2.live + swept.2.state.credit config })
  else
    some (none, swept.2.state)

end Reclaim

section Client

variable [DecidableEq K] [DecidableEq T] (config : Config K T)

/-- A thread begins a call. -/
def State.begin
    (state : State K T)
    (thread : T)
    (operation : SetOp K) :
    State K T :=
  { state with
    inside := thread :: state.inside
    events := .called thread operation :: state.events }

/-- What `erase()` requires. -/
def Offered : SetOp K → Prop
  | .erase _ => config.allowDelete = true
  | _ => True

instance : ∀ operation : SetOp K, Decidable (Offered config operation)
  | .contains _ => .isTrue trivial
  | .insert _ => .isTrue trivial
  | .erase _ => inferInstanceAs (Decidable (config.allowDelete = true))

/--
A client picks its next call.  `reclaim()` needs a quiescent set and is
performed at once.
-/
def pick
    (thread : T) :
    Program K T (Option (SetOp K)) :=
  Prog.atomic fun state choice =>
    match choice with
    | .call operation =>
        if Offered config operation then
          some (some operation, state.begin thread operation)
        else
          none
    | .reclaim hashes =>
        if state.inside = [] then
          (reclaim config hashes state).map fun outcome =>
            (none,
              { outcome.2 with
                log := .reclaimed outcome.1.isSome :: outcome.2.log })
        else
          none
    | _ => none

/-- What a call does after it has begun; `none` if it throws. -/
def perform
    (thread : T) :
    SetOp K → Program K T (Option Bool)
  | .contains key => contains config thread key
  | .insert key => insert config thread key
  | .erase key => erase config thread key

/-- A thread ends a call. -/
def finish
    (thread : T)
    (operation : SetOp K)
    (result : Option Bool) :
    Program K T Unit :=
  Prog.write fun state =>
    { state with
      inside := state.inside.erase thread
      events :=
        match result with
        | some result => .returned thread operation result :: state.events
        | none => .threw thread operation :: state.events }

/-- A client thread makes one call after the other. -/
def client
    (thread : T) :
    Program K T Unit :=
  Prog.loop () fun _ => do
    let begun ← pick config thread
    match begun with
    | none => Prog.again ()
    | some operation => do
        let result ← perform config thread operation
        finish thread operation result
        Prog.again ()

/-- The constructor; `none` if it aborts. -/
def construct : Option (State K T) :=
  if 2 ^ 63 < config.initialCapacity then
    none
  else
    some
      { buckets := fun _ => ⟨.empty, 0⟩
        link := fun _ => .bare none
        value := fun _ => none
        arena := fun _ => 0
        freeHead := fun _ => ⟨none, 0⟩
        limboHead := fun _ => none
        tableSize := config.capacity
        resizing := false
        nodeCount := 0
        inside := []
        events := []
        log := [] }

/-- Any number of client threads on a set. -/
def poolOf
    (state : State K T) :
    Pool (State K T) (Choice K) T where
  shared := state
  threads := client config

end Client

section Arena

variable (config : Config K T)

/-- The slots of the arena, shard by shard. -/
def State.arenaSlots (state : State K T) : List Slot :=
  (List.range config.shards).flatMap fun shard =>
    (List.range (state.arena shard)).map fun index => ⟨shard, index⟩

end Arena

end ConcurrentCpp.HashSet
