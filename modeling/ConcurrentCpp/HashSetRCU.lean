import ConcurrentCpp.HashSet

namespace ConcurrentCpp.HashSetRCU

/-!
# The memory of the hash set with handles

`ConcurrentResizableHashSetRCU<T, AllowDelete, Hash, kGenerations>`.  This
module has the part that hands out nodes and takes them back: the arena with
its free lists, the steal and its hint, the limbo and retired lists, the ring
of generations, the free pass and the automatic cadence.

Every access to a shared word is one step.  The plain fields of the holder of
the advancer flag, and those of a handle that a thread uses exclusively, are
read and written together with the shared access next to them.  The scheduler
chooses which weak compare-and-swaps fail spuriously and which calls of
`Hash`, `==`, of a copy operation or of an allocation throw.

The counters `retire_runs` and `retire_nodes` are kept unwrapped; the test of
the cadence reads them modulo `2 ^ 64`.  The node counter is an integer.  The
fields of the state after `uses` record what happened; no step depends on
them.
-/

open HashSet (Slot Address Head Link FreeHead bitCeil)

variable {K H T : Type}

/-- What a set is constructed with. -/
structure Config (K T : Type) extends HashSet.Config K T where
  autoReclaimEvery : BitVec 64
  kGenerations : Nat

/-- Lifecycle of a generation slot. -/
inductive GenerationState where
  | empty
  | current
  | sealed
  deriving DecidableEq

/-- The plain fields of one generation slot; a bag is two lists a shard. -/
structure GenerationBlock where
  state : GenerationState
  gen : Nat
  bagRetired : Nat → Option Slot
  bagLimbo : Nat → Option Slot

/-- The hint of the steal: a stamp and whether no free list has a node. -/
structure StealHint where
  stamp : Nat
  empty : Bool
  deriving DecidableEq

/-- A live handle: the slot it is joined to and the shard of its count. -/
structure Handle where
  block : Nat
  shard : Nat
  deriving DecidableEq

/-- A call in progress; `exclusive` if it may change its handle. -/
structure Use (H T : Type) where
  thread : T
  handle : Option H
  exclusive : Bool
  deriving DecidableEq

/-- `AdvanceResult::Advance`. -/
inductive Advance where
  | nothingRetired
  | advanced
  | ringFull
  | contended
  deriving DecidableEq

/-- What one call of `advance()` or `reclaim()` did. -/
structure AdvanceResult where
  freedNodes : Nat
  freedBags : Nat
  walkRetired : Nat
  bucketsWalked : Nat
  nodesPassed : Nat
  advance : Advance
  deriving DecidableEq

/-- Where an operation throws: only two places lie behind its decision. -/
inductive Site where
  | search
  | growth
  | selfUnlink
  deriving DecidableEq

/-- The set, its handles and what happened so far. -/
structure State (K H T : Type) where
  buckets : Nat → Head
  tableSize : Nat
  resizing : Bool
  link : Slot → Link
  retireLink : Slot → Option Slot
  value : Slot → Option K
  arena : Nat → Nat
  freeHead : Nat → FreeHead
  limboHead : Nat → Option Slot
  retiredHead : Nat → Option Slot
  retireRuns : Nat → Nat
  retireNodes : Nat → Nat
  nodeCount : Int
  ring : Nat → GenerationBlock
  refs : Nat → Nat → Int
  current : Nat
  reclaiming : Bool
  oldest : Nat
  deal : Nat
  scanStart : Nat
  stealHint : StealHint
  stealStamp : Nat
  autoReclaims : Nat
  autoSkipped : Nat
  handles : H → Option Handle
  uses : List (Use H T)
  /-- How often the node was put on a free list. -/
  freed : Slot → Nat
  /-- A node of the bag being freed is pushed, its stamp not yet stored. -/
  unstamped : Bool
  /-- Who has set the advancer flag. -/
  advancer : Option T
  /-- The counts that the call in progress has raised and not lowered. -/
  joined : T → List (Nat × Nat)
  /-- The addresses that the call has loaded, with `freed` at that time. -/
  loads : T → List (Slot × Nat)
  /-- The top that a pop loop has read, with `freed` at that time. -/
  popping : T → Option (Slot × Nat)
  /-- The nodes that the call has taken and neither linked nor given up. -/
  kept : T → List Slot
  /-- The nodes that the call has put on a limbo list. -/
  abandoned : T → List Slot
  /-- The nodes that were bypassed, by whom, and `freed` at that time. -/
  bypassed : List (T × Slot × Nat)
  /-- The nodes that were put on a retired list, by whom, and `freed`. -/
  retired : List (T × Slot × Nat)
  events : List (SetEvent T K)
  /-- The operations that threw, and where. -/
  thrown : List (T × SetOp K × Site)
  /-- What `advance()` and `reclaim()` returned; `none` if one threw. -/
  advances : List (T × Option AdvanceResult)

/-- What a client may call. -/
inductive Call (K H : Type) where
  | newHandle (handle : H)
  | refresh (handle : H)
  | moveConstruct (target source : H)
  | moveAssign (target source : H)
  | swap (first second : H)
  | destroy (handle : H)
  | operate (handle : H) (operation : SetOp K)
  | advance
  | reclaim

/-- The scheduler's choices. -/
inductive Choice (K H : Type) where
  | proceed
  | spurious
  | throws
  | call (call : Call K H)

/-- Programs of the set. -/
abbrev Program (K H T : Type) := Prog (State K H T) (Choice K H)

section Records

variable [DecidableEq T]

/-- Record that the call of a thread knows an address. -/
def State.see
    (state : State K H T)
    (thread : T)
    (target : Option Slot) :
    State K H T :=
  match target with
  | none => state
  | some node =>
      { state with
        loads :=
          Function.update state.loads thread
            ((node, state.freed node) :: state.loads thread) }

/-- Record what a pop loop has read as the top of a free list. -/
def State.seeTop
    (state : State K H T)
    (thread : T)
    (top : Option Slot) :
    State K H T :=
  { state with
    popping :=
      Function.update state.popping thread
        (top.map fun node => (node, state.freed node)) }

/-- Record that a thread has taken a node. -/
def State.keep
    (state : State K H T)
    (thread : T)
    (node : Slot) :
    State K H T :=
  { state with
    kept := Function.update state.kept thread (node :: state.kept thread) }

/-- Record that a thread has no claim on some nodes any more. -/
def State.release
    (state : State K H T)
    (thread : T)
    (nodes : List Slot) :
    State K H T :=
  { state with
    kept :=
      Function.update state.kept thread
        ((state.kept thread).filter fun node => node ∉ nodes) }

end Records

section Words

variable [DecidableEq T]

/-- `buckets_[j].load()`. -/
def loadHead
    (thread : T)
    (bucket : Nat) :
    Program K H T Head :=
  Prog.atomic fun state _ =>
    some (state.buckets bucket,
      state.see thread (state.buckets bucket).address.first)

/-- `node->link.load()`. -/
def loadLink
    (thread : T)
    (node : Slot) :
    Program K H T Link :=
  Prog.atomic fun state _ =>
    some (state.link node, state.see thread (state.link node).next)

/-- `table_size_.load()`. -/
def loadSize : Program K H T Nat :=
  Prog.read fun state => state.tableSize

/-- `node->link.store(next)`. -/
def storeLink
    (node : Slot)
    (next : Option Slot) :
    Program K H T Unit :=
  Prog.write fun state =>
    { state with
      link := Function.update state.link node (.bare next) }

/-- `node->retire_link.store(next)`. -/
def storeRetireLink
    (node : Slot)
    (next : Option Slot) :
    Program K H T Unit :=
  Prog.write fun state =>
    { state with
      retireLink := Function.update state.retireLink node next }

/--
`compare_exchange_weak` on one word: whether it succeeded, and the value that
the expected one has afterwards.
-/
def casWeak
    {W : Type}
    [DecidableEq W]
    (word : State K H T → W)
    (expected : W)
    (store : State K H T → State K H T) :
    Program K H T (Bool × W) :=
  Prog.atomic fun state choice =>
    match choice with
    | .spurious => some ((false, word state), state)
    | _ =>
        if word state = expected then
          some ((true, expected), store state)
        else
          some ((false, word state), state)

end Words

section Limbo

variable [DecidableEq T]

/-- `push_limbo(shard, first, last)` of these nodes. -/
def pushLimbo
    (thread : T)
    (shard : Nat)
    (first last : Slot)
    (nodes : List Slot) :
    Program K H T Unit := do
  let head ← Prog.read fun state => state.limboHead shard
  Prog.loop head fun head => do
    storeLink last head
    let outcome ←
      casWeak (fun state => state.limboHead shard) head fun state =>
        { state.release thread nodes with
          limboHead :=
            Function.update state.limboHead shard (some first)
          abandoned :=
            Function.update state.abandoned thread
              (nodes ++ state.abandoned thread) }
    if outcome.1 then
      Prog.leave ()
    else
      Prog.again outcome.2

end Limbo

section Allocation

variable [DecidableEq T] (config : Config K T)

/-- `compare_exchange_weak` that pops the top of a free list. -/
def casPop
    (thread : T)
    (shard : Nat)
    (node : Slot)
    (expected : FreeHead)
    (successor : Option Slot) :
    Program K H T (Bool × FreeHead) :=
  Prog.atomic fun state choice =>
    match choice with
    | .spurious =>
        some ((false, state.freeHead shard),
          state.seeTop thread (state.freeHead shard).top)
    | _ =>
        if state.freeHead shard = expected then
          some ((true, expected),
            { (state.seeTop thread none).keep thread node with
              freeHead :=
                Function.update state.freeHead shard
                  ⟨successor, (expected.pops + 1) % 512⟩ })
        else
          some ((false, state.freeHead shard),
            state.seeTop thread (state.freeHead shard).top)

/-- The pop loop on a free list: the node and the head it replaced. -/
def popFree
    (thread : T)
    (shard : Nat) :
    Program K H T (Option (Slot × FreeHead)) := do
  let head ← Prog.atomic fun state _ =>
    some (state.freeHead shard,
      state.seeTop thread (state.freeHead shard).top)
  Prog.loop head fun head =>
    match head.top with
    | none => Prog.leave none
    | some node => do
        let link ← Prog.read fun state => state.link node
        let outcome ← casPop thread shard node head link.next
        if outcome.1 then
          Prog.leave (some (node, head))
        else
          Prog.again outcome.2

/-- `node_count_.fetch_add(256)` if the batch is opened. -/
def countBatch (opens : Bool) : Program K H T Unit :=
  if opens then
    Prog.write fun state =>
      { state with nodeCount := state.nodeCount + 256 }
  else
    pure ()

/-- `node->value = val`; `false` if the assignment throws. -/
def assignValue
    (node : Slot)
    (value : K) :
    Program K H T Bool :=
  Prog.atomic fun state choice =>
    match choice with
    | .throws => some (false, state)
    | _ =>
        some (true,
          { state with
            value := Function.update state.value node (some value) })

/--
What follows a pop: the batch is counted, the value assigned and the link
stored; `none` if the assignment throws, and then the node goes to limbo.
-/
def reuseNode
    (thread : T)
    (node : Slot)
    (head : FreeHead)
    (value : K)
    (next : Option Slot) :
    Program K H T (Option Slot) := do
  countBatch (decide (head.pops % 256 = 0))
  let assigned ← assignValue node value
  if assigned then do
    storeLink node next
    pure (some node)
  else do
    pushLimbo thread (config.myShard thread) node node [node]
    pure none

/-- How an attempt to steal a node ends. -/
inductive Stolen where
  | nothing
  | threw
  | node (slot : Slot)
  deriving DecidableEq

/-- The CAS that marks the hint empty, from the value the scan has read. -/
def markHint (hint : StealHint) : Program K H T Unit :=
  Prog.write fun state =>
    if state.stealHint = hint then
      { state with stealHint := { hint with empty := true } }
    else
      state

/-- `steal_scan(val, next)`. -/
def stealScan
    (thread : T)
    (value : K)
    (next : Option Slot) :
    Program K H T Stolen := do
  let hint ← Prog.read fun state => state.stealHint
  if hint.empty then
    pure .nothing
  else
    Prog.loop 0 fun index =>
      if index < config.shards then do
        let popped ←
          popFree thread
            ((config.myShard thread + index) &&& (config.shards - 1))
        match popped with
        | none => Prog.again (index + 1)
        | some (node, head) => do
            let reused ← reuseNode config thread node head value next
            Prog.leave (reused.elim .threw .node)
      else do
        markHint hint
        Prog.leave .nothing

/-- `steal_node(val, next)`. -/
def stealNode
    (thread : T)
    (value : K)
    (next : Option Slot) :
    Program K H T Stolen := do
  let hint ← Prog.read fun state => state.stealHint
  if hint.empty then
    pure .nothing
  else
    stealScan config thread value next

/-- `shard.nodes.emplace_back(val, next)`; `none` if it throws. -/
def emplaceBack
    (thread : T)
    (shard : Nat)
    (value : K)
    (next : Option Slot) :
    Program K H T (Option Nat) :=
  Prog.atomic fun state choice =>
    match choice with
    | .throws => some (none, state)
    | _ =>
        some (some (state.arena shard),
          { state.keep thread ⟨shard, state.arena shard⟩ with
            arena :=
              Function.update state.arena shard (state.arena shard + 1)
            link :=
              Function.update state.link ⟨shard, state.arena shard⟩
                (.bare next)
            retireLink :=
              Function.update state.retireLink
                ⟨shard, state.arena shard⟩ none
            value :=
              Function.update state.value ⟨shard, state.arena shard⟩
                (some value) })

/-- The append of `alloc_node()`. -/
def appendNode
    (thread : T)
    (value : K)
    (next : Option Slot) :
    Program K H T (Option Slot) := do
  let shard := config.myShard thread
  let appended ← emplaceBack thread shard value next
  match appended with
  | none => pure none
  | some index => do
      countBatch (decide (index % 256 = 0))
      pure (some ⟨shard, index⟩)

/-- `alloc_node(val, next)`; `none` if it throws. -/
def allocNode
    (thread : T)
    (value : K)
    (next : Option Slot) :
    Program K H T (Option Slot) := do
  let popped ← popFree thread (config.myShard thread)
  match popped with
  | some (node, head) => reuseNode config thread node head value next
  | none => do
      let stolen ← stealNode config thread value next
      match stolen with
      | .node slot => pure (some slot)
      | .threw => pure none
      | .nothing => appendNode config thread value next

end Allocation

section FreePass

variable (config : Config K T)

/-- `push_free(shard, node)`. -/
def pushFree
    (shard : Nat)
    (node : Slot) :
    Program K H T Unit := do
  let head ← Prog.read fun state => state.freeHead shard
  Prog.loop head fun head => do
    storeLink node head.top
    let outcome ←
      casWeak (fun state => state.freeHead shard) head fun state =>
        { state with
          freeHead :=
            Function.update state.freeHead shard ⟨some node, head.pops⟩
          freed :=
            Function.update state.freed node (state.freed node + 1)
          unstamped := true }
    if outcome.1 then
      Prog.leave ()
    else
      Prog.again outcome.2

/-- Replace one block of the ring. -/
def State.setBlock
    (state : State K H T)
    (slot : Nat)
    (block : GenerationBlock) :
    State K H T :=
  { state with ring := Function.update state.ring slot block }

/--
Take the first node from one list of a bag, if there is one, and draw the
shard that it is dealt to.
-/
def takeBagged
    (head : GenerationBlock → Option Slot)
    (next : State K H T → Slot → Option Slot)
    (store : GenerationBlock → Option Slot → GenerationBlock)
    (slot : Nat) :
    Program K H T (Option (Slot × Nat)) :=
  Prog.atomic fun state _ =>
    match head (state.ring slot) with
    | none => some (none, state)
    | some node =>
        some (some (node, state.deal &&& (config.shards - 1)),
          { state.setBlock slot
              (store (state.ring slot) (next state node)) with
            deal := state.deal + 1 })

/-- Take a node from `bag_retired(block, s)`. -/
def takeRetired
    (slot shard : Nat) :
    Program K H T (Option (Slot × Nat)) :=
  takeBagged config
    (fun block => block.bagRetired shard)
    (fun state node => state.retireLink node)
    (fun block next =>
      { block with
        bagRetired := Function.update block.bagRetired shard next })
    slot

/-- Take a node from `bag_limbo(block, s)`. -/
def takeLimbo
    (slot shard : Nat) :
    Program K H T (Option (Slot × Nat)) :=
  takeBagged config
    (fun block => block.bagLimbo shard)
    (fun state node => (state.link node).next)
    (fun block next =>
      { block with
        bagLimbo := Function.update block.bagLimbo shard next })
    slot

/-- Free what `take` yields until it yields nothing; the new count. -/
def freeList
    (take : Program K H T (Option (Slot × Nat)))
    (count : Nat) :
    Program K H T Nat :=
  Prog.loop count fun count => do
    let taken ← take
    match taken with
    | none => Prog.leave count
    | some (node, shard) => do
        pushFree shard node
        Prog.again (count + 1)

/-- Free the bag of a slot, shard by shard; the number of its nodes. -/
def freeBag
    (slot : Nat) :
    Program K H T Nat :=
  Prog.loop (0, 0) fun (walk : Nat × Nat) =>
    if walk.1 < config.shards then do
      let retired ← freeList (takeRetired config slot walk.1) walk.2
      let limbo ← freeList (takeLimbo config slot walk.1) retired
      Prog.again (walk.1 + 1, limbo)
    else
      Prog.leave walk.2

/-- The scan of a slot's counts; `false` if it meets one that is not zero. -/
def scanCounts
    (slot start : Nat) :
    Program K H T Bool :=
  Prog.loop (0, start) fun (scan : Nat × Nat) =>
    if scan.1 < config.shards then do
      let zero ← Prog.atomic fun state _ =>
        if state.refs scan.2 slot = 0 then
          some (true, state)
        else
          some (false, { state with scanStart := scan.2 })
      if zero then
        Prog.again
          (scan.1 + 1, (scan.2 + 1) &&& (config.shards - 1))
      else
        Prog.leave false
    else
      Prog.leave true

/-- Empty the slot of a bag that was freed and lower the node counter. -/
def closeBag
    (slot count : Nat) :
    Program K H T Unit :=
  Prog.write fun state =>
    { state.setBlock slot { state.ring slot with state := .empty } with
      oldest := (slot + 1) % config.kGenerations
      scanStart := 0
      nodeCount := state.nodeCount - count }

/-- `steal_hint_.store(++steal_stamp_ << 1)` if the bag had a node. -/
def stampHint (count : Nat) : Program K H T Unit :=
  if count ≠ 0 then
    Prog.write fun state =>
      { state with
        stealStamp := state.stealStamp + 1
        stealHint := ⟨state.stealStamp + 1, false⟩
        unstamped := false }
  else
    pure ()

/-- `free_oldest(result)`. -/
def freeOldest
    (result : AdvanceResult) :
    Program K H T AdvanceResult :=
  Prog.loop result fun result => do
    let oldest ← Prog.read fun state =>
      (state.oldest, (state.ring state.oldest).state, state.scanStart)
    if oldest.2.1 ≠ .sealed then
      Prog.leave result
    else do
      let deserted ← scanCounts config oldest.1 oldest.2.2
      if deserted = false then
        Prog.leave result
      else do
        let count ← freeBag config oldest.1
        closeBag config oldest.1 count
        stampHint count
        Prog.again
          { result with
            freedNodes := result.freedNodes + count
            freedBags := result.freedBags + 1 }

end FreePass

section Bump

variable (config : Config K T)

/--
Step A0 of `bump()`: whether anything is retired, and the limbo heads that
were loaded.
-/
def lookRetired : Program K H T (Bool × (Nat → Option Slot)) :=
  Prog.loop (0, false, fun _ => none)
    fun (look : Nat × Bool × (Nat → Option Slot)) =>
      if look.1 < config.shards then do
        let limbo ← Prog.read fun state => state.limboHead look.1
        match limbo with
        | some _ =>
            Prog.again
              (look.1 + 1, true, Function.update look.2.2 look.1 limbo)
        | none => do
            let retired ← Prog.read fun state => state.retiredHead look.1
            Prog.again (look.1 + 1, look.2.1 || retired.isSome, look.2.2)
      else
        Prog.leave look.2

/-- `bag_retired(*closing, s) = shard.retired_head.exchange(EMPTY)`. -/
def bagShardRetired
    (closing shard : Nat) :
    Program K H T Unit :=
  Prog.write fun state =>
    { state.setBlock closing
        { state.ring closing with
          bagRetired :=
            Function.update (state.ring closing).bagRetired shard
              (state.retiredHead shard) } with
      retiredHead := Function.update state.retiredHead shard none }

/--
`bag_limbo(*closing, s) = shard.limbo_head.exchange(EMPTY)` if the limbo list
was not empty.
-/
def bagShardLimbo
    (closing shard : Nat)
    (loaded : Option Slot) :
    Program K H T Unit :=
  if loaded.isSome then
    Prog.write fun state =>
      { state.setBlock closing
          { state.ring closing with
            bagLimbo :=
              Function.update (state.ring closing).bagLimbo shard
                (state.limboHead shard) } with
        limboHead := Function.update state.limboHead shard none }
  else
    pure ()

/-- Step A3 of `bump()`: take the lists into the bag of the closing slot. -/
def fillBag
    (closing : Nat)
    (loaded : Nat → Option Slot) :
    Program K H T Unit :=
  Prog.loop 0 fun shard =>
    if shard < config.shards then do
      bagShardRetired closing shard
      bagShardLimbo closing shard (loaded shard)
      Prog.again (shard + 1)
    else
      Prog.leave ()

/-- Steps A4 and A5 of `bump()`: seal the slot and publish the next one. -/
def State.publish
    (state : State K H T)
    (closing next : Nat) :
    State K H T :=
  { state with
    ring :=
      Function.update
        (Function.update state.ring closing
          { state.ring closing with state := .sealed })
        next
        { state.ring next with
          state := .current
          gen := (state.ring closing).gen + 1 }
    current := next }

/-- The end of `bump()`: the current slot is closed. -/
def closeCurrent
    (closing : Nat)
    (loaded : Nat → Option Slot)
    (result : AdvanceResult) :
    Program K H T AdvanceResult := do
  fillBag config closing loaded
  Prog.write fun state =>
    state.publish closing ((closing + 1) % config.kGenerations)
  pure { result with advance := .advanced }

/-- `bump(result)`. -/
def bump
    (result : AdvanceResult) :
    Program K H T AdvanceResult := do
  let look ← lookRetired config
  if look.1 = false then
    pure { result with advance := .nothingRetired }
  else do
    let closing ← Prog.read fun state => state.current
    let next := (closing + 1) % config.kGenerations
    let before ← Prog.read fun state => (state.ring next).state
    if before = .empty then
      closeCurrent config closing look.2 result
    else do
      let freed ← freeOldest config result
      let after ← Prog.read fun state => (state.ring next).state
      if after = .empty then
        closeCurrent config closing look.2 freed
      else
        pure { freed with advance := .ringFull }

/-- `bump_and_free(result)`. -/
def bumpAndFree
    (result : AdvanceResult) :
    Program K H T AdvanceResult := do
  let bumped ← bump config result
  freeOldest config bumped

/-- `reclaiming_.exchange(true)`. -/
def takeFlag (thread : T) : Program K H T Bool :=
  Prog.atomic fun state _ =>
    if state.reclaiming then
      some (true, state)
    else
      some (false,
        { state with reclaiming := true, advancer := some thread })

/-- `~AdvanceGuard()`. -/
def releaseFlag : Program K H T Unit :=
  Prog.write fun state =>
    { state with reclaiming := false, advancer := none }

/-- `reclaim()`. -/
def reclaim (thread : T) : Program K H T AdvanceResult := do
  let busy ← takeFlag thread
  if busy then
    pure ⟨0, 0, 0, 0, 0, .contended⟩
  else do
    let result ← bumpAndFree config ⟨0, 0, 0, 0, 0, .nothingRetired⟩
    releaseFlag
    pure result

/-- `auto_reclaim()`. -/
def autoReclaim (thread : T) : Program K H T Unit := do
  let busy ← takeFlag thread
  if busy then
    Prog.write fun state =>
      { state with autoSkipped := state.autoSkipped + 1 }
  else do
    Prog.write fun state =>
      { state with autoReclaims := state.autoReclaims + 1 }
    let _ ← bumpAndFree config ⟨0, 0, 0, 0, 0, .nothingRetired⟩
    releaseFlag

end Bump

section Retire

/-- `auto_reclaim_mask(every)`. -/
def autoReclaimMask (every : BitVec 64) : BitVec 64 :=
  if every = 0 then
    0
  else
    let clamped := if 2 ^ 63 < every.toNat then 2 ^ 63 else every.toNat
    ~~~(BitVec.ofNat 64 (bitCeil clamped) - 1)

/-- The test of the cadence: whether the count passes a multiple. -/
def passesMultiple
    (mask : BitVec 64)
    (old count : Nat) :
    Bool :=
  decide
    ((BitVec.ofNat 64 old ^^^
        (BitVec.ofNat 64 old + BitVec.ofNat 64 count)) &&& mask ≠ 0)

variable [DecidableEq T] (config : Config K T)

/--
The first loop of `push_retired()`: thread the run through `retire_link`; its
nodes, the last one first.
-/
def threadRun
    (thread : T)
    (first last : Slot) :
    Program K H T (List Slot) :=
  Prog.loop (first, [first]) fun (walk : Slot × List Slot) =>
    if walk.1 = last then
      Prog.leave walk.2
    else do
      let link ← loadLink thread walk.1
      match link.next with
      | none => Prog.atomic fun _ _ => none
      | some next => do
          storeRetireLink walk.1 (some next)
          Prog.again (next, next :: walk.2)

/-- `shard.retire_nodes.fetch_add(count)`. -/
def addRetireNodes
    (shard count : Nat) :
    Program K H T Nat :=
  Prog.atomic fun state _ =>
    some (state.retireNodes shard,
      { state with
        retireNodes :=
          Function.update state.retireNodes shard
            (state.retireNodes shard + count) })

/-- The push loop of `push_retired()`. -/
def linkRetired
    (thread : T)
    (shard : Nat)
    (first last : Slot)
    (nodes : List Slot) :
    Program K H T Unit := do
  let head ← Prog.read fun state => state.retiredHead shard
  Prog.loop head fun head => do
    storeRetireLink last head
    let outcome ←
      casWeak (fun state => state.retiredHead shard) head fun state =>
        { state with
          retiredHead :=
            Function.update state.retiredHead shard (some first)
          retired :=
            nodes.map (fun node => (thread, node, state.freed node)) ++
              state.retired }
    if outcome.1 then
      Prog.leave ()
    else
      Prog.again outcome.2

/-- `push_retired(shard, first, last)` on the thread's own shard. -/
def pushRetired
    (thread : T)
    (first last : Slot) :
    Program K H T Unit := do
  let shard := config.myShard thread
  let nodes ← threadRun thread first last
  Prog.write fun state =>
    { state with
      retireRuns :=
        Function.update state.retireRuns shard
          (state.retireRuns shard + 1) }
  let old ← addRetireNodes shard nodes.length
  linkRetired thread shard first last nodes
  if passesMultiple (autoReclaimMask config.autoReclaimEvery) old
      nodes.length then
    autoReclaim config thread
  else
    pure ()

end Retire

end ConcurrentCpp.HashSetRCU
