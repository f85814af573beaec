import ConcurrentCpp.HashSetRCU

namespace ConcurrentCpp.HashSetRCU

/-!
# The operations of the hash set with handles

`contains`, `insert` and `erase` walk the chain of a bucket; `insert` and
`erase` bypass the runs of dead nodes that they meet.  A bucket is split off
its parent when an operation first needs it, and the split cleans the parent
up.  `advance()` walks every bucket under a handle of its own.

A result of `none` or `error` stands for a call that throws.
-/

open HashSet (Slot Address Head Link FreeHead levelFor)

variable {K H T : Type}

section Handles

variable [DecidableEq T] (config : Config K T)

/-- `count.fetch_add(1)` of a join. -/
def State.addRef
    (state : State K H T)
    (thread : T)
    (block shard : Nat) :
    State K H T :=
  { state with
    refs :=
      Function.update state.refs shard
        (Function.update (state.refs shard) block
          (state.refs shard block + 1))
    joined :=
      Function.update state.joined thread
        ((shard, block) :: state.joined thread) }

/-- `count.fetch_sub(1)`. -/
def State.dropRef
    (state : State K H T)
    (block shard : Nat) :
    State K H T :=
  { state with
    refs :=
      Function.update state.refs shard
        (Function.update (state.refs shard) block
          (state.refs shard block - 1)) }

/-- The call has no longer raised a count. -/
def State.forgetJoin
    (state : State K H T)
    (thread : T)
    (block shard : Nat) :
    State K H T :=
  { state with
    joined :=
      Function.update state.joined thread
        ((state.joined thread).erase (shard, block)) }

/-- `join()`: the block; the count is that of the thread's shard. -/
def join (thread : T) : Program K H T Nat :=
  Prog.loop () fun _ => do
    let block ← Prog.read fun state => state.current
    Prog.write fun state =>
      state.addRef thread block (config.myShard thread)
    let current ← Prog.read fun state => state.current
    if current = block then
      Prog.leave block
    else do
      Prog.write fun state =>
        (state.dropRef block (config.myShard thread)).forgetJoin thread
          block (config.myShard thread)
      Prog.again ()

variable [DecidableEq H]

/-- `new_handle()`. -/
def newHandle
    (thread : T)
    (handle : H) :
    Program K H T Unit := do
  let block ← join config thread
  Prog.write fun state =>
    { state.forgetJoin thread block (config.myShard thread) with
      handles :=
        Function.update state.handles handle
          (some ⟨block, config.myShard thread⟩) }

/-- `handle::refresh()` of a handle with this membership. -/
def refresh
    (thread : T)
    (handle : H)
    (live : Handle) :
    Program K H T Bool := do
  let current ← Prog.read fun state => state.current
  if current = live.block then
    pure false
  else do
    let block ← join config thread
    Prog.write fun state =>
      { (state.dropRef live.block live.shard).forgetJoin thread block
          (config.myShard thread) with
        handles :=
          Function.update state.handles handle
            (some ⟨block, config.myShard thread⟩) }
    pure true

end Handles

section Chains

variable (config : Config K T)

/-- `Hash{}(key)`; `none` if it throws. -/
def hashKey (key : K) : Program K H T (Option Nat) :=
  Prog.atomic fun state choice =>
    match choice with
    | .throws => some (none, state)
    | _ => some (some (config.hash key), state)

/-- `Hash{}(node->value)` with the value; the inner `none` if it throws. -/
def hashValue
    (node : Slot) :
    Program K H T (Option (K × Nat)) :=
  Prog.atomic fun state choice =>
    (state.value node).map fun value =>
      match choice with
      | .throws => (none, state)
      | _ => (some (value, config.hash value), state)

/-- `node->value == key`; the inner `none` if it throws. -/
def equalKey
    [DecidableEq K]
    (node : Slot)
    (key : K) :
    Program K H T (Option Bool) :=
  Prog.atomic fun state choice =>
    (state.value node).map fun value =>
      match choice with
      | .throws => (none, state)
      | _ => (some (decide (value = key)), state)

variable [DecidableEq T]

/-- `is_dead_now(node, link, j, ts)`; `none` if `Hash` throws. -/
def isDeadNow
    (thread : T)
    (node : Slot)
    (link : Link)
    (bucket size : Nat) :
    Program K H T (Option Bool) :=
  if link.mark then
    pure (some true)
  else if link.frozen = false then
    pure (some false)
  else do
    let hashed ← hashValue config node
    match hashed with
    | none => pure none
    | some (_, hash) =>
        let child := nextChild hash bucket
        if child < size then do
          let head ← loadHead thread child
          pure (some (decide (head.address ≠ .uninitialized)))
        else
          pure (some false)

/-- The last word of a walk that is untagged, as it was loaded. -/
inductive Pred where
  | head (word : Head)
  | link (node : Slot) (word : Link)
  deriving DecidableEq

/-- `addr_of(pred_word)`. -/
def Pred.next : Pred → Option Slot
  | head word => word.address.first
  | link _ word => word.next

/-- The word with another address. -/
def Pred.redirect
    (next : Option Slot) :
    Pred → Pred
  | head word => head { word with address := .of next }
  | link node word => link node { word with next := next }

/-- What a walk over a chain carries along. -/
structure WalkState where
  pred : Pred
  predOk : Bool
  headWord : Head
  deriving DecidableEq

/-- The state of a walk that starts at a head. -/
def WalkState.start (word : Head) : WalkState :=
  ⟨.head word, true, word⟩

/-- The walk after its word was exchanged for one with another address. -/
def WalkState.redirect
    (walk : WalkState)
    (next : Option Slot) :
    WalkState :=
  { walk with
    pred := walk.pred.redirect next
    headWord :=
      match walk.pred with
      | .head word => { word with address := .of next }
      | .link _ _ => walk.headWord }

/-- Record that a thread has bypassed nodes. -/
def State.bypass
    (state : State K H T)
    (thread : T)
    (nodes : List Slot) :
    State K H T :=
  { state with
    bypassed :=
      nodes.map (fun node => (thread, node, state.freed node)) ++
        state.bypassed }

/-- `compare_exchange_strong` that bypasses a run; whether it succeeded. -/
def casUnlink
    (thread : T)
    (bucket : Nat)
    (pred : Pred)
    (next : Option Slot)
    (nodes : List Slot) :
    Program K H T Bool :=
  Prog.atomic fun state _ =>
    match pred with
    | .head word =>
        if state.buckets bucket = word then
          some (true,
            { state.bypass thread nodes with
              buckets :=
                Function.update state.buckets bucket
                  { word with address := .of next } })
        else
          some (false, state)
    | .link node word =>
        if state.link node = word then
          some (true,
            { state.bypass thread nodes with
              link :=
                Function.update state.link node
                  { word with next := next } })
        else
          some (false, state)

/-- The run that begins with a dead node, as `unlink_run()` records it. -/
structure Run where
  last : Slot
  link : Link
  /-- Its nodes, the last one first. -/
  nodes : List Slot

/-- The first loop of `unlink_run()`; `none` if `Hash` throws. -/
def recordRun
    (thread : T)
    (bucket size : Nat)
    (first : Slot)
    (link : Link) :
    Program K H T (Option Run) :=
  Prog.loop ⟨first, link, [first]⟩ fun (run : Run) =>
    match run.link.next with
    | none => Prog.leave (some run)
    | some next => do
        let nextLink ← loadLink thread next
        let dead ← isDeadNow config thread next nextLink bucket size
        match dead with
        | none => Prog.leave none
        | some false => Prog.leave (some run)
        | some true => Prog.again ⟨next, nextLink, next :: run.nodes⟩

/-- What `unlink_run()` leaves: the walk, whether it won, the successor. -/
structure Unlink where
  walk : WalkState
  won : Bool
  succ : Option Slot

/-- `unlink_run(w, first, first_link, j, ts)`; `none` if `Hash` throws. -/
def unlinkRun
    (thread : T)
    (bucket size : Nat)
    (walk : WalkState)
    (first : Slot)
    (link : Link) :
    Program K H T (Option Unlink) := do
  let recorded ← recordRun config thread bucket size first link
  match recorded with
  | none => pure none
  | some run => do
      let won ←
        casUnlink thread bucket walk.pred run.link.next run.nodes
      if won then do
        pushRetired config thread first run.last
        pure (some ⟨walk.redirect run.link.next, true, run.link.next⟩)
      else
        pure (some ⟨{ walk with predOk := false }, false, run.link.next⟩)

/-- `step_over(w, node, link, j, ts)`; `none` if `Hash` throws. -/
def stepOver
    (thread : T)
    (bucket size : Nat)
    (walk : WalkState)
    (node : Slot)
    (link : Link) :
    Program K H T (Option (WalkState × Option Slot)) :=
  if link.mark = false ∧ link.frozen = false then
    pure (some
      ({ walk with pred := .link node link, predOk := true }, link.next))
  else if walk.predOk = true ∧ walk.pred.next = some node then do
    let dead ← isDeadNow config thread node link bucket size
    match dead with
    | none => pure none
    | some false => pure (some (walk, link.next))
    | some true => do
        let unlinked ←
          unlinkRun config thread bucket size walk node link
        match unlinked with
        | none => pure none
        | some outcome => pure (some (outcome.walk, outcome.succ))
  else
    pure (some (walk, link.next))

/-- `cleanup_parent(parent)`; `false` if `Hash` throws. -/
def cleanupParent
    (thread : T)
    (parent : Nat) :
    Program K H T Bool := do
  let size ← loadSize
  let head ← loadHead thread parent
  Prog.loop (WalkState.start head, head.address.first)
    fun (walk : WalkState × Option Slot) =>
      match walk.2 with
      | none => Prog.leave true
      | some node => do
          let link ← loadLink thread node
          let stepped ←
            stepOver config thread parent size walk.1 node link
          match stepped with
          | none => Prog.leave false
          | some next => Prog.again next

/-- The walk of `self_unlink()` from the head to a node; `none` at the end. -/
def findNode
    (thread : T)
    (bucket : Nat)
    (target : Slot) :
    Program K H T (Option WalkState) := do
  let head ← loadHead thread bucket
  Prog.loop (WalkState.start head, head.address.first)
    fun (walk : WalkState × Option Slot) =>
      match walk.2 with
      | none => Prog.leave none
      | some node =>
          if node = target then
            Prog.leave (some walk.1)
          else do
            let link ← loadLink thread node
            if link.mark = false ∧ link.frozen = false then
              Prog.again
                ({ walk.1 with pred := .link node link }, link.next)
            else
              Prog.again (walk.1, link.next)

/-- How an attempt of `self_unlink()` ends. -/
inductive Attempt where
  | threw
  | finished
  | lost
  deriving DecidableEq

/--
The link of the first node behind the word and whether it is dead; the inner
`none` if `Hash` throws.
-/
def lookFirst
    (thread : T)
    (bucket size : Nat)
    (first target : Slot)
    (targetLink : Link) :
    Program K H T (Link × Option Bool) :=
  if first = target then
    pure (targetLink, some true)
  else do
    let link ← loadLink thread first
    let dead ← isDeadNow config thread first link bucket size
    pure (link, dead)

/-- One attempt of `self_unlink()` behind a word that leads to a run. -/
def unlinkBehind
    (thread : T)
    (bucket size : Nat)
    (walk : WalkState)
    (target : Slot)
    (targetLink : Link) :
    Program K H T Attempt :=
  if walk.predOk = false then
    pure .lost
  else
    match walk.pred.next with
    | none => Prog.atomic fun _ _ => none
    | some first => do
        let looked ←
          lookFirst config thread bucket size first target targetLink
        match looked.2 with
        | none => pure .threw
        | some false => pure .finished
        | some true => do
            let unlinked ←
              unlinkRun config thread bucket size walk first looked.1
            match unlinked with
            | none => pure .threw
            | some outcome =>
                if outcome.won then
                  pure .finished
                else
                  pure .lost

/-- `self_unlink(w, x, x_link, j, ts)`; `false` if `Hash` throws. -/
def selfUnlink
    (thread : T)
    (bucket size : Nat)
    (walk : WalkState)
    (target : Slot)
    (targetLink : Link) :
    Program K H T Bool :=
  Prog.loop (walk, false) fun (turn : WalkState × Bool) => do
    let attempt ←
      unlinkBehind config thread bucket size turn.1 target targetLink
    match attempt with
    | .threw => Prog.leave false
    | .finished => Prog.leave true
    | .lost =>
        if turn.2 then
          Prog.leave true
        else do
          let found ← findNode thread bucket target
          match found with
          | none => Prog.leave true
          | some again => Prog.again (again, true)

end Chains

section Split

variable [DecidableEq T] (config : Config K T)

/-- `compare_exchange_weak` that seals a head. -/
def casSeal
    (thread : T)
    (bucket : Nat)
    (expected : Head)
    (level : Nat) :
    Program K H T (Bool × Head) :=
  Prog.atomic fun state choice =>
    match choice with
    | .spurious =>
        some ((false, state.buckets bucket),
          state.see thread (state.buckets bucket).address.first)
    | _ =>
        if state.buckets bucket = expected then
          some ((true, { expected with level := level }),
            { state with
              buckets :=
                Function.update state.buckets bucket
                  { expected with level := level } })
        else
          some ((false, state.buckets bucket),
            state.see thread (state.buckets bucket).address.first)

/-- The seal loop of `split_bucket()`: the snapshot. -/
def sealParent
    (thread : T)
    (parent level : Nat)
    (head : Head) :
    Program K H T Head :=
  Prog.loop head fun head =>
    if head.level < level then do
      let outcome ← casSeal thread parent head level
      Prog.again outcome.2
    else
      Prog.leave head

/-- `compare_exchange_strong` that tags a link, or the word it found. -/
def casFreeze
    (thread : T)
    (node : Slot)
    (expected : Link) :
    Program K H T Link :=
  Prog.atomic fun state _ =>
    if state.link node = expected then
      some ({ expected with frozen := true },
        { state with
          link :=
            Function.update state.link node
              { expected with frozen := true } })
    else
      some (state.link node, state.see thread (state.link node).next)

/-- The freeze loop of `split_bucket()`: the word that is tagged. -/
def freezeNode
    (thread : T)
    (node : Slot)
    (link : Link) :
    Program K H T Link :=
  Prog.loop link fun link =>
    if link.mark = false ∧ link.frozen = false then do
      let found ← casFreeze thread node link
      Prog.again found
    else
      Prog.leave link

/-- The private subchain: its first and its last node, and all of them. -/
structure Subchain where
  head : Option Slot
  tail : Option Slot
  nodes : List Slot
  deriving DecidableEq

/-- Prepend a copy to the subchain. -/
def Subchain.push
    (subchain : Subchain)
    (copy : Slot) :
    Subchain :=
  ⟨some copy, subchain.tail <|> some copy, copy :: subchain.nodes⟩

/--
One node of the parent's chain: the subchain after it and the next cursor;
`none` if something threw.
-/
def copyNode
    (thread : T)
    (child : Nat)
    (node : Slot)
    (subchain : Subchain) :
    Program K H T (Option (Subchain × Option Slot)) := do
  let link ← loadLink thread node
  if link.mark then
    pure (some (subchain, link.next))
  else do
    let hashed ← hashValue config node
    match hashed with
    | none => pure none
    | some (value, hash) =>
        if hash &&& (bitFloor child * 2 - 1) = child then do
          let final ← freezeNode thread node link
          if final.mark then
            pure (some (subchain, final.next))
          else do
            let copied ← allocNode config thread value subchain.head
            match copied with
            | none => pure none
            | some copy =>
                pure (some (subchain.push copy, final.next))
        else
          pure (some (subchain, link.next))

/-- The walk over the snapshot; whether it ended without a throw. -/
def copyChain
    (thread : T)
    (child : Nat)
    (start : Option Slot) :
    Program K H T (Subchain × Bool) :=
  Prog.loop (⟨none, none, []⟩, start)
    fun (walk : Subchain × Option Slot) =>
      match walk.2 with
      | none => Prog.leave (walk.1, true)
      | some node => do
          let outcome ← copyNode config thread child node walk.1
          match outcome with
          | none => Prog.leave (walk.1, false)
          | some next => Prog.again next

/-- Send a subchain that will not be published to limbo. -/
def abandonSubchain
    (thread : T)
    (subchain : Subchain) :
    Program K H T Unit :=
  match subchain.head, subchain.tail with
  | some first, some last =>
      pushLimbo thread (config.myShard thread) first last subchain.nodes
  | _, _ => pure ()

/-- `compare_exchange_strong` that publishes a bucket. -/
def casPublish
    (thread : T)
    (bucket : Nat)
    (subchain : Subchain) :
    Program K H T Bool :=
  Prog.atomic fun state _ =>
    if state.buckets bucket = ⟨.uninitialized, 0⟩ then
      some (true,
        { state.release thread subchain.nodes with
          buckets :=
            Function.update state.buckets bucket
              ⟨.of subchain.head, 0⟩ })
    else
      some (false, state)

/-- Steps 2 and 3 of `split_bucket()`: copy, publish and clean up. -/
def copyAndPublish
    (thread : T)
    (child : Nat)
    (snapshot : Head) :
    Program K H T Bool := do
  let copied ← copyChain config thread child snapshot.address.first
  if copied.2 then do
    let published ← casPublish thread child copied.1
    if published then
      cleanupParent config thread (parentOf child)
    else do
      abandonSubchain config thread copied.1
      pure true
  else do
    abandonSubchain config thread copied.1
    pure false

/-- `split_bucket(j)` once the parent is published. -/
def splitFrom
    (thread : T)
    (child : Nat)
    (head : Head) :
    Program K H T Bool := do
  let snapshot ←
    sealParent thread (parentOf child) (levelFor (bitFloor child * 2)) head
  copyAndPublish config thread child snapshot

/--
`split_bucket(j)`; `false` if it throws.  The depth bounds the ancestors that
have to be split first; it is used up only by bucket 0, which has no parent.
-/
def splitBucket
    (thread : T) :
    Nat → Nat → Program K H T Bool
  | 0, _ => Prog.atomic fun _ _ => none
  | depth + 1, child =>
      if child = 0 then
        Prog.atomic fun _ _ => none
      else do
        let head ← loadHead thread (parentOf child)
        if head.address = .uninitialized then do
          let ready ← splitBucket thread depth (parentOf child)
          if ready then do
            let head ← loadHead thread (parentOf child)
            splitFrom config thread child head
          else
            pure false
        else
          splitFrom config thread child head

/-- The head of a bucket, which is split first if need be. -/
def enterBucket
    (thread : T)
    (bucket : Nat) :
    Program K H T (Option Head) := do
  let head ← loadHead thread bucket
  if head.address = .uninitialized then do
    let ready ← splitBucket config thread bucket bucket
    if ready then do
      let head ← loadHead thread bucket
      pure (some head)
    else
      pure none
  else
    pure (some head)

end Split

section Contains

variable [DecidableEq K] [DecidableEq T] (config : Config K T)

/-- The walk of `contains()`; `none` if `==` throws. -/
def findKey
    (thread : T)
    (key : K)
    (start : Option Slot) :
    Program K H T (Option Bool) :=
  Prog.loop start fun cursor =>
    match cursor with
    | none => Prog.leave (some false)
    | some node => do
        let link ← loadLink thread node
        let same ← equalKey node key
        match same with
        | none => Prog.leave none
        | some same =>
            if same = true ∧ link.mark = false then
              Prog.leave (some true)
            else
              Prog.again link.next

/-- `contains(h, key)`. -/
def contains
    (thread : T)
    (key : K) :
    Program K H T (Except Site Bool) := do
  let size ← loadSize
  Prog.loop size fun size => do
    let hashed ← hashKey config key
    match hashed with
    | none => Prog.leave (.error .search)
    | some hash => do
        let entered ← enterBucket config thread (hash &&& (size - 1))
        match entered with
        | none => Prog.leave (.error .search)
        | some head => do
            let found ← findKey thread key head.address.first
            match found with
            | none => Prog.leave (.error .search)
            | some true => Prog.leave (.ok true)
            | some false => do
                let newSize ← loadSize
                if newSize = size then
                  Prog.leave (.ok false)
                else
                  Prog.again newSize

end Contains

section Insert

variable [DecidableEq K] [DecidableEq T] (config : Config K T)

/--
The walk of `insert()`: whether the key was found, and the head afterwards;
`none` if `==` or `Hash` throws.
-/
def seekKey
    (thread : T)
    (key : K)
    (bucket size : Nat)
    (head : Head) :
    Program K H T (Option (Bool × Head)) :=
  Prog.loop (WalkState.start head, head.address.first)
    fun (walk : WalkState × Option Slot) =>
      match walk.2 with
      | none => Prog.leave (some (false, walk.1.headWord))
      | some node => do
          let link ← loadLink thread node
          let same ← equalKey node key
          match same with
          | none => Prog.leave none
          | some same =>
              if same = true ∧ link.mark = false then
                Prog.leave (some (true, walk.1.headWord))
              else do
                let stepped ←
                  stepOver config thread bucket size walk.1 node link
                match stepped with
                | none => Prog.leave none
                | some next => Prog.again next

/-- `compare_exchange_strong` that publishes a key in front of a bucket. -/
def casInsert
    (thread : T)
    (bucket : Nat)
    (expected : Head)
    (node : Slot)
    (key : K) :
    Program K H T Bool :=
  Prog.atomic fun state _ =>
    if state.buckets bucket = expected then
      some (true,
        { state.release thread [node] with
          buckets :=
            Function.update state.buckets bucket
              { expected with address := .node node }
          events := .added thread key :: state.events })
    else
      some (false, state)

/-- The store loop of a doubling: mark the new buckets. -/
def markBuckets (size : Nat) : Program K H T Unit :=
  Prog.loop size fun bucket =>
    if bucket < size * 2 then do
      Prog.write fun state =>
        { state with
          buckets :=
            Function.update state.buckets bucket ⟨.uninitialized, 0⟩ }
      Prog.again (bucket + 1)
    else
      Prog.leave ()

/-- `resize_lock_.lock()`. -/
def lockResize : Program K H T Unit :=
  Prog.atomic fun state _ =>
    if state.resizing then
      none
    else
      some ((), { state with resizing := true })

/-- `resize_lock_.unlock()`. -/
def unlockResize : Program K H T Unit :=
  Prog.write fun state => { state with resizing := false }

/-- `buckets_.resize(new_ts)`; `false` if it throws `bad_alloc`. -/
def resizeBuckets : Program K H T Bool :=
  Prog.atomic fun state choice =>
    match choice with
    | .throws => some (false, state)
    | _ => some (true, state)

/-- The doubling that may follow a publication; `false` if it throws. -/
def doubleTable (size : Nat) : Program K H T Bool := do
  let count ← Prog.read fun state => state.nodeCount
  if (size * 2 : Nat) < count then do
    lockResize
    let current ← loadSize
    if current = size then do
      let resized ← resizeBuckets
      if resized then do
        markBuckets size
        Prog.write fun state => { state with tableSize := size * 2 }
        unlockResize
        pure true
      else do
        unlockResize
        pure false
    else do
      unlockResize
      pure true
  else
    pure true

/-- Send a node that was never published to limbo. -/
def abandonNode
    (thread : T)
    (pending : Option Slot) :
    Program K H T Unit :=
  match pending with
  | none => pure ()
  | some node =>
      pushLimbo thread (config.myShard thread) node node [node]

/-- The node to prepend: allocated once, then only repointed. -/
def prepareNode
    (thread : T)
    (key : K)
    (pending : Option Slot)
    (next : Option Slot) :
    Program K H T (Option Slot) :=
  match pending with
  | none => allocNode config thread key next
  | some node => do
      storeLink node next
      pure (some node)

/-- One attempt of `insert()` at a bucket with this head. -/
def insertAt
    (thread : T)
    (key : K)
    (size bucket : Nat)
    (head : Head)
    (pending : Option Slot) :
    Program K H T (Option Slot ⊕ Except Site Bool) := do
  let sought ← seekKey config thread key bucket size head
  match sought with
  | none => do
      abandonNode config thread pending
      Prog.leave (.error .search)
  | some (true, _) => do
      abandonNode config thread pending
      Prog.leave (.ok false)
  | some (false, head) => do
      let prepared ←
        prepareNode config thread key pending head.address.first
      match prepared with
      | none => Prog.leave (.error .search)
      | some node => do
          let published ← casInsert thread bucket head node key
          if published then do
            let grown ← doubleTable size
            if grown then
              Prog.leave (.ok true)
            else
              Prog.leave (.error .growth)
          else
            Prog.again (some node)

/-- `insert(h, key)`. -/
def insert
    (thread : T)
    (key : K) :
    Program K H T (Except Site Bool) :=
  Prog.loop none fun pending => do
    let size ← loadSize
    let hashed ← hashKey config key
    match hashed with
    | none => do
        abandonNode config thread pending
        Prog.leave (.error .search)
    | some hash => do
        let bucket := hash &&& (size - 1)
        let head ← loadHead thread bucket
        if head.address = .uninitialized then do
          let ready ← splitBucket config thread bucket bucket
          if ready then
            Prog.again pending
          else do
            abandonNode config thread pending
            Prog.leave (.error .search)
        else if levelFor size < head.level then
          Prog.again pending
        else
          insertAt config thread key size bucket head pending

end Insert

section Erase

variable [DecidableEq K] [DecidableEq T] (config : Config K T)

/-- How a walk of `erase()` ended. -/
inductive EraseWalk where
  | threw (site : Site)
  | erased
  | missed (stale : Bool)
  deriving DecidableEq

/-- `compare_exchange_strong` that marks a node; the word it found. -/
def casMark
    (thread : T)
    (node : Slot)
    (expected : Link)
    (key : K) :
    Program K H T (Bool × Link) :=
  Prog.atomic fun state _ =>
    if state.link node = expected then
      some ((true, expected),
        { state with
          link :=
            Function.update state.link node { expected with mark := true }
          events := .removed thread key :: state.events })
    else
      some ((false, state.link node),
        state.see thread (state.link node).next)

/-- An unmarked node of the key was found: the mark loop. -/
def eraseNode
    (thread : T)
    (key : K)
    (bucket size : Nat)
    (walk : WalkState)
    (node : Slot)
    (link : Link) :
    Program K H T EraseWalk :=
  Prog.loop link fun link =>
    if link.mark = false ∧ link.frozen = false then do
      let outcome ← casMark thread node link key
      if outcome.1 then do
        let unlinked ←
          selfUnlink config thread bucket size walk node
            { link with mark := true }
        if unlinked then
          Prog.leave .erased
        else
          Prog.leave (.threw .selfUnlink)
      else
        Prog.again outcome.2
    else
      Prog.leave (.missed link.frozen)

/-- The walk of `erase()`. -/
def eraseKey
    (thread : T)
    (key : K)
    (bucket size : Nat)
    (head : Head) :
    Program K H T EraseWalk :=
  Prog.loop (WalkState.start head, head.address.first)
    fun (walk : WalkState × Option Slot) =>
      match walk.2 with
      | none => Prog.leave (.missed false)
      | some node => do
          let link ← loadLink thread node
          let same ← equalKey node key
          match same with
          | none => Prog.leave (.threw .search)
          | some same =>
              if same = true ∧ link.mark = false then do
                let outcome ←
                  eraseNode config thread key bucket size walk.1 node link
                Prog.leave outcome
              else do
                let stepped ←
                  stepOver config thread bucket size walk.1 node link
                match stepped with
                | none => Prog.leave (.threw .search)
                | some next => Prog.again next

/-- `erase(h, key)`. -/
def erase
    (thread : T)
    (key : K) :
    Program K H T (Except Site Bool) := do
  let size ← loadSize
  Prog.loop size fun size => do
    let hashed ← hashKey config key
    match hashed with
    | none => Prog.leave (.error .search)
    | some hash => do
        let bucket := hash &&& (size - 1)
        let entered ← enterBucket config thread bucket
        match entered with
        | none => Prog.leave (.error .search)
        | some head => do
            let walked ← eraseKey config thread key bucket size head
            match walked with
            | .threw site => Prog.leave (.error site)
            | .erased => Prog.leave (.ok true)
            | .missed stale => do
                let newSize ← loadSize
                if newSize = size ∧ stale = false then
                  Prog.leave (.ok false)
                else
                  Prog.again newSize

end Erase

section Advance

variable [DecidableEq T] (config : Config K T)

/-- The count over a run that was won, from its second node on. -/
def countRun
    (thread : T)
    (start last : Option Slot)
    (result : AdvanceResult) :
    Program K H T AdvanceResult :=
  Prog.loop (start, result) fun (count : Option Slot × AdvanceResult) =>
    if count.1 = last then
      Prog.leave count.2
    else
      match count.1 with
      | none => Prog.atomic fun _ _ => none
      | some node => do
          let link ← loadLink thread node
          Prog.again
            (link.next,
              { count.2 with
                walkRetired := count.2.walkRetired + 1
                nodesPassed := count.2.nodesPassed + 1 })

/-- The walk over one bucket; `none` if `Hash` throws. -/
def walkBucket
    (thread : T)
    (bucket size : Nat)
    (head : Head)
    (result : AdvanceResult) :
    Program K H T (Option AdvanceResult) :=
  Prog.loop (WalkState.start head, head.address.first, result)
    fun (walk : WalkState × Option Slot × AdvanceResult) =>
      match walk.2.1 with
      | none => Prog.leave (some walk.2.2)
      | some node => do
          let link ← loadLink thread node
          let passed :=
            { walk.2.2 with nodesPassed := walk.2.2.nodesPassed + 1 }
          let stepped ←
            stepOver config thread bucket size walk.1 node link
          match stepped with
          | none => Prog.leave none
          | some (next, cursor) =>
              if (link.mark = true ∨ link.frozen = true) ∧
                  next.predOk = true ∧ next.pred.next = cursor then do
                let counted ←
                  countRun thread link.next cursor
                    { passed with walkRetired := passed.walkRetired + 1 }
                Prog.again (next, cursor, counted)
              else
                Prog.again (next, cursor, passed)

/-- The loop of `walk()` over the buckets; `none` if `Hash` throws. -/
def walkTable
    (thread : T)
    (size : Nat)
    (result : AdvanceResult) :
    Program K H T (Option AdvanceResult) :=
  Prog.loop (0, result) fun (walk : Nat × AdvanceResult) =>
    if walk.1 < size then do
      let head ← loadHead thread walk.1
      if head.address = .uninitialized then
        Prog.again (walk.1 + 1, walk.2)
      else do
        let walked ←
          walkBucket config thread walk.1 size head
            { walk.2 with bucketsWalked := walk.2.bucketsWalked + 1 }
        match walked with
        | none => Prog.leave none
        | some result => Prog.again (walk.1 + 1, result)
    else
      Prog.leave (some walk.2)

/-- `walk(result)` under a handle of its own; `none` if `Hash` throws. -/
def walk
    (thread : T)
    (result : AdvanceResult) :
    Program K H T (Option AdvanceResult) := do
  let block ← join config thread
  let size ← loadSize
  let walked ← walkTable config thread size result
  Prog.write fun state =>
    (state.dropRef block (config.myShard thread)).forgetJoin thread block
      (config.myShard thread)
  pure walked

/-- `advance()`; `none` if `Hash` throws. -/
def advance (thread : T) : Program K H T (Option AdvanceResult) := do
  let busy ← takeFlag thread
  if busy then
    pure (some ⟨0, 0, 0, 0, 0, .contended⟩)
  else do
    let freed ← bumpAndFree config ⟨0, 0, 0, 0, 0, .nothingRetired⟩
    if freed.advance = .ringFull then do
      releaseFlag
      pure (some freed)
    else do
      let walked ← walk config thread freed
      releaseFlag
      pure walked

end Advance

section Client

variable [DecidableEq H]

/-- Nobody is using the handle. -/
def Unused
    (state : State K H T)
    (handle : H) : Prop :=
  ∀ use ∈ state.uses, use.handle ≠ some handle

/-- Nobody may be changing the handle. -/
def Unchanging
    (state : State K H T)
    (handle : H) : Prop :=
  ∀ use ∈ state.uses, use.handle = some handle → use.exclusive = false

instance
    (state : State K H T)
    (handle : H) :
    Decidable (Unused state handle) :=
  inferInstanceAs
    (Decidable (∀ use ∈ state.uses, use.handle ≠ some handle))

instance
    (state : State K H T)
    (handle : H) :
    Decidable (Unchanging state handle) :=
  inferInstanceAs
    (Decidable
      (∀ use ∈ state.uses,
        use.handle = some handle → use.exclusive = false))

/-- Leave the generation of a handle, if it is live, and empty it. -/
def State.leaveHandle
    (state : State K H T)
    (handle : H) :
    State K H T :=
  match state.handles handle with
  | none => state
  | some live =>
      { state.dropRef live.block live.shard with
        handles := Function.update state.handles handle none }

/-- Exchange two handles. -/
def State.swapHandles
    (state : State K H T)
    (first second : H) :
    State K H T :=
  { state with
    handles :=
      Function.update
        (Function.update state.handles first (state.handles second))
        second (state.handles first) }

variable [DecidableEq T]

/-- A thread begins a call. -/
def State.beginUse
    (state : State K H T)
    (use : Use H T) :
    State K H T :=
  { state with
    uses := use :: state.uses
    loads := Function.update state.loads use.thread []
    abandoned := Function.update state.abandoned use.thread [] }

variable (config : Config K T)

/-- What `erase()` requires. -/
def Offered : SetOp K → Prop
  | .erase _ => config.allowDelete = true
  | _ => True

instance : ∀ operation : SetOp K, Decidable (Offered config operation)
  | .contains _ => .isTrue trivial
  | .insert _ => .isTrue trivial
  | .erase _ => inferInstanceAs (Decidable (config.allowDelete = true))

/--
A client begins a call that its contract allows; a call that makes at most one
access is performed at once.  The result holds the membership of the handle.
-/
def startCall
    (state : State K H T)
    (thread : T) :
    Call K H → Option (Handle × State K H T)
  | .newHandle handle =>
      if Unused state handle ∧ state.handles handle = none then
        some (⟨0, 0⟩, state.beginUse ⟨thread, some handle, true⟩)
      else
        none
  | .refresh handle =>
      if Unused state handle then
        (state.handles handle).map fun live =>
          (live, state.beginUse ⟨thread, some handle, true⟩)
      else
        none
  | .moveConstruct target source =>
      if Unused state target ∧ Unused state source ∧
          state.handles target = none then
        some (⟨0, 0⟩, state.swapHandles target source)
      else
        none
  | .moveAssign target source =>
      if Unused state target ∧ Unused state source then
        if target = source then
          some (⟨0, 0⟩, state)
        else
          some (⟨0, 0⟩,
            (state.leaveHandle target).swapHandles target source)
      else
        none
  | .swap first second =>
      if Unused state first ∧ Unused state second then
        some (⟨0, 0⟩, state.swapHandles first second)
      else
        none
  | .destroy handle =>
      if Unused state handle then
        some (⟨0, 0⟩, state.leaveHandle handle)
      else
        none
  | .operate handle operation =>
      if Unchanging state handle ∧ Offered config operation then
        (state.handles handle).map fun live =>
          (live,
            { state.beginUse ⟨thread, some handle, false⟩ with
              events := .called thread operation :: state.events })
      else
        none
  | .advance =>
      some (⟨0, 0⟩, state.beginUse ⟨thread, none, false⟩)
  | .reclaim =>
      some (⟨0, 0⟩, state.beginUse ⟨thread, none, false⟩)

/-- A client picks its next call. -/
def pick
    (thread : T) :
    Program K H T (Call K H × Handle) :=
  Prog.atomic fun state choice =>
    match choice with
    | .call call =>
        (startCall config state thread call).map fun outcome =>
          ((call, outcome.1), outcome.2)
    | _ => none

/-- The record of a thread that ends a call. -/
def State.endUse
    (state : State K H T)
    (use : Use H T) :
    State K H T :=
  { state with
    uses := state.uses.erase use
    loads := Function.update state.loads use.thread [] }

/-- A thread ends a call on a handle. -/
def endHandleCall
    (use : Use H T) :
    Program K H T Unit :=
  Prog.write fun state => state.endUse use

/-- A thread ends an operation. -/
def endOperation
    (thread : T)
    (handle : H)
    (operation : SetOp K)
    (result : Except Site Bool) :
    Program K H T Unit :=
  Prog.write fun state =>
    match result with
    | .ok result =>
        { state.endUse ⟨thread, some handle, false⟩ with
          events := .returned thread operation result :: state.events }
    | .error site =>
        { state.endUse ⟨thread, some handle, false⟩ with
          events := .threw thread operation :: state.events
          thrown := (thread, operation, site) :: state.thrown }

/-- A thread ends a call of `advance()` or `reclaim()`. -/
def endAdvance
    (thread : T)
    (result : Option AdvanceResult) :
    Program K H T Unit :=
  Prog.write fun state =>
    { state.endUse ⟨thread, none, false⟩ with
      advances := (thread, result) :: state.advances }

variable [DecidableEq K]

/-- What an operation does after it has begun. -/
def operate
    (thread : T) :
    SetOp K → Program K H T (Except Site Bool)
  | .contains key => contains config thread key
  | .insert key => insert config thread key
  | .erase key => erase config thread key

/-- What is left of a call after it has begun. -/
def perform
    (thread : T)
    (live : Handle) :
    Call K H → Program K H T Unit
  | .newHandle handle => do
      newHandle config thread handle
      endHandleCall ⟨thread, some handle, true⟩
  | .refresh handle => do
      let _ ← refresh config thread handle live
      endHandleCall ⟨thread, some handle, true⟩
  | .operate handle operation => do
      let result ← operate config thread operation
      endOperation thread handle operation result
  | .advance => do
      let result ← advance config thread
      endAdvance thread result
  | .reclaim => do
      let result ← reclaim config thread
      endAdvance thread (some result)
  | _ => pure ()

/-- A client thread makes one call after the other. -/
def client
    (thread : T) :
    Program K H T Unit :=
  Prog.loop () fun _ => do
    let begun ← pick config thread
    perform config thread begun.2 begun.1
    Prog.again ()

end Client

section Construct

variable (config : Config K T)

/-- The constructor; `none` if it aborts. -/
def construct : Option (State K H T) :=
  if 2 ^ 63 < config.initialCapacity then
    none
  else
    some
      { buckets := fun _ => ⟨.empty, 0⟩
        tableSize := config.capacity
        resizing := false
        link := fun _ => .bare none
        retireLink := fun _ => none
        value := fun _ => none
        arena := fun _ => 0
        freeHead := fun _ => ⟨none, 0⟩
        limboHead := fun _ => none
        retiredHead := fun _ => none
        retireRuns := fun _ => 0
        retireNodes := fun _ => 0
        nodeCount := 0
        ring := fun slot =>
          { state := if slot = 0 then .current else .empty
            gen := 0
            bagRetired := fun _ => none
            bagLimbo := fun _ => none }
        refs := fun _ _ => 0
        current := 0
        reclaiming := false
        oldest := 0
        deal := 0
        scanStart := 0
        stealHint := ⟨0, true⟩
        stealStamp := 0
        autoReclaims := 0
        autoSkipped := 0
        handles := fun _ => none
        uses := []
        freed := fun _ => 0
        unstamped := false
        advancer := none
        joined := fun _ => []
        loads := fun _ => []
        popping := fun _ => none
        kept := fun _ => []
        abandoned := fun _ => []
        bypassed := []
        retired := []
        events := []
        thrown := []
        advances := [] }

variable [DecidableEq K] [DecidableEq H] [DecidableEq T]

/-- Any number of client threads on a set. -/
def poolOf
    (state : State K H T) :
    Pool (State K H T) (Choice K H) T where
  shared := state
  threads := client config

end Construct

end ConcurrentCpp.HashSetRCU
