import ConcurrentCpp.GenerationRing
import ConcurrentCpp.LinkStacks
import ConcurrentCpp.LockFreeListRCU

namespace ConcurrentCpp.LockFreeListRCU

/-!
# The protocol of the list with handles

The proof keeps the stage of every node: in whose hands it is, whether it is
on the chain, or on which of the stacks that are threaded through
`retire_link`.  It numbers the generations and remembers in which one every
session was verified.  A node that is cut out of the chain is stamped with the
generation that is current at that moment; it enters a bag of that generation
or a later one, so a session that may have reached it pins the bag.
-/

variable {A H T V : Type} [DecidableEq T]

/-- The stacks that are threaded through `retire_link`. -/
inductive Label where
  | retired
  | free
  | bag (slot : Nat)
  deriving DecidableEq

/-- In whose hands a node is. -/
inductive Stage (T : Type) where
  | absent
  | owned (thread : T) (popped : Bool)
  | chained
  | pending (thread : T)
  | listed (label : Label)
  | hand
  deriving DecidableEq

namespace Stage

/-- The stack that a node of this stage is on. -/
def label? : Stage T → Option Label
  | listed label => some label
  | _ => none

omit [DecidableEq T] in
theorem label?_eq_some
    {stage : Stage T}
    {label : Label} :
    stage.label? = some label ↔ stage = .listed label := by
  cases stage <;> simp [label?]

/-- The thread that has to link, dispose of or retire the node. -/
def owner? : Stage T → Option T
  | owned thread _ => some thread
  | pending thread => some thread
  | _ => none

/-- The node has been inserted or disposed of in this life. -/
def Used : Stage T → Prop
  | absent => False
  | owned _ _ => False
  | _ => True

/-- The node is on a stack or in the reclaimer's hand. -/
def Shelved : Stage T → Prop
  | listed _ => True
  | hand => True
  | _ => False

end Stage

/-- What the proof keeps besides the state. -/
structure Ghost (A T : Type) where
  place : A → Place Unit
  stage : A → Stage T
  ring : Ring Unit (Nat ⊕ T)
  holder : Option T
  hand : List A
  freeing : Bool
  erasing : T → Bool
  unreported : Finset T

/-- The marked chain of a world. -/
def chainOf
    (world : State A H T V × Ghost A T) :
    MarkedChain A where
  next := world.1.next
  place := world.2.place
  now := world.2.ring.now
  floor := world.2.ring.low

/-- The oldest generation whose slot is in use. -/
def bottomOf (ghost : Ghost A T) : Nat :=
  ghost.ring.low - ghost.freeing.toNat

/-- Where the heads and links of the stacks lead. -/
def stackLinks
    (state : State A H T V)
    (freeing : Bool) :
    Links Label A
  | .root .retired => state.retiredHead
  | .root .free => state.freeHead
  | .root (.bag slot) =>
      if freeing = true ∧ slot = state.oldest then
        none
      else
        (state.ring slot).bag
  | .node node => state.retireLink node

/-- The stacks of a world. -/
def stacksOf
    (world : State A H T V × Ghost A T) :
    Stacks Label A where
  links := stackLinks world.1 world.2.freeing
  listed node := (world.2.stage node).label?

/-- The plain fields of the ring show the generations in use. -/
structure Blocks
    (capacity : Nat)
    (ring : Nat → GenerationBlock A)
    (oldest now bottom : Nat) : Prop where
  oldest_eq : oldest = bottom % capacity
  bottom_le : bottom ≤ now
  now_lt : now < bottom + capacity
  current :
    (ring (now % capacity)).state = .current ∧
      (ring (now % capacity)).gen = now ∧
      (ring (now % capacity)).bag = none
  closed :
    ∀ {generation},
      bottom ≤ generation →
      generation < now →
      (ring (generation % capacity)).state = .sealed ∧
        (ring (generation % capacity)).gen = generation ∧
        (ring (generation % capacity)).bag ≠ none
  empty :
    ∀ {slot},
      slot < capacity →
      (∀ generation,
        bottom ≤ generation →
        generation ≤ now →
        slot ≠ generation % capacity) →
      (ring slot).state = .empty ∧ (ring slot).bag = none

/-- What the stage of a node says about its words. -/
def NodeOk
    (capacity : Nat)
    (ghost : Ghost A T)
    (state : State A H T V)
    (node : A) : Prop :=
  match ghost.stage node with
  | .absent =>
      ghost.place node = .off ∧ state.value node = none ∧
        state.allocated node = false
  | .owned _ _ =>
      ghost.place node = .off ∧ state.allocated node = true
  | .chained =>
      ghost.place node = .linked () ∧ state.value node ≠ none ∧
        state.allocated node = true
  | .pending _ =>
      ghost.place node ≠ .linked () ∧ state.value node ≠ none ∧
        state.allocated node = true ∧
        (state.next (.node node)).mark = true
  | .listed .retired =>
      ghost.place node ≠ .linked () ∧ state.value node ≠ none ∧
        state.allocated node = true ∧
        (state.next (.node node)).mark = true
  | .listed (.bag slot) =>
      ghost.place node ≠ .linked () ∧ state.value node ≠ none ∧
        state.allocated node = true ∧
        (state.next (.node node)).mark = true ∧
        ∃ generation,
          ghost.ring.low ≤ generation ∧ generation < ghost.ring.now ∧
            slot = generation % capacity ∧
            ∀ stamp,
              ghost.place node = .cut () stamp → stamp ≤ generation
  | .listed .free =>
      ghost.place node = .off ∧ state.value node = none ∧
        state.allocated node = true ∧
        (state.next (.node node)).mark = true
  | .hand =>
      ghost.place node ≠ .linked () ∧
        state.allocated node = true ∧
        (state.next (.node node)).mark = true ∧
        (ghost.freeing = false → state.value node ≠ none) ∧
        (ghost.freeing = true →
          (state.value node = none → ghost.place node = .off) ∧
          ∀ stamp,
            ghost.place node = .cut () stamp →
            stamp < ghost.ring.low)

/-- The node cannot return to the free list before this generation ends. -/
def Blocked
    (capacity : Nat)
    (ghost : Ghost A T)
    (since : Nat)
    (node : A) : Prop :=
  match ghost.stage node with
  | .absent => False
  | .owned _ popped => popped = true
  | .listed .free => False
  | .listed (.bag slot) =>
      ∃ generation,
        since ≤ generation ∧ generation < ghost.ring.now ∧
          slot = generation % capacity
  | .hand => ghost.freeing = false
  | _ => True

/-- The thread works under a session of this generation. -/
def Under
    (state : State A H T V)
    (ghost : Ghost A T)
    (thread : T)
    (generation : Nat) : Prop :=
  ∃ handle live,
    (⟨thread, some handle, false⟩ : Use H T) ∈ state.uses ∧
      state.handles handle = some live ∧
      ghost.ring.Verified (.inl live.session) generation

/-- Handles, sessions and calls in progress. -/
structure Sessions
    (handles : H → Option Handle)
    (uses : List (Use H T))
    (iterators : List (Nat × Cell Unit A))
    (nextSession : Nat)
    (reached : List (Nat × Cell Unit A))
    (token : Nat ⊕ T → Option (Token Unit)) : Prop where
  live :
    ∀ {handle live},
      handles handle = some live →
      ∃ generation,
        token (.inl live.session) =
          some ⟨(), live.block, some generation⟩
  fresh :
    ∀ {handle live},
      handles handle = some live →
      live.session < nextSession
  injective :
    ∀ {handle other first second},
      handles handle = some first →
      handles other = some second →
      first.session = second.session →
      handle = other
  tokens :
    ∀ {session},
      token (.inl session) ≠ none →
      ∃ handle live,
        handles handle = some live ∧ live.session = session
  older :
    ∀ {session cell},
      (session, cell) ∈ reached → session < nextSession
  positions :
    ∀ {session cell},
      (session, cell) ∈ iterators →
      (session, cell) ∈ reached
  threads : (uses.map Use.thread).Nodup
  exclusive :
    ∀ {first second handle},
      first ∈ uses →
      second ∈ uses →
      first.handle = some handle →
      second.handle = some handle →
      first.exclusive = true →
      first = second

/-- Who has a node or the flag in its hands is in a call that may. -/
structure Duties
    (uses : List (Use H T))
    (stage : A → Stage T)
    (holder : Option T) : Prop where
  owner :
    ∀ {node thread},
      (stage node).owner? = some thread →
      ∃ handle, (⟨thread, some handle, false⟩ : Use H T) ∈ uses
  holder :
    ∀ {thread},
      holder = some thread →
      (⟨thread, none, false⟩ : Use H T) ∈ uses

/-- What the record says about the lives of a node. -/
structure Lives
    (next : Cell Unit A → MarkedPtr A)
    (life : A → Nat)
    (stage : A → Stage T)
    (events : List (ListEvent (A × Nat) T)) : Prop where
  marked :
    ∀ {node count},
      (node, count) ∈ marksOf events →
      count ≤ life node
  unmarked :
    ∀ {node},
      (node, life node) ∈ marksOf events →
      (stage node).Used ∧
        (next (.node node)).mark = true
  inserted :
    ∀ {thread node count},
      ListEvent.inserted thread (node, count) true ∈ events →
      count ≤ life node ∧
        (count = life node → (stage node).Used)

/-- What the record says about values and calls. -/
structure Records
    (value : A → Option V)
    (dereferenced : List (Option V))
    (constructions destructions : A → Nat)
    (unlinked : List (Nat × Nat))
    (events : List (ListEvent (A × Nat) T))
    (erasing : T → Bool)
    (unreported : Finset T) : Prop where
  ledger : Ledger events erasing unreported
  unlinkedSame :
    ∀ {first last}, (first, last) ∈ unlinked → first = last
  constructed : ∀ value ∈ dereferenced, value ≠ none
  counts :
    ∀ node,
      constructions node =
        destructions node + (value node).toList.length

/-- What holds in every reachable world. -/
structure Invariant
    (capacity : Nat)
    (world : State A H T V × Ghost A T) : Prop where
  chain : (chainOf world).Sound
  ring :
    world.2.ring.Sound capacity world.1.current
      fun place => world.1.refs place.2
  blocks :
    Blocks capacity world.1.ring world.1.oldest world.2.ring.now
      (bottomOf world.2)
  freeing :
    world.2.freeing = true → 1 ≤ world.2.ring.low
  stacked : (stacksOf world).WellFormed
  nodes : ∀ node, NodeOk capacity world.2 world.1 node
  hand : ∀ node, node ∈ world.2.hand ↔ world.2.stage node = .hand
  sessions :
    Sessions world.1.handles world.1.uses world.1.iterators
      world.1.nextSession world.1.reached world.2.ring.token
  visible :
    ∀ {session node generation},
      (session, .node node) ∈ world.1.reached →
      world.2.ring.Verified (.inl session) generation →
      (chainOf world).forest.Visible () generation node
  watch :
    ∀ {thread node},
      world.1.topRead thread = some node →
      ∃ generation,
        Under world.1 world.2 thread generation ∧
          (world.2.stage node = .listed .free ∨
            Blocked capacity world.2 generation node)
  lives :
    Lives world.1.next world.1.life world.2.stage world.1.events
  records :
    Records world.1.value world.1.dereferenced world.1.constructions
      world.1.destructions world.1.unlinked world.1.events
      world.2.erasing world.2.unreported
  duties : Duties world.1.uses world.2.stage world.2.holder
  flag : world.1.reclaiming = world.2.holder.isSome
  idle :
    world.2.holder = none →
    world.2.hand = [] ∧ world.2.freeing = false

/-- What one step of a thread does to the nodes. -/
structure NodeSteps
    (thread : T)
    (world after : State A H T V × Ghost A T) : Prop where
  chain : (chainOf world).Advances (chainOf after)
  owned :
    ∀ {node other popped},
      other ≠ thread →
      world.2.stage node = .owned other popped →
      after.2.stage node = .owned other popped ∧
        after.1.next (.node node) = world.1.next (.node node) ∧
        after.1.value node = world.1.value node
  pending :
    ∀ {node other},
      other ≠ thread →
      world.2.stage node = .pending other →
      after.2.stage node = .pending other ∧
        after.1.retireLink node = world.1.retireLink node
  owner :
    ∀ {node other},
      other ≠ thread →
      (after.2.stage node).owner? = some other →
      (world.2.stage node).owner? = some other
  watched :
    ∀ {other node},
      world.1.topRead other = some node →
      world.2.stage node ≠ .listed .free →
      after.2.stage node ≠ .listed .free
  freeLink :
    ∀ {node},
      world.2.stage node = .listed .free →
      after.2.stage node = .listed .free →
      after.1.retireLink node = world.1.retireLink node
  present :
    ∀ {node},
      world.2.place node ≠ .off →
      after.2.place node ≠ .off →
      after.1.life node = world.1.life node ∧
        after.1.value node = world.1.value node
  life : ∀ node, world.1.life node ≤ after.1.life node
  used :
    ∀ {node},
      after.1.life node = world.1.life node →
      (world.2.stage node).Used →
      (after.2.stage node).Used ∧
        (world.2.stage node ≠ .chained →
          after.2.stage node ≠ .chained) ∧
        ((world.1.next (.node node)).mark = true →
          after.1.next (.node node) = world.1.next (.node node))

/-- What one step of a thread does to handles and sessions. -/
structure SessionSteps
    (thread : T)
    (world after : State A H T V × Ghost A T) : Prop where
  uses :
    ∀ {use},
      use ∈ world.1.uses →
      use.thread ≠ thread →
      use ∈ after.1.uses ∧
        ∀ {handle},
          use.handle = some handle →
          after.1.handles handle = world.1.handles handle ∧
            ∀ {live},
              world.1.handles handle = some live →
              after.2.ring.token (.inl live.session) =
                world.2.ring.token (.inl live.session)
  usesNew :
    ∀ {use},
      use ∈ after.1.uses →
      use.thread ≠ thread →
      use ∈ world.1.uses
  tokens :
    ∀ {other},
      other ≠ thread →
      after.2.ring.token (.inr other) = world.2.ring.token (.inr other)
  reached : world.1.reached ⊆ after.1.reached
  reachedNew :
    ∀ {session cell},
      (session, cell) ∈ after.1.reached →
      (session, cell) ∈ world.1.reached ∨
        ∃ handle live,
          world.1.handles handle = some live ∧
            live.session = session ∧
            ∀ use ∈ world.1.uses,
              use.handle = some handle → use.exclusive = false
  sessions :
    ∀ {session cell},
      (session, cell) ∈ world.1.reached →
      after.2.ring.token (.inl session) ≠ none →
      after.2.ring.token (.inl session) =
        world.2.ring.token (.inl session)

/-- Only the holder of the flag touches the ring and what it holds. -/
structure ReclaimSteps
    (thread : T)
    (world after : State A H T V × Ghost A T) : Prop where
  holder :
    ∀ {other},
      other ≠ thread →
      world.2.holder = some other →
      after.2.holder = some other
  taken :
    ∀ {other},
      other ≠ thread →
      after.2.holder = some other →
      world.2.holder = some other
  fields :
    ∀ {other},
      other ≠ thread →
      world.2.holder = some other →
      after.1.ring = world.1.ring ∧
        after.1.oldest = world.1.oldest ∧
        after.1.current = world.1.current
  ghost :
    ∀ {other},
      other ≠ thread →
      world.2.holder = some other →
      after.2.hand = world.2.hand ∧
        after.2.freeing = world.2.freeing ∧
        after.2.ring.now = world.2.ring.now ∧
        after.2.ring.low = world.2.ring.low
  hand :
    ∀ {other},
      other ≠ thread →
      world.2.holder = some other →
      ∀ node ∈ world.2.hand,
        after.1.retireLink node = world.1.retireLink node ∧
          after.1.value node = world.1.value node

/-- The node is taken from the top of the free list. -/
def Popped (state after : State A H T V) (node : A) : Prop :=
  state.freeHead = some node ∧
    after.freeHead = state.retireLink node ∧
    after.retireLink = state.retireLink

/-- What one step of a thread does to the record. -/
structure RecordSteps
    (thread : T)
    (world after : State A H T V × Ghost A T) : Prop where
  tops :
    ∀ {other},
      other ≠ thread →
      after.1.topRead other = world.1.topRead other ∧
        after.1.topReads other = world.1.topReads other
  ownTop :
    world.1.topReads thread ≤ after.1.topReads thread ∧
      (after.1.topReads thread = world.1.topReads thread →
        after.1.topRead thread = world.1.topRead thread ∨
          after.1.topRead thread = none ∧
            ∀ node,
              world.1.topRead thread = some node →
              Popped world.1 after.1 node)
  erasing :
    ∀ {other},
      other ≠ thread →
      after.2.erasing other = world.2.erasing other ∧
        (other ∈ after.2.unreported ↔ other ∈ world.2.unreported)
  events : world.1.events <:+ after.1.events

/-- What one step of a thread guarantees to the others. -/
structure Guarantee
    (thread : T)
    (world after : State A H T V × Ghost A T) : Prop where
  nodes : NodeSteps thread world after
  sessions : SessionSteps thread world after
  reclaim : ReclaimSteps thread world after
  record : RecordSteps thread world after

section Unchanged

variable {thread : T} {world after : State A H T V × Ghost A T}

omit [DecidableEq T] in
/-- A step that leaves the nodes alone. -/
theorem NodeSteps.same
    (next : after.1.next = world.1.next)
    (retireLink : after.1.retireLink = world.1.retireLink)
    (value : after.1.value = world.1.value)
    (life : after.1.life = world.1.life)
    (place : after.2.place = world.2.place)
    (stage : after.2.stage = world.2.stage)
    (now : after.2.ring.now = world.2.ring.now)
    (low : after.2.ring.low = world.2.ring.low) :
    NodeSteps thread world after where
  chain := by
    have same : chainOf after = chainOf world := by
      simp only [chainOf, next, place, now, low]
    rw [same]
    exact MarkedChain.Advances.refl _
  owned _ known := by
    rw [stage, next, value]
    exact ⟨known, rfl, rfl⟩
  pending _ known := by
    rw [stage, retireLink]
    exact ⟨known, rfl⟩
  owner _ known := by
    rw [stage] at known
    exact known
  watched _ known := by
    rw [stage]
    exact known
  freeLink _ _ := by rw [retireLink]
  present _ _ := by
    rw [life, value]
    exact ⟨rfl, rfl⟩
  life node := by rw [life]
  used _ known := by
    rw [stage, next]
    exact ⟨known, id, fun _ => rfl⟩

omit [DecidableEq T] in
/-- A step that leaves handles and sessions alone. -/
theorem SessionSteps.same
    (handles : after.1.handles = world.1.handles)
    (uses : after.1.uses = world.1.uses)
    (reached : after.1.reached = world.1.reached)
    (token : after.2.ring.token = world.2.ring.token) :
    SessionSteps thread world after where
  uses member _ := by
    rw [uses, handles, token]
    exact ⟨member, fun _ => ⟨rfl, fun _ => rfl⟩⟩
  usesNew member _ := by
    rw [uses] at member
    exact member
  tokens _ := by rw [token]
  reached := by
    rw [reached]
    exact List.Subset.refl _
  reachedNew member := by
    rw [reached] at member
    exact .inl member
  sessions _ _ := by rw [token]

omit [DecidableEq T] in
/-- A step that leaves the ring and the holder's nodes alone. -/
theorem ReclaimSteps.same
    (holder : after.2.holder = world.2.holder)
    (ring : after.1.ring = world.1.ring)
    (oldest : after.1.oldest = world.1.oldest)
    (current : after.1.current = world.1.current)
    (hand : after.2.hand = world.2.hand)
    (freeing : after.2.freeing = world.2.freeing)
    (now : after.2.ring.now = world.2.ring.now)
    (low : after.2.ring.low = world.2.ring.low)
    (nodes :
      ∀ node ∈ world.2.hand,
        after.1.retireLink node = world.1.retireLink node ∧
          after.1.value node = world.1.value node) :
    ReclaimSteps thread world after where
  holder _ known := holder.trans known
  taken _ known := holder.symm.trans known
  fields _ _ := ⟨ring, oldest, current⟩
  ghost _ _ := ⟨hand, freeing, now, low⟩
  hand _ _ := nodes

omit [DecidableEq T] in
/-- A step of the holder of the flag. -/
theorem ReclaimSteps.own
    (holds : world.2.holder = some thread)
    (stays : after.2.holder = some thread ∨ after.2.holder = none) :
    ReclaimSteps thread world after where
  holder different known :=
    (different (Option.some.inj (known.symm.trans holds))).elim
  taken different known := by
    rcases stays with same | released
    · exact (different (Option.some.inj (known.symm.trans same))).elim
    · exact absurd (released.symm.trans known) (by simp)
  fields different known :=
    (different (Option.some.inj (known.symm.trans holds))).elim
  ghost different known :=
    (different (Option.some.inj (known.symm.trans holds))).elim
  hand different known :=
    (different (Option.some.inj (known.symm.trans holds))).elim

omit [DecidableEq T] in
/-- A step that leaves the record alone. -/
theorem RecordSteps.same
    (topRead : after.1.topRead = world.1.topRead)
    (topReads : after.1.topReads = world.1.topReads)
    (erasing : after.2.erasing = world.2.erasing)
    (unreported : after.2.unreported = world.2.unreported)
    (events : after.1.events = world.1.events) :
    RecordSteps thread world after where
  tops _ := by
    rw [topRead, topReads]
    exact ⟨rfl, rfl⟩
  ownTop := by
    rw [topRead, topReads]
    exact ⟨Nat.le_refl _, fun _ => .inl rfl⟩
  erasing _ := by
    rw [erasing, unreported]
    exact ⟨rfl, Iff.rfl⟩
  events := by rw [events]

end Unchanged

/-- The protocol of the list. -/
def protocol
    (capacity : Nat) :
    Protocol (State A H T V) (Ghost A T) T where
  Inv := Invariant capacity
  Guar := Guarantee
  guar_refl _ _ :=
    { nodes := .same rfl rfl rfl rfl rfl rfl rfl rfl
      sessions := .same rfl rfl rfl rfl
      reclaim :=
        .same rfl rfl rfl rfl rfl rfl rfl rfl fun _ _ => ⟨rfl, rfl⟩
      record := .same rfl rfl rfl rfl rfl }

end ConcurrentCpp.LockFreeListRCU
