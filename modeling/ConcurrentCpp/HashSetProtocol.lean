import ConcurrentCpp.HashSet
import ConcurrentCpp.LinkStacks
import ConcurrentCpp.RelyGuarantee
import ConcurrentCpp.SplitTableOperations
import Mathlib.Data.Finset.Card

namespace ConcurrentCpp.HashSet

/-!
# The protocol of the hash set

The proof keeps the stage of every slot: not appended yet, in the hands of a
thread, on the chain of a bucket, or on a free or limbo list.  The chains form
a split table; the free and limbo lists are stacks that are threaded through
the same link words.  It also keeps who has taken the first node of a batch
and has not counted the batch yet.
-/

variable {K T : Type}

/-- The free and limbo lists of the shards. -/
inductive Label where
  | free (shard : Nat)
  | limbo (shard : Nat)
  deriving DecidableEq

/-- The shard that a list belongs to. -/
def Label.shard : Label → Nat
  | free shard => shard
  | limbo shard => shard

/-- In whose hands a slot is. -/
inductive Stage (T : Type) where
  | absent
  | owned (thread : T)
  | chained (bucket : Nat)
  | listed (label : Label)
  deriving DecidableEq

namespace Stage

/-- The place of a slot of this stage in the table. -/
def place : Stage T → Place Nat
  | chained bucket => .linked bucket
  | _ => .off

/-- The list that a slot of this stage is on. -/
def label? : Stage T → Option Label
  | listed label => some label
  | _ => none

/-- A slot of this stage can be taken from a free list. -/
def isFree : Stage T → Bool
  | listed (.free _) => true
  | _ => false

@[simp] theorem place_eq_linked
    {stage : Stage T}
    {bucket : Nat} :
    stage.place = .linked bucket ↔ stage = .chained bucket := by
  cases stage <;> simp [place]

@[simp] theorem place_ne_cut
    {stage : Stage T}
    {bucket stamp : Nat} :
    stage.place ≠ .cut bucket stamp := by
  cases stage <;> simp [place]

theorem place_eq_off
    {stage : Stage T} :
    stage.place = .off ↔ ∀ bucket, stage ≠ .chained bucket := by
  cases stage <;> simp [place]

@[simp] theorem label?_eq_some
    {stage : Stage T}
    {label : Label} :
    stage.label? = some label ↔ stage = .listed label := by
  cases stage <;> simp [label?]

end Stage

/-- What the proof keeps besides the state. -/
structure Ghost (T : Type) where
  stage : Slot → Stage T
  holder : Option T
  debtors : List T

/-- The bucket has been split off its parent. -/
def State.published
    (state : State K T)
    (bucket : Nat) :
    Bool :=
  decide (bucket < state.tableSize) &&
    decide ((state.buckets bucket).address ≠ .uninitialized)

/-- Where heads and links lead; a bucket that is not published is empty. -/
def State.chainLinks (state : State K T) : Links Nat Slot
  | .root bucket =>
      if state.published bucket then
        (state.buckets bucket).address.first
      else
        none
  | .node node => (state.link node).next

/-- The split table of a world; no node is ever cut. -/
def tableOf
    (world : State K T × Ghost T) :
    SplitTable Slot K T where
  forest :=
    { links := world.1.chainLinks
      place := fun node => (world.2.stage node).place
      now := 0
      floor := 0 }
  key := world.1.value
  marked node := (world.1.link node).mark
  frozen node := (world.1.link node).frozen
  published := world.1.published
  level bucket :=
    if world.1.published bucket then
      (world.1.buckets bucket).level
    else
      0
  bits := world.1.tableSize.log2
  events := world.1.events

/-- Where the heads and links of the lists lead. -/
def State.listLinks (state : State K T) : Links Label Slot
  | .root (.free shard) => (state.freeHead shard).top
  | .root (.limbo shard) => state.limboHead shard
  | .node node => (state.link node).next

/-- The free and limbo lists of a world. -/
def stacksOf
    (world : State K T × Ghost T) :
    Stacks Label Slot where
  links := world.1.listLinks
  listed node := (world.2.stage node).label?

/-- The slot has been appended to its shard. -/
def State.Appended
    (state : State K T)
    (node : Slot) : Prop :=
  node.index < state.arena node.shard

/-- The shards that were popped since the last complete `reclaim()`. -/
def poppedSince : List ArenaEvent → List Nat
  | [] => []
  | .popped shard :: earlier => shard :: poppedSince earlier
  | .reclaimed true :: _ => []
  | .reclaimed false :: earlier => poppedSince earlier

/-- No `reclaim()` has thrown since the last complete one. -/
def settled : List ArenaEvent → Bool
  | [] => true
  | .popped _ :: earlier => settled earlier
  | .reclaimed completed :: _ => completed

/--
What the batches of a shard amount to: its appends, rounded up, and the pops
that its current batch of pops still covers.
-/
def State.charge
    (state : State K T)
    (shard : Nat) :
    Nat :=
  256 * ((state.arena shard + 255) / 256) +
    (256 - (state.freeHead shard).pops % 256) % 256

variable [DecidableEq K] [DecidableEq T] (config : Config K T)

/-- What the batches of all shards amount to. -/
def State.charged
    (state : State K T) :
    Nat :=
  ((List.range config.shards).map state.charge).sum

/-- How many slots are on free lists. -/
def freeSlots
    (world : State K T × Ghost T) :
    Nat :=
  ((world.1.arenaSlots config).toFinset.filter fun slot =>
    (world.2.stage slot).isFree = true).card

/-- The node counter covers all batches that were opened. -/
structure Counted (world : State K T × Ghost T) : Prop where
  debtors :
    ∀ {thread}, thread ∈ world.2.debtors → thread ∈ world.1.inside
  distinct : world.2.debtors.Nodup
  covers :
    world.1.charged config ≤
      world.1.nodeCount + 256 * world.2.debtors.length +
        freeSlots config world
  exact :
    settled world.1.log = true →
    world.1.charged config =
      world.1.nodeCount + 256 * world.2.debtors.length +
        freeSlots config world
  popped :
    ∀ {shard},
      (world.1.freeHead shard).pops ≠ 0 →
      shard < config.shards ∧ shard ∈ poppedSince world.1.log

/-- What the stage of a slot says about its words. -/
structure NodeOk
    (world : State K T × Ghost T)
    (node : Slot) : Prop where
  appended :
    world.2.stage node ≠ .absent ↔ world.1.Appended node
  shard : world.1.Appended node → node.shard < config.shards
  valued : world.1.Appended node → world.1.value node ≠ none
  bare :
    (∀ bucket, world.2.stage node ≠ .chained bucket) →
    (world.1.link node).mark = false ∧
      (world.1.link node).frozen = false
  label :
    ∀ {label},
      world.2.stage node = .listed label → label.shard < config.shards

/-- What holds in every reachable world. -/
structure Invariant (world : State K T × Ghost T) : Prop where
  size : world.1.tableSize = 2 ^ world.1.tableSize.log2
  unsealed :
    ∀ {bucket},
      bucket < world.1.tableSize →
      (world.1.buckets bucket).address = .uninitialized →
      (world.1.buckets bucket).level = 0
  table :
    (tableOf world).Sound config.hash config.allowDelete
      config.capacity.log2
  stacked : (stacksOf world).WellFormed
  nodes : ∀ node, NodeOk config world node
  owner :
    ∀ {node thread},
      world.2.stage node = .owned thread → thread ∈ world.1.inside
  holder :
    ∀ {thread}, world.2.holder = some thread → thread ∈ world.1.inside
  lock : world.1.resizing = world.2.holder.isSome
  lawful : Lawful world.1.events
  harmless : Harmless world.1.events
  threads : world.1.inside.Nodup
  calls :
    ∀ thread,
      thread ∈ world.1.inside ↔
        calling world.1.events thread ≠ none
  counted : Counted config world

/-- A bucket that has just been published is unsealed and its nodes live. -/
def Fresh (world after : State K T × Ghost T) : Prop :=
  ∀ bucket,
    world.1.published bucket = false →
    after.1.published bucket = true →
    (after.1.buckets bucket).level = 0 ∧
      ∀ node,
        after.2.stage node = .chained bucket →
        (after.1.link node).mark = false ∧
          (after.1.link node).frozen = false

omit [DecidableEq K] [DecidableEq T] in
theorem Fresh.of_same
    {world after : State K T × Ghost T}
    (same :
      ∀ bucket, after.1.published bucket = world.1.published bucket) :
    Fresh world after := by
  intro bucket hidden published
  rw [same, hidden] at published
  cases published

/-- What one step of a call guarantees to the other threads. -/
structure Steps
    (thread : T)
    (world after : State K T × Ghost T) : Prop where
  table :
    SplitTable.Advances config.hash thread (tableOf world) (tableOf after)
  inside :
    ∀ {other},
      other ≠ thread →
      (other ∈ after.1.inside ↔ other ∈ world.1.inside)
  next :
    ∀ {node bucket},
      world.2.stage node = .chained bucket →
      (after.1.link node).next = (world.1.link node).next
  owned :
    ∀ {node other},
      other ≠ thread →
      world.2.stage node = .owned other →
      after.2.stage node = .owned other ∧
        after.1.link node = world.1.link node ∧
        after.1.value node = world.1.value node
  owner :
    ∀ {node other},
      other ≠ thread →
      after.2.stage node = .owned other →
      world.2.stage node = .owned other
  free :
    ∀ {node shard},
      after.2.stage node = .listed (.free shard) →
      world.2.stage node = .listed (.free shard) ∧
        after.1.link node = world.1.link node
  holder :
    ∀ {other},
      other ≠ thread →
      (after.2.holder = some other ↔ world.2.holder = some other)
  locked :
    ∀ {other},
      other ≠ thread →
      world.2.holder = some other →
      after.1.tableSize = world.1.tableSize ∧
        ∀ bucket,
          world.1.tableSize ≤ bucket →
          after.1.buckets bucket = world.1.buckets bucket
  debtors :
    ∀ {other},
      other ≠ thread →
      (other ∈ after.2.debtors ↔ other ∈ world.2.debtors)
  fresh : Fresh world after

/-- A step of a call, or a change of a quiescent set. -/
def Guarantee
    (thread : T)
    (world after : State K T × Ghost T) : Prop :=
  Steps config thread world after ∨
    world.1.inside = [] ∧ after.1.inside = [] ∧
      after.1.events = world.1.events ∧
      ∀ bucket, after.1.published bucket = world.1.published bucket

omit [DecidableEq T] in
theorem Steps.refl
    (thread : T)
    (world : State K T × Ghost T) :
    Steps config thread world world where
  table := SplitTable.Advances.refl _ _ _
  inside _ := Iff.rfl
  next _ := rfl
  owned _ known := ⟨known, rfl, rfl⟩
  owner _ known := known
  free known := ⟨known, rfl⟩
  holder _ := Iff.rfl
  locked _ _ := ⟨rfl, fun _ _ => rfl⟩
  debtors _ := Iff.rfl
  fresh := .of_same fun _ => rfl

/-- The protocol of the set. -/
def protocol : Protocol (State K T) (Ghost T) T where
  Inv := Invariant config
  Guar := Guarantee config
  guar_refl thread world := .inl (Steps.refl config thread world)

end ConcurrentCpp.HashSet
