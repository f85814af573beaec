import ConcurrentCpp.HashSetRCUTable
import ConcurrentCpp.SilentPrograms

namespace ConcurrentCpp.HashSetRCU

/-!
# What the operations are put together of

The retire counters, the free lists, the hint of the steal and the advancer
flag are touched by few steps: an operation reaches them only when it takes a
node or retires a run.  Everything else it does leaves them alone.
-/

open HashSet (Slot Head Link FreeHead)

variable {K H T : Type}

/-- The words that only allocation, retirement and reclamation touch. -/
structure MemoryView (H T : Type) where
  retireRuns : Nat → Nat
  retireNodes : Nat → Nat
  autoReclaims : Nat
  autoSkipped : Nat
  arena : Nat → Nat
  freeHead : Nat → FreeHead
  stealHint : StealHint
  stealStamp : Nat
  reclaiming : Bool
  uses : List (Use H T)
  unstamped : Bool
  advancer : Option T

/-- What the state shows of these words. -/
def State.memoryView (state : State K H T) : MemoryView H T where
  retireRuns := state.retireRuns
  retireNodes := state.retireNodes
  autoReclaims := state.autoReclaims
  autoSkipped := state.autoSkipped
  arena := state.arena
  freeHead := state.freeHead
  stealHint := state.stealHint
  stealStamp := state.stealStamp
  reclaiming := state.reclaiming
  uses := state.uses
  unstamped := state.unstamped
  advancer := state.advancer

section Swaps

variable {V W : Type} [DecidableEq W] {view : State K H T → V}

/-- A weak compare-and-swap whose store does not change the view. -/
theorem spares_casWeak
    {word : State K H T → W}
    {expected : W}
    {store : State K H T → State K H T}
    (same : ∀ state, view (store state) = view state) :
    (casWeak word expected store).Spares view :=
  Prog.spares_atomic fun state choice value after ran => by
    have tried :
        (if word state = expected then
            some ((true, expected), store state)
          else
            some ((false, word state), state)) = some (value, after) →
          view after = view state := by
      intro ran
      split at ran
      · cases ran
        exact same state
      · cases ran
        rfl
    cases choice with
    | spurious =>
        cases ran
        rfl
    | proceed =>
        exact tried ran
    | throws =>
        exact tried ran
    | call request =>
        exact tried ran

/-- A push loop: store a link, then try to swing the head. -/
theorem spares_push
    {word : State K H T → W}
    {link : W → State K H T → State K H T}
    {store : W → State K H T → State K H T}
    (linked : ∀ head state, view (link head state) = view state)
    (stored : ∀ head state, view (store head state) = view state) :
    (do
        let head ← Prog.read word
        Prog.loop head fun head => do
          Prog.write (link head)
          let outcome ← casWeak word head (store head)
          if outcome.1 then
            Prog.leave ()
          else
            Prog.again outcome.2 : Program K H T Unit).Spares view := by
  refine Prog.spares_bind (Prog.spares_read _) fun head =>
    Prog.spares_loop fun head => ?_
  refine Prog.spares_bind (Prog.spares_write (linked head)) fun _ => ?_
  refine Prog.spares_bind (spares_casWeak (stored head)) fun outcome => ?_
  split
  · exact Prog.spares_leave _
  · exact Prog.spares_again _

/-- The triple of a weak compare-and-swap. -/
theorem casWeak_triple
    {G R : Type}
    {protocol : Protocol (State K H T) G R}
    {runner : R}
    {word : State K H T → W}
    {expected : W}
    {store : State K H T → State K H T}
    {pre : Assertion protocol runner}
    {post : Bool × W → Assertion protocol runner}
    (wins :
      ∀ world,
        protocol.Inv world →
        pre.holds world →
        word world.1 = expected →
        Lands world (store world.1) (post (true, expected)))
    (fails :
      ∀ world,
        protocol.Inv world →
        pre.holds world →
        (post (false, word world.1)).holds world) :
    Triple protocol runner pre (casWeak word expected store) post := by
  refine Triple.atomic fun world choice value after inv known ran => ?_
  have tried :
      (if word world.1 = expected then
          some ((true, expected), store world.1)
        else
          some ((false, word world.1), world.1)) = some (value, after) →
        Lands world after (post value) := by
    intro ran
    split at ran
    · cases ran
      exact wins world inv known ‹_›
    · cases ran
      exact Lands.stay inv (fails world inv known)
  cases choice with
  | spurious =>
      cases ran
      exact Lands.stay inv (fails world inv known)
  | proceed =>
      exact tried ran
  | throws =>
      exact tried ran
  | call request =>
      exact tried ran

end Swaps

/-- The program never touches the words. -/
abbrev Still
    {α : Type}
    (program : Program K H T α) : Prop :=
  program.Spares State.memoryView

section Still

open Prog

variable {config : Config K T} {thread : T}

/-- A new batch only counts in the node total. -/
theorem still_countBatch
    (opens : Bool) :
    Still (countBatch opens : Program K H T Unit) := by
  unfold countBatch
  split
  · exact spares_write fun _ => rfl
  · exact spares_pure _

/-- The value of a node is none of the words, whether its copy throws or not. -/
theorem still_assignValue
    (node : Slot)
    (value : K) :
    Still (assignValue node value : Program K H T Bool) :=
  spares_atomic fun _ choice _ _ ran => by
    cases choice <;> cases ran <;> rfl

/-- One list of a bag is unlinked from its node. -/
theorem still_takeBagged
    {head : GenerationBlock → Option Slot}
    {next : State K H T → Slot → Option Slot}
    {store : GenerationBlock → Option Slot → GenerationBlock}
    (slot : Nat) :
    Still
      (takeBagged config head next store slot :
        Program K H T (Option (Slot × Nat))) :=
  spares_atomic fun state _ value after ran => by
    split at ran
    · cases ran
      rfl
    · cases ran
      rfl

/-- Scanning the reader counts of a generation changes nothing. -/
theorem still_scanCounts
    (slot start : Nat) :
    Still (scanCounts config slot start : Program K H T Bool) := by
  refine spares_loop fun scan => ?_
  split
  · refine spares_bind (spares_atomic fun state _ value after ran => ?_)
      fun zero => ?_
    · split at ran
      · cases ran
        rfl
      · cases ran
        rfl
    split
    · exact spares_again _
    · exact spares_leave _
  · exact spares_leave _

/-- Closing a bag writes its own block. -/
theorem still_closeBag
    (slot count : Nat) :
    Still (closeBag config slot count : Program K H T Unit) :=
  spares_write fun _ => rfl

/-- Looking at the retire lists changes nothing. -/
theorem still_lookRetired :
    Still
      (lookRetired config :
        Program K H T (Bool × (Nat → Option Slot))) := by
  refine spares_loop fun look => ?_
  split
  · refine spares_bind (spares_read _) fun limbo => ?_
    split
    · exact spares_again _
    · exact spares_bind (spares_read _) fun _ => spares_again _
  · exact spares_leave _

/-- Handing the retire and limbo lists to a bag leaves the counters alone. -/
theorem still_closeCurrent
    (closing : Nat)
    (loaded : Nat → Option Slot)
    (result : AdvanceResult) :
    Still
      (closeCurrent config closing loaded result :
        Program K H T AdvanceResult) := by
  refine spares_bind (spares_loop fun shard => ?_) fun _ =>
    spares_bind (spares_write fun _ => rfl) fun _ => spares_pure _
  split
  · refine spares_bind (spares_write fun _ => rfl) fun _ => ?_
    refine spares_bind ?_ fun _ => spares_again _
    unfold bagShardLimbo
    split
    · exact spares_write fun _ => rfl
    · exact spares_pure _
  · exact spares_leave _

/-- A run is pushed on a retire list, which is not among the words. -/
theorem still_linkRetired
    (shard : Nat)
    (first last : Slot)
    (nodes : List Slot) :
    Still
      (linkRetired thread shard first last nodes : Program K H T Unit) :=
  spares_push (fun _ _ => rfl) fun _ _ => rfl

variable [DecidableEq T]

/-- What a thread has seen is not among the words. -/
@[simp] theorem memoryView_see
    (state : State K H T)
    (thread : T)
    (target : Option Slot) :
    (state.see thread target).memoryView = state.memoryView := by
  cases target <;> rfl

/-- The triple of the compare-and-swap that pops. -/
theorem casPop_triple
    {G R : Type}
    {protocol : Protocol (State K H T) G R}
    {runner : R}
    {shard : Nat}
    {node : Slot}
    {expected : FreeHead}
    {successor : Option Slot}
    {pre : Assertion protocol runner}
    {post : Bool × FreeHead → Assertion protocol runner}
    (wins :
      ∀ world,
        protocol.Inv world →
        pre.holds world →
        world.1.freeHead shard = expected →
        Lands world
          { (world.1.seeTop thread none).keep thread node with
            freeHead :=
              Function.update world.1.freeHead shard
                ⟨successor, (expected.pops + 1) % 512⟩ }
          (post (true, expected)))
    (fails :
      ∀ world,
        protocol.Inv world →
        pre.holds world →
        Lands world
          (world.1.seeTop thread (world.1.freeHead shard).top)
          (post (false, world.1.freeHead shard))) :
    Triple protocol runner pre
      (casPop thread shard node expected successor) post := by
  refine Triple.atomic fun world choice value after inv known ran => ?_
  have tried :
      (if world.1.freeHead shard = expected then
          some ((true, expected),
            { (world.1.seeTop thread none).keep thread node with
              freeHead :=
                Function.update world.1.freeHead shard
                  ⟨successor, (expected.pops + 1) % 512⟩ })
        else
          some ((false, world.1.freeHead shard),
            world.1.seeTop thread (world.1.freeHead shard).top)) =
          some (value, after) →
        Lands world after (post value) := by
    intro ran
    split at ran
    · cases ran
      exact wins world inv known ‹_›
    · cases ran
      exact fails world inv known
  cases choice with
  | spurious =>
      cases ran
      exact fails world inv known
  | proceed =>
      exact tried ran
  | throws =>
      exact tried ran
  | call request =>
      exact tried ran

/-- A load of a link is at most remembered. -/
theorem still_loadLink
    (node : Slot) :
    Still (loadLink thread node : Program K H T Link) :=
  spares_atomic fun state _ _ _ ran => by
    cases ran
    exact memoryView_see _ _ _

/-- A run is pushed on a limbo list, which is not among the words. -/
theorem still_pushLimbo
    (shard : Nat)
    (first last : Slot)
    (nodes : List Slot) :
    Still (pushLimbo thread shard first last nodes : Program K H T Unit) :=
  spares_push (fun _ _ => rfl) fun _ _ => rfl

/-- A popped node is filled, or handed to limbo if its value throws. -/
theorem still_reuseNode
    (node : Slot)
    (head : FreeHead)
    (value : K)
    (next : Option Slot) :
    Still
      (reuseNode config thread node head value next :
        Program K H T (Option Slot)) := by
  refine spares_bind (still_countBatch _) fun _ => ?_
  refine spares_bind (still_assignValue _ _) fun assigned => ?_
  split
  · exact spares_bind (spares_write fun _ => rfl) fun _ => spares_pure _
  · exact spares_bind (still_pushLimbo _ _ _ _) fun _ => spares_pure _

/-- Linking a run for its bag goes along the nodes of the run only. -/
theorem still_threadRun
    (first last : Slot) :
    Still (threadRun thread first last : Program K H T (List Slot)) := by
  refine spares_loop fun walk => ?_
  split
  · exact spares_leave _
  refine spares_bind (still_loadLink _) fun link => ?_
  split
  · exact spares_stuck
  · exact spares_bind (spares_write fun _ => rfl) fun _ => spares_again _

end Still

variable [DecidableEq T]

/-- The allocation of a node or the retirement of a run. -/
inductive Piece
    (config : Config K T)
    (thread : T) :
    (β : Type) → Program K H T β → Prop where
  | alloc (value : K) (next : Option Slot) :
      Piece config thread (Option Slot)
        (allocNode config thread value next)
  | retire (first last : Slot) :
      Piece config thread Unit (pushRetired config thread first last)

/-- Apart from these pieces the program leaves the words alone. -/
abbrev Tame
    {α : Type}
    (config : Config K T)
    (thread : T)
    (program : Program K H T α) : Prop :=
  program.Composed State.memoryView (Piece config thread)

variable {config : Config K T} {thread : T}

section Words

/-- A load of a head is at most remembered. -/
theorem tame_loadHead
    (bucket : Nat) :
    Tame config thread
      (loadHead thread bucket : Program K H T Head) :=
  .atomic fun state _ _ _ ran => by
    cases ran
    exact memoryView_see _ _ _

/-- A load of a link touches none of the words. -/
theorem tame_loadLink
    (node : Slot) :
    Tame config thread
      (loadLink thread node : Program K H T Link) :=
  .quiet (still_loadLink node)

/-- A push to limbo touches none of the words. -/
theorem tame_pushLimbo
    (shard : Nat)
    (first last : Slot)
    (nodes : List Slot) :
    Tame config thread
      (pushLimbo thread shard first last nodes : Program K H T Unit) :=
  .quiet (still_pushLimbo shard first last nodes)

end Words

section Chains

/-- Hashing a key changes nothing, also if it throws. -/
theorem tame_hashKey
    (key : K) :
    Tame config thread
      (hashKey config key : Program K H T (Option Nat)) :=
  .atomic fun state choice _ _ ran => by
    cases choice <;> cases ran <;> rfl

/-- Hashing the value of a node changes nothing. -/
theorem tame_hashValue
    (node : Slot) :
    Tame config thread
      (hashValue config node : Program K H T (Option (K × Nat))) :=
  .atomic fun state choice value after ran => by
    obtain ⟨found, _, shape⟩ := Option.map_eq_some_iff.mp ran
    cases choice <;> cases shape <;> rfl

/-- Comparing the value of a node changes nothing. -/
theorem tame_equalKey
    [DecidableEq K]
    (node : Slot)
    (key : K) :
    Tame config thread
      (equalKey node key : Program K H T (Option Bool)) :=
  .atomic fun state choice value after ran => by
    obtain ⟨found, _, shape⟩ := Option.map_eq_some_iff.mp ran
    cases choice <;> cases shape <;> rfl

/-- Judging a node takes loads only. -/
theorem tame_isDeadNow
    (node : Slot)
    (link : Link)
    (bucket size : Nat) :
    Tame config thread
      (isDeadNow config thread node link bucket size :
        Program K H T (Option Bool)) := by
  unfold isDeadNow
  split
  · exact .pure _
  split
  · exact .pure _
  refine .bind (tame_hashValue node) fun hashed => ?_
  cases hashed with
  | none =>
      exact .pure _
  | some found =>
      dsimp only
      split
      · exact .bind (tame_loadHead _) fun _ => .pure _
      · exact .pure _

/-- The swing past a run changes one link or one head. -/
theorem tame_casUnlink
    (bucket : Nat)
    (pred : Pred)
    (next : Option Slot)
    (nodes : List Slot) :
    Tame config thread
      (casUnlink thread bucket pred next nodes :
        Program K H T Bool) :=
  .atomic fun state _ value after ran => by
    cases pred with
    | head word =>
        dsimp only at ran
        split at ran <;> cases ran <;> rfl
    | link node word =>
        dsimp only at ran
        split at ran <;> cases ran <;> rfl

/-- Collecting a dead run takes loads only. -/
theorem tame_recordRun
    (bucket size : Nat)
    (first : Slot)
    (link : Link) :
    Tame config thread
      (recordRun config thread bucket size first link :
        Program K H T (Option Run)) := by
  refine .loop fun run => ?_
  split
  · exact .leave _
  refine .bind (tame_loadLink _) fun nextLink => ?_
  refine .bind (tame_isDeadNow _ _ _ _) fun dead => ?_
  split
  · exact .leave _
  · exact .leave _
  · exact .again _

/-- A run that was swung past is retired. -/
theorem tame_unlinkRun
    (bucket size : Nat)
    (walk : WalkState)
    (first : Slot)
    (link : Link) :
    Tame config thread
      (unlinkRun config thread bucket size walk first link :
        Program K H T (Option Unlink)) := by
  refine .bind (tame_recordRun _ _ _ _) fun recorded => ?_
  cases recorded with
  | none =>
      exact .pure _
  | some run =>
      refine .bind (tame_casUnlink _ _ _ _) fun won => ?_
      split
      · exact .bind (.piece (.retire _ _)) fun _ => .pure _
      · exact .pure _

/-- A walk goes on, or unlinks the dead run in front of it. -/
theorem tame_stepOver
    (bucket size : Nat)
    (walk : WalkState)
    (node : Slot)
    (link : Link) :
    Tame config thread
      (stepOver config thread bucket size walk node link :
        Program K H T (Option (WalkState × Option Slot))) := by
  unfold stepOver
  split
  · exact .pure _
  split
  · refine .bind (tame_isDeadNow _ _ _ _) fun dead => ?_
    split
    · exact .pure _
    · exact .pure _
    · refine .bind (tame_unlinkRun _ _ _ _ _) fun unlinked => ?_
      split
      · exact .pure _
      · exact .pure _
  · exact .pure _

/-- The walk over a split parent unlinks what died in the split. -/
theorem tame_cleanupParent
    (parent : Nat) :
    Tame config thread
      (cleanupParent config thread parent : Program K H T Bool) := by
  refine .bind (.read _) fun size => ?_
  refine .bind (tame_loadHead _) fun head => .loop fun walk => ?_
  split
  · exact .leave _
  refine .bind (tame_loadLink _) fun link => ?_
  refine .bind (tame_stepOver _ _ _ _ _) fun stepped => ?_
  split
  · exact .leave _
  · exact .again _

/-- Looking for the predecessor of a node takes loads only. -/
theorem tame_findNode
    (bucket : Nat)
    (target : Slot) :
    Tame config thread
      (findNode thread bucket target :
        Program K H T (Option WalkState)) := by
  refine .bind (tame_loadHead _) fun head => .loop fun walk => ?_
  split
  · exact .leave _
  split
  · exact .leave _
  refine .bind (tame_loadLink _) fun link => ?_
  split
  · exact .again _
  · exact .again _

/-- An eraser tries to unlink its node from the predecessor it knows. -/
theorem tame_unlinkBehind
    (bucket size : Nat)
    (walk : WalkState)
    (target : Slot)
    (targetLink : Link) :
    Tame config thread
      (unlinkBehind config thread bucket size walk target targetLink :
        Program K H T Attempt) := by
  unfold unlinkBehind
  split
  · exact .pure _
  split
  · exact .stuck
  refine .bind ?_ fun looked => ?_
  · unfold lookFirst
    split
    · exact .pure _
    · exact .bind (tame_loadLink _) fun _ =>
        .bind (tame_isDeadNow _ _ _ _) fun _ => .pure _
  split
  · exact .pure _
  · exact .pure _
  refine .bind (tame_unlinkRun _ _ _ _ _) fun unlinked => ?_
  split
  · exact .pure _
  split
  · exact .pure _
  · exact .pure _

/-- An eraser looks for its node until some thread has unlinked it. -/
theorem tame_selfUnlink
    (bucket size : Nat)
    (walk : WalkState)
    (target : Slot)
    (targetLink : Link) :
    Tame config thread
      (selfUnlink config thread bucket size walk target targetLink :
        Program K H T Bool) := by
  refine .loop fun turn => ?_
  refine .bind (tame_unlinkBehind _ _ _ _ _) fun attempt => ?_
  split
  · exact .leave _
  · exact .leave _
  split
  · exact .leave _
  refine .bind (tame_findNode _ _) fun found => ?_
  split
  · exact .leave _
  · exact .again _

end Chains

section Split

/-- Sealing a bucket changes its head only. -/
theorem tame_sealParent
    (parent level : Nat)
    (head : Head) :
    Tame config thread
      (sealParent thread parent level head : Program K H T Head) := by
  refine .loop fun head => ?_
  split
  · refine .bind (.atomic ?_) fun _ => .again _
    intro state choice value after ran
    have tried :
        (if state.buckets parent = head then
            some ((true, { head with level := level }),
              { state with
                buckets :=
                  Function.update state.buckets parent
                    { head with level := level } })
          else
            some ((false, state.buckets parent),
              state.see thread
                (state.buckets parent).address.first)) =
            some (value, after) →
          after.memoryView = state.memoryView := by
      intro ran
      split at ran
      · cases ran
        rfl
      · cases ran
        exact memoryView_see _ _ _
    cases choice with
    | spurious =>
        cases ran
        exact memoryView_see _ _ _
    | proceed =>
        exact tried ran
    | throws =>
        exact tried ran
    | call request =>
        exact tried ran
  · exact .leave _

/-- Freezing a node changes its link only. -/
theorem tame_freezeNode
    (node : Slot)
    (link : Link) :
    Tame config thread
      (freezeNode thread node link : Program K H T Link) := by
  refine .loop fun link => ?_
  split
  · refine .bind (.atomic ?_) fun _ => .again _
    intro state choice value after ran
    split at ran
    · cases ran
      rfl
    · cases ran
      exact memoryView_see _ _ _
  · exact .leave _

/-- A node of the child is frozen and a copy of it allocated. -/
theorem tame_copyNode
    (child : Nat)
    (node : Slot)
    (subchain : Subchain) :
    Tame config thread
      (copyNode config thread child node subchain :
        Program K H T (Option (Subchain × Option Slot))) := by
  refine .bind (tame_loadLink _) fun link => ?_
  split
  · exact .pure _
  refine .bind (tame_hashValue _) fun hashed => ?_
  split
  · exact .pure _
  split
  · refine .bind (tame_freezeNode _ _) fun final => ?_
    split
    · exact .pure _
    refine .bind (.piece (.alloc _ _)) fun copied => ?_
    split
    · exact .pure _
    · exact .pure _
  · exact .pure _

/-- A chain is copied node by node, each with an allocation. -/
theorem tame_copyChain
    (child : Nat)
    (start : Option Slot) :
    Tame config thread
      (copyChain config thread child start :
        Program K H T (Subchain × Bool)) := by
  refine .loop fun walk => ?_
  split
  · exact .leave _
  refine .bind (tame_copyNode _ _ _) fun outcome => ?_
  split
  · exact .leave _
  · exact .again _

/-- Copies that were not published go to limbo. -/
theorem tame_abandonSubchain
    (subchain : Subchain) :
    Tame config thread
      (abandonSubchain config thread subchain :
        Program K H T Unit) := by
  unfold abandonSubchain
  split
  · exact tame_pushLimbo _ _ _ _
  · exact .pure _

/-- The copies are published, or given up. -/
theorem tame_copyAndPublish
    (child : Nat)
    (snapshot : Head) :
    Tame config thread
      (copyAndPublish config thread child snapshot :
        Program K H T Bool) := by
  refine .bind (tame_copyChain _ _) fun copied => ?_
  split
  · refine .bind (.atomic ?_) fun published => ?_
    · intro state choice value after ran
      split at ran <;> cases ran <;> rfl
    split
    · exact tame_cleanupParent _
    · exact .bind (tame_abandonSubchain _) fun _ => .pure _
  · exact .bind (tame_abandonSubchain _) fun _ => .pure _

/-- A child is split off a parent that was split off before. -/
theorem tame_splitFrom
    (child : Nat)
    (head : Head) :
    Tame config thread
      (splitFrom config thread child head : Program K H T Bool) :=
  .bind (tame_sealParent _ _ _) fun _ => tame_copyAndPublish _ _

/-- A bucket is split off after its ancestors. -/
theorem tame_splitBucket
    (depth child : Nat) :
    Tame config thread
      (splitBucket config thread depth child : Program K H T Bool) := by
  induction depth generalizing child with
  | zero =>
      exact .stuck
  | succ depth inductionHypothesis =>
      unfold splitBucket
      split
      · exact .stuck
      refine .bind (tame_loadHead _) fun head => ?_
      split
      · refine .bind (inductionHypothesis _) fun ready => ?_
        split
        · exact .bind (tame_loadHead _) fun _ => tame_splitFrom _ _
        · exact .pure _
      · exact tame_splitFrom _ _

/-- An operation splits the bucket that it enters if need be. -/
theorem tame_enterBucket
    (bucket : Nat) :
    Tame config thread
      (enterBucket config thread bucket :
        Program K H T (Option Head)) := by
  refine .bind (tame_loadHead _) fun head => ?_
  split
  · refine .bind (tame_splitBucket _ _) fun ready => ?_
    split
    · exact .bind (tame_loadHead _) fun _ => .pure _
    · exact .pure _
  · exact .pure _

end Split

section Operations

variable [DecidableEq K]

/-- A lookup in one chain takes loads and comparisons only. -/
theorem tame_findKey
    (key : K)
    (start : Option Slot) :
    Tame config thread
      (findKey thread key start : Program K H T (Option Bool)) := by
  refine .loop fun cursor => ?_
  split
  · exact .leave _
  refine .bind (tame_loadLink _) fun link => ?_
  refine .bind (tame_equalKey _ _) fun same => ?_
  split
  · exact .leave _
  split
  · exact .leave _
  · exact .again _

/-- `contains()` allocates for the split of its bucket only. -/
theorem tame_contains
    (key : K) :
    Tame config thread
      (contains config thread key :
        Program K H T (Except Site Bool)) := by
  refine .bind (.read _) fun size => .loop fun size => ?_
  refine .bind (tame_hashKey _) fun hashed => ?_
  split
  · exact .leave _
  refine .bind (tame_enterBucket _) fun entered => ?_
  split
  · exact .leave _
  refine .bind (tame_findKey _ _) fun found => ?_
  split
  · exact .leave _
  · exact .leave _
  refine .bind (.read _) fun newSize => ?_
  split
  · exact .leave _
  · exact .again _

/-- An insertion retires what it unlinks on its way. -/
theorem tame_seekKey
    (key : K)
    (bucket size : Nat)
    (head : Head) :
    Tame config thread
      (seekKey config thread key bucket size head :
        Program K H T (Option (Bool × Head))) := by
  refine .loop fun walk => ?_
  split
  · exact .leave _
  refine .bind (tame_loadLink _) fun link => ?_
  refine .bind (tame_equalKey _ _) fun same => ?_
  split
  · exact .leave _
  split
  · exact .leave _
  refine .bind (tame_stepOver _ _ _ _ _) fun stepped => ?_
  split
  · exact .leave _
  · exact .again _

omit [DecidableEq K] in
/-- A doubling changes the table and its lock. -/
theorem tame_doubleTable
    (size : Nat) :
    Tame config thread (doubleTable size : Program K H T Bool) := by
  have unlock :
      ∀ result : Bool,
        Tame config thread
          (do
            unlockResize
            pure result : Program K H T Bool) :=
    fun _ => .bind (.write fun _ => rfl) fun _ => .pure _
  refine .bind (.read _) fun count => ?_
  split
  · refine .bind (.atomic ?_) fun _ => ?_
    · intro state choice value after ran
      split at ran <;> cases ran
      rfl
    refine .bind (.read _) fun current => ?_
    split
    · refine .bind (.atomic ?_) fun resized => ?_
      · intro state choice value after ran
        cases choice <;> cases ran <;> rfl
      split
      · refine .bind (.loop fun bucket => ?_) fun _ => ?_
        · split
          · exact .bind (.write fun _ => rfl) fun _ => .again _
          · exact .leave _
        · exact .bind (.write fun _ => rfl) fun _ => unlock _
      · exact unlock _
    · exact unlock _
  · exact .pure _

omit [DecidableEq K] in
/-- A node that was not inserted goes to limbo. -/
theorem tame_abandonNode
    (pending : Option Slot) :
    Tame config thread
      (abandonNode config thread pending : Program K H T Unit) := by
  cases pending with
  | none =>
      exact .pure _
  | some node =>
      exact tame_pushLimbo _ _ _ _

/-- One attempt of an insertion in the bucket of the key. -/
theorem tame_insertAt
    (key : K)
    (size bucket : Nat)
    (head : Head)
    (pending : Option Slot) :
    Tame config thread
      (insertAt config thread key size bucket head pending :
        Program K H T (Option Slot ⊕ Except Site Bool)) := by
  refine .bind (tame_seekKey _ _ _ _) fun sought => ?_
  split
  · exact .bind (tame_abandonNode _) fun _ => .leave _
  · exact .bind (tame_abandonNode _) fun _ => .leave _
  refine .bind ?_ fun prepared => ?_
  · cases pending with
    | none =>
        exact .piece (.alloc _ _)
    | some node =>
        exact .bind (.write fun _ => rfl) fun _ => .pure _
  split
  · exact .leave _
  refine .bind (.atomic ?_) fun published => ?_
  · intro state choice value after ran
    split at ran <;> cases ran <;> rfl
  split
  · refine .bind (tame_doubleTable _) fun grown => ?_
    split
    · exact .leave _
    · exact .leave _
  · exact .again _

/-- `insert()` allocates its node and the copies of a split. -/
theorem tame_insert
    (key : K) :
    Tame config thread
      (insert config thread key :
        Program K H T (Except Site Bool)) := by
  refine .loop fun pending => ?_
  refine .bind (.read _) fun size => ?_
  refine .bind (tame_hashKey _) fun hashed => ?_
  split
  · exact .bind (tame_abandonNode _) fun _ => .leave _
  refine .bind (tame_loadHead _) fun head => ?_
  split
  · refine .bind (tame_splitBucket _ _) fun ready => ?_
    split
    · exact .again _
    · exact .bind (tame_abandonNode _) fun _ => .leave _
  split
  · exact .again _
  · exact tame_insertAt _ _ _ _ _

omit [DecidableEq K] in
/-- The mark and the unlinking of the node that holds the key. -/
theorem tame_eraseNode
    (key : K)
    (bucket size : Nat)
    (walk : WalkState)
    (node : Slot)
    (link : Link) :
    Tame config thread
      (eraseNode config thread key bucket size walk node link :
        Program K H T EraseWalk) := by
  refine .loop fun link => ?_
  split
  · refine .bind (.atomic ?_) fun outcome => ?_
    · intro state choice value after ran
      split at ran
      · cases ran
        rfl
      · cases ran
        exact memoryView_see _ _ _
    split
    · refine .bind (tame_selfUnlink _ _ _ _ _) fun unlinked => ?_
      split
      · exact .leave _
      · exact .leave _
    · exact .again _
  · exact .leave _

/-- The walk of an erasure in the bucket of the key. -/
theorem tame_eraseKey
    (key : K)
    (bucket size : Nat)
    (head : Head) :
    Tame config thread
      (eraseKey config thread key bucket size head :
        Program K H T EraseWalk) := by
  refine .loop fun walk => ?_
  split
  · exact .leave _
  refine .bind (tame_loadLink _) fun link => ?_
  refine .bind (tame_equalKey _ _) fun same => ?_
  split
  · exact .leave _
  split
  · exact .bind (tame_eraseNode _ _ _ _ _ _) fun _ => .leave _
  refine .bind (tame_stepOver _ _ _ _ _) fun stepped => ?_
  split
  · exact .leave _
  · exact .again _

/-- `erase()` retires nodes and allocates for a split. -/
theorem tame_erase
    (key : K) :
    Tame config thread
      (erase config thread key :
        Program K H T (Except Site Bool)) := by
  refine .bind (.read _) fun size => .loop fun size => ?_
  refine .bind (tame_hashKey _) fun hashed => ?_
  split
  · exact .leave _
  refine .bind (tame_enterBucket _) fun entered => ?_
  split
  · exact .leave _
  refine .bind (tame_eraseKey _ _ _ _) fun walked => ?_
  split
  · exact .leave _
  · exact .leave _
  refine .bind (.read _) fun newSize => ?_
  split
  · exact .leave _
  · exact .again _

/-- Every operation is tame. -/
theorem tame_operate
    (operation : SetOp K) :
    Tame config thread
      (operate config thread operation :
        Program K H T (Except Site Bool)) := by
  cases operation with
  | contains key =>
      exact tame_contains key
  | insert key =>
      exact tame_insert key
  | erase key =>
      exact tame_erase key

end Operations

section Handles

/-- Joining a generation changes its reader counts only. -/
theorem tame_join :
    Tame config thread (join config thread : Program K H T Nat) := by
  refine .loop fun _ => ?_
  refine .bind (.read _) fun block => ?_
  refine .bind (.write fun _ => rfl) fun _ => ?_
  refine .bind (.read _) fun current => ?_
  split
  · exact .leave _
  · exact .bind (.write fun _ => rfl) fun _ => .again _

/-- A new handle joins the current generation. -/
theorem tame_newHandle
    [DecidableEq H]
    (handle : H) :
    Tame config thread
      (newHandle config thread handle : Program K H T Unit) :=
  .bind tame_join fun _ => .write fun _ => rfl

/-- A refresh joins the current generation for the old one. -/
theorem tame_refresh
    [DecidableEq H]
    (handle : H)
    (live : Handle) :
    Tame config thread
      (refresh config thread handle live : Program K H T Bool) := by
  refine .bind (.read _) fun current => ?_
  split
  · exact .pure _
  · exact .bind tame_join fun _ =>
      .bind (.write fun _ => rfl) fun _ => .pure _

end Handles

section Advance

/-- Counting the nodes of a run takes loads only. -/
theorem tame_countRun
    (start last : Option Slot)
    (result : AdvanceResult) :
    Tame config thread
      (countRun thread start last result :
        Program K H T AdvanceResult) := by
  refine .loop fun count => ?_
  split
  · exact .leave _
  split
  · exact .stuck
  · exact .bind (tame_loadLink _) fun _ => .again _

/-- The sweep of one bucket retires the dead runs of its chain. -/
theorem tame_walkBucket
    (bucket size : Nat)
    (head : Head)
    (result : AdvanceResult) :
    Tame config thread
      (walkBucket config thread bucket size head result :
        Program K H T (Option AdvanceResult)) := by
  refine .loop fun walk => ?_
  split
  · exact .leave _
  refine .bind (tame_loadLink _) fun link => ?_
  refine .bind (tame_stepOver _ _ _ _ _) fun stepped => ?_
  split
  · exact .leave _
  split
  · exact .bind (tame_countRun _ _ _) fun _ => .again _
  · exact .again _

/-- The sweep goes over the buckets that are published. -/
theorem tame_walkTable
    (size : Nat)
    (result : AdvanceResult) :
    Tame config thread
      (walkTable config thread size result :
        Program K H T (Option AdvanceResult)) := by
  refine .loop fun walk => ?_
  split
  · refine .bind (tame_loadHead _) fun head => ?_
    split
    · exact .again _
    refine .bind (tame_walkBucket _ _ _ _) fun walked => ?_
    split
    · exact .leave _
    · exact .again _
  · exact .leave _

/-- The walk of `advance()` is tame. -/
theorem tame_walk
    (result : AdvanceResult) :
    Tame config thread
      (walk config thread result :
        Program K H T (Option AdvanceResult)) :=
  .bind tame_join fun _ => .bind (.read _) fun _ =>
    .bind (tame_walkTable _ _) fun _ =>
      .bind (.write fun _ => rfl) fun _ => .pure _

end Advance

section Calls

variable [DecidableEq H]

/-- The call is in progress after it has begun. -/
def Call.Lasting : Call K H → Prop
  | .newHandle _ | .refresh _ | .operate _ _ | .advance | .reclaim => True
  | .moveConstruct _ _ | .moveAssign _ _ | .swap _ _ | .destroy _ => False

omit [DecidableEq T] in
/-- Leaving a generation changes its reader counts only. -/
theorem memoryView_leaveHandle
    (state : State K H T)
    (handle : H) :
    (state.leaveHandle handle).memoryView = state.memoryView := by
  unfold State.leaveHandle
  split <;> rfl

/-- A call that begins is at most listed among the calls in progress. -/
theorem startCall_view
    {state after : State K H T}
    {call : Call K H}
    {live : Handle}
    (started : startCall config state thread call = some (live, after)) :
    (¬ call.Lasting ∧ after.memoryView = state.memoryView) ∨
      ∃ use : Use H T,
        use.thread = thread ∧
          after.memoryView =
            { state.memoryView with uses := use :: state.uses } := by
  cases call with
  | newHandle handle =>
      simp only [startCall] at started
      split at started
      · cases started
        exact .inr ⟨_, rfl, rfl⟩
      · cases started
  | refresh handle =>
      simp only [startCall] at started
      split at started
      · obtain ⟨_, _, shape⟩ := Option.map_eq_some_iff.mp started
        cases shape
        exact .inr ⟨_, rfl, rfl⟩
      · cases started
  | moveConstruct target source =>
      simp only [startCall] at started
      split at started
      · cases started
        exact .inl ⟨id, rfl⟩
      · cases started
  | moveAssign target source =>
      simp only [startCall] at started
      split at started
      · split at started
        · cases started
          exact .inl ⟨id, rfl⟩
        · cases started
          exact .inl ⟨id, memoryView_leaveHandle state target⟩
      · cases started
  | swap first second =>
      simp only [startCall] at started
      split at started
      · cases started
        exact .inl ⟨id, rfl⟩
      · cases started
  | destroy handle =>
      simp only [startCall] at started
      split at started
      · cases started
        exact .inl ⟨id, memoryView_leaveHandle state handle⟩
      · cases started
  | operate handle operation =>
      simp only [startCall] at started
      split at started
      · obtain ⟨_, _, shape⟩ := Option.map_eq_some_iff.mp started
        cases shape
        exact .inr ⟨_, rfl, rfl⟩
      · cases started
  | advance =>
      cases started
      exact .inr ⟨_, rfl, rfl⟩
  | reclaim =>
      cases started
      exact .inr ⟨_, rfl, rfl⟩

end Calls

end ConcurrentCpp.HashSetRCU
