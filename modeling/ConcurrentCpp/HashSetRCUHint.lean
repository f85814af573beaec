import ConcurrentCpp.HashSetRCUPieces
import ConcurrentCpp.HashSetCounting

namespace ConcurrentCpp.HashSetRCU

/-!
# The hint of the steal

A scan that has found every free list empty marks the hint with a
compare-and-swap against the stamp it began with.  Nodes enter a free list
only between the first push of a bag and the store of a new stamp: while the
stamp is the same and no bag is being pushed, a list that was found empty is
still empty.
-/

open HashSet (Slot FreeHead)

variable {K H T : Type} (config : Config K T)

/-- The words that the hint is about. -/
structure StealView (T : Type) where
  freeHead : Nat → FreeHead
  stealHint : StealHint
  stealStamp : Nat
  reclaiming : Bool
  unstamped : Bool
  advancer : Option T

/-- What the state shows of these words. -/
def State.stealView (state : State K H T) : StealView T where
  freeHead := state.freeHead
  stealHint := state.stealHint
  stealStamp := state.stealStamp
  reclaiming := state.reclaiming
  unstamped := state.unstamped
  advancer := state.advancer

/-- The words of the hint are among those of the memory. -/
def MemoryView.steal (view : MemoryView H T) : StealView T where
  freeHead := view.freeHead
  stealHint := view.stealHint
  stealStamp := view.stealStamp
  reclaiming := view.reclaiming
  unstamped := view.unstamped
  advancer := view.advancer

/-- A step that keeps the words of the memory keeps those of the hint. -/
theorem stealView_eq
    {state after : State K H T}
    (same : after.memoryView = state.memoryView) :
    after.stealView = state.stealView :=
  congrArg MemoryView.steal same

/-- The free list of the shard is empty. -/
def StealView.Dry
    (view : StealView T)
    (shard : Nat) : Prop :=
  (view.freeHead shard).top = none

/-- The invariant of the hint. -/
structure Hinted (view : StealView T) : Prop where
  stamp : view.stealHint.stamp = view.stealStamp
  flag : view.reclaiming = view.advancer.isSome
  stamped : view.advancer = none → view.unstamped = false
  empty :
    view.stealHint.empty = true →
    view.unstamped = true ∨ ∀ shard < config.shards, view.Dry shard

/--
A step of a thread leaves the pass of another thread alone; without a new
stamp it fills an empty list only while a bag is being pushed.
-/
structure HintStep
    (thread : T)
    (before after : StealView T) : Prop where
  holder :
    ∀ {other},
      other ≠ thread →
      (after.advancer = some other ↔ before.advancer = some other)
  pass :
    ∀ {other},
      other ≠ thread →
      before.advancer = some other →
      after.unstamped = before.unstamped
  stamp : before.stealStamp ≤ after.stealStamp
  pushing :
    after.stealStamp = before.stealStamp →
    before.unstamped = true →
    after.unstamped = true
  dry :
    ∀ {shard},
      after.stealStamp = before.stealStamp →
      before.Dry shard →
      after.unstamped = true ∨ after.Dry shard

/-- A step that touches none of the words. -/
theorem HintStep.refl
    (thread : T)
    (view : StealView T) :
    HintStep thread view view where
  holder _ := Iff.rfl
  pass _ _ := rfl
  stamp := Nat.le_refl _
  pushing _ known := known
  dry _ known := .inr known

/-- The protocol of the hint. -/
def hintProtocol :
    Protocol (State K H T) Unit T where
  Inv world := Hinted config world.1.stealView
  Guar thread world after :=
    HintStep thread world.1.stealView after.1.stealView
  guar_refl thread _ := HintStep.refl thread _

variable {config : Config K T} {thread : T}

/-- Whether the thread has the advancer flag; then no bag is half pushed. -/
def resting
    (holds : Bool) :
    Assertion (hintProtocol (H := H) config) thread where
  holds world :=
    (world.1.stealView.advancer = some thread ↔ holds = true) ∧
      (holds = true → world.1.stealView.unstamped = false)
  stable {_ world after} different _ _ moved known := by
    have holder := moved.holder different.symm
    refine ⟨holder.trans known.1, fun held => ?_⟩
    rw [moved.pass different.symm (known.1.mpr held)]
    exact known.2 held

/-- The thread is freeing a bag, of which it has pushed some nodes. -/
def freeing
    (count : Nat) :
    Assertion (hintProtocol (H := H) config) thread where
  holds world :=
    world.1.stealView.advancer = some thread ∧
      (count = 0 → world.1.stealView.unstamped = false)
  stable {_ world after} different _ _ moved known := by
    refine ⟨(moved.holder different.symm).mpr known.1, fun none => ?_⟩
    rw [moved.pass different.symm known.1]
    exact known.2 none

/--
Since the hint had this stamp these lists were found empty: they still are,
unless a bag is being pushed or has got a new stamp.
-/
def StealView.Swept
    (view : StealView T)
    (stamp : Nat)
    (found : Nat → Prop) : Prop :=
  stamp ≤ view.stealStamp ∧
    (view.stealStamp = stamp →
      view.unstamped = true ∨ ∀ shard, found shard → view.Dry shard)

/-- No thread invalidates it. -/
theorem StealView.Swept.step
    {before after : StealView T}
    {stamp : Nat}
    {found : Nat → Prop}
    (moved : HintStep thread before after)
    (known : before.Swept stamp found) :
    after.Swept stamp found := by
  refine ⟨Nat.le_trans known.1 moved.stamp, fun same => ?_⟩
  have old : before.stealStamp = stamp :=
    Nat.le_antisymm (same ▸ moved.stamp) known.1
  have unchanged : after.stealStamp = before.stealStamp :=
    same.trans old.symm
  rcases known.2 old with pushing | dry
  · exact .inl (moved.pushing unchanged pushing)
  by_cases pushing : after.unstamped = true
  · exact .inl pushing
  · exact .inr fun shard isFound =>
      (moved.dry unchanged (dry shard isFound)).resolve_left pushing

/-- One more list is found empty. -/
theorem StealView.Swept.look
    {view : StealView T}
    {stamp : Nat}
    {found : Nat → Prop}
    (known : view.Swept stamp found)
    (shard : Nat) :
    view.Swept stamp fun other =>
      found other ∨
        ((view.freeHead shard).top = none ∧ other = shard) := by
  refine ⟨known.1, fun same => (known.2 same).imp_right fun dry => ?_⟩
  rintro other (isFound | ⟨none, rfl⟩)
  · exact dry other isFound
  · exact none

/-- The scan that began at this stamp has found these lists empty. -/
def swept
    (stamp : Nat)
    (found : Nat → Prop) :
    Assertion (hintProtocol (H := H) config) thread :=
  .lasting (fun world => world.1.stealView.Swept stamp found)
    fun _ _ _ _ _ moved known => known.step moved

section Steady

/-- The program never touches these words. -/
abbrev Steady
    {α : Type}
    (program : Program K H T α) : Prop :=
  program.Spares State.stealView

/-- A program that never touches the words of the memory. -/
theorem Still.steady
    {α : Type}
    {program : Program K H T α}
    (still : Still program) :
    Steady program :=
  still.coarser stealView_eq

/-- A program that never touches these words keeps what is known of them. -/
theorem Triple.steady
    {α : Type}
    {pre : Assertion (hintProtocol (H := H) config) thread}
    {program : Program K H T α}
    (steady : Steady program)
    (keeps :
      ∀ {state after : State K H T} {ghost},
        after.stealView = state.stealView →
        pre.holds (state, ghost) →
        pre.holds (after, ghost)) :
    Triple (hintProtocol config) thread pre program fun _ => pre := by
  refine Triple.spared steady ?_ keeps
  intro state after ghost same inv
  have hinted : Hinted config after.stealView := same ▸ inv
  have step : HintStep thread state.stealView after.stealView :=
    same ▸ HintStep.refl thread state.stealView
  exact ⟨hinted, step⟩

theorem Triple.steadyResting
    {α : Type}
    {holds : Bool}
    {program : Program K H T α}
    (steady : Steady program) :
    Triple (hintProtocol config) thread (resting holds) program
      fun _ => resting holds :=
  Triple.steady steady fun same known =>
    ⟨same ▸ known.1, fun held => same ▸ known.2 held⟩

theorem Triple.steadyFreeing
    {α : Type}
    {count : Nat}
    {program : Program K H T α}
    (steady : Steady program) :
    Triple (hintProtocol config) thread (freeing count) program
      fun _ => freeing count :=
  Triple.steady steady fun same known =>
    ⟨same ▸ known.1, fun none => same ▸ known.2 none⟩

end Steady

section Steps

variable {view : StealView T}

/-- A pop from one list leaves an empty list empty. -/
theorem StealView.Dry.pop
    {shard other : Nat}
    (head : FreeHead)
    (filled : ¬ view.Dry shard)
    (dry : view.Dry other) :
    StealView.Dry
      { view with
        freeHead := Function.update view.freeHead shard head }
      other := by
  have apart : other ≠ shard := by
    rintro rfl
    exact filled dry
  rw [StealView.Dry]
  dsimp only
  rw [Function.update_of_ne apart]
  exact dry

/-- A pop from a list that is not empty. -/
theorem HintStep.pop
    {shard : Nat}
    (head : FreeHead)
    (filled : ¬ view.Dry shard) :
    HintStep thread view
      { view with
        freeHead := Function.update view.freeHead shard head } where
  holder _ := Iff.rfl
  pass _ _ := rfl
  stamp := Nat.le_refl _
  pushing _ known := known
  dry _ known := .inr (known.pop head filled)

/-- The invariant after a pop. -/
theorem Hinted.pop
    {shard : Nat}
    (head : FreeHead)
    (filled : ¬ view.Dry shard)
    (inv : Hinted config view) :
    Hinted config
      { view with
        freeHead := Function.update view.freeHead shard head } where
  stamp := inv.stamp
  flag := inv.flag
  stamped := inv.stamped
  empty isEmpty :=
    (inv.empty isEmpty).imp_right fun dry other inside =>
      (dry other inside).pop head filled

/-- The advancer pushes a node. -/
theorem HintStep.push
    {shard : Nat}
    (head : FreeHead)
    (held : view.advancer = some thread) :
    HintStep thread view
      { view with
        freeHead := Function.update view.freeHead shard head
        unstamped := true } where
  holder _ := Iff.rfl
  pass different other :=
    absurd (Option.some.inj (other.symm.trans held)) different
  stamp := Nat.le_refl _
  pushing _ _ := rfl
  dry _ _ := .inl rfl

/-- The invariant after a push. -/
theorem Hinted.push
    {shard : Nat}
    (head : FreeHead)
    (held : view.advancer = some thread)
    (inv : Hinted config view) :
    Hinted config
      { view with
        freeHead := Function.update view.freeHead shard head
        unstamped := true } where
  stamp := inv.stamp
  flag := inv.flag
  stamped absent := by
    rw [held] at absent
    cases absent
  empty _ := .inl rfl

/-- The advancer stores a new stamp. -/
theorem HintStep.restamp
    (held : view.advancer = some thread) :
    HintStep thread view
      { view with
        stealStamp := view.stealStamp + 1
        stealHint := ⟨view.stealStamp + 1, false⟩
        unstamped := false } where
  holder _ := Iff.rfl
  pass different other :=
    absurd (Option.some.inj (other.symm.trans held)) different
  stamp := Nat.le_succ _
  pushing same := absurd same (Nat.succ_ne_self _)
  dry same := absurd same (Nat.succ_ne_self _)

/-- The invariant after the store of a new stamp. -/
theorem Hinted.restamp
    (inv : Hinted config view) :
    Hinted config
      { view with
        stealStamp := view.stealStamp + 1
        stealHint := ⟨view.stealStamp + 1, false⟩
        unstamped := false } where
  stamp := rfl
  flag := inv.flag
  stamped _ := rfl
  empty isEmpty := by cases isEmpty

/-- The hint is marked after a scan of all lists. -/
theorem Hinted.markEmpty
    {hint : StealHint}
    {found : Nat → Prop}
    (inv : Hinted config view)
    (all : ∀ shard < config.shards, found shard)
    (known : view.Swept hint.stamp found)
    (same : view.stealHint = hint) :
    Hinted config
      { view with stealHint := { hint with empty := true } } where
  stamp := by
    rw [← same]
    exact inv.stamp
  flag := inv.flag
  stamped := inv.stamped
  empty _ := by
    have current : view.stealStamp = hint.stamp := by
      rw [← same]
      exact inv.stamp.symm
    exact (known.2 current).imp_right fun dry shard inside =>
      dry shard (all shard inside)

/-- The scan visits every shard. -/
theorem scan_visits
    (own : Nat)
    {shard : Nat}
    (inside : shard < config.shards) :
    ∃ index < config.shards,
      shard = (own + index) &&& (config.shards - 1) := by
  have power : config.shards = 2 ^ config.shards.log2 :=
    HashSet.bitCeil_power _
  have low :
      ∀ number,
        number &&& (config.shards - 1) = number % config.shards := by
    intro number
    rw [power]
    exact Nat.and_two_pow_sub_one_eq_mod number _
  have positive : 0 < config.shards := Nat.zero_lt_of_lt inside
  have bound : own % config.shards < config.shards :=
    Nat.mod_lt own positive
  refine ⟨(shard + (config.shards - own % config.shards)) % config.shards,
    Nat.mod_lt _ positive, ?_⟩
  have whole :
      own % config.shards +
          (shard + (config.shards - own % config.shards)) =
        shard + config.shards := by
    omega
  rw [low, Nat.add_mod, Nat.mod_mod, Nat.add_mod_mod, whole,
    Nat.add_mod_right, Nat.mod_eq_of_lt inside]

end Steps

section Allocation

variable [DecidableEq T] {holds : Bool}

/-- A scan looks at one more list, which is empty if the fact holds. -/
def looking
    (holds : Bool)
    (stamp : Nat)
    (found : Nat → Prop)
    (shard : Nat)
    (fact : Prop) :
    Assertion (hintProtocol (H := H) config) thread :=
  (resting holds).and
    (swept stamp fun other => found other ∨ (fact ∧ other = shard))

/-- A look at the top of a list. -/
theorem looking_top
    {world : State K H T × Unit}
    {stamp : Nat}
    {found : Nat → Prop}
    (inv : (hintProtocol config).Inv world)
    (known :
      ((resting holds).and (swept stamp found) :
        Assertion (hintProtocol config) thread).holds world)
    (shard : Nat) :
    Lands world
      (world.1.seeTop thread (world.1.freeHead shard).top)
      (looking holds stamp found shard
        ((world.1.freeHead shard).top = none) :
        Assertion (hintProtocol config) thread) :=
  ⟨world.2, inv, HintStep.refl _ _, known.1, known.2.look shard⟩

omit [DecidableEq T] in
/-- What was found before the look. -/
theorem looking_before
    {world : State K H T × Unit}
    {stamp shard : Nat}
    {found : Nat → Prop}
    {fact : Prop}
    (known :
      (looking holds stamp found shard fact :
        Assertion (hintProtocol config) thread).holds world) :
    ((resting holds).and (swept stamp found) :
      Assertion (hintProtocol config) thread).holds world :=
  ⟨known.1, known.2.1, fun same =>
    (known.2.2 same).imp_right fun dry other isFound =>
      dry other (.inl isFound)⟩

/-- A pop from a list that is not empty. -/
theorem looking_pop
    {world : State K H T × Unit}
    {stamp shard : Nat}
    {found : Nat → Prop}
    {node : Slot}
    {head : FreeHead}
    {successor : Option Slot}
    (inv : (hintProtocol config).Inv world)
    (known :
      ((resting holds).and (swept stamp found) :
        Assertion (hintProtocol config) thread).holds world)
    (same : world.1.freeHead shard = head)
    (top : head.top = some node) :
    Lands world
      { (world.1.seeTop thread none).keep thread node with
        freeHead :=
          Function.update world.1.freeHead shard
            ⟨successor, (head.pops + 1) % 512⟩ }
      ((resting holds).and (swept stamp found) :
        Assertion (hintProtocol config) thread) := by
  have filled : ¬ world.1.stealView.Dry shard := by
    intro dry
    have empty : (world.1.freeHead shard).top = none := dry
    rw [same, top] at empty
    cases empty
  have step :
      HintStep thread world.1.stealView
        { world.1.stealView with
          freeHead :=
            Function.update world.1.freeHead shard
              ⟨successor, (head.pops + 1) % 512⟩ } :=
    HintStep.pop _ filled
  exact ⟨world.2, Hinted.pop _ filled inv, step, known.1,
    known.2.step step⟩

/-- The pop loop: a list from which nothing is popped was found empty. -/
theorem popFree_hinted
    (shard stamp : Nat)
    (found : Nat → Prop) :
    Triple (hintProtocol (H := H) config) thread
      ((resting holds).and (swept stamp found))
      (popFree thread shard : Program K H T (Option (Slot × FreeHead)))
      fun popped => looking holds stamp found shard (popped = none) := by
  have reads :
      Triple (hintProtocol (H := H) config) thread
        ((resting holds).and (swept stamp found))
        (Prog.atomic fun state _ =>
          some (state.freeHead shard,
            state.seeTop thread (state.freeHead shard).top) :
          Program K H T FreeHead)
        fun head =>
          looking holds stamp found shard (head.top = none) := by
    refine Triple.atomic fun world choice value after inv known ran => ?_
    cases ran
    exact looking_top inv known shard
  refine Triple.bind reads fun head =>
    Triple.loopWith
      (fun head : FreeHead =>
        looking holds stamp found shard (head.top = none))
      fun head => ?_
  cases top : head.top with
  | none =>
      refine Triple.ret fun world _ known => ?_
      refine ⟨known.1, known.2.1, fun same => ?_⟩
      refine (known.2.2 same).imp_right fun dry other isFound => ?_
      exact dry other (isFound.imp_right fun here => ⟨rfl, here.2⟩)
  | some node =>
      have pops :
          ∀ successor : Option Slot,
            Triple (hintProtocol (H := H) config) thread
              ((resting holds).and (swept stamp found))
              (casPop thread shard node head successor :
                Program K H T (Bool × FreeHead))
              fun outcome =>
                if outcome.1 then
                  (resting holds).and (swept stamp found)
                else
                  looking holds stamp found shard
                    (outcome.2.top = none) :=
        fun successor => casPop_triple
          (fun world inv known same => looking_pop inv known same top)
          fun world inv known => looking_top inv known shard
      have reads :
          Triple (hintProtocol (H := H) config) thread
            (looking holds stamp found shard (some node = none))
            (Prog.read fun state => state.link node :
              Program K H T HashSet.Link)
            fun _ => (resting holds).and (swept stamp found) :=
        Triple.read fun world _ known => looking_before known
      refine Triple.bind reads fun link => ?_
      refine Triple.bind (pops link.next) fun outcome => ?_
      obtain ⟨won, found⟩ := outcome
      cases won with
      | true =>
          exact Triple.ret fun world _ known => by
            refine ⟨known.1, known.2.1, fun same => ?_⟩
            refine (known.2.2 same).imp_right fun dry other isFound => ?_
            exact dry other (isFound.resolve_right fun here => by
              cases here.1)
      | false =>
          exact Triple.ret fun _ _ known => known

omit [DecidableEq T] in
/-- The hint is marked after a scan of all lists. -/
theorem markHint_hinted
    (hint : StealHint)
    {found : Nat → Prop}
    (all : ∀ shard < config.shards, found shard) :
    Triple (hintProtocol (H := H) config) thread
      ((resting holds).and (swept hint.stamp found))
      (markHint hint : Program K H T Unit)
      fun _ => resting holds := by
  refine Triple.atomic fun world choice value after inv known ran => ?_
  cases ran
  dsimp only
  split
  · refine ⟨world.2, Hinted.markEmpty inv all known.2 ‹_›, ?_, known.1⟩
    exact ⟨fun _ => Iff.rfl, fun _ _ => rfl, Nat.le_refl _,
      fun _ known => known, fun _ known => .inr known⟩
  · exact Lands.stay inv known.1

/-- The scan marks the hint only after it has found every list empty. -/
theorem stealScan_hinted
    (value : K)
    (next : Option Slot) :
    Triple (hintProtocol (H := H) config) thread (resting holds)
      (stealScan config thread value next : Program K H T Stolen)
      fun _ => resting holds := by
  have begins :
      Triple (hintProtocol (H := H) config) thread (resting holds)
        (Prog.read fun state => state.stealHint :
          Program K H T StealHint)
        fun hint =>
          (resting holds).and (swept hint.stamp fun _ => False) :=
    Triple.read fun world inv known =>
      ⟨known, Nat.le_of_eq inv.stamp,
        fun _ => .inr fun _ absurd => absurd.elim⟩
  have started :
      ∀ (hint : StealHint) (world : State K H T × Unit),
        ((resting holds).and (swept hint.stamp fun _ => False) :
          Assertion (hintProtocol (H := H) config) thread).holds world →
        ((resting holds).and
          (swept hint.stamp fun shard =>
            ∃ earlier < 0,
              shard =
                (config.myShard thread + earlier) &&&
                  (config.shards - 1)) :
          Assertion (hintProtocol (H := H) config) thread).holds world := by
    intro hint world known
    refine ⟨known.1, known.2.1, fun same => ?_⟩
    refine (known.2.2 same).imp_right fun _ shard visited => ?_
    obtain ⟨_, before, _⟩ := visited
    exact absurd before (Nat.not_lt_zero _)
  refine Triple.bind begins fun hint => ?_
  split
  · exact Triple.ret fun _ _ known => known.1
  refine (Triple.loopWith
    (fun index =>
      (resting holds).and
        (swept hint.stamp fun shard =>
          ∃ earlier < index,
            shard =
              (config.myShard thread + earlier) &&&
                (config.shards - 1)))
    fun index => ?_).weaken fun world _ known => started hint world known
  split
  · refine Triple.bind (popFree_hinted _ _ _) fun popped => ?_
    cases popped with
    | none =>
        refine Triple.ret fun world _ known => ?_
        refine ⟨known.1, known.2.1, fun same => ?_⟩
        refine (known.2.2 same).imp_right fun dry shard visited => ?_
        obtain ⟨earlier, before, here⟩ := visited
        rcases Nat.lt_succ_iff_lt_or_eq.mp before with before | rfl
        · exact dry shard (.inl ⟨earlier, before, here⟩)
        · exact dry shard (.inr ⟨rfl, here⟩)
    | some popped =>
        obtain ⟨node, head⟩ := popped
        have reuses :
            Triple (hintProtocol (H := H) config) thread
              (resting holds)
              (reuseNode config thread node head value next :
                Program K H T (Option Slot))
              fun _ => resting holds :=
          Triple.steadyResting (Still.steady (still_reuseNode _ _ _ _))
        exact Triple.bind (reuses.weaken fun _ _ known => known.1)
          fun reused => Triple.ret fun _ _ known => known
  · refine Triple.bind (markHint_hinted hint fun shard inside => ?_)
      fun _ => Triple.ret fun _ _ known => known
    obtain ⟨earlier, before, here⟩ :=
      scan_visits (config.myShard thread) inside
    exact ⟨earlier, by omega, here⟩

theorem stealNode_hinted
    (value : K)
    (next : Option Slot) :
    Triple (hintProtocol (H := H) config) thread (resting holds)
      (stealNode config thread value next : Program K H T Stolen)
      fun _ => resting holds := by
  have hints :
      Triple (hintProtocol (H := H) config) thread (resting holds)
        (Prog.read fun state => state.stealHint :
          Program K H T StealHint)
        fun _ => resting holds :=
    Triple.read fun _ _ known => known
  refine Triple.bind hints fun hint => ?_
  split
  · exact Triple.ret fun _ _ known => known
  · exact stealScan_hinted value next

/-- `alloc_node()` keeps the protocol. -/
theorem allocNode_hinted
    (value : K)
    (next : Option Slot) :
    Triple (hintProtocol (H := H) config) thread (resting holds)
      (allocNode config thread value next : Program K H T (Option Slot))
      fun _ => resting holds := by
  have pops :
      Triple (hintProtocol (H := H) config) thread (resting holds)
        (popFree thread (config.myShard thread) :
          Program K H T (Option (Slot × FreeHead)))
        fun _ => resting holds := by
    refine ((popFree_hinted (config.myShard thread) 0
      fun _ => False).weaken ?_).consequence fun _ _ _ known => known.1
    exact fun world _ known =>
      ⟨known, Nat.zero_le _, fun _ => .inr fun _ absurd => absurd.elim⟩
  refine Triple.bind pops fun popped => ?_
  cases popped with
  | some popped =>
      exact Triple.steadyResting (Still.steady (still_reuseNode _ _ _ _))
  | none =>
      refine Triple.bind (stealNode_hinted value next) fun stolen => ?_
      cases stolen with
      | node slot =>
          exact Triple.ret fun _ _ known => known
      | threw =>
          exact Triple.ret fun _ _ known => known
      | nothing =>
          refine Triple.steadyResting (Prog.spares_bind ?_ fun appended => ?_)
          · refine Prog.spares_atomic fun state choice value after ran => ?_
            cases choice <;> cases ran <;> rfl
          cases appended with
          | none =>
              exact Prog.spares_pure _
          | some index =>
              exact Prog.spares_bind (Still.steady (still_countBatch _))
                fun _ => Prog.spares_pure _

end Allocation

section FreePass

/-- A node is pushed. -/
theorem pushFree_hinted
    (shard count : Nat)
    (node : Slot) :
    Triple (hintProtocol (H := H) config) thread (freeing count)
      (pushFree shard node : Program K H T Unit)
      fun _ => freeing (count + 1) := by
  have reads :
      Triple (hintProtocol (H := H) config) thread (freeing count)
        (Prog.read fun state => state.freeHead shard :
          Program K H T FreeHead)
        fun _ => freeing count :=
    Triple.read fun _ _ known => known
  have turns :
      ∀ head : FreeHead,
        Triple (hintProtocol (H := H) config) thread
          ((fun _ : FreeHead => freeing count) head)
          (do
            storeLink node head.top
            let outcome ←
              casWeak (fun state => state.freeHead shard) head
                fun state =>
                  { state with
                    freeHead :=
                      Function.update state.freeHead shard
                        ⟨some node, head.pops⟩
                    freed :=
                      Function.update state.freed node
                        (state.freed node + 1)
                    unstamped := true }
            if outcome.1 then
              Prog.leave ()
            else
              Prog.again outcome.2 :
            Program K H T (FreeHead ⊕ Unit))
          (Assertion.turn (fun _ : FreeHead => freeing count)
            fun _ => freeing (count + 1)) := by
    intro head
    refine Triple.bind
      (Triple.steadyFreeing (Prog.spares_write fun _ => rfl)) fun _ => ?_
    have swaps :
        Triple (hintProtocol (H := H) config) thread (freeing count)
          (casWeak (fun state => state.freeHead shard) head
            fun state =>
              { state with
                freeHead :=
                  Function.update state.freeHead shard
                    ⟨some node, head.pops⟩
                freed :=
                  Function.update state.freed node
                    (state.freed node + 1)
                unstamped := true })
          fun outcome =>
            if outcome.1 then freeing (count + 1) else freeing count :=
      casWeak_triple
        (fun world inv known _ =>
          ⟨world.2, Hinted.push _ known.1 inv, HintStep.push _ known.1,
            known.1, fun none => absurd none (Nat.succ_ne_zero _)⟩)
        fun _ _ known => known
    refine Triple.bind swaps fun outcome => ?_
    obtain ⟨won, current⟩ := outcome
    cases won with
    | true =>
        exact Triple.ret fun _ _ known => known
    | false =>
        exact Triple.ret fun _ _ known => known
  exact Triple.bind reads fun head => Triple.loop turns

/-- A list of a bag is freed. -/
theorem freeList_hinted
    {head : GenerationBlock → Option Slot}
    {next : State K H T → Slot → Option Slot}
    {store : GenerationBlock → Option Slot → GenerationBlock}
    (slot count : Nat) :
    Triple (hintProtocol (H := H) config) thread (freeing count)
      (freeList (takeBagged config head next store slot) count :
        Program K H T Nat)
      fun freed => freeing freed := by
  refine Triple.loopWith (fun count => freeing count) fun count => ?_
  refine Triple.bind
    (Triple.steadyFreeing (Still.steady (still_takeBagged slot)))
    fun taken => ?_
  cases taken with
  | none =>
      exact Triple.ret fun _ _ known => known
  | some taken =>
      exact Triple.bind (pushFree_hinted taken.2 count taken.1) fun _ =>
        Triple.ret fun _ _ known => known

/-- A bag is freed. -/
theorem freeBag_hinted
    (slot : Nat) :
    Triple (hintProtocol (H := H) config) thread (resting true)
      (freeBag config slot : Program K H T Nat)
      fun count => freeing count := by
  have turns :
      ∀ walk : Nat × Nat,
        Triple (hintProtocol (H := H) config) thread
          ((fun walk : Nat × Nat => freeing walk.2) walk)
          (if walk.1 < config.shards then do
            let retired ← freeList (takeRetired config slot walk.1) walk.2
            let limbo ← freeList (takeLimbo config slot walk.1) retired
            Prog.again (walk.1 + 1, limbo)
          else
            Prog.leave walk.2 :
            Program K H T ((Nat × Nat) ⊕ Nat))
          (Assertion.turn (fun walk : Nat × Nat => freeing walk.2)
            fun count => freeing count) := by
    intro walk
    split
    · refine Triple.bind (freeList_hinted slot walk.2) fun retired => ?_
      refine Triple.bind (freeList_hinted slot retired) fun limbo => ?_
      exact Triple.ret fun _ _ known => known
    · exact Triple.ret fun _ _ known => known
  have begins :
      Triple (hintProtocol (H := H) config) thread
        ((fun walk : Nat × Nat => freeing walk.2) (0, 0))
        (freeBag config slot : Program K H T Nat)
        fun count => freeing count :=
    Triple.loop turns
  exact begins.weaken fun _ _ known =>
    ⟨known.1.mpr rfl, fun _ => known.2 rfl⟩

/-- The stamp is stored if a node was pushed. -/
theorem stampHint_hinted
    (count : Nat) :
    Triple (hintProtocol (H := H) config) thread (freeing count)
      (stampHint count : Program K H T Unit)
      fun _ => resting true := by
  unfold stampHint
  split
  · refine Triple.atomic fun world choice value after inv known ran => ?_
    cases ran
    exact ⟨world.2, Hinted.restamp inv, HintStep.restamp known.1,
      ⟨fun _ => rfl, fun _ => known.1⟩, fun _ => rfl⟩
  · rename_i none
    exact Triple.ret fun _ _ known =>
      ⟨⟨fun _ => rfl, fun _ => known.1⟩,
        fun _ => known.2 (not_not.mp none)⟩

/-- `free_oldest()` ends with no bag half pushed. -/
theorem freeOldest_hinted
    (result : AdvanceResult) :
    Triple (hintProtocol (H := H) config) thread (resting true)
      (freeOldest config result : Program K H T AdvanceResult)
      fun _ => resting true := by
  have turns :
      ∀ result : AdvanceResult,
        Triple (hintProtocol (H := H) config) thread
          ((fun _ : AdvanceResult => resting true) result)
          (do
            let oldest ← Prog.read fun state =>
              (state.oldest, (state.ring state.oldest).state,
                state.scanStart)
            if oldest.2.1 ≠ .sealed then
              Prog.leave result
            else do
              let deserted ← scanCounts config oldest.1 oldest.2.2
              if deserted = false then
                Prog.leave result
              else do
                let count ← freeBag config oldest.1
                closeBag config oldest.1 count
                stampHint count
                Prog.again
                  { result with
                    freedNodes := result.freedNodes + count
                    freedBags := result.freedBags + 1 } :
            Program K H T (AdvanceResult ⊕ AdvanceResult))
          (Assertion.turn (fun _ : AdvanceResult => resting true)
            fun _ => resting true) := by
    intro result
    refine Triple.bind (Triple.steadyResting (Prog.spares_read _))
      fun oldest => ?_
    split
    · exact Triple.ret fun _ _ known => known
    refine Triple.bind
      (Triple.steadyResting (Still.steady (still_scanCounts _ _)))
      fun deserted => ?_
    split
    · exact Triple.ret fun _ _ known => known
    refine Triple.bind (freeBag_hinted _) fun count => ?_
    refine Triple.bind
      (Triple.steadyFreeing (Still.steady (still_closeBag _ _)))
      fun _ => ?_
    exact Triple.bind (stampHint_hinted count) fun _ =>
      Triple.ret fun _ _ known => known
  exact Triple.loop turns

/-- `bump_and_free()` of the advancer. -/
theorem bumpAndFree_hinted
    (result : AdvanceResult) :
    Triple (hintProtocol (H := H) config) thread (resting true)
      (bumpAndFree config result : Program K H T AdvanceResult)
      fun _ => resting true := by
  refine Triple.bind ?_ freeOldest_hinted
  refine Triple.bind
    (Triple.steadyResting (Still.steady still_lookRetired)) fun look => ?_
  split
  · exact Triple.ret fun _ _ known => known
  refine Triple.bind (Triple.steadyResting (Prog.spares_read _))
    fun closing => ?_
  refine Triple.bind (Triple.steadyResting (Prog.spares_read _))
    fun before => ?_
  split
  · exact Triple.steadyResting (Still.steady (still_closeCurrent _ _ _))
  refine Triple.bind (freeOldest_hinted result) fun freed => ?_
  refine Triple.bind (Triple.steadyResting (Prog.spares_read _))
    fun after => ?_
  split
  · exact Triple.steadyResting (Still.steady (still_closeCurrent _ _ _))
  · exact Triple.ret fun _ _ known => known

/-- `reclaiming_.exchange(true)`: the advancer finds its own flag set. -/
theorem takeFlag_hinted
    (holds : Bool) :
    Triple (hintProtocol (H := H) config) thread (resting holds)
      (takeFlag thread : Program K H T Bool)
      fun busy =>
        if busy then
          resting holds
        else
          (Assertion.pure (holds = false)).and (resting true) := by
  refine Triple.atomic fun world choice value after inv known ran => ?_
  split at ran
  · cases ran
    exact Lands.stay inv known
  · rename_i free
    cases ran
    have clear : world.1.reclaiming = false := Bool.not_eq_true _ ▸ free
    have absent : world.1.advancer = none := by
      have flag : world.1.reclaiming = world.1.advancer.isSome := inv.flag
      rw [clear] at flag
      exact Option.not_isSome_iff_eq_none.mp (Bool.not_eq_true _ ▸ flag.symm)
    have stamped : world.1.unstamped = false := inv.stamped absent
    refine ⟨world.2, ⟨inv.stamp, rfl, fun _ => stamped, inv.empty⟩, ?_, ?_⟩
    · refine ⟨fun different => ?_, fun _ _ => rfl, Nat.le_refl _,
        fun _ known => known, fun _ known => .inr known⟩
      have before : world.1.stealView.advancer = none := absent
      rw [before]
      constructor
      · intro same
        exact absurd (Option.some.inj same).symm different
      · intro same
        cases same
    · refine ⟨?_, ⟨fun _ => rfl, fun _ => rfl⟩, fun _ => stamped⟩
      cases holds with
      | false =>
          rfl
      | true =>
          have held : world.1.advancer = some thread := known.1.mpr rfl
          rw [absent] at held
          cases held

/-- `~AdvanceGuard()`. -/
theorem releaseFlag_hinted :
    Triple (hintProtocol (H := H) config) thread (resting true)
      (releaseFlag : Program K H T Unit)
      fun _ => resting false := by
  refine Triple.atomic fun world choice value after inv known ran => ?_
  cases ran
  have held : world.1.stealView.advancer = some thread := known.1.mpr rfl
  refine ⟨world.2, ⟨inv.stamp, rfl, fun _ => known.2 rfl, inv.empty⟩,
    ?_, ?_⟩
  · refine ⟨fun different => ?_, fun _ _ => rfl, Nat.le_refl _,
      fun _ known => known, fun _ known => .inr known⟩
    rw [held]
    constructor
    · intro same
      cases same
    · intro same
      exact absurd (Option.some.inj same).symm different
  · exact ⟨⟨nofun, nofun⟩, nofun⟩

/-- `auto_reclaim()`. -/
theorem autoReclaim_hinted
    (holds : Bool) :
    Triple (hintProtocol (H := H) config) thread (resting holds)
      (autoReclaim config thread : Program K H T Unit)
      fun _ => resting holds := by
  refine Triple.bind (takeFlag_hinted holds) fun busy => ?_
  cases busy with
  | true =>
      exact Triple.steadyResting (Prog.spares_write fun _ => rfl)
  | false =>
      refine Triple.given fun free => ?_
      subst free
      refine Triple.bind
        (Triple.steadyResting (Prog.spares_write fun _ => rfl)) fun _ => ?_
      refine Triple.bind (bumpAndFree_hinted _) fun _ => ?_
      exact releaseFlag_hinted

end FreePass

end ConcurrentCpp.HashSetRCU
