import ConcurrentCpp.LockFreeListRCUNodes

namespace ConcurrentCpp.LockFreeListRCU

/-!
# Steps of the reclaimer

The holder of the flag takes the retired list, closes the current generation
with it as its bag, and frees the bags of generations that nobody is left in.
A bag is freed in three steps: its nodes are taken into the reclaimer's hand
when the count of its generation is seen to be zero, their values are
destroyed one by one, and the whole run is spliced onto the free list.
-/

variable {A H T V : Type} [DecidableEq T]
variable {capacity : Nat} {thread : T}
variable {state : State A H T V} {ghost : Ghost A T}

namespace Blocks

variable {ring : Nat → GenerationBlock A} {oldest now bottom : Nat}

/-- An empty next slot leaves room for another generation. -/
theorem room
    (blocks : Blocks capacity ring oldest now bottom)
    (vacant : (ring ((now + 1) % capacity)).state = .empty) :
    now + 1 < bottom + capacity := by
  by_contra full
  have last : now + 1 = bottom + capacity := by
    have bound := blocks.now_lt
    omega
  rw [last, Nat.add_mod_right] at vacant
  rcases Nat.lt_or_eq_of_le blocks.bottom_le with below | same
  · rw [(blocks.closed (Nat.le_refl _) below).1] at vacant
    cases vacant
  · rw [same, blocks.current.1] at vacant
    cases vacant

/-- The oldest slot is closed unless it is the current one. -/
theorem bottom_lt
    (blocks : Blocks capacity ring oldest now bottom)
    (closed : (ring oldest).state = .sealed) :
    bottom < now := by
  refine Nat.lt_of_le_of_ne blocks.bottom_le fun same => ?_
  rw [blocks.oldest_eq, same, blocks.current.1] at closed
  cases closed

/-- Closing the current slot and opening the next one. -/
theorem publish
    (blocks : Blocks capacity ring oldest now bottom)
    (vacant : (ring ((now + 1) % capacity)).state = .empty)
    (first : A) :
    Blocks capacity
      (Function.update
        (Function.update ring (now % capacity)
          { ring (now % capacity) with
            bag := some first
            state := .sealed })
        ((now + 1) % capacity)
        { ring ((now + 1) % capacity) with
          state := .current
          gen := (ring (now % capacity)).gen + 1 })
      oldest (now + 1) bottom := by
  have bottomLe := blocks.bottom_le
  have nowLt := blocks.now_lt
  have room := blocks.room vacant
  have apart : ∀ {generation},
      bottom ≤ generation →
      generation ≤ now →
      generation % capacity ≠ (now + 1) % capacity := by
    intro generation above below
    exact Ring.slot_ne above (by omega) (by omega) room (by omega)
  have positive : 0 < capacity := by omega
  have unused :=
    blocks.empty (Nat.mod_lt _ positive) fun generation above below =>
      (apart above below).symm
  refine
    { oldest_eq := blocks.oldest_eq
      bottom_le := by omega
      now_lt := room
      current := ?_
      closed := ?_
      empty := ?_ }
  · simp [blocks.current.2.1, unused.2]
  · intro generation above below
    rw [Function.update_of_ne (apart above (by omega))]
    rcases Nat.lt_or_eq_of_le (Nat.le_of_lt_succ below) with older | same
    · rw [Function.update_of_ne
        (Ring.slot_ne above (by omega) bottomLe nowLt (by omega))]
      exact blocks.closed above older
    · rw [same, Function.update_self]
      exact ⟨rfl, blocks.current.2.1, by simp⟩
  · intro slot bound outside
    rw [Function.update_of_ne (outside (now + 1) (by omega)
      (Nat.le_refl _)),
      Function.update_of_ne (outside now bottomLe (by omega))]
    exact blocks.empty bound fun generation above below =>
      outside generation above (by omega)

/-- Emptying the oldest slot. -/
theorem finish
    (blocks : Blocks capacity ring oldest now bottom)
    (below : bottom < now) :
    Blocks capacity
      (Function.update ring oldest
        { ring oldest with bag := none, state := .empty })
      ((oldest + 1) % capacity) now (bottom + 1) := by
  have nowLt := blocks.now_lt
  have apart : ∀ {generation},
      bottom + 1 ≤ generation →
      generation ≤ now →
      generation % capacity ≠ oldest := by
    intro generation above below
    rw [blocks.oldest_eq]
    exact Ring.slot_ne (by omega) (by omega) (Nat.le_refl _)
      (by omega) (by omega)
  refine
    { oldest_eq := ?_
      bottom_le := below
      now_lt := by omega
      current := ?_
      closed := ?_
      empty := ?_ }
  · rw [blocks.oldest_eq, Nat.mod_add_mod]
  · rw [Function.update_of_ne (apart below (Nat.le_refl _))]
    exact blocks.current
  · intro generation above older
    rw [Function.update_of_ne (apart above (Nat.le_of_lt older))]
    exact blocks.closed (by omega) older
  · intro slot bound outside
    by_cases same : slot = oldest
    · simp [same]
    · rw [Function.update_of_ne same]
      refine blocks.empty bound fun generation above notLater => ?_
      rcases Nat.lt_or_eq_of_le above with higher | equal
      · exact outside generation higher notLater
      · rw [← equal, ← blocks.oldest_eq]
        exact same

end Blocks

variable (thread) in
/-- A call of `reclaim()` gets the flag. -/
theorem acquire_keeps
    (inv : Invariant capacity (state, ghost))
    (calls : (⟨thread, none, false⟩ : Use H T) ∈ state.uses)
    (free : state.reclaiming = false) :
    Invariant capacity
        ({ state with reclaiming := true },
          { ghost with holder := some thread }) ∧
      Guarantee thread (state, ghost)
        ({ state with reclaiming := true },
          { ghost with holder := some thread }) := by
  have nobody : ghost.holder = none := by
    have flag : state.reclaiming = ghost.holder.isSome := inv.flag
    rw [free] at flag
    simpa using flag.symm
  refine ⟨?_, ?_⟩
  · exact
      { chain := inv.chain
        ring := inv.ring
        blocks := inv.blocks
        freeing := inv.freeing
        stacked := inv.stacked
        nodes := inv.nodes
        hand := inv.hand
        sessions := inv.sessions
        visible := inv.visible
        watch := inv.watch
        lives := inv.lives
        records := inv.records
        duties := ⟨inv.duties.owner, fun holds => by
          cases holds
          exact calls⟩
        flag := rfl
        idle := fun known => by cases known }
  · exact
      { nodes := .same rfl rfl rfl rfl rfl rfl rfl rfl
        sessions := .same rfl rfl rfl rfl
        reclaim :=
          { holder := fun _ known =>
              absurd (nobody.symm.trans known) (by simp)
            taken := fun different known =>
              (different (Option.some.inj known).symm).elim
            fields := fun _ _ => ⟨rfl, rfl, rfl⟩
            ghost := fun _ _ => ⟨rfl, rfl, rfl, rfl⟩
            hand := fun _ _ _ _ => ⟨rfl, rfl⟩ }
        record := .same rfl rfl rfl rfl rfl }

/-- A call of `reclaim()` gives the flag back. -/
theorem release_keeps
    (inv : Invariant capacity (state, ghost))
    (holds : ghost.holder = some thread)
    (empty : ghost.hand = [])
    (done : ghost.freeing = false) :
    Invariant capacity
        ({ state with reclaiming := false },
          { ghost with holder := none }) ∧
      Guarantee thread (state, ghost)
        ({ state with reclaiming := false },
          { ghost with holder := none }) := by
  refine ⟨?_, ?_⟩
  · exact
      { chain := inv.chain
        ring := inv.ring
        blocks := inv.blocks
        freeing := inv.freeing
        stacked := inv.stacked
        nodes := inv.nodes
        hand := inv.hand
        sessions := inv.sessions
        visible := inv.visible
        watch := inv.watch
        lives := inv.lives
        records := inv.records
        duties := ⟨inv.duties.owner, fun holds => by cases holds⟩
        flag := rfl
        idle := fun _ => ⟨empty, done⟩ }
  · exact
      { nodes := .same rfl rfl rfl rfl rfl rfl rfl rfl
        sessions := .same rfl rfl rfl rfl
        reclaim := .own holds (.inr rfl)
        record := .same rfl rfl rfl rfl rfl }

/-- The state after a step of the reclaimer. -/
abbrev shelfState
    (state : State A H T V)
    (retiredHead freeHead : Option A)
    (ring : Nat → GenerationBlock A)
    (current oldest : Nat) :
    State A H T V :=
  { state with
    retiredHead := retiredHead
    freeHead := freeHead
    ring := ring
    current := current
    oldest := oldest }

/-- The ghost state after a step of the reclaimer. -/
abbrev shelfGhost
    (ghost : Ghost A T)
    (stage : A → Stage T)
    (now low : Nat)
    (hand : List A)
    (freeing : Bool) :
    Ghost A T :=
  { ghost with
    stage := stage
    ring := { ghost.ring with now := now, low := low }
    hand := hand
    freeing := freeing }

/-- A step of the reclaimer that moves nodes between stacks and its hand. -/
structure ShelfChange
    (capacity : Nat)
    (thread : T)
    (state : State A H T V)
    (ghost : Ghost A T)
    (after : State A H T V)
    (later : Ghost A T) : Prop where
  holds : ghost.holder = some thread
  now_le : ghost.ring.now ≤ later.ring.now
  low_le : ghost.ring.low ≤ later.ring.low
  ring :
    later.ring.Sound capacity after.current
      fun place => after.refs place.2
  blocks :
    Blocks capacity after.ring after.oldest later.ring.now
      (bottomOf later)
  freeing : later.freeing = true → 1 ≤ later.ring.low
  stacked : (stacksOf (after, later)).WellFormed
  nodes : ∀ node, NodeOk capacity later after node
  hand : ∀ node, node ∈ later.hand ↔ later.stage node = .hand
  moved :
    ∀ node,
      later.stage node = ghost.stage node ∨
        (ghost.stage node).Shelved ∧ (later.stage node).Shelved
  watch :
    ∀ {other node generation},
      state.topRead other = some node →
      Under state ghost other generation →
      ghost.stage node = .listed .free ∨
        Blocked capacity ghost generation node →
      (later.stage node = .listed .free ∧
          ghost.stage node = .listed .free) ∨
        Blocked capacity later generation node

/-- A step of the reclaimer keeps the protocol. -/
theorem shelf_keeps
    (inv : Invariant capacity (state, ghost))
    {retiredHead freeHead : Option A}
    {ring : Nat → GenerationBlock A}
    {current oldest now low : Nat}
    {stage : A → Stage T}
    {hand : List A}
    {freeing : Bool}
    (change :
      ShelfChange capacity thread state ghost
        (shelfState state retiredHead freeHead ring current oldest)
        (shelfGhost ghost stage now low hand freeing)) :
    Invariant capacity
        (shelfState state retiredHead freeHead ring current oldest,
          shelfGhost ghost stage now low hand freeing) ∧
      Guarantee thread (state, ghost)
        (shelfState state retiredHead freeHead ring current oldest,
          shelfGhost ghost stage now low hand freeing) := by
  have used : ∀ {node},
      (ghost.stage node).Used → (stage node).Used := by
    intro node known
    rcases change.moved node with same | ⟨_, shelved⟩
    · have same : stage node = ghost.stage node := same
      rw [same]
      exact known
    · have shelved : (stage node).Shelved := shelved
      revert shelved
      cases stage node <;> simp [Stage.Shelved, Stage.Used]
  have kept : ∀ {node},
      ¬ (ghost.stage node).Shelved → stage node = ghost.stage node := by
    intro node unshelved
    rcases change.moved node with same | ⟨shelved, _⟩
    · exact same
    · exact (unshelved shelved).elim
  have owner : ∀ {node other},
      (stage node).owner? = some other →
      (ghost.stage node).owner? = some other := by
    intro node other known
    rcases change.moved node with same | ⟨_, shelved⟩
    · have same : stage node = ghost.stage node := same
      rwa [same] at known
    · have shelved : (stage node).Shelved := shelved
      revert shelved known
      cases stage node <;> simp [Stage.Shelved, Stage.owner?]
  refine ⟨?_, ?_⟩
  · refine
      { chain := inv.chain.later change.now_le change.low_le
        ring := change.ring
        blocks := change.blocks
        freeing := change.freeing
        stacked := change.stacked
        nodes := change.nodes
        hand := change.hand
        sessions := inv.sessions
        visible := inv.visible
        watch := ?_
        lives := ?_
        records := inv.records
        duties :=
          ⟨fun known => inv.duties.owner (owner known), inv.duties.holder⟩
        flag := inv.flag
        idle := fun nobody =>
          absurd (nobody.symm.trans change.holds) (by simp) }
    · intro other node seen
      obtain ⟨generation, under, known⟩ := inv.watch seen
      refine ⟨generation, under, ?_⟩
      rcases change.watch seen under known with ⟨free, _⟩ | blocked
      · exact .inl free
      · exact .inr blocked
    · exact
        { marked := inv.lives.marked
          unmarked := fun member =>
            ⟨used (inv.lives.unmarked member).1,
              (inv.lives.unmarked member).2⟩
          inserted := fun member =>
            ⟨(inv.lives.inserted member).1, fun same =>
              used ((inv.lives.inserted member).2 same)⟩ }
  · refine
      { nodes :=
          { chain :=
              MarkedChain.later_advances change.now_le change.low_le
            owned := ?_
            pending := ?_
            owner := fun _ => owner
            watched := ?_
            freeLink := fun _ _ => rfl
            present := fun _ _ => ⟨rfl, rfl⟩
            life := fun _ => Nat.le_refl _
            used := ?_ }
        sessions := .same rfl rfl rfl rfl
        reclaim := .own change.holds (.inl change.holds)
        record := .same rfl rfl rfl rfl rfl }
    · intro node other popped _ known
      have known : ghost.stage node = .owned other popped := known
      exact ⟨(kept (by simp [known, Stage.Shelved])).trans known,
        rfl, rfl⟩
    · intro node other _ known
      have known : ghost.stage node = .pending other := known
      exact ⟨(kept (by simp [known, Stage.Shelved])).trans known, rfl⟩
    · intro other node seen notFree free
      obtain ⟨generation, under, known⟩ := inv.watch seen
      rcases change.watch seen under known with ⟨_, before⟩ | blocked
      · exact notFree before
      · have free : stage node = .listed .free := free
        simp [Blocked, free] at blocked
    · intro node _ known
      refine ⟨used known, fun notChained chained => ?_, fun _ => rfl⟩
      rcases change.moved node with same | ⟨_, shelved⟩
      · exact notChained (same.symm.trans chained)
      · have chained : stage node = .chained := chained
        simp [chained, Stage.Shelved] at shelved

/-- The nodes of one stack go into the reclaimer's hand. -/
def toHand
    (ghost : Ghost A T)
    (label : Label)
    (node : A) : Stage T :=
  if (ghost.stage node).label? = some label then
    .hand
  else
    ghost.stage node

omit [DecidableEq T] in
/-- The stage of the nodes of a stack. -/
theorem listed_stage
    {label : Label}
    {items : List A}
    (stack : (stacksOf (state, ghost)).Holds label items)
    {node : A}
    (member : node ∈ items) :
    ghost.stage node = .listed label :=
  Stage.label?_eq_some.mp ((stack.members node).mp member)

omit [DecidableEq T] in
private theorem toHand_listed
    {label : Label}
    (node : A) :
    (toHand ghost label node).label? =
      if (ghost.stage node).label? = some label then
        none
      else
        (ghost.stage node).label? := by
  by_cases here : (ghost.stage node).label? = some label
  · rw [toHand, if_pos here, if_pos here]
    rfl
  · rw [toHand, if_neg here, if_neg here]

section Take

variable [DecidableEq A]

/-- The nodes in the reclaimer's hand go onto a stack. -/
def fromHand
    (ghost : Ghost A T)
    (label : Label)
    (node : A) : Stage T :=
  if node ∈ ghost.hand then .listed label else ghost.stage node

/-- The reclaimer takes the retired list into its hand. -/
theorem take_keeps
    (inv : Invariant capacity (state, ghost))
    (holds : ghost.holder = some thread)
    (empty : ghost.hand = [])
    (working : ghost.freeing = false)
    {items : List A}
    (retired : (stacksOf (state, ghost)).Holds .retired items) :
    Invariant capacity
        ({ state with retiredHead := none },
          { ghost with
            stage := toHand ghost .retired
            hand := items }) ∧
      Guarantee thread (state, ghost)
        ({ state with retiredHead := none },
          { ghost with
            stage := toHand ghost .retired
            hand := items }) := by
  have noHand : ∀ node, ghost.stage node ≠ .hand := by
    intro node inHand
    have member : node ∈ ghost.hand := (inv.hand node).mpr inHand
    simp [empty] at member
  refine shelf_keeps inv
    { holds := holds
      now_le := Nat.le_refl _
      low_le := Nat.le_refl _
      ring := inv.ring
      blocks := inv.blocks
      freeing := inv.freeing
      stacked := ?_
      nodes := ?_
      hand := ?_
      moved := ?_
      watch := ?_ }
  · have taken : ((stacksOf (state, ghost)).take .retired).WellFormed :=
      Stacks.take_wellFormed inv.stacked
    have shape :
        stacksOf
            ({ state with retiredHead := none },
              { ghost with
                stage := toHand ghost .retired
                hand := items }) =
          (stacksOf (state, ghost)).take .retired := by
      simp only [stacksOf, Stacks.take, Stacks.mk.injEq, toHand_listed]
      refine ⟨?_, rfl⟩
      funext cell
      rcases cell with (_ | _ | slot) | node <;> simp [stackLinks]
    rw [← shape] at taken
    exact taken
  · intro node
    have ok := inv.nodes node
    by_cases here : ghost.stage node = .listed .retired
    · simp only [NodeOk, here] at ok
      simp [NodeOk, toHand, here, Stage.label?, working, ok]
    · have stays : toHand ghost .retired node = ghost.stage node := by
        simp [toHand, Stage.label?_eq_some, here]
      exact ok.congr stays rfl rfl rfl rfl (Nat.le_refl _) rfl
        fun _ => rfl
  · intro node
    have member : node ∈ items ↔
        (ghost.stage node).label? = some .retired := retired.members node
    by_cases here : (ghost.stage node).label? = some .retired
    · simp [toHand, here, member]
    · simp [toHand, here, member, noHand node]
  · intro node
    by_cases here : ghost.stage node = .listed .retired
    · exact .inr (by simp [toHand, here, Stage.label?, Stage.Shelved])
    · exact .inl (by simp [toHand, Stage.label?_eq_some, here])
  · intro other node generation _ _ known
    by_cases here : ghost.stage node = .listed .retired
    · exact .inr
        (by simp [Blocked, toHand, here, Stage.label?, working])
    · have stays : toHand ghost .retired node = ghost.stage node := by
        simp [toHand, Stage.label?_eq_some, here]
      rcases known with free | blocked
      · exact .inl ⟨stays.trans free, free⟩
      · exact .inr (blocked.congr stays (Nat.le_refl _) fun _ => rfl)

omit [DecidableEq A] in
/-- The run of nodes that the reclaimer holds. -/
def HandRun
    (state : State A H T V)
    (ghost : Ghost A T)
    (first : A)
    (rest : List A)
    (target : Option A) : Prop :=
  ghost.hand = first :: rest ∧ (first :: rest).Nodup ∧
    Run (stackLinks state ghost.freeing) first rest target

omit [DecidableEq T] in
private theorem fromHand_listed
    {label : Label}
    {first : A}
    {rest : List A}
    (hand : ghost.hand = first :: rest)
    (node : A) :
    (fromHand ghost label node).label? =
      if node ∈ first :: rest then
        some label
      else
        (ghost.stage node).label? := by
  rw [fromHand, hand]
  by_cases here : node ∈ first :: rest
  · rw [if_pos here, if_pos here]
    rfl
  · rw [if_neg here, if_neg here]

omit [DecidableEq A] in
/-- The nodes that the reclaimer holds are on no stack. -/
private theorem HandRun.unlisted
    (inv : Invariant capacity (state, ghost))
    {first : A}
    {rest : List A}
    {target : Option A}
    (run : HandRun state ghost first rest target)
    {node : A}
    (member : node ∈ first :: rest) :
    (ghost.stage node).label? = none := by
  have inHand : ghost.stage node = .hand :=
    (inv.hand node).mp (by rw [run.1]; exact member)
  simp [inHand, Stage.label?]

/-- The reclaimer closes the current generation with what it holds. -/
theorem publish_keeps
    (inv : Invariant capacity (state, ghost))
    (holds : ghost.holder = some thread)
    (working : ghost.freeing = false)
    {first : A}
    {rest : List A}
    (run : HandRun state ghost first rest none)
    (vacant :
      (state.ring ((state.current + 1) % capacity)).state = .empty) :
    Invariant capacity
        (state.publish capacity state.current (some first),
          { ghost with
            stage := fromHand ghost (.bag state.current)
            ring := ghost.ring.advance
            hand := [] }) ∧
      Guarantee thread (state, ghost)
        (state.publish capacity state.current (some first),
          { ghost with
            stage := fromHand ghost (.bag state.current)
            ring := ghost.ring.advance
            hand := [] }) := by
  have current : state.current = ghost.ring.now % capacity :=
    inv.ring.current_eq
  have bottom : bottomOf ghost = ghost.ring.low := by
    simp [bottomOf, working]
  have blocks :
      Blocks capacity state.ring state.oldest ghost.ring.now
        ghost.ring.low := bottom ▸ inv.blocks
  have next :
      (state.current + 1) % capacity =
        (ghost.ring.now + 1) % capacity := by
    rw [current, Nat.mod_add_mod]
  have vacantNow :
      (state.ring ((ghost.ring.now + 1) % capacity)).state = .empty :=
    next ▸ vacant
  have room := blocks.room vacantNow
  have inHand : ∀ {node}, node ∈ ghost.hand ↔ ghost.stage node = .hand :=
    fun {node} => inv.hand node
  have apart :
      ghost.ring.now % capacity ≠ (ghost.ring.now + 1) % capacity :=
    Ring.slot_ne inv.ring.low_le inv.ring.now_lt
      (Nat.le_succ_of_le inv.ring.low_le) room (Nat.ne_of_lt
        (Nat.lt_succ_self _))
  have shape :
      (state.publish capacity state.current (some first)).ring =
        Function.update
          (Function.update state.ring (ghost.ring.now % capacity)
            { state.ring (ghost.ring.now % capacity) with
              bag := some first
              state := .sealed })
          ((ghost.ring.now + 1) % capacity)
          { state.ring ((ghost.ring.now + 1) % capacity) with
            state := .current
            gen :=
              (state.ring (ghost.ring.now % capacity)).gen + 1 } := by
    simp only [State.publish, current, Nat.mod_add_mod]
    rw [Function.update_of_ne (Ne.symm apart)]
  refine shelf_keeps inv
    { holds := holds
      now_le := Nat.le_succ _
      low_le := Nat.le_refl _
      ring := inv.ring.advance room
      blocks := ?_
      freeing := inv.freeing
      stacked := ?_
      nodes := ?_
      hand := ?_
      moved := ?_
      watch := ?_ }
  · have published := blocks.publish vacantNow first
    rw [← shape, ← bottom] at published
    exact published
  · have bag : (state.ring state.current).bag = none := by
      rw [current]
      exact blocks.current.2.2
    have spliceable :
        (stacksOf (state, ghost)).Spliceable (.bag state.current)
          first rest :=
      { run := by
          have leads :
              (stacksOf (state, ghost)).links
                (.root (.bag state.current)) = none := by
            simp [stacksOf, stackLinks, working, bag]
          rw [leads]
          exact run.2.2
        noDuplicates := run.2.1
        unlisted := fun node member => run.unlisted inv member }
    have spliced := Stacks.splice_wellFormed inv.stacked spliceable
    have links :
        stackLinks (state.publish capacity state.current (some first))
            ghost.freeing =
          Function.update (stackLinks state ghost.freeing)
            (.root (.bag state.current)) (some first) := by
      funext cell
      rcases cell with (_ | _ | slot) | node
      · rfl
      · rfl
      · simp only [stackLinks, working, shape]
        by_cases isNext : slot = (ghost.ring.now + 1) % capacity
        · subst isNext
          simp [stackLinks, current, Ne.symm apart]
        · by_cases isCurrent : slot = ghost.ring.now % capacity
          · subst isCurrent
            simp [isNext, current]
          · simp [stackLinks, isNext, isCurrent, current]
      · rfl
    have after :
        stacksOf
            (state.publish capacity state.current (some first),
              { ghost with
                stage := fromHand ghost (.bag state.current)
                ring := ghost.ring.advance
                hand := [] }) =
          (stacksOf (state, ghost)).splice (.bag state.current)
            first rest := by
      simp only [stacksOf, Stacks.splice, Stacks.mk.injEq,
        fromHand_listed run.1]
      exact ⟨links, trivial⟩
    rw [← after] at spliced
    exact spliced
  · intro node
    have ok := inv.nodes node
    by_cases member : node ∈ ghost.hand
    · have stage := inHand.mp member
      simp only [NodeOk, stage, working] at ok
      obtain ⟨off, allocated, marked, constructed, _⟩ := ok
      have moved :
          fromHand ghost (.bag state.current) node =
            .listed (.bag state.current) := by
        simp [fromHand, member]
      simp only [NodeOk, moved]
      refine ⟨off, constructed trivial, allocated, marked,
        ghost.ring.now, inv.ring.low_le, Nat.lt_succ_self _, current, ?_⟩
      intro stamp cut
      exact inv.chain.wellFormed.cutStamp cut
    · have stays :
          fromHand ghost (.bag state.current) node =
            ghost.stage node := by
        simp [fromHand, member]
      exact ok.congr stays rfl rfl rfl rfl (Nat.le_succ _) rfl
        fun _ => rfl
  · intro node
    by_cases member : node ∈ ghost.hand
    · simp [fromHand, member]
    · have notHand : ghost.stage node ≠ .hand :=
        fun stage => member (inHand.mpr stage)
      simp [fromHand, member, notHand]
  · intro node
    by_cases member : node ∈ ghost.hand
    · exact .inr
        (by simp [fromHand, member, inHand.mp member, Stage.Shelved])
    · exact .inl (by simp [fromHand, member])
  · intro other node generation _ under known
    by_cases member : node ∈ ghost.hand
    · obtain ⟨_, _, _, _, verified⟩ := under
      have bounds := inv.ring.bounds verified
      refine .inr ?_
      simp only [Blocked, fromHand, member, ↓reduceIte]
      exact ⟨ghost.ring.now, bounds.2, Nat.lt_succ_self _, current⟩
    · have stays :
          fromHand ghost (.bag state.current) node =
            ghost.stage node := by
        simp [fromHand, member]
      rcases known with free | blocked
      · exact .inl ⟨stays.trans free, free⟩
      · exact .inr (blocked.congr stays (Nat.le_succ _) fun _ => rfl)

omit [DecidableEq A] in
/-- No session is left in the oldest generation when its count is zero. -/
private theorem deserted
    (inv : Invariant capacity (state, ghost))
    (working : ghost.freeing = false)
    (zero : state.refs state.oldest = 0)
    (member : Nat ⊕ T) :
    ¬ ghost.ring.Verified member ghost.ring.low := by
  rintro ⟨token, held, generation⟩
  have slot := inv.ring.slots held generation
  have oldest : state.oldest = ghost.ring.low % capacity := by
    have known := inv.blocks.oldest_eq
    simpa [bottomOf, working] using known
  have nobody :
      (fun place : Unit × Nat => state.refs place.2)
        ((), state.oldest) = 0 := zero
  exact inv.ring.empty_of_zero nobody held (by rw [slot, oldest])

/-- The reclaimer takes the bag of the oldest generation into its hand. -/
theorem drop_keeps
    (inv : Invariant capacity (state, ghost))
    (holds : ghost.holder = some thread)
    (empty : ghost.hand = [])
    (working : ghost.freeing = false)
    (closed : (state.ring state.oldest).state = .sealed)
    (zero : state.refs state.oldest = 0)
    {items : List A}
    (bag : (stacksOf (state, ghost)).Holds (.bag state.oldest) items) :
    Invariant capacity
        (state,
          { ghost with
            stage := toHand ghost (.bag state.oldest)
            ring := ghost.ring.drop
            hand := items
            freeing := true }) ∧
      Guarantee thread (state, ghost)
        (state,
          { ghost with
            stage := toHand ghost (.bag state.oldest)
            ring := ghost.ring.drop
            hand := items
            freeing := true }) := by
  have bottom : bottomOf ghost = ghost.ring.low := by
    simp [bottomOf, working]
  have oldest : state.oldest = ghost.ring.low % capacity := by
    rw [← bottom]
    exact inv.blocks.oldest_eq
  have below : ghost.ring.low < ghost.ring.now := by
    rw [← bottom]
    exact inv.blocks.bottom_lt closed
  have nowLt : ghost.ring.now < ghost.ring.low + capacity :=
    inv.ring.now_lt
  have isLow : ∀ {generation},
      ghost.ring.low ≤ generation →
      generation < ghost.ring.now →
      state.oldest = generation % capacity →
      generation = ghost.ring.low := by
    intro generation above notLater slot
    exact Ring.slot_injective above (by omega) (Nat.le_refl _)
      (by omega) (slot.symm.trans oldest)
  have noHand : ∀ node, ghost.stage node ≠ .hand := by
    intro node inHand
    have member : node ∈ ghost.hand := (inv.hand node).mpr inHand
    simp [empty] at member
  have stays : ∀ {node},
      ghost.stage node ≠ .listed (.bag state.oldest) →
      toHand ghost (.bag state.oldest) node = ghost.stage node := by
    intro node elsewhere
    simp [toHand, Stage.label?_eq_some, elsewhere]
  refine shelf_keeps inv
    { holds := holds
      now_le := Nat.le_refl _
      low_le := Nat.le_succ _
      ring := inv.ring.drop below (deserted inv working zero)
      blocks := ?_
      freeing := fun _ => Nat.succ_pos _
      stacked := ?_
      nodes := ?_
      hand := ?_
      moved := ?_
      watch := ?_ }
  · have blocks := inv.blocks
    rw [bottom] at blocks
    exact blocks
  · have taken :
        ((stacksOf (state, ghost)).take (.bag state.oldest)).WellFormed :=
      Stacks.take_wellFormed inv.stacked
    have shape :
        stacksOf
            (state,
              { ghost with
                stage := toHand ghost (.bag state.oldest)
                ring := ghost.ring.drop
                hand := items
                freeing := true }) =
          (stacksOf (state, ghost)).take (.bag state.oldest) := by
      simp only [stacksOf, Stacks.take, Stacks.mk.injEq, toHand_listed]
      refine ⟨?_, rfl⟩
      funext cell
      rcases cell with (_ | _ | slot) | node
      · simp [stackLinks]
      · simp [stackLinks]
      · by_cases same : slot = state.oldest
        · simp [stackLinks, same]
        · simp [stackLinks, same]
      · simp [stackLinks]
    rw [← shape] at taken
    exact taken
  · intro node
    have ok := inv.nodes node
    by_cases here : ghost.stage node = .listed (.bag state.oldest)
    · simp only [NodeOk, here] at ok
      obtain ⟨off, constructed, allocated, marked, generation, above,
        notLater, slot, stamps⟩ := ok
      have same := isLow above notLater slot
      have moved : toHand ghost (.bag state.oldest) node = .hand := by
        simp [toHand, here, Stage.label?]
      simp only [NodeOk, moved]
      refine ⟨off, allocated, marked, by simp, fun _ =>
        ⟨fun raw => absurd raw constructed, fun stamp cut => ?_⟩⟩
      have early := stamps stamp cut
      rw [same] at early
      exact Nat.lt_succ_of_le early
    · -- A bag of another slot belongs to a later generation.
      cases stage : ghost.stage node with
      | hand =>
          exact (noHand node stage).elim
      | listed label =>
          have kept := (stays here).trans stage
          simp only [NodeOk, stage] at ok
          simp only [NodeOk, kept]
          cases label with
          | bag slot =>
              obtain ⟨off, constructed, allocated, marked, generation,
                above, notLater, slotEq, stamps⟩ := ok
              have different : generation ≠ ghost.ring.low := by
                rintro rfl
                rw [slotEq, ← oldest] at stage
                exact here stage
              exact ⟨off, constructed, allocated, marked, generation,
                Nat.lt_of_le_of_ne above (Ne.symm different), notLater,
                slotEq, stamps⟩
          | _ =>
              exact ok
      | _ =>
          have kept := (stays here).trans stage
          simp only [NodeOk, stage] at ok
          simp only [NodeOk, kept]
          exact ok
  · intro node
    have member : node ∈ items ↔
        (ghost.stage node).label? = some (.bag state.oldest) :=
      bag.members node
    by_cases here : (ghost.stage node).label? = some (.bag state.oldest)
    · simp [toHand, here, member]
    · simp [toHand, here, member, noHand node]
  · intro node
    by_cases here : ghost.stage node = .listed (.bag state.oldest)
    · exact .inr (by simp [toHand, here, Stage.label?, Stage.Shelved])
    · exact .inl (stays here)
  · intro other node generation _ under known
    obtain ⟨_, _, _, _, verified⟩ := under
    have bounds : ghost.ring.low ≤ generation ∧ _ :=
      inv.ring.bounds verified
    by_cases here : ghost.stage node = .listed (.bag state.oldest)
    · simp only [here, Blocked, reduceCtorEq, Stage.listed.injEq,
        false_or] at known
      obtain ⟨later, since, notLater, slot⟩ := known
      have same := isLow (Nat.le_trans bounds.1 since) notLater slot
      have low : generation = ghost.ring.low := by omega
      rw [low] at verified
      exact (deserted inv working zero _ verified).elim
    · rcases known with free | blocked
      · exact .inl ⟨(stays here).trans free, free⟩
      · exact .inr
          (blocked.congr (stays here) (Nat.le_refl _) fun inHand =>
            (noHand node inHand).elim)

/-- A node that nobody can see any more is taken off the chain. -/
private theorem release_chain
    {chain : MarkedChain A}
    (sound : chain.Sound)
    {node : A}
    (unlinked : chain.place node ≠ .linked ())
    (early : ∀ stamp, chain.place node = .cut () stamp →
      stamp < chain.floor) :
    (chain.release node).Sound ∧ chain.Advances (chain.release node) := by
  cases place : chain.place node with
  | off =>
      have same : chain.release node = chain := by
        simp [MarkedChain.release, ← place]
      rw [same]
      exact ⟨sound, MarkedChain.Advances.refl _⟩
  | linked root =>
      exact (unlinked place).elim
  | cut root stamp =>
      have below := early stamp place
      exact ⟨MarkedChain.release_sound sound place below,
        MarkedChain.release_advances place below⟩

/-- The reclaimer destroys the value of a node of the bag. -/
theorem destroyHand_keeps
    (inv : Invariant capacity (state, ghost))
    (holds : ghost.holder = some thread)
    (working : ghost.freeing = true)
    {target : A}
    (member : target ∈ ghost.hand)
    (constructed : state.value target ≠ none) :
    Invariant capacity
        (state.destroyValue target,
          { ghost with
            place := Function.update ghost.place target .off }) ∧
      Guarantee thread (state, ghost)
        (state.destroyValue target,
          { ghost with
            place := Function.update ghost.place target .off }) := by
  have stage : ghost.stage target = .hand := (inv.hand target).mp member
  have ok := inv.nodes target
  simp only [NodeOk, stage, working] at ok
  obtain ⟨unlinked, allocated, marked, _, freeing⟩ := ok
  have released :=
    release_chain inv.chain unlinked (freeing trivial).2
  refine node_keeps inv target
    { advances := released.2
      others := fun different => by simp [different]
      words := fun _ => .inl rfl
      ok := by simp [NodeOk, stage, allocated, marked, working]
      notOwned := by simp [stage]
      notPending := by simp [stage]
      owner := fun owner => by
        simp [stage, Stage.owner?] at owner
      hand := Iff.rfl
      holder := fun _ => holds
      unfree := by simp [stage]
      present := fun _ present => by simp at present
      life := Nat.le_refl _
      used := fun _ used => ⟨used, id, fun _ => rfl⟩
      blocked := fun known => by simp [Blocked, stage, working] at known
      topRead := fun _ => .inl rfl }
    released.1 inv.stacked inv.records.unlinkedSame ?_
  intro node
  have count := inv.records.counts node
  by_cases same : node = target
  · subst same
    obtain ⟨value, known⟩ := Option.ne_none_iff_exists'.mp constructed
    simp only [known] at count
    simp [count]
  · simpa [same] using count

/-- The reclaimer puts the nodes of a bag in front of the free list. -/
theorem spliceFree_keeps
    (inv : Invariant capacity (state, ghost))
    (holds : ghost.holder = some thread)
    (working : ghost.freeing = true)
    {first : A}
    {rest : List A}
    (run : HandRun state ghost first rest state.freeHead)
    (destroyed : ∀ node ∈ ghost.hand, state.value node = none) :
    Invariant capacity
        ({ state with freeHead := some first },
          { ghost with stage := fromHand ghost .free, hand := [] }) ∧
      Guarantee thread (state, ghost)
        ({ state with freeHead := some first },
          { ghost with stage := fromHand ghost .free, hand := [] }) := by
  have inHand : ∀ {node}, node ∈ ghost.hand ↔ ghost.stage node = .hand :=
    fun {node} => inv.hand node
  have stays : ∀ {node},
      node ∉ ghost.hand →
      fromHand ghost .free node = ghost.stage node := by
    intro node elsewhere
    simp [fromHand, elsewhere]
  refine shelf_keeps inv
    { holds := holds
      now_le := Nat.le_refl _
      low_le := Nat.le_refl _
      ring := inv.ring
      blocks := inv.blocks
      freeing := inv.freeing
      stacked := ?_
      nodes := ?_
      hand := ?_
      moved := ?_
      watch := ?_ }
  · have spliceable :
        (stacksOf (state, ghost)).Spliceable .free first rest :=
      { run := run.2.2
        noDuplicates := run.2.1
        unlisted := fun node member => run.unlisted inv member }
    have spliced := Stacks.splice_wellFormed inv.stacked spliceable
    have shape :
        stacksOf
            ({ state with freeHead := some first },
              { ghost with
                stage := fromHand ghost .free
                hand := [] }) =
          (stacksOf (state, ghost)).splice .free first rest := by
      simp only [stacksOf, Stacks.splice, Stacks.mk.injEq,
        fromHand_listed run.1]
      refine ⟨?_, trivial⟩
      funext cell
      rcases cell with (_ | _ | slot) | node <;> simp [stackLinks]
    rw [← shape] at spliced
    exact spliced
  · intro node
    have ok := inv.nodes node
    by_cases member : node ∈ ghost.hand
    · have stage := inHand.mp member
      simp only [NodeOk, stage, working] at ok
      obtain ⟨_, allocated, marked, _, freeing⟩ := ok
      have raw := destroyed node member
      simp [NodeOk, fromHand, member, raw, allocated, marked,
        (freeing trivial).1 raw]
    · exact ok.congr (stays member) rfl rfl rfl rfl
        (Nat.le_refl _) rfl fun _ => rfl
  · intro node
    by_cases member : node ∈ ghost.hand
    · simp [fromHand, member]
    · have notHand : ghost.stage node ≠ .hand :=
        fun stage => member (inHand.mpr stage)
      simp [fromHand, member, notHand]
  · intro node
    by_cases member : node ∈ ghost.hand
    · exact .inr
        (by simp [fromHand, member, inHand.mp member, Stage.Shelved])
    · exact .inl (stays member)
  · intro other node generation _ _ known
    by_cases member : node ∈ ghost.hand
    · simp [Blocked, inHand.mp member, working] at known
    · rcases known with free | blocked
      · exact .inl ⟨(stays member).trans free, free⟩
      · exact .inr
          (blocked.congr (stays member) (Nat.le_refl _) fun _ => rfl)

omit [DecidableEq A] in
/-- The reclaimer empties the oldest slot, whose bag is freed. -/
theorem finish_keeps
    (inv : Invariant capacity (state, ghost))
    (holds : ghost.holder = some thread)
    (working : ghost.freeing = true)
    (empty : ghost.hand = []) :
    Invariant capacity
        ({ state with
            ring :=
              Function.update state.ring state.oldest
                { state.ring state.oldest with
                  bag := none
                  state := .empty }
            oldest := (state.oldest + 1) % capacity },
          { ghost with freeing := false }) ∧
      Guarantee thread (state, ghost)
        ({ state with
            ring :=
              Function.update state.ring state.oldest
                { state.ring state.oldest with
                  bag := none
                  state := .empty }
            oldest := (state.oldest + 1) % capacity },
          { ghost with freeing := false }) := by
  have positive : 1 ≤ ghost.ring.low := inv.freeing working
  have lowLe : ghost.ring.low ≤ ghost.ring.now := inv.ring.low_le
  have bottom : bottomOf ghost = ghost.ring.low - 1 := by
    simp [bottomOf, working]
  have noHand : ∀ node, ghost.stage node ≠ .hand := by
    intro node inHand
    have member : node ∈ ghost.hand := (inv.hand node).mpr inHand
    simp [empty] at member
  refine shelf_keeps inv
    { holds := holds
      now_le := Nat.le_refl _
      low_le := Nat.le_refl _
      ring := inv.ring
      blocks := ?_
      freeing := fun idle => by cases idle
      stacked := ?_
      nodes := ?_
      hand := ?_
      moved := fun _ => .inl rfl
      watch := ?_ }
  · have blocks := inv.blocks
    rw [bottom] at blocks
    have finished := blocks.finish
      (show ghost.ring.low - 1 < ghost.ring.now by omega)
    rw [Nat.sub_add_cancel positive] at finished
    exact finished
  · have shape :
        stackLinks
            { state with
              ring :=
                Function.update state.ring state.oldest
                  { state.ring state.oldest with
                    bag := none
                    state := .empty }
              oldest := (state.oldest + 1) % capacity } false =
          stackLinks state ghost.freeing := by
      funext cell
      rcases cell with (_ | _ | slot) | node
      · rfl
      · rfl
      · by_cases same : slot = state.oldest
        · simp [stackLinks, same, working]
        · simp [stackLinks, same]
      · rfl
    have stacked := inv.stacked
    simp only [stacksOf] at stacked ⊢
    rw [shape]
    exact stacked
  · intro node
    have ok := inv.nodes node
    exact ok.congr rfl rfl rfl rfl rfl (Nat.le_refl _) rfl fun inHand =>
      (noHand node inHand).elim
  · intro node
    simp [empty, noHand node]
  · intro other node generation _ _ known
    rcases known with free | blocked
    · exact .inl ⟨free, free⟩
    · exact .inr
        (blocked.congr rfl (Nat.le_refl _) fun inHand =>
          (noHand node inHand).elim)

end Take

end ConcurrentCpp.LockFreeListRCU
