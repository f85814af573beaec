import ConcurrentCpp.HashSetFacts

namespace ConcurrentCpp.HashSet

/-!
# What a call has in its hands

A thread in a call knows exactly which nodes only it can see and what is in
them, whether it holds the lock and whether it owes a batch.  Allocation puts
one node more into its hands and a push onto a limbo list takes a run of nodes
out of them.
-/

variable {K T : Type} [DecidableEq K] [DecidableEq T]

/-- A node that only one thread can see. -/
structure Private (K : Type) where
  slot : Slot
  next : Option Slot
  value : K

/-- What a thread in a call has in its hands. -/
structure Hands (K : Type) where
  operation : SetOp K
  changed : Bool
  nodes : List (Private K)
  locks : Bool
  owes : Bool

/-- The slots of private nodes. -/
def slotsOf (nodes : List (Private K)) : List Slot :=
  nodes.map Private.slot

/-- The thread is in its call and has exactly this in its hands. -/
structure Holding
    (thread : T)
    (hands : Hands K)
    (world : State K T × Ghost T) : Prop where
  inside : thread ∈ world.1.inside
  called : calling world.1.events thread = some hands.operation
  changed : updated world.1.events thread = hands.changed
  owned :
    ∀ slot,
      world.2.stage slot = .owned thread ↔ slot ∈ slotsOf hands.nodes
  distinct : (slotsOf hands.nodes).Nodup
  linked :
    ∀ own ∈ hands.nodes, world.1.link own.slot = .bare own.next
  valued :
    ∀ own ∈ hands.nodes, world.1.value own.slot = some own.value
  locks : world.2.holder = some thread ↔ hands.locks = true
  owes : thread ∈ world.2.debtors ↔ hands.owes = true

variable {config : Config K T} {thread : T}

/-- Other threads leave it alone. -/
theorem Holding.step
    {other : T}
    {hands : Hands K}
    {world after : State K T × Ghost T}
    (different : other ≠ thread)
    (steps : Steps config other world after)
    (held : Holding thread hands world) :
    Holding thread hands after := by
  obtain ⟨recent, events, foreign⟩ := steps.table.events
  have away : ∀ event ∈ recent, event.thread ≠ thread := by
    intro event member same
    exact different ((foreign event member).symm.trans same)
  have events : after.1.events = recent ++ world.1.events := events
  have mine :
      ∀ own ∈ hands.nodes, world.2.stage own.slot = .owned thread :=
    fun own member => (held.owned _).mpr (List.mem_map_of_mem member)
  refine
    { inside := (steps.inside (Ne.symm different)).mpr held.inside
      called := ?_
      changed := ?_
      owned := ?_
      distinct := held.distinct
      linked := ?_
      valued := ?_
      locks := (steps.holder (Ne.symm different)).trans held.locks
      owes := (steps.debtors (Ne.symm different)).trans held.owes }
  · rw [events, calling_append away]
    exact held.called
  · rw [events, updated_append away]
    exact held.changed
  · intro slot
    rw [← held.owned slot]
    exact ⟨steps.owner (Ne.symm different), fun known =>
      (steps.owned (Ne.symm different) known).1⟩
  · intro own member
    rw [(steps.owned (Ne.symm different) (mine own member)).2.1]
    exact held.linked own member
  · intro own member
    rw [(steps.owned (Ne.symm different) (mine own member)).2.2]
    exact held.valued own member

/-- The thread has exactly this in its hands. -/
def holding
    (hands : Hands K) :
    Claim config thread where
  holds := Holding thread hands
  stable different _ _ guarantee held :=
    held.step different
      (steps_of_other different held.inside guarantee).1

/-- A step that leaves the history alone. -/
theorem silent_step
    {world after : State K T × Ghost T}
    (steps : Steps config thread world after)
    (inside : after.1.inside = world.1.inside)
    (events : after.1.events = world.1.events) :
    (inner config thread).Guar thread world after :=
  ⟨.inl steps, fun _ => ⟨steps, inside, .of_same thread events⟩⟩

namespace Hands

/-- The same hands with other nodes. -/
def having
    (hands : Hands K)
    (nodes : List (Private K)) :
    Hands K :=
  { hands with nodes := nodes }

end Hands

section Private

variable {hands : Hands K}

/-- The thread repoints one of its nodes. -/
theorem storeLink_triple
    (before after : List (Private K))
    (own : Private K)
    (next : Option Slot) :
    Triple (inner config thread) thread
      (holding (hands.having (before ++ own :: after)))
      (storeLink own.slot next : Program K T Unit)
      fun _ =>
        holding
          (hands.having (before ++ { own with next := next } :: after)) := by
  refine Triple.atomic ?_
  rintro ⟨state, ghost⟩ choice value shared inv held ran
  cases ran
  have inHands : own ∈ before ++ own :: after := by simp
  have owned : ghost.stage own.slot = .owned thread :=
    (held.owned _).mpr (List.mem_map_of_mem inHands)
  have keeps := storeLink_keeps inv owned next
  have slots :
      slotsOf (before ++ { own with next := next } :: after) =
        slotsOf (before ++ own :: after) := by
    simp [slotsOf]
  have apart :
      ∀ other ∈ before ++ after, other.slot ≠ own.slot := by
    have distinct := held.distinct
    intro other member same
    simp only [Hands.having, slotsOf, List.map_append,
      List.map_cons] at distinct
    have := (List.nodup_middle.mp distinct)
    rw [List.nodup_cons, ← List.map_append] at this
    exact this.1 (same ▸ List.mem_map_of_mem member)
  refine ⟨ghost, keeps.1, silent_step keeps.2 rfl rfl, ?_⟩
  refine
    { held with
      owned := ?_
      distinct := ?_
      linked := ?_
      valued := ?_ }
  · intro slot
    simp only [Hands.having, slots]
    exact held.owned slot
  · simp only [Hands.having, slots]
    exact held.distinct
  · intro other member
    simp only [Hands.having, List.mem_append, List.mem_cons] at member
    rcases member with member | rfl | member
    · exact (Function.update_of_ne (apart other (by simp [member])) _ _).trans
        (held.linked other (by simp [Hands.having, member]))
    · exact Function.update_self _ _ _
    · exact (Function.update_of_ne (apart other (by simp [member])) _ _).trans
        (held.linked other (by simp [Hands.having, member]))
  · intro other member
    simp only [Hands.having, List.mem_append, List.mem_cons] at member
    rcases member with member | rfl | member
    · exact held.valued other (by simp [Hands.having, member])
    · exact held.valued own inHands
    · exact held.valued other (by simp [Hands.having, member])

/-- Every node leads to the one after it, and the last one to the target. -/
def Strung
    (target : Option Slot) :
    List (Private K) → Prop
  | [] => True
  | own :: rest =>
      own.next = (rest.head?.map Private.slot <|> target) ∧
        Strung target rest

omit [DecidableEq K] in
/-- The last node may be repointed. -/
theorem Strung.redirect
    {old : Option Slot}
    {leading : List (Private K)}
    {last : Private K}
    (strung : Strung old (leading ++ [last]))
    (target : Option Slot) :
    Strung target (leading ++ [{ last with next := target }]) := by
  induction leading with
  | nil =>
      exact ⟨rfl, trivial⟩
  | cons own rest inductionHypothesis =>
      refine ⟨?_, inductionHypothesis strung.2⟩
      cases rest with
      | nil =>
          exact strung.1
      | cons second rest =>
          exact strung.1

omit [DecidableEq K] in
/-- Private nodes that are strung form a run. -/
theorem Holding.run
    {world : State K T × Ghost T}
    (held : Holding thread hands world)
    {own : Private K}
    {rest : List (Private K)}
    {target : Option Slot}
    (inHands : ∀ other ∈ own :: rest, other ∈ hands.nodes)
    (strung : Strung target (own :: rest)) :
    Run world.1.listLinks own.slot (slotsOf rest) target := by
  induction rest generalizing own with
  | nil =>
      refine ⟨trivial, ?_⟩
      have word := held.linked own (inHands own (by simp))
      exact (congrArg Link.next word).trans strung.1
  | cons second rest inductionHypothesis =>
      have word := held.linked own (inHands own (by simp))
      have later :=
        inductionHypothesis
          (fun other member =>
            inHands other (List.mem_cons_of_mem _ member)) strung.2
      exact ⟨⟨(congrArg Link.next word).trans strung.1, later.1⟩, later.2⟩

omit [DecidableEq K] in
/-- Nodes leave the hands of the thread. -/
theorem Holding.drop
    {state : State K T}
    {ghost : Ghost T}
    {gone rest : List (Private K)}
    (held : Holding thread (hands.having (gone ++ rest)) (state, ghost))
    (stage : Slot → Stage T)
    (moved : ∀ slot ∈ slotsOf gone, stage slot ≠ .owned thread)
    (others : ∀ slot, slot ∉ slotsOf gone → stage slot = ghost.stage slot) :
    Holding thread (hands.having rest) (state, ghost.restage stage) := by
  have slots : slotsOf (gone ++ rest) = slotsOf gone ++ slotsOf rest := by
    simp [slotsOf]
  have distinct := held.distinct
  simp only [Hands.having, slots] at distinct
  obtain ⟨-, remaining, apart⟩ := List.nodup_append.mp distinct
  refine
    { held with
      owned := ?_
      distinct := remaining
      linked := fun own member =>
        held.linked own (List.mem_append_right _ member)
      valued := fun own member =>
        held.valued own (List.mem_append_right _ member) }
  intro slot
  have known := held.owned slot
  simp only [Hands.having, slots] at known
  simp only [Ghost.restage, Hands.having]
  by_cases member : slot ∈ slotsOf gone
  · simp only [moved slot member, false_iff]
    intro other
    exact apart slot member slot other rfl
  · rw [others slot member, known, List.mem_append]
    simp only [member, false_or]

/-- A run leaves the hands of the thread. -/
theorem casLimbo_triple
    {shard : Nat}
    (valid : shard < config.shards)
    {expected : Option Slot}
    (own : Private K)
    {nodes rest others : List (Private K)}
    (strung : Strung expected (own :: rest))
    (shape : nodes = own :: rest ++ others) :
    Triple (inner config thread) thread
      (holding (hands.having nodes))
      (casLimbo shard expected own.slot :
        Program K T (Bool × Option Slot))
      fun outcome =>
        if outcome.1 then
          holding (hands.having others)
        else
          holding (hands.having nodes) := by
  subst shape
  refine Triple.atomic ?_
  rintro ⟨state, ghost⟩ choice ⟨won, found⟩ shared inv held ran
  have lost :
      Lands (state, ghost) state
        (holding (hands.having (own :: rest ++ others)) :
          Claim config thread) :=
    Lands.stay inv held
  have swapped :
      state.limboHead shard = expected →
      Lands (state, ghost)
        { state with
          limboHead :=
            Function.update state.limboHead shard (some own.slot) }
        (holding (hands.having others) : Claim config thread) := by
    intro same
    have slots :
        slotsOf (own :: rest ++ others) =
          (own.slot :: slotsOf rest) ++ slotsOf others := by
      simp [slotsOf]
    have distinct := held.distinct
    simp only [Hands.having, slots] at distinct
    have first := (List.nodup_append.mp distinct).1
    have owned : ∀ slot ∈ own.slot :: slotsOf rest,
        ghost.stage slot = .owned thread := by
      intro slot member
      refine (held.owned slot).mpr ?_
      simp only [Hands.having, slots]
      exact List.mem_append_left _ member
    have run :=
      held.run (fun other member => List.mem_append_left _ member) strung
    rw [← same] at run
    have keeps :=
      casLimbo_keeps inv held.inside valid owned first run
    refine ⟨_, keeps.1, silent_step keeps.2 rfl rfl, ?_⟩
    have dropped :=
      held.drop
        (fun node =>
          if node ∈ own.slot :: slotsOf rest then
            .listed (.limbo shard)
          else
            ghost.stage node)
        (fun slot member => by
          rw [if_pos (show slot ∈ own.slot :: slotsOf rest from member)]
          exact nofun)
        fun slot other =>
          if_neg (show slot ∉ own.slot :: slotsOf rest from other)
    exact { dropped with }
  simp only at ran
  split at ran
  · cases ran
    exact lost
  · split at ran
    · cases ran
      exact swapped ‹_›
    · cases ran
      exact lost

/-- `push_limbo` takes a run out of the hands of the thread. -/
theorem pushLimbo_triple
    {shard : Nat}
    (valid : shard < config.shards)
    {old : Option Slot}
    {first : Slot}
    (leading : List (Private K))
    {others : List (Private K)}
    {last : Private K}
    (begins : (slotsOf (leading ++ [last])).head? = some first)
    (strung : Strung old (leading ++ [last])) :
    Triple (inner config thread) thread
      (holding (hands.having (leading ++ last :: others)))
      (pushLimbo shard first last.slot : Program K T Unit)
      fun _ => holding (hands.having others) := by
  refine Triple.bind
    (Triple.read fun _ _ held => held :
      Triple (inner config thread) thread
        (holding (hands.having (leading ++ last :: others))) _
        fun _ => holding (hands.having (leading ++ last :: others)))
    fun head => ?_
  -- The last node is repointed before every attempt.
  refine Triple.weaken
    (Triple.loop
      (fun head => ?_ :
        ∀ head : Option Slot,
          Triple (inner config thread) thread
            (Assertion.any fun old : Option Slot =>
              holding (hands.having
                (leading ++ { last with next := old } :: others))) _ _))
    fun _ _ held => ⟨last.next, held⟩
  refine Triple.any fun before => ?_
  refine Triple.bind
    (storeLink_triple leading others { last with next := before } head)
    fun _ => ?_
  have restrung := strung.redirect head
  have swap :
      Triple (inner config thread) thread
        (holding (hands.having
          (leading ++ { last with next := head } :: others)))
        (casLimbo shard head first : Program K T (Bool × Option Slot))
        fun outcome =>
          if outcome.1 then
            holding (hands.having others)
          else
            holding (hands.having
              (leading ++ { last with next := head } :: others)) := by
    cases leading with
    | nil =>
        cases begins
        exact casLimbo_triple valid { last with next := head } restrung rfl
    | cons own rest =>
        cases begins
        exact casLimbo_triple valid own restrung (by simp)
  refine Triple.bind swap ?_
  rintro ⟨won, found⟩
  cases won with
  | true =>
      exact Triple.ret fun _ _ held => held
  | false =>
      exact Triple.ret fun _ _ held => ⟨_, held⟩

/-- The thread assigns to one of its nodes, unless that throws. -/
theorem assignValue_triple
    (own : Private K)
    (others : List (Private K))
    (value : K) :
    Triple (inner config thread) thread
      (holding (hands.having (own :: others)))
      (assignValue own.slot value : Program K T Bool)
      fun assigned =>
        if assigned then
          holding (hands.having ({ own with value := value } :: others))
        else
          holding (hands.having (own :: others)) := by
  refine Triple.atomic ?_
  rintro ⟨state, ghost⟩ choice assigned shared inv held ran
  have threw :
      Lands (state, ghost) state
        (holding (hands.having (own :: others)) : Claim config thread) :=
    Lands.stay inv held
  have owned : ghost.stage own.slot = .owned thread :=
    (held.owned _).mpr List.mem_cons_self
  have keeps := assignValue_keeps inv owned value
  have apart : ∀ other ∈ others, other.slot ≠ own.slot := by
    intro other member same
    refine (List.nodup_cons.mp held.distinct).1 ?_
    rw [← same]
    exact List.mem_map_of_mem member
  have stored :
      Lands (state, ghost)
        { state with
          value := Function.update state.value own.slot (some value) }
        (holding (hands.having ({ own with value := value } :: others)) :
          Claim config thread) := by
    refine ⟨ghost, keeps.1, silent_step keeps.2 rfl rfl, ?_⟩
    refine
      { held with
        linked := ?_
        valued := ?_ }
    · intro other member
      rcases List.mem_cons.mp member with rfl | old
      · exact held.linked own List.mem_cons_self
      · exact held.linked other (List.mem_cons_of_mem _ old)
    · intro other member
      rcases List.mem_cons.mp member with rfl | old
      · exact Function.update_self _ _ _
      · exact (Function.update_of_ne (apart other old) _ _).trans
          (held.valued other (List.mem_cons_of_mem _ old))
  simp only at ran
  split at ran
  · cases ran
    exact threw
  · cases ran
    exact stored

omit [DecidableEq K] in
/-- The thread takes a node, which may open a batch. -/
theorem Holding.take
    {state after : State K T}
    {ghost : Ghost T}
    (held : Holding thread hands (state, ghost))
    (solvent : hands.owes = false)
    {own : Private K}
    {opens : Bool}
    (strange : ghost.stage own.slot ≠ .owned thread)
    (inside : after.inside = state.inside)
    (events : after.events = state.events)
    (link : after.link own.slot = .bare own.next)
    (links :
      ∀ slot, slot ≠ own.slot → after.link slot = state.link slot)
    (value : after.value own.slot = some own.value)
    (values :
      ∀ slot, slot ≠ own.slot → after.value slot = state.value slot) :
    Holding thread
      { hands with nodes := own :: hands.nodes, owes := opens }
      (after, ghost.take thread own.slot opens) := by
  have outside : own.slot ∉ slotsOf hands.nodes :=
    fun member => strange ((held.owned _).mpr member)
  have apart : ∀ other ∈ hands.nodes, other.slot ≠ own.slot :=
    fun other member same =>
      outside (same ▸ List.mem_map_of_mem member)
  have paid : thread ∉ ghost.debtors := by
    intro owes
    have known := held.owes.mp owes
    rw [solvent] at known
    cases known
  refine
    { inside := ?_
      called := ?_
      changed := ?_
      owned := ?_
      distinct := List.nodup_cons.mpr ⟨outside, held.distinct⟩
      linked := ?_
      valued := ?_
      locks := held.locks
      owes := ?_ }
  · simpa only [inside] using held.inside
  · simpa only [events] using held.called
  · simpa only [events] using held.changed
  · intro slot
    have known := held.owned slot
    by_cases same : slot = own.slot
    · simp [Ghost.take, Ghost.owing, Ghost.restage, same, slotsOf]
    · simp only [Ghost.take, Ghost.owing, Ghost.restage,
        Function.update_of_ne same]
      rw [known]
      simp [slotsOf, same]
  · intro other member
    rcases List.mem_cons.mp member with rfl | old
    · exact link
    · exact (links _ (apart other old)).trans (held.linked other old)
  · intro other member
    rcases List.mem_cons.mp member with rfl | old
    · exact value
    · exact (values _ (apart other old)).trans (held.valued other old)
  · cases opens with
    | true =>
        simp [Ghost.take, Ghost.owing, Ghost.charging]
    | false =>
        simpa [Ghost.take, Ghost.owing, Ghost.charging] using paid

end Private

section Alloc

variable {hands : Hands K}

/-- The hands after a node was taken. -/
def Hands.taking
    (hands : Hands K)
    (own : Private K)
    (opens : Bool) :
    Hands K :=
  { hands with nodes := own :: hands.nodes, owes := opens }

omit [DecidableEq K] [DecidableEq T] in
/-- A node that is on no chain has no tags. -/
theorem NodeOk.link_bare
    {world : State K T × Ghost T}
    {node : Slot}
    (okay : NodeOk config world node)
    (unchained : ∀ bucket, world.2.stage node ≠ .chained bucket) :
    world.1.link node = .bare (world.1.link node).next := by
  obtain ⟨unmarked, unfrozen⟩ := okay.bare unchained
  cases word : world.1.link node with
  | mk next mark frozen =>
      simp only [word] at unmarked unfrozen
      simp [Link.bare, unmarked, unfrozen]

/-- The successor of a node, as long as the node is on the free list. -/
def peeked
    (shard : Nat)
    (node : Slot)
    (next : Option Slot) :
    Fact config thread where
  holds world :=
    world.2.stage node = .listed (.free shard) →
      (world.1.link node).next = next
  keeps _ _ steps _ known listed := by
    obtain ⟨was, same⟩ := steps.free listed
    rw [same]
    exact known was

/-- A pop takes the top of the list if nobody else has. -/
theorem casFree_triple
    (solvent : hands.owes = false)
    {shard : Nat}
    (valid : shard < config.shards)
    {expected : FreeHead}
    {node : Slot}
    (top : expected.top = some node)
    (next : Option Slot) :
    Triple (inner config thread) thread
      ((holding hands).and (peeked shard node next).claim)
      (casFree shard expected next : Program K T (Bool × FreeHead))
      fun outcome =>
        if outcome.1 then
          Assertion.any fun own : Private K =>
            (Assertion.pure (own.slot = node)).and
              (holding
                (hands.taking own (decide (expected.pops % 256 = 0))))
        else
          holding hands := by
  refine Triple.atomic ?_
  rintro ⟨state, ghost⟩ choice ⟨won, found⟩ shared inv ⟨held, peek⟩ ran
  have lost :
      Lands (state, ghost) state (holding hands : Claim config thread) :=
    Lands.stay inv held
  have popped :
      state.freeHead shard = expected →
      Lands (state, ghost) (state.pop shard next)
        (Assertion.any fun own : Private K =>
          (Assertion.pure (own.slot = node)).and
            (holding
              (hands.taking own (decide (expected.pops % 256 = 0)))) :
          Claim config thread) := by
    intro same
    have leads : (state.freeHead shard).top = some node := same ▸ top
    have listed : ghost.stage node = .listed (.free shard) := by
      obtain ⟨items, holds⟩ := inv.stacked (.free shard)
      simpa [stacksOf] using holds.top_listed leads
    have successor : (state.link node).next = next := peek.2 listed
    have solid : thread ∉ ghost.debtors := by
      intro owes
      have known := held.owes.mp owes
      rw [solvent] at known
      cases known
    have keeps := casFree_keeps inv held.inside solid valid leads
    rw [successor] at keeps
    have okay := inv.nodes node
    have appended : state.Appended node :=
      okay.appended.mp (by simp [listed])
    obtain ⟨value, stored⟩ :=
      Option.ne_none_iff_exists'.mp (okay.valued appended)
    have word := okay.link_bare (by simp [listed])
    refine ⟨_, keeps.1, silent_step keeps.2 rfl rfl, ⟨node, next, value⟩,
      rfl, ?_⟩
    rw [← same]
    exact held.take solvent (by simp [listed]) rfl rfl
      (by simpa [State.pop, successor] using word) (fun _ _ => rfl) stored
      (fun _ _ => rfl)
  simp only at ran
  split at ran
  · cases ran
    exact lost
  · split at ran
    case isTrue same =>
      have done := popped same
      rw [State.pop, same] at done
      cases ran
      exact done
    case isFalse =>
      cases ran
      exact lost

/-- The pop loop takes a node or finds the list empty. -/
theorem popFree_triple
    (solvent : hands.owes = false)
    {shard : Nat}
    (valid : shard < config.shards) :
    Triple (inner config thread) thread
      (holding hands)
      (popFree shard : Program K T (Option (Slot × FreeHead)))
      fun popped =>
        match popped with
        | none => holding hands
        | some (node, head) =>
            Assertion.any fun own : Private K =>
              (Assertion.pure (own.slot = node)).and
                (holding
                  (hands.taking own (decide (head.pops % 256 = 0)))) := by
  refine Triple.bind
    (Triple.read fun _ _ held => held :
      Triple (inner config thread) thread (holding hands) _
        fun _ => holding hands) fun head => ?_
  refine Triple.loop
    (fun head => ?_ :
      ∀ head : FreeHead,
        Triple (inner config thread) thread (holding hands) _ _)
  cases top : head.top with
  | none =>
      exact Triple.ret fun _ _ held => held
  | some node =>
      have peek :
          Triple (inner config thread) thread (holding hands)
            (loadLink node : Program K T Link)
            fun link =>
              (holding hands).and (peeked shard node link.next).claim :=
        Triple.read fun _ _ held => ⟨held, held.inside, fun _ => rfl⟩
      refine Triple.bind peek fun link => ?_
      refine Triple.bind (casFree_triple solvent valid top link.next) ?_
      rintro ⟨won, found⟩
      cases won with
      | true =>
          exact Triple.ret fun _ _ held => held
      | false =>
          exact Triple.ret fun _ _ held => held

omit [DecidableEq K] in
/-- Hands that owe nothing for a node that was taken. -/
theorem Hands.taking_paid
    (solvent : hands.owes = false)
    (own : Private K) :
    hands.taking own false = hands.having (own :: hands.nodes) := by
  simp [Hands.taking, Hands.having, ← solvent]

/-- A thread pays what it owes for a node. -/
theorem countBatch_triple
    (solvent : hands.owes = false)
    (own : Private K)
    (opens : Bool) :
    Triple (inner config thread) thread
      (holding (hands.taking own opens))
      (countBatch opens : Program K T Unit)
      fun _ => holding (hands.having (own :: hands.nodes)) := by
  rw [← Hands.taking_paid solvent]
  cases opens with
  | false =>
      exact Triple.ret fun _ _ held => held
  | true =>
      refine Triple.atomic ?_
      rintro ⟨state, ghost⟩ choice value shared inv held ran
      cases ran
      have debt : thread ∈ ghost.debtors := held.owes.mpr rfl
      have keeps := countBatch_keeps inv debt
      refine ⟨_, keeps.1, silent_step keeps.2 rfl rfl, ?_⟩
      refine { held with owes := ?_ }
      simp only [Hands.taking, Ghost.owing, Bool.false_eq_true, iff_false]
      exact inv.counted.distinct.not_mem_erase

/-- A thread appends a node, unless that throws. -/
theorem emplaceBack_triple
    (solvent : hands.owes = false)
    {shard : Nat}
    (valid : shard < config.shards)
    (value : K)
    (next : Option Slot) :
    Triple (inner config thread) thread
      (holding hands)
      (emplaceBack shard value next : Program K T (Option Nat))
      fun appended =>
        match appended with
        | none => holding hands
        | some index =>
            holding
              (hands.taking ⟨⟨shard, index⟩, next, value⟩
                (decide (index % 256 = 0))) := by
  refine Triple.atomic ?_
  rintro ⟨state, ghost⟩ choice appended shared inv held ran
  have threw :
      Lands (state, ghost) state (holding hands : Claim config thread) :=
    Lands.stay inv held
  have solid : thread ∉ ghost.debtors := by
    intro owes
    have known := held.owes.mp owes
    rw [solvent] at known
    cases known
  have absent : ghost.stage ⟨shard, state.arena shard⟩ = .absent := by
    by_contra present
    exact Nat.lt_irrefl _
      ((inv.nodes ⟨shard, state.arena shard⟩).appended.mp present)
  have keeps := emplaceBack_keeps inv held.inside solid valid next value
  have grown :
      Lands (state, ghost) (state.append shard next value)
        (holding
          (hands.taking ⟨⟨shard, state.arena shard⟩, next, value⟩
            (decide (state.arena shard % 256 = 0))) :
          Claim config thread) := by
    refine ⟨_, keeps.1, silent_step keeps.2 rfl rfl, ?_⟩
    refine held.take solvent (by simp [absent]) rfl rfl ?_ ?_ ?_ ?_
    · exact Function.update_self _ _ _
    · intro slot different
      exact Function.update_of_ne different _ _
    · exact Function.update_self _ _ _
    · intro slot different
      exact Function.update_of_ne different _ _
  simp only at ran
  split at ran
  · cases ran
    exact threw
  · cases ran
    exact grown

/-- An allocated node, or nothing if the allocation threw. -/
def allocated
    (hands : Hands K)
    (next : Option Slot)
    (value : K) :
    Option Slot → Claim config thread
  | none => holding hands
  | some node =>
      holding (hands.having (⟨node, next, value⟩ :: hands.nodes))

/-- The end of `alloc_node` if a node was popped. -/
theorem allocNode_reuse
    (own : Private K)
    (value : K)
    (next : Option Slot) :
    Triple (inner config thread) thread
      (holding (hands.having (own :: hands.nodes)))
      (do
        let assigned ← assignValue own.slot value
        if assigned then do
          storeLink own.slot next
          pure (some own.slot)
        else do
          pushLimbo (config.myShard thread) own.slot own.slot
          pure none : Program K T (Option Slot))
      (allocated hands next value) := by
  refine Triple.bind (assignValue_triple own hands.nodes value) ?_
  intro assigned
  cases assigned with
  | true =>
      refine Triple.bind
        (storeLink_triple [] hands.nodes { own with value := value } next)
        fun _ => ?_
      exact Triple.ret fun _ _ held => held
  | false =>
      refine Triple.bind
        (pushLimbo_triple (myShard_lt thread) [] rfl
          ⟨rfl, trivial⟩) fun _ => ?_
      exact Triple.ret fun _ _ held => held

variable (hands) in
/-- `alloc_node` puts one node into the hands of the thread. -/
theorem allocNode_triple
    (solvent : hands.owes = false)
    (value : K)
    (next : Option Slot) :
    Triple (inner config thread) thread
      (holding hands)
      (allocNode config thread value next : Program K T (Option Slot))
      (allocated hands next value) := by
  refine Triple.bind (popFree_triple solvent (myShard_lt thread)) ?_
  intro popped
  cases popped with
  | some found =>
      obtain ⟨node, head⟩ := found
      refine Triple.any fun own => ?_
      refine Triple.given fun same => ?_
      subst same
      refine Triple.bind (countBatch_triple solvent own _) fun _ => ?_
      exact allocNode_reuse own value next
  | none =>
      refine Triple.bind
        (emplaceBack_triple solvent (myShard_lt thread) value next) ?_
      intro appended
      cases appended with
      | none =>
          exact Triple.ret fun _ _ held => held
      | some index =>
          refine Triple.bind (countBatch_triple solvent _ _) fun _ => ?_
          exact Triple.ret fun _ _ held => held

end Alloc

end ConcurrentCpp.HashSet
