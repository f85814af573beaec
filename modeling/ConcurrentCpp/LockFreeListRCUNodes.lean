import ConcurrentCpp.LockFreeListRCUSessions

namespace ConcurrentCpp.LockFreeListRCU

/-!
# Steps on nodes

Allocating, linking, marking, unlinking and retiring nodes.  Each of these
steps moves at most one node from one stage to another.
-/

variable {A H T V : Type} [DecidableEq T]
variable {capacity : Nat} {thread : T}
variable {state : State A H T V} {ghost : Ghost A T}

omit [DecidableEq T] in
/-- A node whose stage and words are unchanged is still in order. -/
theorem NodeOk.congr
    {otherState : State A H T V}
    {otherGhost : Ghost A T}
    {node : A}
    (ok : NodeOk capacity ghost state node)
    (stage : otherGhost.stage node = ghost.stage node)
    (place : otherGhost.place node = ghost.place node)
    (value : otherState.value node = state.value node)
    (allocated : otherState.allocated node = state.allocated node)
    (mark :
      (otherState.next (.node node)).mark =
        (state.next (.node node)).mark)
    (now : ghost.ring.now ≤ otherGhost.ring.now)
    (low : otherGhost.ring.low = ghost.ring.low)
    (freeing :
      ghost.stage node = .hand → otherGhost.freeing = ghost.freeing) :
    NodeOk capacity otherGhost otherState node := by
  unfold NodeOk at ok ⊢
  rw [stage, place, value, allocated, mark, low]
  cases known : ghost.stage node with
  | listed label =>
      cases label with
      | bag slot =>
          simp only [known] at ok ⊢
          obtain ⟨off, constructed, here, marked, generation, above, below,
            rest⟩ := ok
          exact ⟨off, constructed, here, marked, generation, above,
            Nat.lt_of_lt_of_le below now, rest⟩
      | _ =>
          simp only [known] at ok ⊢
          exact ok
  | hand =>
      rw [freeing known]
      simp only [known] at ok ⊢
      exact ok
  | _ =>
      simp only [known] at ok ⊢
      exact ok

omit [DecidableEq T] in
/-- A node that keeps its stage stays blocked. -/
theorem Blocked.congr
    {otherGhost : Ghost A T}
    {since : Nat}
    {node : A}
    (blocked : Blocked capacity ghost since node)
    (stage : otherGhost.stage node = ghost.stage node)
    (now : ghost.ring.now ≤ otherGhost.ring.now)
    (freeing :
      ghost.stage node = .hand → otherGhost.freeing = ghost.freeing) :
    Blocked capacity otherGhost since node := by
  unfold Blocked at blocked ⊢
  rw [stage]
  cases known : ghost.stage node with
  | listed label =>
      cases label with
      | bag slot =>
          simp only [known] at blocked ⊢
          obtain ⟨generation, above, below, same⟩ := blocked
          exact ⟨generation, above, Nat.lt_of_lt_of_le below now, same⟩
      | _ =>
          rw [known] at blocked
          exact blocked
  | hand =>
      simp only [known] at blocked ⊢
      exact (freeing known).trans blocked
  | _ =>
      rw [known] at blocked
      exact blocked

/-- What a session has reached stays visible to it. -/
theorem Invariant.visible_after
    {next : Cell Unit A → MarkedPtr A}
    {place : A → Place Unit}
    (inv : Invariant capacity (state, ghost))
    (advances :
      (chainOf (state, ghost)).Advances
        { next := next
          place := place
          now := ghost.ring.now
          floor := ghost.ring.low })
    {session generation : Nat}
    {node : A}
    (member : (session, .node node) ∈ state.reached)
    (verified : ghost.ring.Verified (.inl session) generation) :
    ({ next := next
       place := place
       now := ghost.ring.now
       floor := ghost.ring.low } :
      MarkedChain A).forest.Visible () generation node := by
  have bounds := inv.ring.bounds verified
  exact advances.forest.visible bounds.1 bounds.2
    (inv.visible member verified)

/-- A node that is linked is on the chain. -/
theorem Invariant.chained_of_linked
    (inv : Invariant capacity (state, ghost))
    {node : A}
    (linked : ghost.place node = .linked ()) :
    ghost.stage node = .chained := by
  have ok := inv.nodes node
  cases stage : ghost.stage node with
  | chained =>
      rfl
  | listed label =>
      cases label <;> simp [NodeOk, stage, linked] at ok
  | _ =>
      simp [NodeOk, stage, linked] at ok

/-- An unmarked node that is not off the chain is on it. -/
theorem Invariant.chained_of_present
    (inv : Invariant capacity (state, ghost))
    {node : A}
    (present : ghost.place node ≠ .off)
    (unmarked : (state.next (.node node)).mark = false) :
    ghost.stage node = .chained :=
  inv.chained_of_linked (inv.chain.linked_of_unmarked present unmarked)

/-- The state after a step on one node. -/
abbrev nodeState
    (state : State A H T V)
    (next : Cell Unit A → MarkedPtr A)
    (retireLink : A → Option A)
    (value : A → Option V)
    (allocated : A → Bool)
    (retiredHead freeHead : Option A)
    (life : A → Nat)
    (topRead : T → Option A)
    (constructions destructions : A → Nat)
    (unlinked : List (Nat × Nat)) :
    State A H T V :=
  { state with
    next := next
    retireLink := retireLink
    value := value
    allocated := allocated
    retiredHead := retiredHead
    freeHead := freeHead
    life := life
    topRead := topRead
    constructions := constructions
    destructions := destructions
    unlinked := unlinked }

/-- The ghost state after a step on one node. -/
abbrev nodeGhost
    (ghost : Ghost A T)
    (place : A → Place Unit)
    (stage : A → Stage T) :
    Ghost A T :=
  { ghost with place := place, stage := stage }

/-- A step of a thread that changes one node and the word before it. -/
structure NodeChange
    (capacity : Nat)
    (thread : T)
    (target : A)
    (state : State A H T V)
    (ghost : Ghost A T)
    (after : State A H T V)
    (later : Ghost A T) : Prop where
  advances :
    (chainOf (state, ghost)).Advances (chainOf (after, later))
  others :
    ∀ {node},
      node ≠ target →
      later.stage node = ghost.stage node ∧
        later.place node = ghost.place node ∧
        after.value node = state.value node ∧
        after.allocated node = state.allocated node ∧
        after.life node = state.life node ∧
        after.retireLink node = state.retireLink node
  words :
    ∀ {node},
      node ≠ target →
      after.next (.node node) = state.next (.node node) ∨
        ghost.stage node = .chained ∧
          (state.next (.node node)).mark = false ∧
          (after.next (.node node)).mark = false
  ok : NodeOk capacity later after target
  notOwned :
    ∀ {other popped},
      other ≠ thread → ghost.stage target ≠ .owned other popped
  notPending :
    ∀ {other}, other ≠ thread → ghost.stage target ≠ .pending other
  owner :
    ∀ {other},
      (later.stage target).owner? = some other →
      other = thread ∧
        ((ghost.stage target).owner? = some thread ∨
          ∃ handle,
            (⟨thread, some handle, false⟩ : Use H T) ∈ state.uses)
  hand : later.stage target = .hand ↔ ghost.stage target = .hand
  holder : ghost.stage target = .hand → ghost.holder = some thread
  unfree : later.stage target ≠ .listed .free
  present :
    ghost.place target ≠ .off →
    later.place target ≠ .off →
    after.life target = state.life target ∧
      after.value target = state.value target
  life : state.life target ≤ after.life target
  used :
    after.life target = state.life target →
    (ghost.stage target).Used →
    (later.stage target).Used ∧
      (ghost.stage target ≠ .chained → later.stage target ≠ .chained) ∧
      ((state.next (.node target)).mark = true →
        after.next (.node target) = state.next (.node target))
  blocked :
    ∀ {since},
      ghost.stage target = .listed .free ∨
        Blocked capacity ghost since target →
      Blocked capacity later since target
  topRead :
    ∀ other,
      after.topRead other = state.topRead other ∨
        other = thread ∧ after.topRead other = none ∧
          ∀ node,
            state.topRead other = some node →
            Popped state after node

namespace NodeChange

variable {target : A} {after : State A H T V} {later : Ghost A T}

omit [DecidableEq T] in
/-- What the step guarantees about nodes. -/
theorem steps
    (change :
      NodeChange capacity thread target state ghost after later) :
    NodeSteps thread (state, ghost) (after, later) where
  chain := change.advances
  owned {node other popped} different known := by
    have notTarget : node ≠ target := by
      rintro rfl
      exact change.notOwned different known
    obtain ⟨stage, _, value, _⟩ := change.others notTarget
    refine ⟨stage.trans known, ?_, value⟩
    rcases change.words notTarget with same | ⟨chained, _⟩
    · exact same
    · exact absurd (known.symm.trans chained) (by simp)
  pending {node other} different known := by
    have notTarget : node ≠ target := by
      rintro rfl
      exact change.notPending different known
    obtain ⟨stage, _, _, _, _, link⟩ := change.others notTarget
    exact ⟨stage.trans known, link⟩
  owner {node other} different known := by
    by_cases same : node = target
    · subst same
      exact (different (change.owner known).1).elim
    · rw [(change.others same).1] at known
      exact known
  watched {other node} _ notFree := by
    by_cases same : node = target
    · subst same
      exact change.unfree
    · rw [(change.others same).1]
      exact notFree
  freeLink {node} _ free := by
    have notTarget : node ≠ target := by
      rintro rfl
      exact change.unfree free
    exact (change.others notTarget).2.2.2.2.2
  present {node} before afterwards := by
    by_cases same : node = target
    · subst same
      exact change.present before afterwards
    · obtain ⟨_, _, value, _, life, _⟩ := change.others same
      exact ⟨life, value⟩
  life node := by
    by_cases same : node = target
    · subst same
      exact change.life
    · exact Nat.le_of_eq (change.others same).2.2.2.2.1.symm
  used {node} sameLife used := by
    by_cases same : node = target
    · subst same
      exact change.used sameLife used
    · obtain ⟨stage, _⟩ := change.others same
      refine ⟨stage ▸ used, fun known => stage ▸ known, fun mark => ?_⟩
      rcases change.words same with word | ⟨_, unmarked, _⟩
      · exact word
      · exact absurd (unmarked.symm.trans mark) (by simp)

omit [DecidableEq T] in
/-- The step keeps what the record says about lives. -/
theorem lives
    {events : List (ListEvent (A × Nat) T)}
    (change :
      NodeChange capacity thread target state ghost after later)
    (lives : Lives state.next state.life ghost.stage events) :
    Lives after.next after.life later.stage events := by
  have steps := change.steps
  refine
    { marked := ?_
      unmarked := ?_
      inserted := ?_ }
  · intro node count member
    exact Nat.le_trans (lives.marked member) (steps.life node)
  · intro node member
    have bound : after.life node ≤ state.life node :=
      lives.marked member
    have sameLife : after.life node = state.life node :=
      Nat.le_antisymm bound (steps.life node)
    rw [sameLife] at member
    have before := lives.unmarked member
    have now := steps.used sameLife before.1
    refine ⟨now.1, ?_⟩
    rw [now.2.2 before.2]
    exact before.2
  · intro caller node count member
    have before := lives.inserted member
    refine ⟨Nat.le_trans before.1 (steps.life node), fun same => ?_⟩
    have sameLife : after.life node = state.life node :=
      Nat.le_antisymm (same ▸ before.1) (steps.life node)
    exact (steps.used sameLife (before.2 (same.trans sameLife))).1

omit [DecidableEq T] in
/-- Every node is in order after the step. -/
theorem nodes
    (ok : ∀ node, NodeOk capacity ghost state node)
    (change :
      NodeChange capacity thread target state ghost after later)
    (ring : later.ring = ghost.ring)
    (freeing : later.freeing = ghost.freeing)
    (node : A) :
    NodeOk capacity later after node := by
  by_cases same : node = target
  · subst same
    exact change.ok
  · obtain ⟨stage, place, value, allocated, _⟩ := change.others same
    refine (ok node).congr stage place value allocated ?_
      (by rw [ring]) (by rw [ring]) fun _ => freeing
    rcases change.words same with word | ⟨_, before, afterwards⟩
    · rw [word]
    · rw [before, afterwards]

end NodeChange

/-- A step on one node keeps the protocol. -/
theorem node_keeps
    (inv : Invariant capacity (state, ghost))
    (target : A)
    {next : Cell Unit A → MarkedPtr A}
    {retireLink : A → Option A}
    {value : A → Option V}
    {allocated : A → Bool}
    {retiredHead freeHead : Option A}
    {life : A → Nat}
    {topRead : T → Option A}
    {constructions destructions : A → Nat}
    {unlinked : List (Nat × Nat)}
    {place : A → Place Unit}
    {stage : A → Stage T}
    (change :
      NodeChange capacity thread target state ghost
        (nodeState state next retireLink value allocated retiredHead
          freeHead life topRead constructions destructions unlinked)
        (nodeGhost ghost place stage))
    (sound :
      (chainOf
        (nodeState state next retireLink value allocated retiredHead
          freeHead life topRead constructions destructions unlinked,
        nodeGhost ghost place stage)).Sound)
    (stacked :
      (stacksOf
        (nodeState state next retireLink value allocated retiredHead
          freeHead life topRead constructions destructions unlinked,
        nodeGhost ghost place stage)).WellFormed)
    (equal : ∀ {first last}, (first, last) ∈ unlinked → first = last)
    (counts :
      ∀ node,
        constructions node =
          destructions node + (value node).toList.length) :
    Invariant capacity
        (nodeState state next retireLink value allocated retiredHead
          freeHead life topRead constructions destructions unlinked,
        nodeGhost ghost place stage) ∧
      Guarantee thread (state, ghost)
        (nodeState state next retireLink value allocated retiredHead
          freeHead life topRead constructions destructions unlinked,
        nodeGhost ghost place stage) := by
  refine ⟨?_, ?_⟩
  · refine
      { chain := sound
        ring := inv.ring
        blocks := inv.blocks
        freeing := inv.freeing
        stacked := stacked
        nodes := change.nodes inv.nodes rfl rfl
        hand := ?_
        sessions := inv.sessions
        visible := fun member verified =>
          inv.visible_after change.advances member verified
        watch := ?_
        lives := change.lives inv.lives
        records :=
          { ledger := inv.records.ledger
            unlinkedSame := equal
            constructed := inv.records.constructed
            counts := counts }
        duties := ?_
        flag := inv.flag
        idle := inv.idle }
    · intro node
      rw [inv.hand node]
      by_cases same : node = target
      · subst same
        exact change.hand.symm
      · rw [(change.others same).1]
    · intro other node seen
      have before : state.topRead other = some node := by
        rcases change.topRead other with same | ⟨_, unread, _⟩
        · exact same.symm.trans seen
        · exact absurd (unread.symm.trans seen) (by simp)
      obtain ⟨generation, under, known⟩ := inv.watch before
      refine ⟨generation, under, ?_⟩
      by_cases same : node = target
      · subst same
        exact .inr (change.blocked known)
      · have sameStage := (change.others same).1
        rcases known with free | blocked
        · exact .inl (sameStage.trans free)
        · exact .inr (blocked.congr sameStage (Nat.le_refl _) fun _ => rfl)
    · refine ⟨fun {node other} owner => ?_, inv.duties.holder⟩
      by_cases same : node = target
      · subst same
        obtain ⟨rfl, before | calls⟩ := change.owner owner
        · exact inv.duties.owner before
        · exact calls
      · have sameStage : stage node = ghost.stage node :=
          (change.others same).1
        have owner : (stage node).owner? = some other := owner
        rw [sameStage] at owner
        exact inv.duties.owner owner
  · refine
      { nodes := change.steps
        sessions := .same rfl rfl rfl rfl
        reclaim :=
          { holder := fun _ known => known
            taken := fun _ known => known
            fields := fun _ _ => ⟨rfl, rfl, rfl⟩
            ghost := fun _ _ => ⟨rfl, rfl, rfl, rfl⟩
            hand := ?_ }
        record :=
          { tops := ?_
            ownTop := ⟨Nat.le_refl _, fun _ => ?_⟩
            erasing := fun _ => ⟨rfl, Iff.rfl⟩
            events := List.suffix_rfl } }
    · intro other different holds node member
      have inHand : ghost.stage node = .hand := (inv.hand node).mp member
      have notTarget : node ≠ target := by
        rintro rfl
        exact different
          (Option.some.inj (holds.symm.trans (change.holder inHand)))
      obtain ⟨_, _, value, _, _, link⟩ := change.others notTarget
      exact ⟨link, value⟩
    · intro other different
      rcases change.topRead other with same | ⟨own, _⟩
      · exact ⟨same, rfl⟩
      · exact (different own).elim
    · rcases change.topRead thread with same | ⟨_, popped⟩
      · exact .inl same
      · exact .inr popped

section Steps

variable [DecidableEq A] {target : A}

omit [DecidableEq T] in
/-- A stage that is on no stack may replace another one. -/
private theorem stacks_same
    {after : State A H T V}
    {stage : Stage T}
    {place : A → Place Unit}
    (wellFormed : (stacksOf (state, ghost)).WellFormed)
    (retired : after.retiredHead = state.retiredHead)
    (free : after.freeHead = state.freeHead)
    (ring : after.ring = state.ring)
    (oldest : after.oldest = state.oldest)
    (links : after.retireLink = state.retireLink)
    (unlisted : (ghost.stage target).label? = none)
    (stays : stage.label? = none) :
    (stacksOf
      (after,
        { ghost with
          place := place
          stage :=
            Function.update ghost.stage target stage })).WellFormed := by
  have sameLinks :
      stackLinks after ghost.freeing = stackLinks state ghost.freeing := by
    funext cell
    rcases cell with (_ | _ | slot) | node <;>
      simp [stackLinks, retired, free, ring, oldest, links]
  have sameListed :
      (fun node =>
          (Function.update ghost.stage target stage node).label?) =
        fun node => (ghost.stage node).label? := by
    funext node
    by_cases same : node = target
    · subst same
      simp [unlisted, stays]
    · simp [same]
  simp only [stacksOf, sameLinks, sameListed]
  exact wellFormed

omit [DecidableEq A] in
/-- The stage of the node that a stack's head leads to. -/
theorem Invariant.top_stage
    (inv : Invariant capacity (state, ghost))
    {label : Label}
    (leads :
      stackLinks state ghost.freeing (.root label) = some target) :
    ghost.stage target = .listed label := by
  obtain ⟨items, holds⟩ := inv.stacked label
  have listed : (ghost.stage target).label? = some label :=
    holds.top_listed leads
  cases stage : ghost.stage target with
  | listed other =>
      simp only [stage, Stage.label?, Option.some.injEq] at listed
      rw [listed]
  | _ =>
      simp [stage, Stage.label?] at listed

variable (thread) in
/-- `compare_exchange` pops the top of the free list. -/
theorem pop_keeps
    (inv : Invariant capacity (state, ghost))
    (calls :
      ∃ handle, (⟨thread, some handle, false⟩ : Use H T) ∈ state.uses)
    (seen : state.topRead thread = some target)
    (top : state.freeHead = some target) :
    Invariant capacity
        ({ state with
            freeHead := state.retireLink target
            life :=
              Function.update state.life target (state.life target + 1)
            topRead := Function.update state.topRead thread none },
          { ghost with
            stage :=
              Function.update ghost.stage target
                (.owned thread true) }) ∧
      Guarantee thread (state, ghost)
        ({ state with
            freeHead := state.retireLink target
            life :=
              Function.update state.life target (state.life target + 1)
            topRead := Function.update state.topRead thread none },
          { ghost with
            stage :=
              Function.update ghost.stage target
                (.owned thread true) }) := by
  have free : ghost.stage target = .listed .free :=
    inv.top_stage top
  have ok := inv.nodes target
  simp only [NodeOk, free] at ok
  refine node_keeps inv target
    { advances := MarkedChain.Advances.refl _
      others := fun different => by simp [different]
      words := fun _ => .inl rfl
      ok := by simp [NodeOk, ok.1, ok.2.2.1]
      notOwned := by simp [free]
      notPending := by simp [free]
      owner := fun owner => by
        simp only [Function.update_self, Stage.owner?,
          Option.some.injEq] at owner
        exact ⟨owner.symm, .inr calls⟩
      hand := by simp [free]
      holder := by simp [free]
      unfree := by simp
      present := fun placed => absurd ok.1 placed
      life := by simp
      used := fun same => by simp at same
      blocked := fun _ => by simp [Blocked]
      topRead := fun other => by
        by_cases same : other = thread
        · subst same
          refine .inr ⟨rfl, by simp, fun node read => ?_⟩
          rw [seen] at read
          cases read
          exact ⟨top, rfl, rfl⟩
        · exact .inl (by simp [same]) }
    inv.chain ?_ inv.records.unlinkedSame inv.records.counts
  have popped := Stacks.pop_wellFormed inv.stacked
    (show (stacksOf (state, ghost)).links (.root .free) =
      some target from top)
  have shape :
      stacksOf
          ({ state with
              freeHead := state.retireLink target
              life :=
                Function.update state.life target (state.life target + 1)
              topRead := Function.update state.topRead thread none },
            { ghost with
              stage :=
                Function.update ghost.stage target
                  (.owned thread true) }) =
        (stacksOf (state, ghost)).pop .free target := by
    simp only [stacksOf, Stacks.pop, Stacks.mk.injEq]
    refine ⟨?_, ?_⟩
    · funext cell
      rcases cell with (_ | _ | slot) | node <;> simp [stackLinks]
    · funext node
      by_cases same : node = target
      · simp [same, Stage.label?]
      · simp [same]
  rw [← shape] at popped
  exact popped

omit [DecidableEq A] in
/-- A pop loop reads the top of the free list. -/
theorem seeTop_keeps
    (inv : Invariant capacity (state, ghost))
    {generation : Nat}
    (under : Under state ghost thread generation) :
    Invariant capacity (state.seeTop thread, ghost) ∧
      Guarantee thread (state, ghost) (state.seeTop thread, ghost) := by
  refine ⟨?_, ?_⟩
  · refine
      { chain := inv.chain
        ring := inv.ring
        blocks := inv.blocks
        freeing := inv.freeing
        stacked := inv.stacked
        nodes := inv.nodes
        hand := inv.hand
        sessions := inv.sessions
        visible := inv.visible
        watch := ?_
        lives := inv.lives
        records := inv.records
        duties := inv.duties
        flag := inv.flag
        idle := inv.idle }
    · intro other node seen
      by_cases same : other = thread
      · subst same
        simp only [State.seeTop, Function.update_self] at seen
        exact ⟨generation, under, .inl (inv.top_stage seen)⟩
      · simp only [State.seeTop, Function.update_of_ne same] at seen
        exact inv.watch seen
  · refine
      { nodes := .same rfl rfl rfl rfl rfl rfl rfl rfl
        sessions := .same rfl rfl rfl rfl
        reclaim :=
          .same rfl rfl rfl rfl rfl rfl rfl rfl fun _ _ => ⟨rfl, rfl⟩
        record :=
          { tops := ?_
            ownTop := ?_
            erasing := fun _ => ⟨rfl, Iff.rfl⟩
            events := List.suffix_rfl } }
    · intro other different
      simp [State.seeTop, different]
    · simp [State.seeTop]

variable (thread) in
/-- `new Node` takes an unused address. -/
theorem new_keeps
    (inv : Invariant capacity (state, ghost))
    (calls :
      ∃ handle, (⟨thread, some handle, false⟩ : Use H T) ∈ state.uses)
    (unused : state.allocated target = false) :
    Invariant capacity
        ({ state with
            allocated := Function.update state.allocated target true
            life :=
              Function.update state.life target (state.life target + 1)
            next :=
              Function.update state.next (.node target) ⟨none, false⟩
            retireLink := Function.update state.retireLink target none },
          { ghost with
            stage :=
              Function.update ghost.stage target
                (.owned thread false) }) ∧
      Guarantee thread (state, ghost)
        ({ state with
            allocated := Function.update state.allocated target true
            life :=
              Function.update state.life target (state.life target + 1)
            next :=
              Function.update state.next (.node target) ⟨none, false⟩
            retireLink := Function.update state.retireLink target none },
          { ghost with
            stage :=
              Function.update ghost.stage target
                (.owned thread false) }) := by
  have absent : ghost.stage target = .absent := by
    have ok := inv.nodes target
    cases stage : ghost.stage target with
    | absent =>
        rfl
    | listed label =>
        cases label <;> simp [NodeOk, stage, unused] at ok
    | _ =>
        simp [NodeOk, stage, unused] at ok
  have ok := inv.nodes target
  simp only [NodeOk, absent] at ok
  refine node_keeps inv target
    { advances :=
        MarkedChain.write_advances inv.chain ok.1 ⟨none, false⟩
      others := fun different => by simp [different]
      words := fun different => .inl (by simp [different])
      ok := by simp [NodeOk, ok.1]
      notOwned := by simp [absent]
      notPending := by simp [absent]
      owner := fun owner => by
        simp only [Function.update_self, Stage.owner?,
          Option.some.injEq] at owner
        exact ⟨owner.symm, .inr calls⟩
      hand := by simp [absent]
      holder := by simp [absent]
      unfree := by simp
      present := fun placed => absurd ok.1 placed
      life := by simp
      used := fun same => by simp at same
      blocked := fun known => by simp [Blocked, absent] at known
      topRead := fun _ => .inl rfl }
    (MarkedChain.write_sound inv.chain ok.1 ⟨none, false⟩)
    ?_ inv.records.unlinkedSame inv.records.counts
  have written :
      ((stacksOf (state, ghost)).setLink target none).WellFormed :=
    Stacks.setLink_wellFormed inv.stacked
      (by simp [stacksOf, absent, Stage.label?])
  have shape :
      stacksOf
          ({ state with
              allocated := Function.update state.allocated target true
              life :=
                Function.update state.life target (state.life target + 1)
              next :=
                Function.update state.next (.node target) ⟨none, false⟩
              retireLink :=
                Function.update state.retireLink target none },
            { ghost with
              stage :=
                Function.update ghost.stage target
                  (.owned thread false) }) =
        (stacksOf (state, ghost)).setLink target none := by
    simp only [stacksOf, Stacks.setLink, Stacks.mk.injEq]
    refine ⟨?_, ?_⟩
    · funext cell
      rcases cell with (_ | _ | slot) | node
      · simp [stackLinks]
      · simp [stackLinks]
      · simp [stackLinks]
      · by_cases same : node = target
        · simp [stackLinks, same]
        · simp [stackLinks, same]
    · funext node
      by_cases same : node = target
      · simp [same, absent, Stage.label?]
      · simp [same]
  rw [← shape] at written
  exact written

omit [DecidableEq A] [DecidableEq T] in
/-- A node that its owner keeps changes only in its own words. -/
private theorem NodeChange.of_owned
    {after : State A H T V}
    {popped : Bool}
    (ok : NodeOk capacity ghost state target)
    (owned : ghost.stage target = .owned thread popped)
    (advances :
      (chainOf (state, ghost)).Advances (chainOf (after, ghost)))
    (others :
      ∀ {node},
        node ≠ target →
        after.value node = state.value node ∧
          after.next (.node node) = state.next (.node node))
    (allocated : after.allocated = state.allocated)
    (life : after.life = state.life)
    (links : after.retireLink = state.retireLink)
    (topRead : after.topRead = state.topRead) :
    NodeChange capacity thread target state ghost after ghost where
  advances := advances
  others different :=
    ⟨rfl, rfl, (others different).1, by rw [allocated], by rw [life],
      by rw [links]⟩
  words different := .inl (others different).2
  ok := by
    simp only [NodeOk, owned] at ok ⊢
    rw [allocated]
    exact ok
  notOwned different same := by
    rw [owned] at same
    cases same
    exact different rfl
  notPending := by simp [owned]
  owner known := by
    simp only [owned, Stage.owner?, Option.some.injEq] at known ⊢
    exact ⟨known.symm, .inl trivial⟩
  hand := Iff.rfl
  holder := by simp [owned]
  unfree := by simp [owned]
  present placed := by
    simp only [NodeOk, owned] at ok
    exact absurd ok.1 placed
  life := by rw [life]
  used _ used := by simp [owned, Stage.Used] at used
  blocked known := by
    rcases known with free | blocked
    · simp [owned] at free
    · exact blocked
  topRead other := .inl (by rw [topRead])

/-- The owner constructs a value in raw storage. -/
theorem construct_keeps
    (inv : Invariant capacity (state, ghost))
    {popped : Bool}
    (owned : ghost.stage target = .owned thread popped)
    (raw : state.value target = none)
    (value : V) :
    Invariant capacity
        ({ state with
            value := Function.update state.value target (some value)
            constructions :=
              Function.update state.constructions target
                (state.constructions target + 1) }, ghost) ∧
      Guarantee thread (state, ghost)
        ({ state with
            value := Function.update state.value target (some value)
            constructions :=
              Function.update state.constructions target
                (state.constructions target + 1) }, ghost) := by
  refine node_keeps inv target
    (.of_owned (inv.nodes target) owned (MarkedChain.Advances.refl _)
      (fun different => by simp [different]) rfl rfl rfl rfl)
    inv.chain inv.stacked inv.records.unlinkedSame ?_
  intro node
  have count := inv.records.counts node
  by_cases same : node = target
  · subst same
    simp only [raw] at count
    simp [count]
  · simpa [same] using count

/-- The owner destroys the value of a node that it did not link. -/
theorem destroyOwned_keeps
    (inv : Invariant capacity (state, ghost))
    {popped : Bool}
    (owned : ghost.stage target = .owned thread popped)
    (constructed : state.value target ≠ none) :
    Invariant capacity (state.destroyValue target, ghost) ∧
      Guarantee thread (state, ghost)
        (state.destroyValue target, ghost) := by
  refine node_keeps inv target
    (.of_owned (inv.nodes target) owned (MarkedChain.Advances.refl _)
      (fun different => by simp [different]) rfl rfl rfl rfl)
    inv.chain inv.stacked inv.records.unlinkedSame ?_
  intro node
  have count := inv.records.counts node
  by_cases same : node = target
  · subst same
    obtain ⟨value, known⟩ := Option.ne_none_iff_exists'.mp constructed
    simp only [known] at count
    simp [count]
  · simpa [same] using count

/-- The owner writes the link of its node. -/
theorem storeNext_keeps
    (inv : Invariant capacity (state, ghost))
    {popped : Bool}
    (owned : ghost.stage target = .owned thread popped)
    (word : MarkedPtr A) :
    Invariant capacity
        ({ state with
            next := Function.update state.next (.node target) word },
          ghost) ∧
      Guarantee thread (state, ghost)
        ({ state with
            next := Function.update state.next (.node target) word },
          ghost) := by
  have ok := inv.nodes target
  simp only [NodeOk, owned] at ok
  exact node_keeps inv target
    (.of_owned (inv.nodes target) owned
      (MarkedChain.write_advances inv.chain ok.1 word)
      (fun different => by simp [different]) rfl rfl rfl rfl)
    (MarkedChain.write_sound inv.chain ok.1 word)
    inv.stacked inv.records.unlinkedSame inv.records.counts

/-- The swap of the insert loop links the node behind the anchor. -/
theorem link_keeps
    (inv : Invariant capacity (state, ghost))
    {anchor : Cell Unit A}
    {popped : Bool}
    (owned : ghost.stage target = .owned thread popped)
    (constructed : state.value target ≠ none)
    (present : (chainOf (state, ghost)).Present anchor)
    (unmarked : (state.next anchor).mark = false)
    (prepared : state.next (.node target) = state.next anchor) :
    Invariant capacity
        ({ state with
            next :=
              Function.update state.next anchor ⟨some target, false⟩ },
          { ghost with
            place := Function.update ghost.place target (.linked ())
            stage := Function.update ghost.stage target .chained }) ∧
      Guarantee thread (state, ghost)
        ({ state with
            next :=
              Function.update state.next anchor ⟨some target, false⟩ },
          { ghost with
            place := Function.update ghost.place target (.linked ())
            stage := Function.update ghost.stage target .chained }) := by
  have ok := inv.nodes target
  simp only [NodeOk, owned] at ok
  have linkable : (chainOf (state, ghost)).Linkable anchor target :=
    ⟨present, unmarked, ok.1, prepared⟩
  refine node_keeps inv target
    { advances := MarkedChain.link_advances inv.chain linkable
      others := fun different => by simp [different]
      words := ?_
      ok := by simp [NodeOk, constructed, ok.2]
      notOwned := fun different same => by
        rw [owned] at same
        cases same
        exact different rfl
      notPending := by simp [owned]
      owner := fun owner => by
        simp [Stage.owner?] at owner
      hand := by simp [owned]
      holder := by simp [owned]
      unfree := by simp
      present := fun placed => absurd ok.1 placed
      life := Nat.le_refl _
      used := fun _ used => by simp [owned, Stage.Used] at used
      blocked := fun _ => by simp [Blocked]
      topRead := fun _ => .inl rfl }
    (MarkedChain.link_sound inv.chain linkable)
    ?_ inv.records.unlinkedSame inv.records.counts
  · intro node _
    by_cases same : (.node node : Cell Unit A) = anchor
    · refine .inr ⟨?_, ?_, by simp [same]⟩
      · subst same
        exact inv.chained_of_present (present node rfl) unmarked
      · rw [same]
        exact unmarked
    · exact .inl (by simp [same])
  · exact stacks_same inv.stacked rfl rfl rfl rfl rfl
      (by simp [owned, Stage.label?]) rfl

/-- The swap of the marking race. -/
theorem mark_keeps
    (inv : Invariant capacity (state, ghost))
    (present : ghost.place target ≠ .off)
    (unmarked : (state.next (.node target)).mark = false)
    (erasing : ghost.erasing thread = true)
    (reported : thread ∉ ghost.unreported) :
    Invariant capacity
        ({ state with
            next :=
              Function.update state.next (.node target)
                (state.next (.node target)).setMark
            events :=
              .marked thread (target, state.life target) ::
                state.events },
          { ghost with
            unreported := insert thread ghost.unreported }) ∧
      Guarantee thread (state, ghost)
        ({ state with
            next :=
              Function.update state.next (.node target)
                (state.next (.node target)).setMark
            events :=
              .marked thread (target, state.life target) ::
                state.events },
          { ghost with
            unreported := insert thread ghost.unreported }) := by
  have chained := inv.chained_of_present present unmarked
  have ok := inv.nodes target
  simp only [NodeOk, chained] at ok
  have fresh :
      (target, state.life target) ∉ marksOf state.events := by
    intro member
    have known : (state.next (.node target)).mark = true :=
      (inv.lives.unmarked member).2
    exact absurd (unmarked.symm.trans known) (by simp)
  have keeps :
      Invariant capacity
          ({ state with
              next :=
                Function.update state.next (.node target)
                  (state.next (.node target)).setMark }, ghost) ∧
        Guarantee thread (state, ghost)
          ({ state with
              next :=
                Function.update state.next (.node target)
                  (state.next (.node target)).setMark }, ghost) := by
    refine node_keeps inv target
      { advances := MarkedChain.mark_advances unmarked
        others := fun _ => ⟨rfl, rfl, rfl, rfl, rfl, rfl⟩
        words := fun different => .inl (by simp [different])
        ok := by simp [NodeOk, chained, ok]
        notOwned := by simp [chained]
        notPending := by simp [chained]
        owner := fun owner => by
          simp [chained, Stage.owner?] at owner
        hand := Iff.rfl
        holder := by simp [chained]
        unfree := by simp [chained]
        present := fun _ _ => ⟨rfl, rfl⟩
        life := Nat.le_refl _
        used := fun _ used =>
          ⟨used, id, fun known =>
            absurd (unmarked.symm.trans known) (by simp)⟩
        blocked := fun _ => by simp [Blocked, chained]
        topRead := fun _ => .inl rfl }
      (MarkedChain.mark_sound inv.chain)
      inv.stacked inv.records.unlinkedSame inv.records.counts
  obtain ⟨marked, steps⟩ := keeps
  refine ⟨?_, steps.record_event (List.suffix_cons _ _) ?_⟩
  · refine
      { chain := marked.chain
        ring := marked.ring
        blocks := marked.blocks
        freeing := marked.freeing
        stacked := marked.stacked
        nodes := marked.nodes
        hand := marked.hand
        sessions := inv.sessions
        visible := marked.visible
        watch := marked.watch
        lives := ?_
        records := ?_
        duties := marked.duties
        flag := marked.flag
        idle := marked.idle }
    · refine
        { marked := ?_
          unmarked := ?_
          inserted := ?_ }
      · intro node life member
        rcases List.mem_cons.mp member with new | old
        · cases new
          exact Nat.le_refl _
        · exact inv.lives.marked old
      · intro node member
        rcases List.mem_cons.mp member with new | old
        · cases new
          exact ⟨by simp [chained, Stage.Used], by simp⟩
        · exact marked.lives.unmarked old
      · intro caller node life member
        exact inv.lives.inserted (by simpa using member)
    · exact
        { ledger := inv.records.ledger.recordMark fresh erasing reported
          unlinkedSame := inv.records.unlinkedSame
          constructed := inv.records.constructed
          counts := inv.records.counts }
  · intro other different
    exact ⟨rfl, by simp [different]⟩

variable (thread) in
/-- The swap of `erase_after` that bypasses a marked node. -/
theorem unlink_keeps
    (inv : Invariant capacity (state, ghost))
    (calls :
      ∃ handle, (⟨thread, some handle, false⟩ : Use H T) ∈ state.uses)
    {anchor : Cell Unit A}
    (unlinkable :
      (chainOf (state, ghost)).Unlinkable anchor target) :
    Invariant capacity
        ({ state with
            next :=
              Function.update state.next anchor
                (state.next (.node target)).clearMark
            unlinked :=
              (state.life target, state.life target) ::
                state.unlinked },
          { ghost with
            place :=
              Function.update ghost.place target
                (.cut () ghost.ring.now)
            stage :=
              Function.update ghost.stage target (.pending thread) }) ∧
      Guarantee thread (state, ghost)
        ({ state with
            next :=
              Function.update state.next anchor
                (state.next (.node target)).clearMark
            unlinked :=
              (state.life target, state.life target) ::
                state.unlinked },
          { ghost with
            place :=
              Function.update ghost.place target
                (.cut () ghost.ring.now)
            stage :=
              Function.update ghost.stage target
                (.pending thread) }) := by
  have linked : ghost.place target = .linked () :=
    unlinkable.linked inv.chain
  have chained := inv.chained_of_linked linked
  have ok := inv.nodes target
  simp only [NodeOk, chained] at ok
  have notAnchor : (.node target : Cell Unit A) ≠ anchor := by
    rintro rfl
    have marked := unlinkable.marked
    rw [unlinkable.leads] at marked
    cases marked
  have marked : (state.next (.node target)).mark = true :=
    unlinkable.marked
  have unmarked : (state.next anchor).mark = false :=
    congrArg MarkedPtr.mark unlinkable.leads
  refine node_keeps inv target
    { advances := MarkedChain.unlink_advances inv.chain unlinkable
      others := fun different => by simp [different]
      words := ?_
      ok := by simp [NodeOk, ok.2.1, ok.2.2, notAnchor, marked]
      notOwned := by simp [chained]
      notPending := by simp [chained]
      owner := fun owner => by
        simp only [Function.update_self, Stage.owner?,
          Option.some.injEq] at owner
        exact ⟨owner.symm, .inr calls⟩
      hand := by simp [chained]
      holder := by simp [chained]
      unfree := by simp
      present := fun _ _ => ⟨rfl, rfl⟩
      life := Nat.le_refl _
      used := fun _ _ =>
        ⟨by simp [Stage.Used], by simp, fun _ => by simp [notAnchor]⟩
      blocked := fun _ => by simp [Blocked]
      topRead := fun _ => .inl rfl }
    (MarkedChain.unlink_sound inv.chain unlinkable)
    ?_ ?_ inv.records.counts
  · intro node _
    by_cases same : (.node node : Cell Unit A) = anchor
    · refine .inr ⟨?_, ?_, by simp [same]⟩
      · subst same
        exact inv.chained_of_present
          (unlinkable.present node rfl) unmarked
      · rw [same]
        exact unmarked
    · exact .inl (by simp [same])
  · exact stacks_same inv.stacked rfl rfl rfl rfl rfl
      (by simp [chained, Stage.label?]) rfl
  · intro first last member
    rcases List.mem_cons.mp member with new | old
    · cases new
      rfl
    · exact inv.records.unlinkedSame old

/-- `delete` of a node that was never shared. -/
theorem delete_keeps
    (inv : Invariant capacity (state, ghost))
    (owned : ghost.stage target = .owned thread false)
    (raw : state.value target = none) :
    Invariant capacity
        ({ state with
            allocated := Function.update state.allocated target false },
          { ghost with
            stage := Function.update ghost.stage target .absent }) ∧
      Guarantee thread (state, ghost)
        ({ state with
            allocated := Function.update state.allocated target false },
          { ghost with
            stage := Function.update ghost.stage target .absent }) := by
  have ok := inv.nodes target
  simp only [NodeOk, owned] at ok
  refine node_keeps inv target
    { advances := MarkedChain.Advances.refl _
      others := fun different => by simp [different]
      words := fun _ => .inl rfl
      ok := by simp [NodeOk, ok.1, raw]
      notOwned := fun different same => by
        rw [owned] at same
        cases same
        exact different rfl
      notPending := by simp [owned]
      owner := fun owner => by
        simp [Stage.owner?] at owner
      hand := by simp [owned]
      holder := by simp [owned]
      unfree := by simp
      present := fun placed => absurd ok.1 placed
      life := Nat.le_refl _
      used := fun _ used => by simp [owned, Stage.Used] at used
      blocked := fun known => by simp [Blocked, owned] at known
      topRead := fun _ => .inl rfl }
    inv.chain ?_ inv.records.unlinkedSame inv.records.counts
  exact stacks_same inv.stacked rfl rfl rfl rfl rfl
    (by simp [owned, Stage.label?]) rfl

/-- `dispose_unlinked()` marks a popped node that was not linked. -/
theorem dispose_keeps
    (inv : Invariant capacity (state, ghost))
    (owned : ghost.stage target = .owned thread true)
    (constructed : state.value target ≠ none) :
    Invariant capacity
        ({ state with
            next :=
              Function.update state.next (.node target) ⟨none, true⟩ },
          { ghost with
            stage :=
              Function.update ghost.stage target (.pending thread) }) ∧
      Guarantee thread (state, ghost)
        ({ state with
            next :=
              Function.update state.next (.node target) ⟨none, true⟩ },
          { ghost with
            stage :=
              Function.update ghost.stage target
                (.pending thread) }) := by
  have ok := inv.nodes target
  simp only [NodeOk, owned] at ok
  refine node_keeps inv target
    { advances := MarkedChain.write_advances inv.chain ok.1 ⟨none, true⟩
      others := fun different => by simp [different]
      words := fun different => .inl (by simp [different])
      ok := by simp [NodeOk, ok, constructed]
      notOwned := fun different same => by
        rw [owned] at same
        cases same
        exact different rfl
      notPending := by simp [owned]
      owner := fun owner => by
        simp only [Function.update_self, Stage.owner?,
          Option.some.injEq] at owner
        exact ⟨owner.symm, .inl (by simp [owned, Stage.owner?])⟩
      hand := by simp [owned]
      holder := by simp [owned]
      unfree := by simp
      present := fun placed => absurd ok.1 placed
      life := Nat.le_refl _
      used := fun _ used => by simp [owned, Stage.Used] at used
      blocked := fun _ => by simp [Blocked]
      topRead := fun _ => .inl rfl }
    (MarkedChain.write_sound inv.chain ok.1 ⟨none, true⟩)
    ?_ inv.records.unlinkedSame inv.records.counts
  exact stacks_same inv.stacked rfl rfl rfl rfl rfl
    (by simp [owned, Stage.label?]) rfl

/-- A thread writes the link of a node that is in its hands. -/
theorem storeRetireLink_keeps
    (inv : Invariant capacity (state, ghost))
    (mine :
      ghost.stage target = .pending thread ∨
        ghost.stage target = .hand ∧ ghost.holder = some thread)
    (link : Option A) :
    Invariant capacity
        ({ state with
            retireLink :=
              Function.update state.retireLink target link }, ghost) ∧
      Guarantee thread (state, ghost)
        ({ state with
            retireLink :=
              Function.update state.retireLink target link },
          ghost) := by
  have unlisted : (ghost.stage target).label? = none := by
    rcases mine with pending | ⟨hand, _⟩
    · simp [pending, Stage.label?]
    · simp [hand, Stage.label?]
  have notFree : ghost.stage target ≠ .listed .free := by
    intro free
    simp [free, Stage.label?] at unlisted
  refine node_keeps inv target
    { advances := MarkedChain.Advances.refl _
      others := fun different => by simp [different]
      words := fun _ => .inl rfl
      ok := (inv.nodes target).congr rfl rfl rfl rfl rfl
        (Nat.le_refl _) rfl fun _ => rfl
      notOwned := fun _ same => by
        rcases mine with pending | ⟨hand, _⟩
        · exact absurd (same.symm.trans pending) (by simp)
        · exact absurd (same.symm.trans hand) (by simp)
      notPending := fun different same => by
        rcases mine with pending | ⟨hand, _⟩
        · rw [pending] at same
          cases same
          exact different rfl
        · exact absurd (same.symm.trans hand) (by simp)
      owner := fun owner => by
        rcases mine with pending | ⟨hand, _⟩
        · simp only [pending, Stage.owner?, Option.some.injEq] at owner
          exact ⟨owner.symm, .inl (by simp [pending, Stage.owner?])⟩
        · simp [hand, Stage.owner?] at owner
      hand := Iff.rfl
      holder := fun hand => by
        rcases mine with pending | ⟨_, holds⟩
        · exact absurd (hand.symm.trans pending) (by simp)
        · exact holds
      unfree := notFree
      present := fun _ _ => ⟨rfl, rfl⟩
      life := Nat.le_refl _
      used := fun _ used => ⟨used, id, fun _ => rfl⟩
      blocked := fun known => known.resolve_left notFree
      topRead := fun _ => .inl rfl }
    inv.chain ?_ inv.records.unlinkedSame inv.records.counts
  have written :
      ((stacksOf (state, ghost)).setLink target link).WellFormed :=
    Stacks.setLink_wellFormed inv.stacked
      unlisted
  have shape :
      stacksOf
          ({ state with
              retireLink :=
                Function.update state.retireLink target link }, ghost) =
        (stacksOf (state, ghost)).setLink target link := by
    simp only [stacksOf, Stacks.setLink, Stacks.mk.injEq, and_true]
    funext cell
    rcases cell with (_ | _ | slot) | node
    · simp [stackLinks]
    · simp [stackLinks]
    · simp [stackLinks]
    · by_cases same : node = target
      · simp [stackLinks, same]
      · simp [stackLinks, same]
  rw [← shape] at written
  exact written

/-- `retire()` pushes a pending node onto the retired list. -/
theorem push_keeps
    (inv : Invariant capacity (state, ghost))
    (pending : ghost.stage target = .pending thread)
    (linked : state.retireLink target = state.retiredHead) :
    Invariant capacity
        ({ state with retiredHead := some target },
          { ghost with
            stage :=
              Function.update ghost.stage target
                (.listed .retired) }) ∧
      Guarantee thread (state, ghost)
        ({ state with retiredHead := some target },
          { ghost with
            stage :=
              Function.update ghost.stage target
                (.listed .retired) }) := by
  have ok := inv.nodes target
  simp only [NodeOk, pending] at ok
  refine node_keeps inv target
    { advances := MarkedChain.Advances.refl _
      others := fun different => by simp [different]
      words := fun _ => .inl rfl
      ok := by simpa [NodeOk] using ok
      notOwned := by simp [pending]
      notPending := fun different same => by
        rw [pending] at same
        cases same
        exact different rfl
      owner := fun owner => by
        simp [Stage.owner?] at owner
      hand := by simp [pending]
      holder := by simp [pending]
      unfree := by simp
      present := fun _ _ => ⟨rfl, rfl⟩
      life := Nat.le_refl _
      used := fun _ _ => ⟨by simp [Stage.Used], by simp, fun _ => rfl⟩
      blocked := fun _ => by simp [Blocked]
      topRead := fun _ => .inl rfl }
    inv.chain ?_ inv.records.unlinkedSame inv.records.counts
  have spliceable :
      (stacksOf (state, ghost)).Spliceable .retired target [] :=
    { run := ⟨trivial, linked⟩
      noDuplicates := by simp
      unlisted := fun node member => by
        rw [List.mem_singleton] at member
        simp [member, stacksOf, pending, Stage.label?] }
  have pushed := Stacks.splice_wellFormed inv.stacked spliceable
  have shape :
      stacksOf
          ({ state with retiredHead := some target },
            { ghost with
              stage :=
                Function.update ghost.stage target
                  (.listed .retired) }) =
        (stacksOf (state, ghost)).splice .retired target [] := by
    simp only [stacksOf, Stacks.splice, Stacks.mk.injEq]
    refine ⟨?_, ?_⟩
    · funext cell
      rcases cell with (_ | _ | slot) | node <;> simp [stackLinks]
    · funext node
      by_cases same : node = target
      · simp [same, Stage.label?]
      · simp [same]
  rw [← shape] at pushed
  exact pushed

end Steps

end ConcurrentCpp.LockFreeListRCU
