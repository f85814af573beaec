import ConcurrentCpp.LockFreeListRCUCalls
import ConcurrentCpp.LockFreeListRCUReclaim

namespace ConcurrentCpp.LockFreeListRCU

/-!
# The threads of the list with handles

The program of `reclaim()` verified against the protocol, and with it a client
that makes any calls its contract allows.
-/

variable {A H T V : Type} [DecidableEq T]
variable {capacity : Nat} {thread : T}

section Assertions

/-- The thread has the flag, these nodes in its hand, and knows the ring. -/
def holding
    (thread : T)
    (freeing : Bool)
    (hand : List A)
    (fact : (Nat → GenerationBlock A) → Nat → Nat → Prop) :
    Fact A H V capacity thread where
  holds world :=
    (world.2.holder = some thread ∧ world.2.freeing = freeing ∧
      world.2.hand = hand) ∧
      fact world.1.ring world.1.oldest world.1.current
  stable different _ _ guarantee known := by
    obtain ⟨⟨holds, freeing, hand⟩, fact⟩ := known
    have reclaim := guarantee.reclaim
    have fields := reclaim.fields different.symm holds
    have ghost := reclaim.ghost different.symm holds
    refine ⟨⟨reclaim.holder different.symm holds, ghost.2.1.trans freeing,
      ghost.1.trans hand⟩, ?_⟩
    rw [fields.1, fields.2.1, fields.2.2]
    exact fact

/-- The nodes in the hand form a run; all but `undone` hold no value. -/
def threaded
    (thread : T)
    (first : A)
    (rest : List A)
    (target : Option A)
    (undone : List A) :
    Fact A H V capacity thread where
  holds world :=
    (world.2.holder = some thread ∧
      HandRun world.1 world.2 first rest target) ∧
      ∀ node ∈ first :: rest,
        world.1.value node = none ↔ node ∉ undone
  stable {other world after} different _ _ guarantee known := by
    obtain ⟨⟨holds, hand, noDuplicates, run⟩, values⟩ := known
    have reclaim := guarantee.reclaim
    have ghost := reclaim.ghost different.symm holds
    have nodes := reclaim.hand different.symm holds
    rw [hand] at nodes
    refine ⟨⟨reclaim.holder different.symm holds, ghost.1.trans hand,
      noDuplicates, ?_⟩, fun node member => ?_⟩
    · exact run.congr fun node member => (nodes node member).1
    · rw [(nodes node member).2]
      exact values node member

/-- A thread that calls `reclaim()`. -/
def reclaiming
    (thread : T) :
    Fact A H V capacity thread :=
  (calling thread ⟨thread, none, false⟩ rfl).and (quiet thread)

/-- The thread does not hold the flag. -/
def released
    (thread : T) :
    Fact A H V capacity thread where
  holds world := world.2.holder ≠ some thread
  stable different _ _ guarantee known taken :=
    known (guarantee.reclaim.taken different.symm taken)

end Assertions

section Free

variable [DecidableEq A]
variable {fact : (Nat → GenerationBlock A) → Nat → Nat → Prop}
variable {first : A} {rest : List A}

/-- Destroying the next value of the bag. -/
theorem destroy_step
    {node : A}
    {before ahead : List A}
    (split : first :: rest = before ++ node :: ahead) :
    Triple (protocol capacity) thread
      (((reclaiming thread).and
        (holding thread true (first :: rest) fact)).and
        (threaded thread first rest none (node :: ahead)))
      (Prog.atomic fun state _ =>
        some (state.retireLink node, state.destroyValue node) :
        Program A H T V (Option A))
      fun link =>
        ((((reclaiming thread).and
          (holding thread true (first :: rest) fact)).and
          (threaded thread first rest none ahead))).and
          (.pure (link = ahead.head?)) := by
  apply Triple.atomic
  rintro ⟨state, ghost⟩ choice value shared inv
    ⟨⟨idle, ⟨holds, freeing, hand⟩, ring⟩, ⟨_, run⟩, values⟩ ran
  cases ran
  have member : node ∈ first :: rest := by
    rw [split]
    simp
  have apart : node ∉ ahead := by
    have noDuplicates := run.2.1
    rw [split] at noDuplicates
    exact (List.nodup_cons.mp
      (List.nodup_append.mp noDuplicates).2.1).1
  have constructed : state.value node ≠ none := fun raw =>
    (values node member).mp raw (by simp)
  have keeps := destroyHand_keeps inv holds freeing
    (by rw [show ghost.hand = _ from hand]; exact member) constructed
  refine ⟨_, keeps.1, keeps.2,
    ⟨⟨idle, ⟨holds, freeing, hand⟩, ring⟩, ⟨holds, run⟩, ?_⟩,
    run.2.2.link_at split⟩
  intro other here
  by_cases same : other = node
  · subst same
    simp [State.destroyValue, apart]
  · have before := values other here
    simp only [List.mem_cons, same, false_or] at before
    simpa [State.destroyValue, same] using before

/-- The walk over the bag destroys every value and finds the last node. -/
theorem destroyBag_triple :
    Triple (protocol capacity) thread
      (((reclaiming thread).and
        (holding thread true (first :: rest) fact)).and
        (threaded thread first rest none (first :: rest)))
      (destroyBag (some first) : Program A H T V (Option A × Nat))
      fun walked =>
        (((reclaiming thread).and
          (holding thread true (first :: rest) fact)).and
          (threaded thread first rest none [])).and
          (.pure (walked.1 = (first :: rest).getLast?)) := by
  refine Triple.weaken (Triple.loop
    (fun walk => ?_ : ∀ walk : Option A × Option A × Nat,
      Triple (protocol capacity) thread
        (.any fun split : { split : List A × List A //
            first :: rest = split.1 ++ split.2 ∧
              walk.1 = split.2.head? ∧ walk.2.1 = split.1.getLast? } =>
          ((reclaiming thread).and
            (holding thread true (first :: rest) fact)).and
            (threaded thread first rest none split.1.2)) _ _))
    fun _ _ known => ⟨⟨([], first :: rest), rfl, rfl, rfl⟩, known⟩
  obtain ⟨pointer, tail, count⟩ := walk
  refine Triple.any ?_
  rintro ⟨⟨before, ahead⟩, split, atHead, atLast⟩
  simp only at split atHead atLast
  cases ahead with
  | nil =>
      subst atHead
      refine Triple.ret fun _ _ known => ⟨known, ?_⟩
      simpa [split] using atLast
  | cons node ahead =>
      subst atHead
      refine Triple.bind (destroy_step split) fun link => ?_
      refine Triple.ret fun _ _ known => ?_
      refine ⟨⟨(before ++ [node], ahead), ?_, known.2, ?_⟩, known.1⟩
      · rw [split]
        simp
      · simp

/-- Redirecting the last node of the bag. -/
theorem storeRetireLink_tail
    {last : A}
    (isLast : (first :: rest).getLast? = some last)
    (old head : Option A) :
    Triple (protocol capacity) thread
      (((reclaiming thread).and
        (holding thread true (first :: rest) fact)).and
        (threaded thread first rest old []))
      (storeRetireLink last head : Program A H T V Unit)
      fun _ =>
        ((reclaiming thread).and
          (holding thread true (first :: rest) fact)).and
          (threaded thread first rest head []) := by
  apply Triple.atomic
  rintro ⟨state, ghost⟩ choice value shared inv
    ⟨⟨idle, ⟨holds, freeing, hand⟩, ring⟩, ⟨_, _, noDuplicates, run⟩,
      values⟩ ran
  cases ran
  have hand : ghost.hand = first :: rest := hand
  have member : last ∈ ghost.hand := by
    rw [hand]
    exact List.mem_of_getLast? isLast
  have keeps := storeRetireLink_keeps inv
    (.inr ⟨(inv.hand last).mp member, holds⟩) head
  refine ⟨ghost, keeps.1, keeps.2, ⟨idle, ⟨holds, freeing, hand⟩, ring⟩,
    ⟨holds, hand, noDuplicates, ?_⟩, values⟩
  refine (run.redirect noDuplicates isLast head).congr fun node _ => ?_
  by_cases same : node = last
  · simp [stackLinks, same]
  · simp [stackLinks, same]

/-- The swap that puts the bag in front of the free list. -/
theorem spliceFree_triple
    (head : Option A) :
    Triple (protocol capacity) thread
      (((reclaiming thread).and
        (holding thread true (first :: rest) fact)).and
        (threaded thread first rest head []))
      (spliceFree head (some first) : Program A H T V (Bool × Option A))
      fun outcome =>
        (reclaiming thread).and
          (if outcome.1 then
            holding thread true [] fact
          else
            (holding thread true (first :: rest) fact).and
              (threaded thread first rest head [])) := by
  apply Triple.atomic
  rintro ⟨state, ghost⟩ choice value shared inv
    ⟨⟨idle, ⟨holds, freeing, hand⟩, ring⟩, ⟨_, run⟩, values⟩ ran
  have fails :
      ((reclaiming thread).and
        ((holding thread true (first :: rest) fact).and
          (threaded thread first rest head [])) :
        Fact A H V capacity thread).holds (state, ghost) :=
    ⟨idle, ⟨⟨holds, freeing, hand⟩, ring⟩, ⟨holds, run⟩, values⟩
  have swaps :
      (if state.freeHead = head then
        some ((true, head), { state with freeHead := some first })
      else
        some ((false, state.freeHead), state)) = some (value, shared) →
      ∃ later,
        Invariant capacity (shared, later) ∧
          Guarantee thread (state, ghost) (shared, later) ∧
          ((reclaiming thread).and
            (if value.1 then
              holding thread true [] fact
            else
              (holding thread true (first :: rest) fact).and
                (threaded thread first rest head [])) :
            Fact A H V capacity thread).holds (shared, later) := by
    intro ran
    split at ran
    · rename_i current
      cases ran
      rw [← current] at run
      have keeps := spliceFree_keeps inv holds freeing run fun node member =>
        (values node (by rw [← hand]; exact member)).mpr (by simp)
      exact ⟨_, keeps.1, keeps.2, idle, ⟨holds, freeing, rfl⟩, ring⟩
    · cases ran
      exact ⟨ghost, inv, (protocol capacity).guar_refl thread _, fails⟩
  cases choice with
  | spurious =>
      cases ran
      exact ⟨ghost, inv, (protocol capacity).guar_refl thread _, fails⟩
  | _ =>
      exact swaps ran

/-- The splice loop puts the whole bag onto the free list. -/
theorem spliceLoop_triple
    {tail : Option A}
    (isLast : tail = (first :: rest).getLast?) :
    Triple (protocol capacity) thread
      (((reclaiming thread).and
        (holding thread true (first :: rest) fact)).and
        (threaded thread first rest none []))
      (spliceLoop (some first) tail : Program A H T V Unit)
      fun _ =>
        (reclaiming thread).and (holding thread true [] fact) := by
  obtain ⟨last, known⟩ : ∃ last, (first :: rest).getLast? = some last :=
    ⟨_, List.getLast?_eq_some_getLast (by simp)⟩
  rw [known] at isLast
  subst isLast
  refine Triple.bind
    (Triple.read fun _ _ known => ⟨none, known⟩ :
      Triple (protocol capacity) thread
        (((reclaiming thread).and
          (holding thread true (first :: rest) fact)).and
          (threaded thread first rest none [])) _
        fun _ =>
          .any fun old =>
            ((reclaiming thread).and
              (holding thread true (first :: rest) fact)).and
              (threaded thread first rest old [])) fun head => ?_
  refine Triple.loop
    (fun head => ?_ : ∀ _ : Option A, Triple (protocol capacity) thread
      (.any fun old =>
        ((reclaiming thread).and
          (holding thread true (first :: rest) fact)).and
          (threaded thread first rest old [])) _ _)
  refine Triple.any fun old => ?_
  refine Triple.bind (storeRetireLink_tail known old head) fun _ => ?_
  refine Triple.bind (spliceFree_triple head) fun outcome => ?_
  cases spliced : outcome.1 with
  | true =>
      exact Triple.ret fun _ _ known => known
  | false =>
      exact Triple.ret fun _ _ known =>
        ⟨head, ⟨known.1, known.2.1⟩, known.2.2⟩

/-- A closed slot that counts nobody gives up its bag. -/
theorem readRefs_triple
    {oldest : Nat}
    {block : GenerationBlock A}
    (closed : block.state = .sealed)
    {closing : Nat} :
    Triple (protocol capacity) thread
      ((reclaiming thread).and
        (holding thread false [] fun ring here current =>
          (here = oldest ∧ ring here = block) ∧ current = closing))
      (Prog.read fun state => state.refs oldest : Program A H T V Int)
      fun refs =>
        (reclaiming thread).and
          (if refs = 0 then
            .any fun bag : { bag : A × List A //
                block.bag = some bag.1 } =>
              (holding thread true (bag.1.1 :: bag.1.2)
                fun ring here current =>
                  (here = oldest ∧ ring here = block) ∧
                    current = closing).and
                (threaded thread bag.1.1 bag.1.2 none
                  (bag.1.1 :: bag.1.2))
          else
            holding thread false [] fun _ _ current =>
              current = closing) := by
  apply Triple.atomic
  rintro ⟨state, ghost⟩ choice value shared inv
    ⟨idle, ⟨holds, working, empty⟩, ⟨here, isBlock⟩, current⟩ ran
  cases ran
  have here : state.oldest = oldest := here
  have isBlock : state.ring state.oldest = block := isBlock
  subst here
  by_cases zero : state.refs state.oldest = 0
  · have isClosed : (state.ring state.oldest).state = .sealed := by
      rw [isBlock]
      exact closed
    obtain ⟨items, bag⟩ := inv.stacked (.bag state.oldest)
    have leads : block.bag = items.head? := by
      have head := bag.path.head
      have working : ghost.freeing = false := working
      simpa [stacksOf, stackLinks, working, isBlock] using head
    have nonempty : block.bag ≠ none := by
      have below := inv.blocks.bottom_lt isClosed
      have known := inv.blocks.closed (Nat.le_refl _) below
      rw [← inv.blocks.oldest_eq] at known
      rw [← isBlock]
      exact known.2.2
    have keeps := drop_keeps inv holds empty working isClosed zero bag
    cases items with
    | nil =>
        exact (nonempty leads).elim
    | cons first rest =>
        refine ⟨_, keeps.1, keeps.2, idle, ?_⟩
        rw [if_pos zero]
        refine ⟨⟨(first, rest), leads⟩,
          ⟨⟨holds, rfl, rfl⟩, ⟨rfl, isBlock⟩, current⟩,
          ⟨holds, rfl, bag.noDuplicates, ?_⟩, fun node member => ?_⟩
        · exact bag.run.congr fun _ _ => rfl
        · have ok := inv.nodes node
          simp only [NodeOk, listed_stage bag member] at ok
          exact ⟨fun raw => (ok.2.1 raw).elim,
            fun outside => (outside member).elim⟩
  · refine ⟨ghost, inv, (protocol capacity).guar_refl thread _, idle, ?_⟩
    rw [if_neg zero]
    exact ⟨⟨holds, working, empty⟩, current⟩

omit [DecidableEq A] in
/-- Emptying the slot whose bag is freed. -/
theorem finish_triple
    {oldest closing : Nat}
    {block : GenerationBlock A} :
    Triple (protocol capacity) thread
      ((reclaiming thread).and
        (holding thread true [] fun ring here current =>
          (here = oldest ∧ ring here = block) ∧ current = closing))
      (Prog.write fun state =>
        { state with
          ring :=
            Function.update state.ring oldest
              { block with bag := none, state := .empty }
          oldest := (oldest + 1) % capacity } :
        Program A H T V Unit)
      fun _ =>
        (reclaiming thread).and
          (holding thread false [] fun _ _ current =>
            current = closing) := by
  apply Triple.atomic
  rintro ⟨state, ghost⟩ choice value shared inv
    ⟨idle, ⟨holds, working, empty⟩, ⟨here, isBlock⟩, current⟩ ran
  cases ran
  have here : state.oldest = oldest := here
  have isBlock : state.ring state.oldest = block := isBlock
  subst here
  subst isBlock
  have keeps := finish_keeps inv holds working empty
  exact ⟨_, keeps.1, keeps.2, idle, ⟨holds, rfl, empty⟩, current⟩

/-- `free_oldest()` leaves the current slot alone. -/
theorem freeOldest_triple
    {closing : Nat}
    (result : ReclaimResult) :
    Triple (protocol capacity) thread
      ((reclaiming thread).and
        (holding thread false [] fun _ _ current => current = closing))
      (freeOldest capacity result : Program A H T V ReclaimResult)
      fun _ =>
        (reclaiming thread).and
          (holding thread false [] fun _ _ current =>
            current = closing) := by
  refine Triple.loop
    (fun result => ?_ : ∀ _ : ReclaimResult,
      Triple (protocol capacity) thread
        ((reclaiming thread).and
          (holding thread false [] fun _ _ current =>
            current = closing)) _ _)
  have look :
      Triple (protocol capacity) thread
        ((reclaiming thread).and
          (holding thread false [] fun _ _ current => current = closing))
        (Prog.read fun state => (state.oldest, state.ring state.oldest) :
          Program A H T V (Nat × GenerationBlock A))
        fun oldest =>
          (reclaiming thread).and
            (holding thread false [] fun ring here current =>
              (here = oldest.1 ∧ ring here = oldest.2) ∧
                current = closing) :=
    Triple.read fun _ _ known =>
      ⟨known.1, known.2.1, ⟨rfl, rfl⟩, known.2.2⟩
  refine Triple.bind look fun oldest => ?_
  split
  · exact Triple.ret fun _ _ known => ⟨known.1, known.2.1, known.2.2.2⟩
  rename_i closed
  refine Triple.bind (readRefs_triple (by simpa using closed))
    fun refs => ?_
  by_cases zero : refs = 0
  swap
  · rw [if_neg zero, if_pos zero]
    exact Triple.ret fun _ _ known => known
  rw [if_pos zero, if_neg (not_not.mpr zero)]
  refine Triple.weaken (Triple.any fun bag => ?_ :
      Triple (protocol capacity) thread
        (.any fun bag : { bag : A × List A //
            oldest.2.bag = some bag.1 } =>
          ((reclaiming thread).and
            (holding thread true (bag.1.1 :: bag.1.2)
              fun ring here current =>
                (here = oldest.1 ∧ ring here = oldest.2) ∧
                  current = closing)).and
            (threaded thread bag.1.1 bag.1.2 none
              (bag.1.1 :: bag.1.2))) _ _)
    fun _ _ ⟨idle, bag, known⟩ => ⟨bag, ⟨idle, known.1⟩, known.2⟩
  obtain ⟨⟨first, rest⟩, isBag⟩ := bag
  dsimp only at isBag ⊢
  rw [isBag]
  refine Triple.bind destroyBag_triple fun walked => ?_
  refine Triple.weaken (Triple.given fun isLast => ?_)
    fun _ _ known => ⟨known.2, known.1⟩
  refine Triple.bind (spliceLoop_triple isLast) fun _ => ?_
  refine Triple.bind finish_triple fun _ => ?_
  exact Triple.ret fun _ _ known => known

/-- Taking the retired list. -/
theorem takeRetired_triple
    {closing : Nat} :
    Triple (protocol capacity) thread
      ((reclaiming thread).and
        (holding thread false [] fun ring _ current =>
          (ring ((closing + 1) % capacity)).state = .empty ∧
            current = closing))
      (Prog.atomic fun state _ =>
        some (state.retiredHead, { state with retiredHead := none }) :
        Program A H T V (Option A))
      fun chain =>
        (reclaiming thread).and
          (match chain with
          | none => holding thread false [] fun _ _ _ => True
          | some first =>
              .any fun rest =>
                (holding thread false (first :: rest)
                  fun ring _ current =>
                    (ring ((closing + 1) % capacity)).state = .empty ∧
                      current = closing).and
                  (threaded thread first rest none (first :: rest))) := by
  apply Triple.atomic
  rintro ⟨state, ghost⟩ choice value shared inv
    ⟨idle, ⟨holds, working, empty⟩, known⟩ ran
  cases ran
  obtain ⟨items, retired⟩ := inv.stacked .retired
  have leads : state.retiredHead = items.head? := retired.path.head
  have keeps := take_keeps inv holds empty working retired
  refine ⟨_, keeps.1, keeps.2, idle, ?_⟩
  rw [leads]
  cases items with
  | nil =>
      exact ⟨⟨holds, working, rfl⟩, trivial⟩
  | cons first rest =>
      refine ⟨rest, ⟨⟨holds, working, rfl⟩, known⟩,
        ⟨holds, rfl, retired.noDuplicates, ?_⟩, fun node member => ?_⟩
      · exact retired.run.congr fun _ _ => rfl
      · have ok := inv.nodes node
        simp only [NodeOk, listed_stage retired member] at ok
        exact ⟨fun raw => (ok.2.1 raw).elim,
          fun outside => (outside member).elim⟩

/-- Closing the current slot leaves the reclaimer's hand empty. -/
theorem closeCurrent_triple
    {closing : Nat}
    (result : ReclaimResult) :
    Triple (protocol capacity) thread
      ((reclaiming thread).and
        (holding thread false [] fun ring _ current =>
          (ring ((closing + 1) % capacity)).state = .empty ∧
            current = closing))
      (closeCurrent capacity closing result :
        Program A H T V ReclaimResult)
      fun _ =>
        (reclaiming thread).and
          (holding thread false [] fun _ _ _ => True) := by
  refine Triple.bind takeRetired_triple fun chain => ?_
  cases chain with
  | none =>
      exact Triple.pure fun _ _ known => known
  | some first =>
      have publish :
          Triple (protocol capacity) thread
            ((reclaiming thread).and
              (.any fun rest =>
                (holding thread false (first :: rest)
                  fun ring _ current =>
                    (ring ((closing + 1) % capacity)).state = .empty ∧
                      current = closing).and
                  (threaded thread first rest none (first :: rest))))
            (Prog.write fun state =>
              state.publish capacity closing (some first) :
              Program A H T V Unit)
            fun _ =>
              (reclaiming thread).and
                (holding thread false [] fun _ _ _ => True) := by
        apply Triple.atomic
        rintro ⟨state, ghost⟩ choice value shared inv
          ⟨idle, rest, ⟨⟨holds, working, hand⟩, vacant, current⟩,
            ⟨_, run⟩, _⟩ ran
        cases ran
        have current : state.current = closing := current
        subst current
        have keeps := publish_keeps inv holds working run vacant
        exact ⟨_, keeps.1, keeps.2, idle, ⟨holds, working, rfl⟩, trivial⟩
      exact Triple.bind publish fun _ =>
        Triple.pure fun _ _ known => known

/-- `advance()` leaves the reclaimer's hand empty. -/
theorem advance_triple
    (result : ReclaimResult) :
    Triple (protocol capacity) thread
      ((reclaiming thread).and
        (holding thread false [] fun _ _ _ => True))
      (advance capacity result : Program A H T V ReclaimResult)
      fun _ =>
        (reclaiming thread).and
          (holding thread false [] fun _ _ _ => True) := by
  refine Triple.bind
    (Triple.read fun _ _ known => known :
      Triple (protocol capacity) thread
        ((reclaiming thread).and
          (holding thread false [] fun _ _ _ => True)) _
        fun _ =>
          (reclaiming thread).and
            (holding thread false [] fun _ _ _ => True)) fun retired => ?_
  cases retired with
  | none =>
      exact Triple.pure fun _ _ known => known
  | some top =>
      have look :
          Triple (protocol capacity) thread
            ((reclaiming thread).and
              (holding thread false [] fun _ _ _ => True))
            (Prog.read fun state => state.current :
              Program A H T V Nat)
            fun closing =>
              (reclaiming thread).and
                (holding thread false [] fun _ _ current =>
                  current = closing) :=
        Triple.read fun _ _ known => ⟨known.1, known.2.1, rfl⟩
      have check : ∀ closing,
          Triple (protocol capacity) thread
            ((reclaiming thread).and
              (holding thread false [] fun _ _ current =>
                current = closing))
            (Prog.read fun state =>
              (state.ring ((closing + 1) % capacity)).state :
              Program A H T V SlotState)
            fun slot =>
              (reclaiming thread).and
                (holding thread false [] fun ring _ current =>
                  (ring ((closing + 1) % capacity)).state = slot ∧
                    current = closing) :=
        fun closing => Triple.read fun _ _ known =>
          ⟨known.1, known.2.1, rfl, known.2.2⟩
      refine Triple.bind look fun closing => ?_
      refine Triple.bind (check closing) fun before => ?_
      split
      · rename_i vacant
        subst vacant
        exact closeCurrent_triple result
      · refine Triple.bind
          ((freeOldest_triple result).weaken fun _ _ known =>
            ⟨known.1, known.2.1, known.2.2.2⟩) fun freed => ?_
        refine Triple.bind (check closing) fun after => ?_
        split
        · rename_i vacant
          subst vacant
          exact closeCurrent_triple freed
        · exact Triple.pure fun _ _ known =>
            ⟨known.1, known.2.1, trivial⟩

omit [DecidableEq A] in
/-- Taking the flag. -/
theorem acquire_triple :
    Triple (protocol capacity) thread
      ((reclaiming thread).and (released thread))
      (Prog.atomic fun state _ =>
        some (state.reclaiming, { state with reclaiming := true }) :
        Program A H T V Bool)
      fun busy =>
        (reclaiming thread).and
          (if busy then
            released thread
          else
            holding thread false [] fun _ _ _ => True) := by
  apply Triple.atomic
  rintro ⟨state, ghost⟩ choice value shared inv ⟨idle, free⟩ ran
  cases ran
  cases flag : state.reclaiming with
  | true =>
      have same : { state with reclaiming := true } = state := by
        rw [← flag]
      simp only [same]
      exact ⟨ghost, inv, (protocol capacity).guar_refl thread _, idle,
        free⟩
  | false =>
      have nobody : ghost.holder = none := by
        have isFlag : state.reclaiming = ghost.holder.isSome := inv.flag
        rw [flag] at isFlag
        simpa using isFlag.symm
      have keeps := acquire_keeps thread inv idle.1 flag
      exact ⟨_, keeps.1, keeps.2, idle,
        ⟨rfl, (inv.idle nobody).2, (inv.idle nobody).1⟩, trivial⟩

/-- `reclaim()` gives the flag back with an empty hand. -/
theorem reclaim_triple :
    Triple (protocol capacity) thread
      ((reclaiming thread).and (released thread))
      (reclaim capacity : Program A H T V ReclaimResult)
      fun _ => (reclaiming thread).and (released thread) := by
  refine Triple.bind acquire_triple fun busy => ?_
  cases busy with
  | true =>
      exact Triple.pure fun _ _ known => known
  | false =>
      refine Triple.bind (advance_triple _) fun advanced => ?_
      have free :
          Triple (protocol capacity) thread
            ((reclaiming thread).and
              (holding thread false [] fun _ _ _ => True))
            (freeOldest capacity advanced :
              Program A H T V ReclaimResult)
            fun _ =>
              (reclaiming thread).and
                (holding thread false [] fun _ _ _ => True) := by
        intro fuel world inv known
        have safe := freeOldest_triple advanced fuel world inv
          ⟨known.1, known.2.1, rfl⟩
        refine Safe.post_mono inv (fun _ _ _ after => ?_) safe
        exact ⟨after.1, after.2.1, trivial⟩
      refine Triple.bind free fun result => ?_
      refine Triple.bind
        (?_ : Triple (protocol capacity) thread _ _ fun _ =>
          (reclaiming thread).and (released thread)) fun _ =>
            Triple.pure fun _ _ known => known
      apply Triple.atomic
      rintro ⟨state, ghost⟩ choice value shared inv
        ⟨idle, ⟨holds, working, empty⟩, _⟩ ran
      cases ran
      have keeps := release_keeps inv holds empty working
      exact ⟨_, keeps.1, keeps.2, idle, by simp [released]⟩

end Free

section Client

/-- A client between calls. -/
def idle
    (thread : T) :
    Fact A H V capacity thread :=
  Assertion.and
    { holds := fun world => ∀ use ∈ world.1.uses, use.thread ≠ thread
      stable := fun different _ _ guarantee known use member same =>
        known use
          (guarantee.sessions.usesNew member
            (by rw [same]; exact different.symm))
          same }
    (quiet thread)

/-- The session has reached the anchor of a call. -/
def anchored
    (thread : T)
    (session : Nat)
    (anchor : Option (Cell Unit A)) :
    Fact A H V capacity thread :=
  .all fun cell : { cell // cell ∈ anchor } =>
    knows thread session cell.1

/-- What a client knows when a call of its has begun. -/
def begun
    (thread : T)
    (live : Handle) :
    Call A H V → Fact A H V capacity thread
  | .newHandle handle =>
      (exclusively thread handle none).and (quiet thread)
  | .refresh handle =>
      (exclusively thread handle (some live)).and (quiet thread)
  | .insertAfter handle anchor _ =>
      (underway thread handle live.session false false).and
        (anchored thread live.session anchor)
  | .eraseAfter handle anchor =>
      (underway thread handle live.session true false).and
        (anchored thread live.session anchor)
  | .reclaim => (reclaiming thread).and (released thread)
  | _ => idle thread

variable {state : State A H T V} {ghost : Ghost A T}

/-- A step of a client that leaves the calls in progress alone. -/
private theorem keeps_idle
    {after : State A H T V}
    {later : Ghost A T}
    (known :
      (idle thread : Fact A H V capacity thread).holds (state, ghost))
    (uses : after.uses = state.uses)
    (token :
      later.ring.token (.inr thread) = ghost.ring.token (.inr thread))
    (top : after.topRead = state.topRead)
    (erasing : later.erasing = ghost.erasing)
    (unreported : later.unreported = ghost.unreported) :
    (idle thread : Fact A H V capacity thread).holds (after, later) := by
  obtain ⟨free, ⟨untaken, unread⟩, quiet⟩ := known
  refine ⟨?_, ⟨token.trans untaken, ?_⟩, ?_⟩
  · intro use member
    rw [uses] at member
    exact free use member
  · exact (congrFun top thread).trans unread
  · exact ⟨(congrFun erasing thread).trans quiet.1, by
      rw [unreported]
      exact quiet.2⟩

/-- A client begins a call on a handle that nobody uses. -/
private theorem begin_exclusive
    (inv : Invariant capacity (state, ghost))
    (known :
      (idle thread : Fact A H V capacity thread).holds (state, ghost))
    {handle : H}
    (unused : Unused state handle) :
    Invariant capacity
        (state.beginUse ⟨thread, some handle, true⟩, ghost) ∧
      Guarantee thread (state, ghost)
        (state.beginUse ⟨thread, some handle, true⟩, ghost) :=
  call_keeps inv
    (.begin inv known.1 rfl fun other member _ same has =>
      (unused other member (has.trans same.symm)).elim)
    (.same inv)

/-- A client begins a call on a handle that nobody changes. -/
private theorem begin_shared
    (inv : Invariant capacity (state, ghost))
    (known :
      (idle thread : Fact A H V capacity thread).holds (state, ghost))
    {handle : H}
    (shared : Unchanging state handle) :
    CallChange thread state ghost
      (⟨thread, some handle, false⟩ :: state.uses) :=
  .begin inv known.1 rfl fun other member _ same has =>
    ⟨rfl, shared other member (has.trans same.symm)⟩

variable (thread) in
/-- An allowed anchor was reached by the session. -/
private theorem anchored_of_allowed
    [DecidableEq A]
    (inv : Invariant capacity (state, ghost))
    {session : Nat}
    {anchor : Option (Cell Unit A)}
    (allowed : AnchorAllowed state session anchor) :
    (anchored thread session anchor :
      Fact A H V capacity thread).holds (state, ghost) := by
  rintro ⟨cell, isAnchor⟩
  exact inv.sessions.positions (allowed _ isAnchor)

/-- What a session has reached holds a value. -/
theorem Invariant.constructed
    (inv : Invariant capacity (state, ghost))
    {node : A}
    (present : ghost.place node ≠ .off) :
    state.value node ≠ none := by
  have ok := inv.nodes node
  cases stage : ghost.stage node with
  | listed label =>
      cases label with
      | free =>
          simp only [NodeOk, stage] at ok
          exact (present ok.1).elim
      | _ =>
          simp only [NodeOk, stage] at ok
          exact ok.2.1
  | hand =>
      simp only [NodeOk, stage] at ok
      cases freeing : ghost.freeing with
      | false =>
          exact ok.2.2.2.1 freeing
      | true =>
          exact fun raw => present ((ok.2.2.2.2 freeing).1 raw)
  | chained =>
      simp only [NodeOk, stage] at ok
      exact ok.2.1
  | pending other =>
      simp only [NodeOk, stage] at ok
      exact ok.2.1
  | _ =>
      simp only [NodeOk, stage] at ok
      exact (present ok.1).elim

variable (thread) in
/-- A node is read through an iterator. -/
private theorem dereference_keeps
    (inv : Invariant capacity (state, ghost))
    {handle : H}
    {live : Handle}
    (known : state.handles handle = some live)
    {node : A}
    (held : (live.session, .node node) ∈ state.iterators) :
    Invariant capacity
        ({ state with
            dereferenced := state.value node :: state.dereferenced },
          ghost) ∧
      Guarantee thread (state, ghost)
        ({ state with
            dereferenced := state.value node :: state.dereferenced },
          ghost) := by
  have reached := inv.sessions.positions held
  have constructed := inv.constructed (inv.placed known reached)
  refine ⟨?_, ?_⟩
  · exact
      { inv with
        records :=
          { inv.records with
            constructed := fun value member => by
              rcases List.mem_cons.mp member with rfl | old
              · exact constructed
              · exact inv.records.constructed value old } }
  · exact
      { nodes := .same rfl rfl rfl rfl rfl rfl rfl rfl
        sessions := .same rfl rfl rfl rfl
        reclaim :=
          .same rfl rfl rfl rfl rfl rfl rfl rfl fun _ _ => ⟨rfl, rfl⟩
        record := .same rfl rfl rfl rfl rfl }

omit [DecidableEq T] in
/-- A step that also changes handles which nobody uses. -/
private theorem Guarantee.then_handles
    {after : State A H T V}
    {later : Ghost A T}
    (guarantee : Guarantee thread (state, ghost) (after, later))
    {handles : H → Option Handle}
    (same :
      ∀ use ∈ state.uses,
        ∀ handle,
          use.handle = some handle →
          handles handle = after.handles handle) :
    Guarantee thread (state, ghost)
      ({ after with handles := handles }, later) := by
  obtain ⟨nodes, sessions, reclaim, record⟩ := guarantee
  refine
    { nodes :=
        ⟨nodes.chain, nodes.owned, nodes.pending, nodes.owner,
          nodes.watched,
          nodes.freeLink, nodes.present, nodes.life, nodes.used⟩
      sessions :=
        ⟨?_, sessions.usesNew, sessions.tokens, sessions.reached,
          sessions.reachedNew, sessions.sessions⟩
      reclaim :=
        ⟨reclaim.holder, reclaim.taken, reclaim.fields, reclaim.ghost,
          reclaim.hand⟩
      record :=
        ⟨record.tops, record.ownTop, record.erasing, record.events⟩ }
  intro use member different
  have before := sessions.uses member different
  refine ⟨before.1, fun {handle} has => ?_⟩
  have kept := before.2 has
  exact ⟨(same use member handle has).trans kept.1, kept.2⟩

omit [DecidableEq T] in
/-- A step that also keeps an iterator. -/
private theorem Guarantee.then_iterator
    {after : State A H T V}
    {later : Ghost A T}
    (guarantee : Guarantee thread (state, ghost) (after, later))
    (iterators : List (Nat × Cell Unit A)) :
    Guarantee thread (state, ghost)
      ({ after with iterators := iterators }, later) := by
  obtain ⟨nodes, sessions, reclaim, record⟩ := guarantee
  exact
    { nodes :=
        ⟨nodes.chain, nodes.owned, nodes.pending, nodes.owner,
          nodes.watched,
          nodes.freeLink, nodes.present, nodes.life, nodes.used⟩
      sessions :=
        ⟨sessions.uses, sessions.usesNew, sessions.tokens,
          sessions.reached, sessions.reachedNew, sessions.sessions⟩
      reclaim :=
        ⟨reclaim.holder, reclaim.taken, reclaim.fields, reclaim.ghost,
          reclaim.hand⟩
      record :=
        ⟨record.tops, record.ownTop, record.erasing, record.events⟩ }

variable (thread) in
/-- `++it` reaches the successor and keeps the position. -/
private theorem increment_keeps
    (inv : Invariant capacity (state, ghost))
    {handle : H}
    {live : Handle}
    (known : state.handles handle = some live)
    (shared : Unchanging state handle)
    {position : Cell Unit A}
    (held : (live.session, position) ∈ state.iterators) :
    Invariant capacity
        ((state.increment live.session position).2, ghost) ∧
      Guarantee thread (state, ghost)
        ((state.increment live.session position).2, ghost) := by
  have reached := inv.sessions.positions held
  have keeps := reach_keeps thread inv known shared
    (state.next position).ptr fun leads verified =>
      inv.visible_next reached leads verified
  cases target : (state.next position).ptr with
  | none =>
      simp only [State.increment, target]
      exact ⟨inv, (protocol capacity).guar_refl thread _⟩
  | some node =>
      simp only [State.increment, target]
      rw [target] at keeps
      exact ⟨iterator_keeps keeps.1 _ _ List.mem_cons_self,
        keeps.2.then_iterator _⟩

variable [DecidableEq H]

omit [DecidableEq T] in
/-- Leaving a handle changes no call and leaves the handle empty. -/
private theorem leaveHandle_facts
    (state : State A H T V)
    (handle : H) :
    (state.leaveHandle handle).uses = state.uses ∧
      (state.leaveHandle handle).topRead = state.topRead ∧
      (state.leaveHandle handle).handles handle = none ∧
      ∀ other,
        other ≠ handle →
        (state.leaveHandle handle).handles other =
          state.handles other := by
  cases known : state.handles handle with
  | none =>
      simp [State.leaveHandle, known]
  | some live =>
      simp only [State.leaveHandle, known, State.dropRef]
      exact ⟨trivial, trivial, by simp, fun other different => by
        simp [different]⟩

variable (thread) in
/-- Moving a handle into another one ends the session of the latter. -/
private theorem moveAssign_keeps
    (inv : Invariant capacity (state, ghost))
    {target source : H}
    (targetUnused : Unused state target)
    (sourceUnused : Unused state source) :
    ∃ ring,
      (∀ other, ring.token (.inr other) = ghost.ring.token (.inr other)) ∧
        Invariant capacity
          ((state.leaveHandle target).moveHandle target source,
            { ghost with ring := ring }) ∧
        Guarantee thread (state, ghost)
          ((state.leaveHandle target).moveHandle target source,
            { ghost with ring := ring }) := by
  obtain ⟨ring, tokens, after, guarantee⟩ :=
    leaveHandle_keeps thread inv targetUnused
  obtain ⟨uses, _, empty, _⟩ := leaveHandle_facts state target
  have targetStill : Unused (state.leaveHandle target) target := by
    rw [Unused, uses]
    exact targetUnused
  have sourceStill : Unused (state.leaveHandle target) source := by
    rw [Unused, uses]
    exact sourceUnused
  have moved := moveHandle_keeps thread after targetStill sourceStill empty
  refine ⟨ring, tokens, moved.1, guarantee.then_handles ?_⟩
  intro use member handle has
  have notTarget : handle ≠ target := by
    rintro rfl
    exact targetUnused use member has
  have notSource : handle ≠ source := by
    rintro rfl
    exact sourceUnused use member has
  simp [notTarget, notSource]

variable [DecidableEq A]

/-- A client that begins a call keeps the protocol. -/
theorem startCall_keeps
    (inv : Invariant capacity (state, ghost))
    (known :
      (idle thread : Fact A H V capacity thread).holds (state, ghost))
    {call : Call A H V}
    {live : Handle}
    {after : State A H T V}
    (starts : startCall state thread call = some (live, after)) :
    ∃ later,
      Invariant capacity (after, later) ∧
        Guarantee thread (state, ghost) (after, later) ∧
        (begun thread live call : Fact A H V capacity thread).holds
          (after, later) := by
  obtain ⟨free, ⟨untaken, unread⟩, still, reported⟩ := id known
  have empty : ∀ node, (ghost.stage node).owner? ≠ some thread := by
    intro node owner
    obtain ⟨handle, use⟩ := inv.duties.owner owner
    exact free _ use rfl
  cases call with
  | newHandle handle =>
      simp only [startCall] at starts
      split at starts
      · rename_i allowed
        cases starts
        have keeps := begin_exclusive inv known allowed.1
        exact ⟨ghost, keeps.1, keeps.2,
          ⟨List.mem_cons_self, allowed.2⟩, known.2⟩
      · cases starts
  | refresh handle =>
      simp only [startCall] at starts
      split at starts
      · rename_i unused
        rw [Option.map_eq_some_iff] at starts
        obtain ⟨found, isLive, shape⟩ := starts
        cases shape
        have keeps := begin_exclusive inv known unused
        exact ⟨ghost, keeps.1, keeps.2,
          ⟨List.mem_cons_self, isLive⟩, known.2⟩
      · cases starts
  | moveConstruct target source =>
      simp only [startCall] at starts
      split at starts
      · rename_i allowed
        cases starts
        have keeps :=
          moveHandle_keeps thread inv allowed.1 allowed.2.1 allowed.2.2
        exact ⟨ghost, keeps.1, keeps.2, known⟩
      · cases starts
  | moveAssign target source =>
      simp only [startCall] at starts
      split at starts
      · rename_i allowed
        split at starts
        · cases starts
          exact ⟨ghost, inv, (protocol capacity).guar_refl thread _, known⟩
        · cases starts
          obtain ⟨ring, tokens, keeps⟩ :=
            moveAssign_keeps thread inv allowed.1 allowed.2
          obtain ⟨uses, top, _⟩ := leaveHandle_facts state target
          exact ⟨_, keeps.1, keeps.2,
            keeps_idle known uses (tokens thread) top rfl rfl⟩
      · cases starts
  | swap first second =>
      simp only [startCall] at starts
      split at starts
      · rename_i allowed
        cases starts
        have keeps := swapHandles_keeps thread inv allowed.1 allowed.2
        exact ⟨ghost, keeps.1, keeps.2, known⟩
      · cases starts
  | destroy handle =>
      simp only [startCall] at starts
      split at starts
      · rename_i unused
        cases starts
        obtain ⟨ring, tokens, keeps⟩ := leaveHandle_keeps thread inv unused
        obtain ⟨uses, top, _⟩ := leaveHandle_facts state handle
        exact ⟨_, keeps.1, keeps.2,
          keeps_idle known uses (tokens thread) top rfl rfl⟩
      · cases starts
  | beforeBegin handle =>
      simp only [startCall] at starts
      split at starts
      · rw [Option.map_eq_some_iff] at starts
        rename_i shared
        obtain ⟨found, isLive, shape⟩ := starts
        cases shape
        have keeps := reachCell_keeps thread inv isLive shared (.root ())
          fun same => by cases same
        exact ⟨ghost,
          iterator_keeps keeps.1 live.session (.root ())
            List.mem_cons_self,
          keeps.2.then_iterator _, known⟩
      · cases starts
  | increment handle position =>
      simp only [startCall, Option.bind_eq_some_iff] at starts
      obtain ⟨found, isLive, starts⟩ := starts
      split at starts
      · rename_i allowed
        cases starts
        have keeps := increment_keeps thread inv isLive allowed.1 allowed.2
        refine ⟨ghost, keeps.1, keeps.2,
          keeps_idle known ?_ rfl ?_ rfl rfl⟩
        · cases target : (state.next position).ptr <;>
            simp [State.increment, target, State.reach]
        · cases target : (state.next position).ptr <;>
            simp [State.increment, target, State.reach]
      · cases starts
  | dereference handle node =>
      simp only [startCall, Option.bind_eq_some_iff] at starts
      obtain ⟨found, isLive, starts⟩ := starts
      split at starts
      · rename_i allowed
        cases starts
        have keeps := dereference_keeps thread inv isLive allowed.2
        exact ⟨ghost, keeps.1, keeps.2, known⟩
      · cases starts
  | insertAfter handle anchor value =>
      simp only [startCall, Option.bind_eq_some_iff] at starts
      obtain ⟨found, isLive, starts⟩ := starts
      split at starts
      · rename_i allowed
        cases starts
        have keeps :=
          call_keeps inv (begin_shared inv known allowed.1) (.same inv)
        exact ⟨ghost, keeps.1, keeps.2,
          ⟨⟨⟨⟨List.mem_cons_self, live.block, isLive⟩, still, reported⟩,
            empty⟩, untaken, unread⟩, anchored_of_allowed thread inv allowed.2⟩
      · cases starts
  | eraseAfter handle anchor =>
      simp only [startCall, Option.bind_eq_some_iff] at starts
      obtain ⟨found, isLive, starts⟩ := starts
      split at starts
      · rename_i allowed
        cases starts
        have book :
            BookChange thread state ghost
              (.eraseCalled thread :: state.events)
              (Function.update ghost.erasing thread true)
              ghost.unreported :=
          { marks := rfl
            inserted := fun member => .inl (by simpa using member)
            ledger := inv.records.ledger.recordCall still
            suffix := List.suffix_cons _ _
            others := fun different => ⟨by simp [different], Iff.rfl⟩ }
        have keeps :=
          call_keeps inv (begin_shared inv known allowed.1) book
        exact ⟨_, keeps.1, keeps.2,
          ⟨⟨⟨⟨List.mem_cons_self, live.block, isLive⟩, by simp, reported⟩,
            empty⟩, untaken, unread⟩, anchored_of_allowed thread inv allowed.2⟩
      · cases starts
  | reclaim =>
      cases starts
      have change :
          CallChange thread state ghost
            (⟨thread, none, false⟩ :: state.uses) :=
        .begin inv free rfl fun _ _ _ same => by cases same
      have keeps := call_keeps inv change (.same inv)
      exact ⟨ghost, keeps.1, keeps.2, ⟨List.mem_cons_self, known.2⟩,
        fun holds => free _ (inv.duties.holder holds) rfl⟩

/-- A client picks a call that its contract allows. -/
theorem pick_triple :
    Triple (protocol capacity) thread
      (idle thread)
      (pick thread : Program A H T V (Call A H V × Handle))
      fun picked => begun thread picked.2 picked.1 := by
  apply Triple.atomic
  rintro ⟨state, ghost⟩ choice value shared inv known ran
  cases choice with
  | call call =>
      simp only [Option.map_eq_some_iff] at ran
      obtain ⟨⟨live, after⟩, starts, shape⟩ := ran
      cases shape
      exact startCall_keeps inv known starts
  | _ =>
      cases ran

omit [DecidableEq A] [DecidableEq H] in
/-- Only a call that inserts or erases has a node in its hands. -/
theorem Invariant.unladen
    (inv : Invariant capacity (state, ghost))
    {use : Use H T}
    (member : use ∈ state.uses)
    (mine : use.thread = thread)
    (other : use.handle = none ∨ use.exclusive = true)
    (node : A) :
    (ghost.stage node).owner? ≠ some thread := by
  intro owner
  obtain ⟨handle, uses⟩ := inv.duties.owner owner
  have same := inv.same_use member uses mine.symm
  subst same
  rcases other with noHandle | exclusive
  · cases noHandle
  · cases exclusive

omit [DecidableEq A] [DecidableEq H] in
/-- Only a call of `reclaim()` holds the flag. -/
theorem Invariant.unheld
    (inv : Invariant capacity (state, ghost))
    {handle : H}
    {exclusive : Bool}
    (member :
      (⟨thread, some handle, exclusive⟩ : Use H T) ∈ state.uses) :
    ghost.holder ≠ some thread := by
  intro holds
  cases inv.same_use member (inv.duties.holder holds) rfl

omit [DecidableEq A] in
/-- A call ends and the client is idle again. -/
theorem endUse_triple
    (use : Use H T)
    (mine : use.thread = thread)
    (other : use.handle = none ∨ use.exclusive = true) :
    Triple (protocol capacity) thread
      (((calling thread use mine).and (quiet thread)).and
        (released thread))
      (endUse use : Program A H T V Unit)
      fun _ => idle thread := by
  apply Triple.atomic
  rintro ⟨state, ghost⟩ choice value shared inv
    ⟨⟨member, calm⟩, free⟩ ran
  cases ran
  have keeps := call_keeps inv
    (.finish inv use mine
      ⟨calm.1.2, inv.unladen member mine other, free⟩) (.same inv)
  refine ⟨ghost, keeps.1, keeps.2, fun other remains => ?_, calm⟩
  rw [← mine]
  exact inv.one_use member remains

omit [DecidableEq A] in
/-- `insert_after` ends with its node used. -/
theorem endInsert_triple
    {handle : H}
    {session : Nat}
    (result : Option (Bool × Option A)) :
    Triple (protocol capacity) thread
      ((underway thread handle session false false).and
        (insertedNode thread session result))
      (endInsert thread handle result : Program A H T V Unit)
      fun _ => idle thread := by
  apply Triple.atomic
  rintro ⟨state, ghost⟩ choice value shared inv
    ⟨⟨⟨⟨⟨member, block, live⟩, still⟩, empty⟩, calm⟩, reached⟩ ran
  cases ran
  have finish :=
    CallChange.finish inv ⟨thread, some handle, false⟩ rfl
      ⟨calm.2, empty, inv.unheld member⟩
  have done : ∀ use ∈ state.uses.erase ⟨thread, some handle, false⟩,
      use.thread ≠ thread :=
    fun other remains => inv.one_use member remains
  have unrecorded := call_keeps inv finish (.same inv)
  match result, reached with
  | some (true, some node), reached =>
      have used : (ghost.stage node).Used := by
        have placed := inv.placed live reached
        have ok := inv.nodes node
        cases stage : ghost.stage node with
        | absent =>
            simp only [NodeOk, stage] at ok
            exact (placed ok.1).elim
        | owned other popped =>
            simp only [NodeOk, stage] at ok
            exact (placed ok.1).elim
        | _ =>
            trivial
      have book :
          BookChange thread state ghost
            (.inserted thread (node, state.life node) true :: state.events)
            ghost.erasing ghost.unreported :=
        { marks := rfl
          inserted := fun {caller other life} member => by
            rcases List.mem_cons.mp member with new | old
            · cases new
              exact .inr ⟨rfl, used⟩
            · exact .inl old
          ledger := inv.records.ledger.recordInsert _ _
          suffix := List.suffix_cons _ _
          others := fun _ => ⟨rfl, Iff.rfl⟩ }
      have keeps := call_keeps inv finish book
      exact ⟨ghost, keeps.1, keeps.2, done, calm, still⟩
  | some (true, none), _ =>
      exact ⟨ghost, unrecorded.1, unrecorded.2, done, calm, still⟩
  | some (false, node), _ =>
      exact ⟨ghost, unrecorded.1, unrecorded.2, done, calm, still⟩
  | none, _ =>
      exact ⟨ghost, unrecorded.1, unrecorded.2, done, calm, still⟩

omit [DecidableEq A] in
/-- `erase_after` ends and reports what it marked. -/
theorem endErase_triple
    {handle : H}
    {session : Nat}
    (result : Bool) :
    Triple (protocol capacity) thread
      (underway thread handle session true result)
      (endErase thread handle result : Program A H T V Unit)
      fun _ => idle thread := by
  apply Triple.atomic
  rintro ⟨state, ghost⟩ choice value shared inv
    ⟨⟨⟨⟨member, block, live⟩, busy, owed⟩, empty⟩, calm⟩ ran
  cases ran
  have finish :=
    CallChange.finish inv ⟨thread, some handle, false⟩ rfl
      ⟨calm.2, empty, inv.unheld member⟩
  have book :
      BookChange thread state ghost
        (.erased thread result :: state.events)
        (Function.update ghost.erasing thread false)
        (ghost.unreported.erase thread) :=
    { marks := rfl
      inserted := fun member => .inl (by simpa using member)
      ledger := inv.records.ledger.recordReturn busy owed
      suffix := List.suffix_cons _ _
      others := fun different => ⟨by simp [different], by simp [different]⟩ }
  have keeps := call_keeps inv finish book
  exact ⟨_, keeps.1, keeps.2,
    fun other remains => inv.one_use member remains, calm,
    by simp, by simp⟩

/-- What is left of a call brings the client back to rest. -/
theorem perform_triple
    (call : Call A H V)
    (live : Handle) :
    Triple (protocol capacity) thread
      (begun thread live call)
      (perform capacity thread live call : Program A H T V Unit)
      fun _ => idle thread := by
  cases call with
  | newHandle handle =>
      refine Triple.bind newHandle_triple fun _ =>
        (endUse_triple ⟨thread, some handle, true⟩ rfl
          (.inr rfl)).weaken fun _ inv known => ?_
      exact ⟨known, inv.unheld known.1⟩
  | refresh handle =>
      refine Triple.bind refresh_triple fun _ =>
        (endUse_triple ⟨thread, some handle, true⟩ rfl
          (.inr rfl)).weaken fun _ inv known => ?_
      exact ⟨known, inv.unheld known.1⟩
  | insertAfter handle anchor value =>
      exact Triple.bind initNode_triple fun result =>
        endInsert_triple result
  | eraseAfter handle anchor =>
      exact Triple.bind eraseAfter_triple fun result =>
        endErase_triple result
  | reclaim =>
      exact Triple.bind reclaim_triple fun _ =>
        endUse_triple _ rfl (.inl rfl)
  | _ =>
      exact Triple.pure fun _ _ known => known

/-- A client never breaks the protocol. -/
theorem client_triple :
    Triple (protocol capacity) thread
      (idle thread)
      (client capacity thread : Program A H T V Unit)
      fun _ => .pure True := by
  refine Triple.loop
    (fun _ => ?_ : ∀ _ : Unit, Triple (protocol capacity) thread
      (idle thread) _ _)
  refine Triple.bind pick_triple fun picked => ?_
  refine Triple.bind (perform_triple picked.1 picked.2) fun _ => ?_
  exact Triple.ret fun _ _ known => known

end Client

end ConcurrentCpp.LockFreeListRCU
