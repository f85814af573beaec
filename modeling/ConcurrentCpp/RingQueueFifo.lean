import ConcurrentCpp.RingQueueRuns

namespace ConcurrentCpp.RingQueue

/-!
# What the key-value ring queue delivers

The pops take the pairs of the pushes in order, and no value is lost or
destroyed twice: what its pop does not destroy, the destructor does.
-/

variable {K V T : Type} [DecidableEq T] {config : Config K}

section Lives

/-- The values constructed in a slot. -/
def constructions
    (slot : Nat) :
    List (Event K V T) → Nat
  | [] => 0
  | .built _ place _ :: earlier =>
      constructions slot earlier + if place = slot then 1 else 0
  | _ :: earlier => constructions slot earlier

/-- The values moved out of a slot. -/
def moves
    (slot : Nat) :
    List (Event K V T) → Nat
  | [] => 0
  | .moved _ place _ :: earlier =>
      moves slot earlier + if place = slot then 1 else 0
  | _ :: earlier => moves slot earlier

/-- The values of a slot destroyed by their pop. -/
def destructions
    (slot : Nat) :
    List (Event K V T) → Nat
  | [] => 0
  | .destroyed _ place :: earlier =>
      destructions slot earlier + if place = slot then 1 else 0
  | _ :: earlier => destructions slot earlier

/-- The values of a slot destroyed by the destructor. -/
def drains
    (slot : Nat) :
    List (Event K V T) → Nat
  | [] => 0
  | .drained place :: earlier =>
      drains slot earlier + if place = slot then 1 else 0
  | _ :: earlier => drains slot earlier

/-- A built value that has not been moved out. -/
def Life.builtCount : Life V → Nat
  | .built _ => 1
  | _ => 0

/-- A value that has been moved out and not been destroyed. -/
def Life.huskCount : Life V → Nat
  | .husk => 1
  | _ => 0

/--
Every constructed value is moved out once, destroyed by the destructor once or
still there; every moved value is destroyed once or about to be.
-/
theorem Legal.balance
    {events : List (Event K V T)}
    (legal : Legal config events)
    (slot : Nat) :
    constructions slot events =
        moves slot events + drains slot events +
          (life slot events).builtCount ∧
      moves slot events =
        destructions slot events + (life slot events).huskCount := by
  induction events with
  | nil =>
      exact ⟨rfl, rfl⟩
  | cons event earlier inductionHypothesis =>
      obtain ⟨allowed, legalEarlier⟩ := legal
      obtain ⟨built, moved⟩ := inductionHypothesis legalEarlier
      cases event with
      | building thread place =>
          by_cases same : place = slot
          · subst same
            rw [allowed.2] at built moved
            simp only [Life.builtCount, Life.huskCount] at built moved
            simp [constructions, moves, drains, destructions, life,
              Life.builtCount, Life.huskCount, built, moved]
          · simpa [constructions, moves, drains, destructions, life, same]
              using And.intro built moved
      | built thread place value =>
          by_cases same : place = slot
          · subst same
            rw [allowed.2] at built moved
            simp only [Life.builtCount, Life.huskCount] at built moved
            simp [constructions, moves, drains, destructions, life,
              Life.builtCount, Life.huskCount, built, moved]
          · simpa [constructions, moves, drains, destructions, life, same]
              using And.intro built moved
      | moved thread place value =>
          by_cases same : place = slot
          · subst same
            obtain ⟨_, living, found, isBuilt⟩ := allowed
            rw [living, isBuilt] at built moved
            simp only [Life.builtCount, Life.huskCount] at built moved
            simp only [constructions, moves, drains, destructions, life,
              Life.builtCount, Life.huskCount, ↓reduceIte]
            omega
          · simpa [constructions, moves, drains, destructions, life, same]
              using And.intro built moved
      | destroyed thread place =>
          by_cases same : place = slot
          · subst same
            rw [allowed.2] at built moved
            simp only [Life.builtCount, Life.huskCount] at built moved
            simp [constructions, moves, drains, destructions, life,
              Life.builtCount, Life.huskCount, built, moved]
          · simpa [constructions, moves, drains, destructions, life, same]
              using And.intro built moved
      | drained place =>
          by_cases same : place = slot
          · subst same
            obtain ⟨_, found, isBuilt⟩ := allowed
            rw [isBuilt] at built moved
            simp only [Life.builtCount, Life.huskCount] at built moved
            simp only [constructions, moves, drains, destructions, life,
              Life.builtCount, Life.huskCount, ↓reduceIte]
            omega
          · simpa [constructions, moves, drains, destructions, life, same]
              using And.intro built moved
      | _ =>
          exact ⟨built, moved⟩

end Lives

section Destructor

/-- The destructor's loop over the numbers that are left. -/
theorem drain_spec
    {fuel : Nat}
    (left first : Nat)
    (state : State K V T)
    (enough : left ≤ fuel)
    (lap : left ≤ config.size.slots)
    (ends : state.tail = BitVec.ofNat 64 (first + left))
    (legal : Legal config state.events)
    (lives : ∀ slot, life slot state.events = state.value slot)
    (built :
      ∀ number,
        first ≤ number →
        number < first + left →
        owner (number % config.size.slots) state.events = none ∧
          ∃ value,
            state.value (number % config.size.slots) = .built value) :
    ∃ final,
      drain config fuel (BitVec.ofNat 64 first) state = some final ∧
        Legal config final.events ∧
        (∀ slot, life slot final.events = final.value slot) ∧
        (∀ slot, state.value slot = .raw → final.value slot = .raw) ∧
        ∀ number,
          first ≤ number →
          number < first + left →
          final.value (number % config.size.slots) = .raw := by
  induction left generalizing fuel first state with
  | zero =>
      refine ⟨state, ?_, legal, lives, fun _ raw => raw, fun _ _ _ => by
        omega⟩
      have done : BitVec.ofNat 64 first = state.tail := ends.symm
      cases fuel <;> simp [drain, done]
  | succ left inductionHypothesis =>
      have small := config.size.slots_lt
      obtain ⟨fuel, rfl⟩ : ∃ fewer, fuel = fewer + 1 :=
        ⟨fuel - 1, by omega⟩
      have notDone : BitVec.ofNat 64 first ≠ state.tail := by
        rw [ends]
        intro same
        have := ofNat_inj_near (by omega) (by omega) same
        omega
      obtain ⟨unowned, value, alive⟩ :=
        built first (Nat.le_refl _) (by omega)
      let slot := first % config.size.slots
      have others :
          ∀ number,
            first < number →
            number < first + (left + 1) →
            number % config.size.slots ≠ slot := by
        intro number above below same
        have := eq_of_mod_eq (Nat.le_of_lt above) (by omega) same.symm
        omega
      obtain ⟨final, ran, legalFinal, livesFinal, rawFinal, drained⟩ :=
        inductionHypothesis (first + 1) (drainValue slot state)
          (Nat.le_of_succ_le_succ enough) (by omega)
          (ends.trans (by congr 1; omega))
          ⟨⟨unowned, value, (lives slot).trans alive⟩, legal⟩
          (fun place => by
            by_cases same : slot = place
            · subst same
              simp [drainValue, State.record, life]
            · simp [drainValue, State.record, life, same, lives place,
                Function.update_of_ne (Ne.symm same)])
          (fun number above below => by
            have different := others number (by omega) (by omega)
            obtain ⟨free, kept, stays⟩ :=
              built number (by omega) (by omega)
            refine ⟨free, kept, ?_⟩
            simp only [drainValue, State.record,
              Function.update_of_ne different]
            exact stays)
      refine ⟨final, ?_, legalFinal, livesFinal, fun place raw => ?_,
        fun number above below => ?_⟩
      · have next : BitVec.ofNat 64 first + 1 = BitVec.ofNat 64 (first + 1) :=
          (BitVec.ofNat_add first 1).symm
        rw [drain, if_neg notDone, RingSize.slotOf_ofNat, next]
        exact ran
      · refine rawFinal place ?_
        simp only [drainValue, State.record, Function.update_apply, raw]
        split <;> rfl
      · by_cases same : number = first
        · subst same
          exact rawFinal slot (by simp [drainValue, State.record])
        · exact drained number (by omega) (by omega)

end Destructor

section Results

variable {state : State K V T} {ghost : Ghost K V T}

/-- Between calls nobody owns a slot and no claim is pending. -/
theorem at_rest
    (inv : Invariant config (state, ghost))
    (quiet : ∀ thread, inside thread state.events = false) :
    (∀ slot < config.size.slots, (ghost.stage slot).owner = none) ∧
      ghost.tail = ghost.tailIndex ∧ ghost.head = ghost.headIndex := by
  have unowned :
      ∀ slot < config.size.slots, (ghost.stage slot).owner = none := by
    intro slot inRange
    cases owned : (ghost.stage slot).owner with
    | none =>
        rfl
    | some thread =>
        have busy := inv.working slot inRange owned
        simp [quiet thread] at busy
  have inRange := fun number =>
    Nat.mod_lt number config.size.slots_pos
  refine ⟨unowned, ?_, ?_⟩
  · rcases tail_cases inv with tail | ⟨_, _, _, stage, _⟩
    · exact tail
    · have none := unowned _ (inRange ghost.tailIndex)
      rw [stage] at none
      cases none
  · rcases head_cases inv with head | ⟨_, _, _, stage, _⟩
    · exact head
    · have none := unowned _ (inRange ghost.headIndex)
      rw [stage] at none
      cases none

/-- Between calls every number between the indices holds a built value. -/
theorem built_between
    (inv : Invariant config (state, ghost))
    (quiet : ∀ thread, inside thread state.events = false)
    {number : Nat}
    (above : ghost.head ≤ number)
    (below : number < ghost.tail) :
    owner (number % config.size.slots) state.events = none ∧
      ∃ value,
        state.value (number % config.size.slots) = .built value := by
  have inRange : number % config.size.slots < config.size.slots :=
    Nat.mod_lt _ config.size.slots_pos
  have bounded : ghost.tail ≤ ghost.head + config.size.slots := inv.bounded
  have unowned := (at_rest inv quiet).1 _ inRange
  have fits := inv.fits _ inRange
  simp only at fits
  refine ⟨(inv.owner _ inRange).trans unowned, ?_⟩
  cases stage : ghost.stage (number % config.size.slots) with
  | free served =>
      simp only [stage, Stage.Fits] at fits
      have := eq_of_mod_eq (by omega) (by omega) fits.1.symm
      omega
  | filling served thread key value =>
      rw [stage] at unowned
      cases unowned
  | full served key value =>
      exact ⟨value, (inv.full _ inRange stage).2⟩
  | draining served thread key value =>
      rw [stage] at unowned
      cases unowned

/-- Between calls a slot is empty unless its number is between the indices. -/
theorem raw_or_between
    (inv : Invariant config (state, ghost))
    (quiet : ∀ thread, inside thread state.events = false)
    {slot : Nat}
    (inRange : slot < config.size.slots) :
    state.value slot = .raw ∨
      ∃ number,
        ghost.head ≤ number ∧ number < ghost.tail ∧
          number % config.size.slots = slot := by
  have unowned := (at_rest inv quiet).1 slot inRange
  have fits := inv.fits slot inRange
  simp only at fits
  cases stage : ghost.stage slot with
  | free number =>
      exact .inl (inv.free slot inRange stage)
  | filling number thread key value =>
      rw [stage] at unowned
      cases unowned
  | full number key value =>
      simp only [stage, Stage.Fits] at fits
      exact .inr ⟨number, fits.2.1, fits.2.2, fits.1⟩
  | draining number thread key value =>
      rw [stage] at unowned
      cases unowned

/-- What the clients are promised in a state. -/
structure Delivered
    (config : Config K)
    (state : State K V T) : Prop where
  /-- The pops have taken the first pairs of the pushes, in order. -/
  order :
    pops state.events <+:
      (pushes state.events).map fun pair => (pair.1, Life.built pair.2)
  /--
  Values are built, moved and destroyed by the owner of their slot, each in
  its turn; a push that fails has constructed nothing and a pop that returns
  `Key{}` has moved nothing.
  -/
  legal : Legal config state.events
  /-- No value is moved out or destroyed more often than constructed. -/
  counts :
    ∀ slot,
      moves slot state.events ≤ constructions slot state.events ∧
        destructions slot state.events + drains slot state.events ≤
          constructions slot state.events
  /-- Between calls the destructor destroys exactly what is left. -/
  destructed :
    (∀ thread, inside thread state.events = false) →
      ∀ fuel,
        config.size.slots ≤ fuel →
        ∃ final,
          destruct config fuel state = some final ∧
            Legal config final.events ∧
            ∀ slot < config.size.slots,
              life slot final.events = .raw ∧
                constructions slot final.events =
                  destructions slot final.events +
                    drains slot final.events ∧
                moves slot final.events = destructions slot final.events

theorem Invariant.delivered
    (inv : Invariant config (state, ghost)) :
    Delivered config state where
  order := by
    have matched : pops state.events = _ := inv.matched
    rw [matched]
    exact (List.take_prefix _ _).map _
  legal := inv.legal
  counts slot := by
    obtain ⟨built, moved⟩ := Legal.balance inv.legal slot
    simp only at built moved
    omega
  destructed quiet fuel enough := by
    obtain ⟨_, tail, head⟩ := at_rest inv quiet
    have ordered : ghost.head ≤ ghost.tail := inv.ordered
    have bounded : ghost.tail ≤ ghost.head + config.size.slots :=
      inv.bounded
    have tailWord : state.tail = BitVec.ofNat 64 ghost.tailIndex :=
      inv.tailWord
    have headWord : state.head = BitVec.ofNat 64 ghost.headIndex :=
      inv.headWord
    have span : ghost.head + (ghost.tail - ghost.head) = ghost.tail := by
      omega
    obtain ⟨final, ran, legal, lives, rawFinal, drained⟩ :=
      drain_spec (ghost.tail - ghost.head) ghost.head state
        (show ghost.tail - ghost.head ≤ fuel by omega) (by omega)
        (by rw [span, tail, tailWord]) inv.legal inv.life
        (fun number above below =>
          built_between inv quiet above (by omega))
    refine ⟨final, ?_, legal, fun slot inRange => ?_⟩
    · rw [destruct, headWord, ← head]
      exact ran
    · have raw : RingQueue.life slot final.events = .raw := by
        rw [lives slot]
        rcases raw_or_between inv quiet inRange with
          raw | ⟨number, above, below, rfl⟩
        · exact rawFinal slot raw
        · exact drained number above (by omega)
      obtain ⟨built, moved⟩ := Legal.balance legal slot
      rw [raw] at built moved
      simp only [Life.builtCount, Life.huskCount] at built moved
      exact ⟨raw, by omega, by omega⟩

/--
In every reachable state the queue has lost, duplicated and reordered
nothing, and its destructor can finish the job.
-/
theorem delivers_in_order
    [DecidableEq K]
    (config : Config K)
    {pool : Pool (State K V T) (Choice K V) T}
    (reached : (initialPool config).Reaches pool) :
    Delivered config pool.shared := by
  obtain ⟨needed, runs⟩ := Covered.reaches reached
  obtain ⟨ghost, coveredPool, _⟩ := runs (covered config (0 + needed))
  exact coveredPool.1.delivered

/-- Two pushes, the second one after the wrap of the index. -/
def pushTwice : List (Bool × Choice Nat Nat) :=
  [(false, Choice.proceed), (false, .call (.push 7 70))] ++
    List.replicate 14 (false, Choice.proceed) ++
    [(false, Choice.call (.push 8 80))] ++
    List.replicate 13 (false, Choice.proceed)

/-- Another thread pops the first of them. -/
def pushTwicePopOnce : List (Bool × Choice Nat Nat) :=
  pushTwice ++ [(true, Choice.proceed), (true, .call .pop)] ++
    List.replicate 15 (true, Choice.proceed)

/-- The pop takes the value before the wrap, the destructor the one behind. -/
theorem delivers_in_order_wrap :
    ∃ pool : Pool (State Nat Nat Bool) (Choice Nat Nat) Bool,
      (initialPool wrapConfig).run pushTwicePopOnce = some pool ∧
        (pool.shared.head, pool.shared.tail) = (0, 1) ∧
        pushes pool.shared.events = [(7, 70), (8, 80)] ∧
        pops pool.shared.events = [(7, .built 70)] ∧
        Delivered wrapConfig pool.shared ∧
        (destruct wrapConfig 8 pool.shared).map
          (fun final => (drains 7 final.events, drains 0 final.events)) =
            some (0, 1) := by
  obtain ⟨pool, ran⟩ :
      ∃ pool : Pool (State Nat Nat Bool) (Choice Nat Nat) Bool,
        (initialPool wrapConfig).run pushTwicePopOnce = some pool :=
    ⟨_, rfl⟩
  refine ⟨pool, ran, ?_, ?_, ?_, delivers_in_order wrapConfig ⟨_, ran⟩, ?_⟩
  · cases ran
    rfl
  · cases ran
    rfl
  · cases ran
    rfl
  · cases ran
    rfl

end Results

end ConcurrentCpp.RingQueue
