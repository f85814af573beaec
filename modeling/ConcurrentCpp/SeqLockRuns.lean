import ConcurrentCpp.SeqLockProtocol

namespace ConcurrentCpp.SeqLock

/-!
# Runs of the sequence lock

Every step of every client keeps the protocol, so it holds along every run.
-/

variable {V T : Type} [DecidableEq T] {initial : V} {thread : T}

section Steps

variable {state : State V T}

/-- The exchange that takes the free lock. -/
theorem take_keeps
    (thread : T)
    (change : Change V)
    (inv : Invariant initial (state, Stage.free))
    (allowed :
      Allowed initial state.events
        (.locked thread change state.payload state.seq)) :
    let after : State V T :=
      ({ state with lock := true } : State V T).record
        (.locked thread change state.payload state.seq)
    let stage : Stage V T :=
      .held thread ⟨change, state.payload, state.seq⟩
    Invariant initial (after, stage) ∧
      Guarantee thread (state, .free) (after, stage) := by
  intro after stage
  have same : successes after.events = successes state.events := rfl
  refine ⟨?_, ?_⟩
  · exact
      { locked := rfl
        holding := by
          intro other acquired
          have nobody :
              holding other state.events ≠ some acquired := by
            intro held
            cases (inv.holding other acquired).mp held
          by_cases mine : thread = other
          · subst mine
            simp [after, stage, State.record, holding, Stage.holder]
          · simp [after, stage, State.record, holding, Stage.holder,
              mine, nobody]
        counter := inv.counter
        writing := inv.writing
        count := inv.count
        stage := ⟨inv.stage, rfl, rfl, by
          simp [Pending, after, State.record, successesWith, successes,
            Function.update_idem]⟩
        lawful := ⟨allowed, inv.lawful⟩
        released := inv.released
        unlocked := fun _ _ _ _ shape => by cases shape }
  · exact
      { position := Nat.le_refl _
        successes := List.prefix_rfl
        holder := fun _ _ _ held => by cases held
        own := ⟨[_], rfl, by simp [Event.thread]⟩ }

/-- The store that frees the lock. -/
theorem release_keeps
    {stage : Stage V T}
    {acquired : Acquired V}
    (inv : Invariant initial (state, stage))
    (mine : stage.holder = some (thread, acquired))
    (closed : stage.odd = false)
    (current :
      generation initial state.events (completed state.events) =
        some state.payload)
    (outcome : acquired.Outcome state.payload state.seq)
    (allowed : calling thread state.events ≠ none) :
    let after : State V T :=
      ({ state with lock := false } : State V T).record
        (.unlocked thread state.payload state.seq)
    Invariant initial (after, Stage.free) ∧
      Guarantee thread (state, stage) (after, .free) := by
  intro after
  refine ⟨?_, ?_⟩
  · exact
      { locked := rfl
        holding := by
          intro other acquiredOther
          have only :
              thread ≠ other →
                holding other state.events ≠ some acquiredOther := by
            intro different held
            have same := (inv.holding other acquiredOther).mp held
            rw [mine] at same
            cases same
            exact different rfl
          by_cases same : thread = other
          · simp [after, State.record, holding, Stage.holder, same]
          · simp [after, State.record, holding, Stage.holder, same,
              only same]
        counter := inv.counter
        writing := inv.writing.trans closed
        count := inv.count
        stage := current
        lawful := ⟨allowed, inv.lawful⟩
        released :=
          ⟨⟨acquired, (inv.holding thread acquired).mpr mine, outcome⟩,
            inv.released⟩
        unlocked := fun _ _ _ _ shape => by
          cases shape
          exact ⟨rfl, rfl, rfl⟩ }
  · exact
      { position := Nat.le_refl _
        successes := List.prefix_rfl
        holder := fun other _ different held => by
          rw [mine] at held
          cases held
          exact absurd rfl different
        own := ⟨[_], rfl, by simp [Event.thread]⟩ }

/-- The store that opens a write. -/
theorem open_keeps
    {acquired : Acquired V}
    {value : V}
    (inv : Invariant initial (state, Stage.held thread acquired))
    (changed : acquired.change acquired.payload = some value)
    (allowed : calling thread state.events ≠ none) :
    let after : State V T :=
      ({ state with seq := acquired.seq + 1 } : State V T).record
        (.opened thread)
    let stage : Stage V T := .opened thread acquired value
    Invariant initial (after, stage) ∧
      Guarantee thread (state, .held thread acquired) (after, stage) := by
  intro after stage
  obtain ⟨current, payload, seq, pending⟩ := inv.stage
  have even : writing state.events = false := inv.writing
  have counter : acquired.seq = BitVec.ofNat 64 (position state.events) :=
    seq.symm.trans inv.counter
  have next : position after.events = position state.events + 1 := by
    simp [after, State.record, position, completed, writing, even]
  refine ⟨?_, ?_⟩
  · exact
      { locked := inv.locked
        holding := inv.holding
        counter := by
          rw [next, BitVec.ofNat_add, ← counter]
          rfl
        writing := rfl
        count := inv.count
        stage := ⟨current, payload, rfl, changed, pending⟩
        lawful := ⟨allowed, inv.lawful⟩
        released := inv.released
        unlocked := fun _ _ _ _ shape => by cases shape }
  · exact
      { position := by
          have le : position state.events ≤ position after.events := by
            omega
          exact le
        successes := List.prefix_rfl
        holder := fun other _ different held => by
          cases held
          exact absurd rfl different
        own := ⟨[_], rfl, by simp [Event.thread]⟩ }

/-- The store of the payload. -/
theorem put_keeps
    {acquired : Acquired V}
    {value : V}
    (inv : Invariant initial (state, Stage.opened thread acquired value))
    (allowed : calling thread state.events ≠ none) :
    let after : State V T :=
      ({ state with payload := value } : State V T).record
        (.stored thread)
    let stage : Stage V T := .stored thread acquired value
    Invariant initial (after, stage) ∧
      Guarantee thread (state, .opened thread acquired value)
        (after, stage) := by
  intro after stage
  obtain ⟨current, _, seq, changed, pending⟩ := inv.stage
  refine ⟨?_, ?_⟩
  · exact
      { locked := inv.locked
        holding := inv.holding
        counter := inv.counter
        writing := inv.writing
        count := inv.count
        stage := ⟨current, rfl, seq, changed, pending⟩
        lawful := ⟨allowed, inv.lawful⟩
        released := inv.released
        unlocked := fun _ _ _ _ shape => by cases shape }
  · exact
      { position := Nat.le_refl _
        successes := List.prefix_rfl
        holder := fun other _ different held => by
          cases held
          exact absurd rfl different
        own := ⟨[_], rfl, by simp [Event.thread]⟩ }

/-- The store that closes a write. -/
theorem close_keeps
    {acquired : Acquired V}
    {value : V}
    (inv : Invariant initial (state, Stage.stored thread acquired value))
    (allowed : calling thread state.events ≠ none) :
    let after : State V T :=
      ({ state with seq := acquired.seq + 1 + 1 } : State V T).record
        (.closed thread)
    let stage : Stage V T := .closed thread acquired value
    Invariant initial (after, stage) ∧
      Guarantee thread (state, .stored thread acquired value)
        (after, stage) := by
  intro after stage
  obtain ⟨current, payload, seq, changed, pending⟩ := inv.stage
  have odd : writing state.events = true := inv.writing
  have counter :
      acquired.seq + 1 = BitVec.ofNat 64 (position state.events) :=
    seq.symm.trans inv.counter
  have next : position after.events = position state.events + 1 := by
    simp [after, State.record, position, completed, writing, odd]
    omega
  have grows :
      successes after.events =
        successes state.events ++ [acquired.change] := pending
  have grown : successes state.events <+: successes after.events :=
    ⟨_, grows.symm⟩
  refine ⟨?_, ?_⟩
  · exact
      { locked := inv.locked
        holding := inv.holding
        counter := by
          rw [next, BitVec.ofNat_add, ← counter]
          rfl
        writing := rfl
        count := by
          rw [grows]
          simp [after, State.record, completed, inv.count]
        stage :=
          ⟨generation_closed pending inv.count current changed, payload,
            BitVec.add_assoc acquired.seq 1 1, changed⟩
        lawful := ⟨allowed, inv.lawful⟩
        released := inv.released
        unlocked := fun _ _ _ _ shape => by cases shape }
  · exact
      { position := by
          have le : position state.events ≤ position after.events := by
            omega
          exact le
        successes := grown
        holder := fun other _ different held => by
          cases held
          exact absurd rfl different
        own := ⟨[_], rfl, by simp [Event.thread]⟩ }

/-- A client begins or ends a call. -/
theorem note_keeps
    {stage : Stage V T}
    {event : Event V T}
    (inv : Invariant initial (state, stage))
    (notes :
      (∃ call, event = .called thread call) ∨
        ∃ call result, event = .returned thread call result)
    (allowed : Allowed initial state.events event) :
    Invariant initial (state.record event, stage) ∧
      Guarantee thread (state, stage) (state.record event, stage) := by
  rcases notes with ⟨call, rfl⟩ | ⟨call, result, rfl⟩
  · exact
      ⟨{ inv with
          stage := by
            cases stage <;> exact inv.stage
          lawful := ⟨allowed, inv.lawful⟩
          unlocked := fun _ _ _ _ shape => by cases shape },
        { position := Nat.le_refl _
          successes := List.prefix_rfl
          holder := fun _ _ _ _ => rfl
          own := ⟨[_], rfl, by simp [Event.thread]⟩ }⟩
  · exact
      ⟨{ inv with
          stage := by
            cases stage <;> exact inv.stage
          lawful := ⟨allowed, inv.lawful⟩
          unlocked := fun _ _ _ _ shape => by cases shape },
        { position := Nat.le_refl _
          successes := List.prefix_rfl
          holder := fun _ _ _ _ => rfl
          own := ⟨[_], rfl, by simp [Event.thread]⟩ }⟩

end Steps

section Assertions

/-- The thread holds the lock and is at this stage. -/
def atStage
    (stage : Stage V T)
    (acquired : Acquired V)
    (mine : stage.holder = some (thread, acquired)) :
    Assertion (protocol initial) thread where
  holds world := world.2 = stage
  stable {other world after} different _ _ guarantee known := by
    have kept := guarantee.holder thread acquired (Ne.symm different)
      (by rw [known]; exact mine)
    exact kept.trans known

/-- A step of another thread leaves the call of a thread as it is. -/
theorem Guarantee.call
    {world after : State V T × Stage V T}
    {other : T}
    (guarantee : Guarantee other world after)
    (different : other ≠ thread) :
    calling thread after.1.events = calling thread world.1.events ∧
      session thread after.1.events = session thread world.1.events ∧
      begun thread after.1.events = begun thread world.1.events := by
  obtain ⟨recent, grown, own⟩ := guarantee.own
  rw [grown]
  refine call_append (fun event member => ?_) _
  rw [own event member]
  exact different

/-- The thread is in no call. -/
def resting : Assertion (protocol initial) thread where
  holds world := calling thread world.1.events = none
  stable different _ _ guarantee known :=
    (guarantee.call different).1.trans known

/-- The thread is in a call and has made these steps of it. -/
def doing
    (call : Call V)
    (steps : List (Event V T)) :
    Assertion (protocol initial) thread where
  holds world :=
    calling thread world.1.events = some call ∧
      session thread world.1.events = steps
  stable different _ _ guarantee known :=
    ⟨(guarantee.call different).1.trans known.1,
      (guarantee.call different).2.1.trans known.2⟩

/-- The counter has been at this even value since the call began. -/
def sawEven
    (index : Nat) :
    Assertion (protocol initial) thread where
  holds world :=
    begun thread world.1.events ≤ index ∧
      2 * index ≤ position world.1.events
  stable different _ _ guarantee known :=
    ⟨(guarantee.call different).2.2 ▸ known.1,
      known.2.trans guarantee.position⟩

/-- A payload that was read stays the payload of its even counter value. -/
theorem payload_stable
    {world after : State V T × Stage V T}
    {other : T}
    {index : Nat}
    {value : V}
    (inv : (protocol initial).Inv world)
    (guarantee : (protocol initial).Guar other world after)
    (known :
      2 * index ≤ position world.1.events ∧
        (position world.1.events = 2 * index →
          generation initial world.1.events index = some value)) :
    2 * index ≤ position after.1.events ∧
      (position after.1.events = 2 * index →
        generation initial after.1.events index = some value) := by
  refine ⟨Nat.le_trans known.1 guarantee.position, fun unchanged => ?_⟩
  have before : position world.1.events = 2 * index := by
    have := guarantee.position
    have := known.1
    omega
  have done : index ≤ completed world.1.events := by
    have := Bool.toNat_le (writing world.1.events)
    simp only [position] at before
    omega
  rw [Invariant.generation_eq inv guarantee done]
  exact known.2 before

/-- The payload was read while the counter had been at this even value. -/
def sawPayload
    (index : Nat)
    (value : V) :
    Assertion (protocol initial) thread where
  holds world :=
    begun thread world.1.events ≤ index ∧
      2 * index ≤ position world.1.events ∧
      (position world.1.events = 2 * index →
        generation initial world.1.events index = some value)
  stable different inv _ guarantee known :=
    ⟨(guarantee.call different).2.2 ▸ known.1,
      payload_stable inv guarantee known.2⟩

/-- What was current in a call stays so. -/
theorem Current.stable
    {world after : State V T × Stage V T}
    {other : T}
    {index : Nat}
    {value : V}
    (inv : Invariant initial world)
    (guarantee : Guarantee other world after)
    (different : other ≠ thread)
    (current : Current initial thread world.1.events index value) :
    Current initial thread after.1.events index value := by
  obtain ⟨since, done, found⟩ := current
  refine ⟨(guarantee.call different).2.2 ▸ since,
    done.trans (completed_le guarantee.position), ?_⟩
  rw [inv.generation_eq guarantee done]
  exact found

/-- The call has found its result, if the counter has not wrapped. -/
def found
    (result : Result V) :
    Assertion (protocol initial) thread where
  holds world :=
    completed world.1.events < 2 ^ 63 →
      Found initial thread world.1.events result
  stable different inv _ guarantee known small := by
    have before :=
      known ((completed_le guarantee.position).trans_lt small)
    cases result with
    | value value =>
        obtain ⟨index, current⟩ := before
        exact ⟨index, current.stable inv guarantee different⟩
    | snapshot value seq =>
        obtain ⟨index, even, current⟩ := before
        exact ⟨index, even, current.stable inv guarantee different⟩
    | done =>
        trivial
    | threw =>
        trivial

end Assertions

section Calls

omit [DecidableEq T] in
/-- An even counter. -/
theorem even_of_and
    {number : Nat}
    (even : BitVec.ofNat 64 number &&& 1#64 = 0#64) :
    number % 2 = 0 := by
  have bits := congrArg BitVec.toNat even
  simp only [BitVec.toNat_and, BitVec.toNat_ofNat] at bits
  rw [Nat.mod_eq_of_lt (by decide : 1 < 2 ^ 64), Nat.and_one_is_mod,
    Nat.mod_mod_of_dvd _ (by decide)] at bits
  exact bits

variable {call : Call V}

/-- The thread is at a stage of its write and has made these steps. -/
def writes
    (call : Call V)
    (stage : Stage V T)
    (acquired : Acquired V)
    (mine : stage.holder = some (thread, acquired))
    (steps : List (Event V T)) :
    Assertion (protocol initial) thread :=
  (atStage stage acquired mine).and
    (doing call
      (steps ++
        [.locked thread acquired.change acquired.payload acquired.seq]))

/-- The call has made the steps that belong to its result. -/
def performed
    (call : Call V)
    (result : Result V) :
    Assertion (protocol initial) thread :=
  .any fun steps : { steps : List (Event V T) //
      Performs thread call result steps } =>
    doing call steps.1

theorem lock_triple
    {change : Change V}
    (changes : call.change = some change) :
    Triple (protocol initial) thread (doing call [])
      (lock thread change)
      fun _ => Assertion.any fun acquired : { acquired : Acquired V //
          acquired.change = change } =>
        writes call (.held thread acquired.1) acquired.1 rfl [] := by
  apply SpinLock.lock_triple
  apply SpinLock.attempt_triple
  apply SpinLock.exchange_triple
  · intro state held
    exact congrArg (fun lock => { state with lock }) held.symm
  · rintro ⟨state, stage⟩ inv ⟨inCall, nothing⟩ unlocked
    have free : stage = .free := by
      have none := inv.locked.symm.trans unlocked
      cases stage <;> first | rfl | cases none
    subst free
    have keeps :=
      take_keeps thread change inv ⟨call, inCall, changes, nothing⟩
    refine ⟨_, keeps.1, keeps.2,
      ⟨⟨change, state.payload, state.seq⟩, rfl⟩, rfl, ?_, ?_⟩
    · exact inCall
    · simp only [State.record, session, Event.thread, ↓reduceIte]
      exact congrArg _ nothing

/-- The unlock after a callable that threw. -/
theorem unlock_threw
    {acquired : Acquired V}
    (threw : acquired.change acquired.payload = none) :
    Triple (protocol initial) thread
      (writes call (.held thread acquired) acquired rfl [])
      (unlock thread)
      fun _ =>
        .any fun steps : { steps : List (Event V T) //
            Threw thread acquired.change steps } =>
          doing call steps.1 := by
  apply Triple.atomic
  rintro ⟨state, stage⟩ choice value shared inv ⟨rfl, inCall, done⟩ ran
  cases ran
  obtain ⟨current, payload, seq, _⟩ := inv.stage
  have keeps := release_keeps inv rfl rfl
    (by rw [payload]; exact current)
    (by simpa [Acquired.Outcome, threw] using ⟨payload, seq⟩)
    (by rw [inCall]; simp)
  have before : session thread state.events =
      [.locked thread acquired.change state.payload state.seq] := by
    rw [show state.payload = acquired.payload from payload,
      show state.seq = acquired.seq from seq]
    exact done
  refine ⟨_, keeps.1, keeps.2,
    ⟨_, state.payload, state.seq, payload ▸ threw, rfl⟩, inCall, ?_⟩
  simp only [State.record, session, Event.thread, ↓reduceIte]
  exact congrArg _ before

/-- The unlock after a completed write. -/
theorem unlock_wrote
    {acquired : Acquired V}
    {written : V} :
    Triple (protocol initial) thread
      (writes call (.closed thread acquired written) acquired rfl
        [.closed thread, .stored thread, .opened thread])
      (unlock thread)
      fun _ =>
        .any fun steps : { steps : List (Event V T) //
            Wrote thread acquired.change steps } =>
          doing call steps.1 := by
  apply Triple.atomic
  rintro ⟨state, stage⟩ choice value shared inv ⟨rfl, inCall, done⟩ ran
  cases ran
  obtain ⟨current, payload, seq, changed⟩ := inv.stage
  have keeps := release_keeps inv rfl rfl
    (by rw [payload]; exact current)
    (by simpa [Acquired.Outcome, changed] using ⟨payload, seq⟩)
    (by rw [inCall]; simp)
  have last :
      (.unlocked thread state.payload state.seq : Event V T) =
        .unlocked thread written (acquired.seq + 2) := by
    rw [show state.payload = written from payload,
      show state.seq = acquired.seq + 2 from seq]
  refine ⟨_, keeps.1, keeps.2,
    ⟨_, acquired.payload, acquired.seq, written, changed, rfl⟩, inCall, ?_⟩
  simp only [State.record, session, Event.thread, ↓reduceIte]
  exact congrArg₂ _ last done

/-- `begin_write()` returns the odd value now in the counter. -/
theorem beginWrite_triple
    {acquired : Acquired V}
    {value : V}
    (changed : acquired.change acquired.payload = some value) :
    Triple (protocol initial) thread
      (writes call (.held thread acquired) acquired rfl [])
      (beginWrite thread)
      fun oddSeq =>
        (Assertion.pure (oddSeq = acquired.seq + 1)).and
          (writes call (.opened thread acquired value) acquired rfl
            [.opened thread]) := by
  have loaded :
      Triple (protocol initial) thread
        (writes call (.held thread acquired) acquired rfl [])
        (loadSeq : Program V T (BitVec 64))
        fun seq =>
          (Assertion.pure (seq = acquired.seq)).and
            (writes call (.held thread acquired) acquired rfl []) := by
    apply Triple.read
    rintro ⟨state, stage⟩ inv ⟨rfl, known⟩
    exact ⟨inv.stage.2.2.1, rfl, known⟩
  have stored :
      Triple (protocol initial) thread
        (writes call (.held thread acquired) acquired rfl [])
        (Prog.write fun state : State V T =>
          ({ state with seq := acquired.seq + 1 } : State V T).record
            (.opened thread) : Program V T Unit)
        fun _ =>
          writes call (.opened thread acquired value) acquired rfl
            [.opened thread] := by
    apply Triple.atomic
    rintro ⟨state, stage⟩ choice result shared inv ⟨rfl, inCall, done⟩ ran
    cases ran
    have keeps := open_keeps inv changed (by rw [inCall]; simp)
    refine ⟨_, keeps.1, keeps.2, rfl, inCall, ?_⟩
    simp only [State.record, session, Event.thread, ↓reduceIte]
    exact congrArg _ done
  refine Triple.bind loaded fun seq => Triple.given ?_
  rintro rfl
  refine Triple.bind stored fun _ => ?_
  exact Triple.pure fun _ _ known => ⟨rfl, known⟩

theorem storePayload_triple
    {acquired : Acquired V}
    {value : V} :
    Triple (protocol initial) thread
      (writes call (.opened thread acquired value) acquired rfl
        [.opened thread])
      (storePayload thread value)
      fun _ =>
        writes call (.stored thread acquired value) acquired rfl
          [.stored thread, .opened thread] := by
  apply Triple.atomic
  rintro ⟨state, stage⟩ choice result shared inv ⟨rfl, inCall, done⟩ ran
  cases ran
  have keeps := put_keeps inv (by rw [inCall]; simp)
  refine ⟨_, keeps.1, keeps.2, rfl, inCall, ?_⟩
  simp only [State.record, session, Event.thread, ↓reduceIte]
  exact congrArg _ done

theorem endWrite_triple
    {acquired : Acquired V}
    {value : V} :
    Triple (protocol initial) thread
      (writes call (.stored thread acquired value) acquired rfl
        [.stored thread, .opened thread])
      (endWrite thread (acquired.seq + 1))
      fun _ =>
        writes call (.closed thread acquired value) acquired rfl
          [.closed thread, .stored thread, .opened thread] := by
  apply Triple.atomic
  rintro ⟨state, stage⟩ choice result shared inv ⟨rfl, inCall, done⟩ ran
  cases ran
  have keeps := close_keeps inv (by rw [inCall]; simp)
  refine ⟨_, keeps.1, keeps.2, rfl, inCall, ?_⟩
  simp only [State.record, session, Event.thread, ↓reduceIte]
  exact congrArg _ done

/-- `write(value)` under the lock. -/
theorem write_triple
    {acquired : Acquired V}
    {value : V}
    (changed : acquired.change acquired.payload = some value) :
    Triple (protocol initial) thread
      (writes call (.held thread acquired) acquired rfl [])
      (write thread value)
      fun _ =>
        writes call (.closed thread acquired value) acquired rfl
          [.closed thread, .stored thread, .opened thread] := by
  refine Triple.bind (beginWrite_triple changed) fun oddSeq =>
    Triple.given ?_
  rintro rfl
  refine Triple.bind storePayload_triple fun _ => ?_
  exact endWrite_triple

theorem store_triple
    (value : V) :
    Triple (protocol initial) thread (doing (.store value) [])
      (store thread value)
      fun _ => performed (.store value) .done := by
  refine Triple.bind (lock_triple rfl) fun _ => Triple.any ?_
  rintro ⟨acquired, constant⟩
  have changed : acquired.change acquired.payload = some value := by
    rw [constant]
  refine Triple.bind (write_triple changed) fun _ => ?_
  refine Triple.consequence unlock_wrote ?_
  rintro _ world _ ⟨⟨steps, wrote⟩, known⟩
  rw [constant] at wrote
  exact ⟨⟨steps, wrote⟩, known⟩

theorem update_triple
    (change : Change V) :
    Triple (protocol initial) thread (doing (.update change) [])
      (update thread change)
      fun wrote =>
        performed (.update change) (if wrote then .done else .threw) := by
  refine Triple.bind (lock_triple rfl) fun _ => Triple.any ?_
  rintro ⟨acquired, rfl⟩
  have loaded :
      Triple (protocol initial) thread
        (writes (.update acquired.change) (.held thread acquired) acquired
          rfl [])
        (loadPayload : Program V T V)
        fun current =>
          (Assertion.pure (current = acquired.payload)).and
            (writes (.update acquired.change) (.held thread acquired)
              acquired rfl []) := by
    apply Triple.read
    rintro ⟨state, stage⟩ inv ⟨rfl, known⟩
    exact ⟨inv.stage.2.1, rfl, known⟩
  refine Triple.bind loaded fun current => Triple.given ?_
  rintro rfl
  cases changed : acquired.change acquired.payload with
  | none =>
      refine Triple.bind (unlock_threw changed) fun _ => ?_
      exact Triple.pure fun _ _ known => known
  | some value =>
      refine Triple.bind (write_triple changed) fun _ => ?_
      refine Triple.bind unlock_wrote fun _ => ?_
      exact Triple.pure fun _ _ known => known

/-- The first load of an attempt. -/
theorem loadSeq_triple :
    Triple (protocol initial) thread (doing call [])
      (loadSeq : Program V T (BitVec 64))
      fun seq =>
        Assertion.any fun number : { number : Nat //
            seq = BitVec.ofNat 64 number } =>
          (doing call []).and
            (Assertion.all fun _ : number.1 % 2 = 0 =>
              sawEven (number.1 / 2)) := by
  apply Triple.read
  intro world inv known
  refine ⟨⟨_, inv.counter⟩, known, fun even => ?_⟩
  have bit := Bool.toNat_le (writing world.1.events)
  have began := begun_le_completed thread world.1.events
  have half : completed world.1.events =
      position world.1.events / 2 := by
    simp only [position]
    omega
  exact ⟨began.trans (Nat.le_of_eq half), Nat.mul_div_le _ _⟩

/-- The payload of an even position is the generation in place. -/
theorem payload_of_even
    {world : State V T × Stage V T}
    (inv : Invariant initial world)
    (closed : writing world.1.events = false) :
    generation initial world.1.events (completed world.1.events) =
      some world.1.payload := by
  obtain ⟨state, stage⟩ := world
  have odd : stage.odd = false := inv.writing.symm.trans closed
  have ok := inv.stage
  cases stage with
  | free =>
      exact ok
  | held thread acquired =>
      obtain ⟨current, payload, _⟩ := ok
      exact current.trans (congrArg some payload.symm)
  | opened thread acquired value =>
      cases odd
  | stored thread acquired value =>
      cases odd
  | closed thread acquired value =>
      obtain ⟨current, payload, _⟩ := ok
      exact current.trans (congrArg some payload.symm)

theorem loadPayload_triple
    (index : Nat) :
    Triple (protocol initial) thread
      ((doing call []).and (sawEven index))
      (loadPayload : Program V T V)
      fun value => (doing call []).and (sawPayload index value) := by
  apply Triple.read
  rintro world inv ⟨known, since, later⟩
  refine ⟨known, since, later, fun unchanged => ?_⟩
  have bit := Bool.toNat_le (writing world.1.events)
  simp only [position] at unchanged
  have none : (writing world.1.events).toNat = 0 := by omega
  have done : completed world.1.events = index := by omega
  rw [← done]
  exact payload_of_even inv (Bool.toNat_eq_zero.mp none)

/-- A snapshot whose counter has not changed is a generation. -/
theorem validated
    {world : State V T × Stage V T}
    {index : Nat}
    {value : V}
    (inv : Invariant initial world)
    (known :
      (sawPayload index value :
        Assertion (protocol initial) thread).holds world)
    (valid : world.1.seq = BitVec.ofNat 64 (2 * index))
    (small : completed world.1.events < 2 ^ 63) :
    Found initial thread world.1.events
      (.snapshot value (BitVec.ofNat 64 (2 * index))) := by
  obtain ⟨since, later, current⟩ := known
  have bit := Bool.toNat_le (writing world.1.events)
  have bound : position world.1.events < 2 ^ 64 := by
    simp only [position]
    omega
  have equal : position world.1.events = 2 * index := by
    have same := congrArg BitVec.toNat (inv.counter.symm.trans valid)
    simp only [BitVec.toNat_ofNat] at same
    rw [Nat.mod_eq_of_lt bound, Nat.mod_eq_of_lt (by omega)] at same
    exact same
  refine ⟨index, ?_, since, ?_, current equal⟩
  · rw [BitVec.toNat_ofNat]
    exact Nat.mod_eq_of_lt (by omega)
  · simp only [position] at equal
    omega

/-- The validating load of an attempt. -/
theorem validate_triple
    (call : Call V)
    (index : Nat)
    (value : V) :
    Triple (protocol initial) thread
      ((doing call []).and (sawPayload index value))
      (loadSeq : Program V T (BitVec 64))
      fun seq =>
        (doing call []).and
          (Assertion.all fun _ : seq = BitVec.ofNat 64 (2 * index) =>
            found
              (.snapshot value (BitVec.ofNat 64 (2 * index)))) := by
  apply Triple.read
  rintro world inv ⟨known, saw⟩
  exact ⟨known, fun valid small => validated inv saw valid small⟩

theorem loadValidated_triple :
    Triple (protocol initial) thread (doing call [])
      (loadValidated : Program V T (V × BitVec 64))
      fun snapshot =>
        (doing call []).and
          (found (.snapshot snapshot.1 snapshot.2)) := by
  refine Triple.loopWith (fun _ : Unit => doing call []) fun _ => ?_
  refine Triple.bind loadSeq_triple fun seq => Triple.any ?_
  rintro ⟨number, rfl⟩
  by_cases zero : BitVec.ofNat 64 number &&& 1#64 = 0#64
  · have even := even_of_and zero
    have half : number = 2 * (number / 2) := by omega
    simp only [zero, ↓reduceIte]
    refine Triple.bind
      ((loadPayload_triple (number / 2)).weaken
        fun _ _ known => ⟨known.1, known.2 even⟩) fun value => ?_
    rw [half]
    refine Triple.bind
      ((validate_triple call (number / 2) value).weaken
        fun _ _ known => ?_) fun seqAfter => ?_
    · simpa using known
    · by_cases valid : seqAfter = BitVec.ofNat 64 (2 * (number / 2))
      · simp only [valid, ↓reduceIte]
        exact Triple.ret fun _ _ known => ⟨known.1, known.2 valid⟩
      · simp only [valid, ↓reduceIte]
        exact Triple.ret fun _ _ known => known.1
  · simp only [zero, ↓reduceIte]
    exact Triple.ret fun _ _ known => known.1

theorem load_triple :
    Triple (protocol initial) thread (doing call [])
      (load : Program V T V)
      fun value =>
        (doing call []).and (found (.value value)) := by
  refine Triple.bind loadValidated_triple fun snapshot => ?_
  refine Triple.pure ?_
  rintro world _ ⟨known, snapshotFound⟩
  refine ⟨known, fun small => ?_⟩
  obtain ⟨index, _, current⟩ := snapshotFound small
  exact ⟨index, current⟩

/-- What a call does after it has begun. -/
theorem perform_triple
    (call : Call V) :
    Triple (protocol initial) thread (doing call [])
      (perform thread call)
      fun result => (performed call result).and (found result) := by
  cases call with
  | load =>
      refine Triple.bind load_triple fun value => ?_
      exact Triple.pure fun _ _ known => ⟨⟨⟨[], rfl⟩, known.1⟩, known.2⟩
  | loadValidated =>
      refine Triple.bind loadValidated_triple fun snapshot => ?_
      exact Triple.pure fun _ _ known => ⟨⟨⟨[], rfl⟩, known.1⟩, known.2⟩
  | store value =>
      refine Triple.bind (store_triple value) fun _ => ?_
      exact Triple.pure fun _ _ known => ⟨known, fun _ => trivial⟩
  | update change =>
      refine Triple.bind (update_triple change) fun wrote => ?_
      refine Triple.pure fun _ _ known => ⟨known, fun _ => ?_⟩
      cases wrote <;> trivial

/-- A client begins a call. -/
theorem pick_triple :
    Triple (protocol initial) thread resting
      (pick thread : Program V T (Call V))
      fun call => doing call [] := by
  apply Triple.atomic
  rintro ⟨state, stage⟩ choice call shared inv known ran
  cases choice with
  | proceed =>
      cases ran
  | call call =>
      cases ran
      have keeps := note_keeps inv (.inl ⟨call, rfl⟩) known
      refine ⟨_, keeps.1, keeps.2, ?_, ?_⟩
      · simp [State.record, calling]
      · simp [State.record, session]

/-- A client's call returns. -/
theorem return_triple
    (call : Call V)
    (result : Result V) :
    Triple (protocol initial) thread
      ((performed call result).and (found result))
      (Prog.write fun state =>
          state.record (.returned thread call result) :
        Program V T Unit)
      fun _ => resting := by
  apply Triple.atomic
  rintro ⟨state, stage⟩ choice value shared inv
    ⟨⟨⟨steps, performs⟩, inCall, done⟩, known⟩ ran
  cases ran
  have made : session thread state.events = steps := done
  have keeps :=
    note_keeps inv (.inr ⟨call, result, rfl⟩)
      ⟨inCall, made ▸ performs, known⟩
  refine ⟨_, keeps.1, keeps.2, ?_⟩
  show calling thread (.returned thread call result :: state.events) = none
  simp [calling]

theorem client_triple :
    Triple (protocol initial) thread resting
      (client thread : Program V T Unit)
      fun _ => .pure True := by
  refine Triple.loopWith (fun _ : Unit => resting) fun _ => ?_
  refine Triple.bind pick_triple fun call => ?_
  refine Triple.bind (perform_triple call) fun result => ?_
  refine Triple.bind (return_triple call result) fun _ => ?_
  exact Triple.ret fun _ _ known => known

end Calls

section Runs

/-- A new sequence lock satisfies the invariant. -/
theorem initial_inv :
    Invariant initial (State.initial initial, (Stage.free : Stage V T)) where
  locked := rfl
  holding _ _ :=
    ⟨fun held => (by cases held), fun held => (by cases held)⟩
  counter := rfl
  writing := rfl
  count := rfl
  stage := rfl
  lawful := trivial
  released := trivial
  unlocked _ _ _ _ shape := by cases shape

/-- Every run of clients keeps the protocol. -/
theorem covered
    (initial : V)
    (fuel : Nat) :
    Covered (protocol initial) fuel
      (initialPool initial : Pool (State V T) (Choice V) T) Stage.free :=
  covered_of_triples initial_inv
    (fun thread =>
      show calling thread ([] : List (Event V T)) = none from rfl)
    (fun _ => client_triple) fuel

/-- What the protocol promises its clients in a state. -/
structure Upheld
    (initial : V)
    (state : State V T) : Prop where
  /-- At most one thread is between its lock and its unlock. -/
  exclusive :
    ∀ first second,
      (holding first state.events).isSome →
      (holding second state.events).isSome →
      first = second
  /-- The lock is taken while somebody holds it, and only then. -/
  locked :
    state.lock = true ↔
      ∃ thread, (holding thread state.events).isSome
  /-- The counter is even while a generation is in place. -/
  even :
    ∀ index,
      state.seq.toNat = 2 * index ↔
        completed state.events = index ∧ writing state.events = false
  /-- The counter is odd while the next generation is being written. -/
  odd :
    ∀ index,
      state.seq.toNat = 2 * index + 1 ↔
        completed state.events = index ∧ writing state.events = true
  /-- The generation in place is in the payload. -/
  inPlace :
    writing state.events = false →
      generation initial state.events (completed state.events) =
        some state.payload
  /-- An open write is the holder's, on the generation before it. -/
  open_ :
    writing state.events = true →
      ∃ thread acquired value,
        holding thread state.events = some acquired ∧
          generation initial state.events (completed state.events) =
            some acquired.payload ∧
          acquired.change acquired.payload = some value ∧
          (state.payload = acquired.payload ∨ state.payload = value)
  /-- Every completed write made one generation. -/
  count : (successes state.events).length = completed state.events
  /-- A client begins a call when its last one has returned. -/
  called :
    ∀ later earlier thread call,
      state.events = later ++ .called thread call :: earlier →
      calling thread earlier = none
  /-- A call that writes takes the lock once, for its own change. -/
  locks :
    ∀ later earlier thread change payload seq,
      state.events = later ++ .locked thread change payload seq :: earlier →
      ∃ call,
        calling thread earlier = some call ∧
          call.change = some change ∧
          session thread earlier = []
  /--
  A client is told what its call did: a load found a generation in place
  since it began, whose number is in the counter; a write changed the payload
  and the counter under the lock and left the lock free; a throw changed
  nothing and left the lock free.
  -/
  returned :
    ∀ later earlier thread call result,
      state.events = later ++ .returned thread call result :: earlier →
      calling thread earlier = some call ∧
        Performs thread call result (session thread earlier) ∧
        Found initial thread earlier result
  /-- A release leaves one more generation, or nothing after a throw. -/
  released : Released state.events
  /-- After a release the lock is free and the words are as recorded. -/
  unlocked : UnlockedNow state

/-- The counter as a number. -/
private theorem counter_toNat
    {world : State V T × Stage V T}
    (inv : Invariant initial world)
    (bound : completed world.1.events < 2 ^ 63) :
    world.1.seq.toNat = position world.1.events := by
  have bit := Bool.toNat_le (writing world.1.events)
  rw [inv.counter, BitVec.toNat_ofNat]
  refine Nat.mod_eq_of_lt ?_
  simp only [position]
  omega

/-- The words and the history while a write is open. -/
private theorem open_write
    {world : State V T × Stage V T}
    (inv : Invariant initial world)
    (opened : SeqLock.writing world.1.events = true) :
    ∃ thread acquired value,
      SeqLock.holding thread world.1.events = some acquired ∧
        generation initial world.1.events (completed world.1.events) =
          some acquired.payload ∧
        acquired.change acquired.payload = some value ∧
        (world.1.payload = acquired.payload ∨ world.1.payload = value) := by
  obtain ⟨state, stage⟩ := world
  have odd : stage.odd = true := inv.writing.symm.trans opened
  have ok := inv.stage
  cases stage with
  | free =>
      cases odd
  | held thread acquired =>
      cases odd
  | opened thread acquired value =>
      obtain ⟨current, payload, _, changed, _⟩ := ok
      exact ⟨thread, acquired, value,
        (inv.holding thread acquired).mpr rfl, current, changed,
        .inl payload⟩
  | stored thread acquired value =>
      obtain ⟨current, payload, _, changed, _⟩ := ok
      exact ⟨thread, acquired, value,
        (inv.holding thread acquired).mpr rfl, current, changed,
        .inr payload⟩
  | closed thread acquired value =>
      cases odd

/-- The event at any position of the history was allowed there. -/
theorem Invariant.allowed
    {world : State V T × Stage V T}
    {later earlier : List (Event V T)}
    {event : Event V T}
    (inv : Invariant initial world)
    (shape : world.1.events = later ++ event :: earlier) :
    Allowed initial earlier event := by
  have lawful := inv.lawful
  rw [shape] at lawful
  exact lawful.at_event

/-- The invariant is what the clients are promised. -/
theorem Invariant.upheld
    {world : State V T × Stage V T}
    (inv : Invariant initial world)
    (bound : completed world.1.events < 2 ^ 63) :
    Upheld initial world.1 where
  exclusive first second := by
    simp only [Option.isSome_iff_exists]
    rintro ⟨left, heldFirst⟩ ⟨right, heldSecond⟩
    have same := ((inv.holding first left).mp heldFirst).symm.trans
      ((inv.holding second right).mp heldSecond)
    cases same
    rfl
  locked := by
    rw [inv.locked]
    simp only [Option.isSome_iff_exists]
    constructor
    · rintro ⟨⟨thread, acquired⟩, held⟩
      exact ⟨thread, acquired, (inv.holding thread acquired).mpr held⟩
    · rintro ⟨thread, acquired, held⟩
      exact ⟨_, (inv.holding thread acquired).mp held⟩
  even index := by
    rw [counter_toNat inv bound, position]
    cases SeqLock.writing world.1.events <;> simp
    omega
  odd index := by
    rw [counter_toNat inv bound, position]
    cases SeqLock.writing world.1.events <;> simp
    omega
  inPlace := payload_of_even inv
  open_ := open_write inv
  count := inv.count
  called later earlier thread call shape :=
    inv.allowed shape
  locks later earlier thread change payload seq shape :=
    inv.allowed shape
  returned later earlier thread call result shape := by
    obtain ⟨inCall, performs, known⟩ := inv.allowed shape
    have fewer :=
      completed_append (later ++ [.returned thread call result]) earlier
    rw [List.append_assoc, List.singleton_append, ← shape] at fewer
    exact ⟨inCall, performs, known (fewer.trans_lt bound)⟩
  released := inv.released
  unlocked := inv.unlocked

/--
With fewer than `2 ^ 63` completed writes the protocol is upheld in every
reachable state, and no generation ever changes.
-/
theorem generations_upheld
    (initial : V)
    {middle last : Pool (State V T) (Choice V) T}
    (reached : (initialPool initial).Reaches middle)
    (continued : middle.Reaches last)
    (bound : completed last.shared.events < 2 ^ 63) :
    Upheld initial last.shared ∧
      ∀ index ≤ completed middle.shared.events,
        generation initial last.shared.events index =
          generation initial middle.shared.events index := by
  obtain ⟨atMiddle, runsMiddle⟩ := Covered.reaches reached
  obtain ⟨atLast, runsLast⟩ := Covered.reaches continued
  obtain ⟨stage, coveredMiddle, _⟩ :=
    runsMiddle (covered initial (0 + atLast + atMiddle))
  obtain ⟨lastStage, coveredLast, evolves⟩ := runsLast coveredMiddle
  refine ⟨coveredLast.1.upheld bound, fun index done => ?_⟩
  refine (evolves.keeps
    (fun now =>
      index ≤ completed now.1.events ∧
        generation initial now.1.events index =
          generation initial middle.shared.events index)
    ⟨done, rfl⟩ ?_).2
  intro thread now next inv _ guarantee known
  exact ⟨known.1.trans (completed_le guarantee.position),
    (inv.generation_eq guarantee known.1).trans known.2⟩

/-- What the calls have returned, latest first. -/
def results : List (Event V T) → List (T × Result V)
  | [] => []
  | .returned thread _ result :: earlier =>
      (thread, result) :: results earlier
  | _ :: earlier => results earlier

/-- A thread begins a call and takes this many steps of it. -/
def making
    (thread : Bool)
    (call : Call Nat)
    (steps : Nat) :
    List (Bool × Choice Nat) :=
  (thread, .proceed) :: (thread, .call call) ::
    List.replicate steps (thread, .proceed)

/--
An update overlaps the first attempt of a validated load; then an update
throws, the other thread stores and the value is loaded.
-/
def overlapping : List (Bool × Choice Nat) :=
  making true .loadValidated 3 ++
    making false (.update fun value => some (value + 1)) 10 ++
    List.replicate 6 (true, Choice.proceed) ++
    making false (.update fun _ => none) 6 ++
    making true (.store 9) 9 ++
    making false .load 5

/-- The load retries and returns what the update made of 5; 9 replaces it. -/
theorem generations_upheld_retry :
    ∃ last : Pool (State Nat Bool) (Choice Nat) Bool,
      (initialPool 5).run overlapping = some last ∧
        completed last.shared.events < 2 ^ 63 ∧
        results last.shared.events =
          [(false, .value 9), (true, .done), (false, .threw),
            (true, .snapshot 6 2), (false, .done)] ∧
        generation 5 last.shared.events 1 = some 6 ∧
        generation 5 last.shared.events 2 = some 9 ∧
        Upheld 5 last.shared := by
  obtain ⟨last, ran⟩ : ∃ last : Pool (State Nat Bool) (Choice Nat) Bool,
      (initialPool 5).run overlapping = some last :=
    ⟨_, rfl⟩
  have two : completed last.shared.events = 2 := by
    cases ran
    rfl
  have bound : completed last.shared.events < 2 ^ 63 := by
    rw [two]
    decide
  refine ⟨last, ran, bound, ?_, ?_, ?_,
    (generations_upheld 5 (Pool.Reaches.refl _) ⟨_, ran⟩ bound).1⟩
  all_goals
    cases ran
    rfl

end Runs

end ConcurrentCpp.SeqLock
