import ConcurrentCpp.AtomicMax

namespace ConcurrentCpp.AtomicMax

/-!
# What the calls of `atomic_max` report

The history of every run is lawful: an exchange succeeds only within the call
that it belongs to and only if it raises the target, and what a call returns
agrees with its own exchange.  Everything else is read off such a history.
-/

variable {V T : Type} [LinearOrder V] [DecidableEq T]

/-- What holds in every reachable world. -/
structure Invariant
    (initial : V)
    (world : State V T × Unit) : Prop where
  lawful : Lawful initial world.1.events
  target : world.1.target = valueAfter initial world.1.events
  threads : world.1.inside.Nodup
  calls :
    ∀ thread,
      thread ∈ world.1.inside ↔ calling world.1.events thread ≠ none

/-- A step of a thread adds at most one event, and one of its own. -/
def Guarantee
    (thread : T)
    (world after : State V T × Unit) : Prop :=
  after.1.events = world.1.events ∨
    ∃ event,
      after.1.events = event :: world.1.events ∧ event.thread = thread

omit [LinearOrder V] [DecidableEq T] in
theorem Guarantee.refl
    (thread : T)
    (world : State V T × Unit) :
    Guarantee thread world world :=
  .inl rfl

omit [LinearOrder V] [DecidableEq T] in
theorem Guarantee.suffix
    {thread : T}
    {world after : State V T × Unit}
    {events : List (Event V T)}
    (guarantee : Guarantee thread world after)
    (known : events <:+ world.1.events) :
    events <:+ after.1.events := by
  rcases guarantee with same | ⟨event, same, _⟩
  · rwa [same]
  · rw [same]
    exact known.trans (List.suffix_cons _ _)

/-- The protocol of the target. -/
def protocol (initial : V) : Protocol (State V T) Unit T where
  Inv := Invariant initial
  Guar := Guarantee
  guar_refl := Guarantee.refl

variable {initial : V} {thread : T}

omit [LinearOrder V] in
/-- The steps of others leave the call of a thread alone. -/
theorem Guarantee.calling_eq
    {other : T}
    {world after : State V T × Unit}
    (guarantee : Guarantee other world after)
    (different : other ≠ thread) :
    calling after.1.events thread = calling world.1.events thread := by
  rcases guarantee with same | ⟨event, same, own⟩
  · rw [same]
  · rw [same]
    exact calling_other (own.trans_ne different) _

/-- What the thread is doing. -/
def does
    (phase : Option (V × Bool)) :
    Assertion (protocol initial) thread where
  holds world := calling world.1.events thread = phase
  stable different _ _ guarantee known :=
    (guarantee.calling_eq different).trans known

/-- The target was at least this value at an instant of the call. -/
def saw
    (value : V) :
    Assertion (protocol initial) thread where
  holds world :=
    Since thread world.1.events fun instant =>
      value ≤ valueAfter initial instant
  stable different _ _ guarantee known := by
    obtain ⟨recent, instant, split, noCall, passed⟩ := known
    rcases guarantee with same | ⟨event, same, own⟩
    · exact ⟨recent, instant, same.trans split, noCall, passed⟩
    · refine ⟨event :: recent, instant, by simp [same, split], ?_, passed⟩
      intro begun member
      rcases List.mem_cons.mp member with rfl | later
      · exact different own.symm
      · exact noCall begun later

/-- A new event that is allowed keeps the protocol. -/
theorem Invariant.record
    {state : State V T}
    {target : V}
    {inside : List T}
    (inv : Invariant initial (state, ()))
    (event : Event V T)
    (allowed : Allowed initial state.events event)
    (sameTarget : target = valueAfter initial (event :: state.events))
    (threads : inside.Nodup)
    (own :
      event.thread ∈ inside ↔
        calling (event :: state.events) event.thread ≠ none)
    (others :
      ∀ other,
        other ≠ event.thread →
        (other ∈ inside ↔ other ∈ state.inside)) :
    Invariant initial (⟨target, inside, event :: state.events⟩, ()) ∧
      Guarantee event.thread (state, ())
        (⟨target, inside, event :: state.events⟩, ()) := by
  refine
    ⟨{ lawful := ⟨allowed, inv.lawful⟩
       target := sameTarget
       threads := threads
       calls := fun other => ?_ }, .inr ⟨event, rfl, rfl⟩⟩
  by_cases same : other = event.thread
  · rw [same]
    exact own
  · rw [calling_other (Ne.symm same), others other same]
    exact inv.calls other

/-- One exchange: it raises the target, or shows its value. -/
theorem casRaise_triple
    {current value : V}
    (higher : current < value) :
    Triple (protocol initial) thread (does (some (value, false)))
      (casRaise thread current value) fun outcome =>
        if outcome.1 then
          does (some (value, true))
        else
          (does (some (value, false))).and (saw outcome.2) := by
  refine Triple.atomic fun world choice outcome after inv known ran => ?_
  obtain ⟨state, _⟩ := world
  have seen :
      Since thread state.events fun instant =>
        state.target ≤ valueAfter initial instant :=
    ⟨[], state.events, rfl, by simp, le_of_eq inv.target⟩
  have tried :
      (if state.target = current then
          some ((true, current),
            { state with
              target := value
              events := .raised thread value :: state.events })
        else
          some ((false, state.target), state)) = some (outcome, after) →
        ∃ ghost,
          (protocol initial).Inv (after, ghost) ∧
            (protocol initial).Guar thread (state, ()) (after, ghost) ∧
            (if outcome.1 then
              (does (some (value, true)) :
                Assertion (protocol initial) thread)
            else
              (does (some (value, false))).and
                (saw outcome.2)).holds (after, ghost) := by
    intro ran
    split at ran
    · rename_i same
      cases ran
      have low : valueAfter initial state.events < value := by
        rw [← inv.target, same]
        exact higher
      have inside : thread ∈ state.inside := by
        rw [inv.calls thread, show calling _ thread = _ from known]
        simp
      obtain ⟨invAfter, guarantee⟩ :=
        inv.record (.raised thread value) ⟨known, low⟩ rfl inv.threads
          (by simp [Event.thread, calling, inside]) (fun _ _ => Iff.rfl)
      exact ⟨(), invAfter, guarantee, by simp [does, calling]⟩
    · cases ran
      exact ⟨(), inv, Guarantee.refl _ _, known, seen⟩
  cases choice with
  | spurious =>
      cases ran
      exact ⟨(), inv, Guarantee.refl _ _, known, seen⟩
  | proceed =>
      exact tried ran
  | call request =>
      exact tried ran

/-- A call returns whether its own exchange has raised the target. -/
theorem atomicMax_triple
    (value : V) :
    Triple (protocol initial) thread (does (some (value, false)))
      (atomicMax thread value) fun result =>
        if result then
          does (some (value, true))
        else
          (does (some (value, false))).and (saw value) := by
  have load :
      Triple (protocol initial) thread (does (some (value, false)))
        (Prog.read fun state => state.target : Program V T V)
        fun current =>
          (does (some (value, false))).and (saw current) := by
    refine Triple.read fun world inv known => ⟨known, ?_⟩
    exact ⟨[], world.1.events, rfl, by simp, le_of_eq inv.target⟩
  have turns :
      ∀ current,
        Triple (protocol initial) thread
          ((fun current =>
            (does (some (value, false))).and (saw current)) current)
          (if current < value then do
            let outcome ← casRaise thread current value
            if outcome.1 then
              Prog.leave true
            else
              Prog.again outcome.2
          else
            Prog.leave false : Program V T (V ⊕ Bool))
          (Assertion.turn
            (fun current =>
              (does (some (value, false))).and (saw current))
            fun result =>
              if result then
                does (some (value, true))
              else
                (does (some (value, false))).and (saw value)) := by
    intro current
    by_cases higher : current < value
    · rw [if_pos higher]
      have tried :
          Triple (protocol initial) thread
            ((does (some (value, false))).and (saw current))
            (casRaise thread current value) _ :=
        (casRaise_triple higher).weaken fun _ _ known => known.1
      refine tried.bind fun outcome => ?_
      cases won : outcome.1 with
      | true =>
          exact Triple.pure fun _ _ known => known
      | false =>
          exact Triple.pure fun _ _ known => known
    · rw [if_neg higher]
      refine Triple.pure fun world _ known => ⟨known.1, ?_⟩
      obtain ⟨recent, instant, split, noCall, passed⟩ := known.2
      exact ⟨recent, instant, split, noCall,
        le_trans (not_lt.mp higher) passed⟩
  exact load.bind fun start => Triple.loop turns

/-- A client begins a call. -/
theorem pick_triple :
    Triple (protocol initial) thread (does none) (pick thread)
      fun value => does (some (value, false)) := by
  refine Triple.atomic fun world choice value after inv known ran => ?_
  obtain ⟨state, _⟩ := world
  cases choice with
  | call _ =>
      cases ran
      have outside : thread ∉ state.inside := by
        rw [inv.calls thread, show calling _ thread = _ from known]
        simp
      obtain ⟨invAfter, guarantee⟩ :=
        inv.record (.called thread value) known inv.target
          (List.nodup_cons.mpr ⟨outside, inv.threads⟩)
          (by simp [Event.thread, calling])
          (fun other different => by
            simp [show other ≠ thread from different])
      exact ⟨(), invAfter, guarantee, by simp [does, calling]⟩
  | proceed =>
      cases ran
  | spurious =>
      cases ran

/-- A call returns. -/
theorem finish_triple
    (value : V)
    (result : Bool) :
    Triple (protocol initial) thread
      (if result then
        does (some (value, true))
      else
        (does (some (value, false))).and (saw value))
      (finish thread value result) fun _ => does none := by
  refine Triple.atomic fun world choice _ after inv known ran => ?_
  obtain ⟨state, _⟩ := world
  cases ran
  have allowed :
      Allowed initial state.events (.returned thread value result) := by
    cases result with
    | true =>
        exact ⟨known, fun absurd => by cases absurd⟩
    | false =>
        exact ⟨known.1, fun _ => known.2⟩
  obtain ⟨invAfter, guarantee⟩ :=
    inv.record (.returned thread value result) allowed inv.target
      (inv.threads.erase thread)
      (by simp [Event.thread, calling, inv.threads.mem_erase_iff])
      (fun other different => by
        simp [inv.threads.mem_erase_iff, show other ≠ thread from different])
  exact ⟨(), invAfter, guarantee, by simp [does, calling]⟩

/-- A client thread keeps the protocol. -/
theorem client_triple :
    Triple (protocol initial) thread (does none) (client thread)
      fun _ => Assertion.pure True := by
  have turns :
      ∀ value : Unit,
        Triple (protocol initial) thread
          ((fun _ => does none) value)
          (do
            let value ← pick thread
            let result ← atomicMax thread value
            finish thread value result
            Prog.again () : Program V T (Unit ⊕ Unit))
          (Assertion.turn (fun _ => does none)
            fun _ => Assertion.pure True) := by
    intro _
    refine pick_triple.bind fun value => ?_
    refine (atomicMax_triple value).bind fun result => ?_
    refine (finish_triple value result).bind fun _ => ?_
    exact Triple.pure fun _ _ known => known
  exact Triple.loop turns

theorem initial_inv
    (initial : V) :
    Invariant initial
      ((initialPool initial : Pool (State V T) (Choice V) T).shared,
        ()) where
  lawful := trivial
  target := rfl
  threads := List.nodup_nil
  calls _ := by simp [initialPool, calling]

/-- Every run of clients keeps the protocol. -/
theorem covered
    (initial : V)
    (fuel : Nat) :
    Covered (protocol initial) fuel
      (initialPool initial : Pool (State V T) (Choice V) T) () := by
  have idle :
      ∀ thread : T,
        ((fun thread =>
          (does none : Assertion (protocol initial) thread)) thread).holds
          ((initialPool initial : Pool (State V T) (Choice V) T).shared,
            ()) :=
    fun _ => rfl
  exact covered_of_triples (initial_inv initial) idle
    (fun _ => client_triple) fuel

/-- The values that the target took in a run after the initial one. -/
def targetsTaken
    (initial : V)
    (schedule : List (T × Choice V)) :
    Finset V :=
  ((schedule.inits.filterMap fun steps =>
      ((initialPool initial).run steps).map fun pool =>
        pool.shared.target).toFinset).erase initial

/-- The history has recorded all values that the target took. -/
theorem targetsTaken_eq
    {schedule : List (T × Choice V)}
    {last : Pool (State V T) (Choice V) T}
    (ran : (initialPool initial).run schedule = some last) :
    targetsTaken initial schedule =
      valuesTaken initial last.shared.events := by
  suffices same :
      (schedule.inits.filterMap fun steps =>
          ((initialPool initial).run steps).map fun pool =>
            pool.shared.target).toFinset =
        (last.shared.events.tails.map (valueAfter initial)).toFinset by
    simp only [targetsTaken, valuesTaken, same]
  induction schedule using List.reverseRecOn generalizing last with
  | nil =>
      cases ran
      rfl
  | append_singleton before step inductionHypothesis =>
      have whole := ran
      rw [Pool.run_append] at ran
      obtain ⟨middle, ranBefore, ranStep⟩ := Option.bind_eq_some_iff.mp ran
      obtain ⟨thread, choice⟩ := step
      have moved : middle.step thread choice = some last := by
        simpa [Pool.run] using ranStep
      obtain ⟨_, coveredMiddle, _⟩ :=
        (covered initial (0 + 1 + before.length)).run ranBefore
      obtain ⟨_, coveredLast, guarantee⟩ := coveredMiddle.step moved
      have target :
          last.shared.target = valueAfter initial last.shared.events :=
        coveredLast.1.target
      rw [List.inits_append, List.filterMap_append, List.toFinset_append,
        inductionHypothesis ranBefore]
      have recorded :
          (List.filterMap
              (fun steps =>
                ((initialPool initial).run steps).map fun pool =>
                  pool.shared.target)
              ([(thread, choice)].inits.tail.map
                fun steps => before ++ steps)).toFinset =
            {valueAfter initial last.shared.events} := by
        simp [whole, target]
      rw [recorded]
      rcases guarantee with same | ⟨event, same, _⟩
      · rw [same, Finset.union_eq_left, Finset.singleton_subset_iff]
        refine List.mem_toFinset.mpr
          (List.mem_map.mpr ⟨middle.shared.events, ?_, rfl⟩)
        exact (List.mem_tails _ _).mpr (List.suffix_refl _)
      · rw [same, List.tails, List.map_cons, List.toFinset_cons,
          Finset.union_comm]
        rfl

/-- What a call that has returned did and what it saw. -/
structure Verdict
    (initial : V)
    (thread : T)
    (value : V)
    (result : Bool)
    (earlier : List (Event V T)) : Prop where
  /-- It returns `true` iff its own exchange has raised the target. -/
  own :
    ∃ inner before,
      earlier = inner ++ .called thread value :: before ∧
        inner.filter (fun event => event.thread = thread) =
          if result then [.raised thread value] else []
  /-- The exchange has strictly raised the target to the argument. -/
  strict :
    ∀ later sooner,
      earlier = later ++ .raised thread value :: sooner →
      valueAfter initial sooner < value ∧
        valueAfter initial (.raised thread value :: sooner) = value
  /-- It returns `false` only if the target was as large during the call. -/
  passed :
    result = false →
    ∃ recent instant before,
      earlier = recent ++ instant ∧
        .called thread value :: before <:+ instant ∧
        (∀ other, .called thread other ∉ recent) ∧
        value ≤ valueAfter initial instant

/-- The calls of a lawful history have done what they report. -/
theorem Lawful.verdict
    {later earlier : List (Event V T)}
    {value : V}
    {result : Bool}
    (lawful :
      Lawful initial
        (later ++ .returned thread value result :: earlier)) :
    Verdict initial thread value result earlier := by
  obtain ⟨⟨inCall, saw⟩, before⟩ := lawful.earlier
  obtain ⟨inner, older, split, steps⟩ := before.began inCall
  refine ⟨⟨inner, older, split, steps⟩, ?_, ?_⟩
  · rintro recent sooner rfl
    exact ⟨before.earlier.1.2, rfl⟩
  · intro missed
    obtain ⟨recent, instant, cut, noCall, passed⟩ := saw missed
    refine ⟨recent, instant, older, cut, ?_, noCall, passed⟩
    have whole : .called thread value :: older <:+ earlier :=
      ⟨inner, split.symm⟩
    have part : instant <:+ earlier := ⟨recent, cut.symm⟩
    rcases List.suffix_or_suffix_of_suffix whole part with inside | outside
    · exact inside
    · obtain ⟨skipped, shape⟩ := outside
      cases skipped with
      | nil =>
          exact ⟨[], by simpa using shape.symm⟩
      | cons first rest =>
          have begun : recent = inner ++ first :: rest := by
            refine (List.append_left_inj instant).mp ?_
            rw [← cut, split, ← shape, List.append_assoc]
          have member : first ∈ recent := by simp [begun]
          rw [(List.cons.inj shape).1] at member
          exact absurd member (noCall value)

/--
In every run of any number of callers the target never decreases, and every
call that has returned reports its own effect.  When no call is in progress,
the target is the maximum of its initial value and all arguments, and as many
calls have returned `true` as the target took values after the initial one.
-/
theorem raises_to_maximum
    (initial : V)
    {before after : List (T × Choice V)}
    {middle last : Pool (State V T) (Choice V) T}
    (reached : (initialPool initial).run before = some middle)
    (continued : middle.run after = some last) :
    middle.shared.target ≤ last.shared.target ∧
      (∀ later thread value result earlier,
        last.shared.events =
          later ++ .returned thread value result :: earlier →
        Verdict initial thread value result earlier) ∧
      (last.shared.inside = [] →
        last.shared.target =
            (arguments last.shared.events).foldr max initial ∧
          trueReturns last.shared.events =
            (targetsTaken initial (before ++ after)).card) := by
  obtain ⟨_, coveredMiddle, _⟩ :=
    (covered initial (0 + after.length + before.length)).run reached
  obtain ⟨_, coveredLast, evolves⟩ := coveredMiddle.run continued
  have inv : Invariant initial (last.shared, ()) := coveredLast.1
  refine ⟨?_, ?_, ?_⟩
  · obtain ⟨recent, split⟩ : middle.shared.events <:+ last.shared.events :=
      evolves.keeps
        (fun world => middle.shared.events <:+ world.1.events)
        (List.suffix_refl _)
        fun _ _ guarantee known => guarantee.suffix known
    have lawful := inv.lawful
    rw [← split] at lawful
    calc
      middle.shared.target = valueAfter initial middle.shared.events :=
        coveredMiddle.1.target
      _ ≤ valueAfter initial (recent ++ middle.shared.events) :=
        lawful.grows
      _ = last.shared.target := by
        rw [split]
        exact inv.target.symm
  · intro later thread value result earlier shape
    have lawful := inv.lawful
    rw [shape] at lawful
    exact lawful.verdict
  · intro quiet
    have idle : ∀ thread, calling last.shared.events thread = none := by
      intro thread
      by_contra inCall
      have inside := (inv.calls thread).mpr inCall
      rw [show last.shared.inside = [] from quiet] at inside
      cases inside
    have whole :
        (initialPool initial).run (before ++ after) = some last := by
      rw [Pool.run_append, reached]
      exact continued
    have silent : raisers last.shared.events = [] := by
      refine List.eq_nil_iff_forall_not_mem.mpr fun thread member => ?_
      obtain ⟨value, inCall⟩ :=
        (inv.lawful.mem_raisers.2 thread).mp member
      rw [idle thread] at inCall
      cases inCall
    refine ⟨inv.target.trans (inv.lawful.maximum idle), ?_⟩
    rw [targetsTaken_eq whole, inv.lawful.card_valuesTaken,
      inv.lawful.raises_eq, silent]
    rfl

/-- Two callers on 1: one raises the target to 3 under the other's feet. -/
def contended : List (Bool × Choice Nat) :=
  [(true, .proceed), (true, .call 2), (true, .proceed),
    (false, .proceed), (false, .call 3), (false, .proceed),
    (false, .proceed), (false, .spurious), (false, .proceed),
    (false, .proceed), (true, .proceed), (true, .proceed),
    (true, .proceed), (true, .proceed), (false, .proceed)]

/-- The call with 3 returns `true`, the one with 2 returns `false`. -/
theorem raises_to_maximum_contended :
    ∃ last : Pool (State Nat Bool) (Choice Nat) Bool,
      (initialPool 1).run contended = some last ∧
        last.shared.inside = [] ∧
        last.shared.target = 3 ∧
        last.shared.target =
          (arguments last.shared.events).foldr max 1 ∧
        trueReturns last.shared.events = 1 ∧
        trueReturns last.shared.events =
          (targetsTaken (T := Bool) 1 contended).card := by
  obtain ⟨last, ran, seen⟩ :=
    Pool.run_seen
      (fun state : State Nat Bool =>
        (state.inside, state.target, trueReturns state.events))
      (show ((initialPool 1).run contended).map
          (fun last : Pool (State Nat Bool) (Choice Nat) Bool =>
            (last.shared.inside, last.shared.target,
              trueReturns last.shared.events)) =
          some ([], 3, 1) by decide +kernel)
  simp only [Prod.mk.injEq] at seen
  have start :
      (initialPool 1).run [] =
        some (initialPool 1 : Pool (State Nat Bool) (Choice Nat) Bool) :=
    rfl
  obtain ⟨maximum, counted⟩ :=
    (raises_to_maximum 1 start ran).2.2 seen.1
  exact ⟨last, ran, seen.1, seen.2.1, maximum, seen.2.2, counted⟩

end ConcurrentCpp.AtomicMax
