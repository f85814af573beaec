import ConcurrentCpp.IntrPointerSessions

namespace ConcurrentCpp.IntrPointer

/-!
# What holds in every run

Three results about any number of clients: the counts are exact and objects are
disposed of once; the words are atomic registers; a `~Node()` walk never takes
a node for its own while somebody else holds it.
-/

variable {A W H T : Type}
variable [DecidableEq A] [DecidableEq W] [DecidableEq H] [DecidableEq T]

section Start

/-- A client that runs nothing yet. -/
def Frame.idle : Frame A W H T where
  running := []
  pins := []
  value _ := none
  root _ := none
  flights := []
  hazard := none
  shielded := false
  lock := none
  releasing := none
  walking := []
  dying := []
  calls := []

omit [DecidableEq H] in
/-- Nothing exists, so nothing is wrong. -/
theorem invariant_initial
    (config : Config A W) :
    Invariant config (State.initial : State A W H T) where
  exact a := by
    have handles :
        holding (handleRefers (State.initial : State A W H T).handle) a =
          0 := by
      simp [holding, handleRefers, State.initial]
    have words :
        holding (wordRefers (State.initial : State A W H T).word) a =
          0 := by
      simp [holding, wordRefers, State.initial]
    rw [references, handles, words]
    rfl
  boundedHandles := by
    simp [Bounded, handleRefers, State.initial]
  boundedWords := by
    simp [Bounded, wordRefers, State.initial]
  owned a := by
    simp [State.initial]
  life a := rfl
  lawful := trivial
  condemned thread a := by
    simp [State.initial]
  unbuilt _ _ _ _ := rfl
  built a w _ alive := by
    exact absurd rfl alive.1
  disciplined := List.Pairwise.nil
  flown _ flies := absurd flies List.not_mem_nil
  inside _ pinned := absurd pinned List.not_mem_nil
  pinned _ _ pinned := absurd pinned List.not_mem_nil
  roots _ _ _ pinned := absurd pinned List.not_mem_nil
  unhazarded _ _ := rfl
  unlocked _ _ := rfl
  locked _ _ locked := by
    cases locked
  recorded _ hazard := absurd rfl hazard
  current _ := rfl
  legal := trivial
  numbered _ _ _ := rfl
  walked _ _ _ walks := absurd walks List.not_mem_nil

omit [DecidableEq A] [DecidableEq W] [DecidableEq H] in
theorem holds_idle
    (config : Config A W)
    (thread : T) :
    Holds config thread Frame.idle (State.initial : State A W H T) where
  running := rfl
  pins := rfl
  values _ _ pinned := absurd pinned List.not_mem_nil
  roots _ pinned := absurd pinned List.not_mem_nil
  flights := rfl
  hazard := rfl
  shield shielded := by
    cases shielded
  lock w := by
    simp [State.initial, Frame.idle]
  lockedWord _ _ locked := by
    cases locked
  releasing := rfl
  walking := rfl
  dying _ _ member := absurd member List.not_mem_nil
  calls _ _ member := absurd member List.not_mem_nil

/-- The invariant holds in every reachable state. -/
theorem invariant_of_reaches
    {config : Config A W}
    {body : Body A W H T}
    {depth : Nat}
    {last : Pool (State A W H T) (Choice A W H) T}
    (bodyOk : BodyOk config body)
    (reached : (initialPool config body depth).Reaches last) :
    Invariant config last.shared := by
  have known :
      ∀ thread : T,
        (keeping config thread (Frame.idle : Frame A W H T)).holds
          ((initialPool config body depth).shared, ()) :=
    fun thread => holds_idle config thread
  have covered :
      ∀ fuel,
        Covered (protocol config) fuel (initialPool config body depth)
          () := by
    refine covered_of_triples (invariant_initial config) known
      (fun thread => ?_)
    refine Triple.consequence
      (session_triple (services_ok bodyOk depth thread) ?_ ?_)
      (fun _ _ _ _ => trivial)
    · exact ⟨rfl, rfl, rfl, rfl, Or.inl rfl⟩
    · intro a isThis
      cases isThis
  obtain ⟨needed, runs⟩ := Covered.reaches reached
  obtain ⟨ghost, coveredLast, _⟩ := runs (covered (0 + needed))
  exact coveredLast.1

end Start

section Counts

/-- The counts are exact, and each object is disposed of once. -/
structure Accounted
    (state : State A W H T) : Prop where
  handles : ∀ a, { h | handleRefers state.handle h = some a }.Finite
  words : ∀ a, { w | wordRefers state.word w = some a }.Finite
  /-- The owning handles, the words and the increments in flight. -/
  exact :
    ∀ a,
      state.count a =
        holding (handleRefers state.handle) a +
          holding (wordRefers state.word) a +
          flying state.flights a
  /-- An increment in flight is that of a thread inside a call. -/
  running :
    ∀ entry ∈ state.flights, ∃ call, (entry.1, call) ∈ state.running
  /-- The thread still uses what that call was given. -/
  busy : ∀ entry ∈ state.flights, ∃ pin, (entry.1, pin) ∈ state.pins
  /-- Between calls only the owning handles and the words count. -/
  settled :
    state.running = [] →
      ∀ a,
        state.count a =
          holding (handleRefers state.handle) a +
            holding (wordRefers state.word) a
  /-- What a word names is counted. -/
  named : ∀ w a, wordRefers state.word w = some a → 1 ≤ state.count a
  /-- The count is not 0 exactly while the object is owned. -/
  owned : ∀ a, lifeOf a state.deeds = .owned ↔ 0 < state.count a
  /-- The thread that dropped the count to 0 is the one that disposes. -/
  disposing :
    ∀ thread a,
      lifeOf a state.deeds = .condemned thread ↔
        state.releasing thread = some a
  /-- An object is owned, dropped, disposed of and destroyed once each. -/
  lawful : Lawful state.deeds

omit [DecidableEq H] in
theorem Invariant.accounted
    {config : Config A W}
    {state : State A W H T}
    (inv : Invariant config state) :
    Accounted state where
  handles := inv.boundedHandles.of_object
  words := inv.boundedWords.of_object
  exact := inv.exact
  running entry flies := by
    obtain ⟨pin, pinned⟩ := inv.flown entry flies
    exact inv.inside _ pinned
  busy := inv.flown
  settled rests a := by
    have none : state.flights = [] := by
      refine List.eq_nil_iff_forall_not_mem.mpr fun entry flies => ?_
      obtain ⟨pin, pinned⟩ := inv.flown entry flies
      obtain ⟨call, runs⟩ := inv.inside _ pinned
      rw [rests] at runs
      exact List.not_mem_nil runs
    have exact := inv.exact a
    rw [references, none] at exact
    exact exact
  named w a refersTo :=
    (inv.owned a).mp (inv.owned_of_word refersTo)
  owned a := by
    rw [inv.life]
    exact inv.owned a
  disposing thread a := by
    rw [inv.life]
    exact (inv.condemned thread a).symm
  lawful := inv.lawful

/--
With either pointer, any number of clients and destructors that do whatever a
client may do, the counts are exact in every reachable state.
-/
theorem counts_exact
    (config : Config A W)
    (depth : Nat)
    {last : Pool (State A W H T) (Choice A W H) T}
    (reached :
      (initialPool config (anyBody config) depth).Reaches last) :
    Accounted last.shared :=
  (invariant_of_reaches anyBody_ok reached).accounted

/-- Two hazard pointer words that stand alone. -/
def twoRoots : Config Bool Bool where
  flavour := .hazard
  home _ := none
  members _ := []
  mem_members _ _ := by simp
  nodup_members _ := List.nodup_nil
  next _ := none
  home_next _ _ found := by cases found

/-- A thread makes an object and a word that refers to it. -/
def making : List (Bool × Choice Bool Bool Nat) :=
  [(false, Choice.proceed), (false, .call (.make 0)), (false, .address true),
    (false, .proceed), (false, .proceed), (false, .proceed),
    (false, .proceed), (false, .call (.build true 0))] ++
    List.replicate 7 (false, Choice.proceed)

/-- Another thread loads the word, up to the increment of the count. -/
def loading : List (Bool × Choice Bool Bool Nat) :=
  making ++
    [(true, Choice.proceed), (true, .call (.load (.direct true) 1))] ++
    List.replicate 10 (true, Choice.proceed)

/-- The increment in flight is counted beside the handle and the word. -/
theorem counts_exact_tentative :
    ∃ last : Pool (State Bool Bool Nat Bool) (Choice Bool Bool Nat) Bool,
      (initialPool twoRoots (anyBody twoRoots) 1).run loading =
          some last ∧
        last.shared.flights = [(true, ⟨true, true⟩)] ∧
        last.shared.running = [(true, .load (.direct true) 1)] ∧
        last.shared.count true = 3 ∧
        Accounted last.shared := by
  obtain ⟨last, ran⟩ :
      ∃ last : Pool (State Bool Bool Nat Bool) (Choice Bool Bool Nat) Bool,
        (initialPool twoRoots (anyBody twoRoots) 1).run loading =
          some last :=
    ⟨_, rfl⟩
  refine ⟨last, ran, ?_, ?_, ?_, counts_exact twoRoots 1 ⟨_, ran⟩⟩
  · cases ran
    rfl
  · cases ran
    rfl
  · cases ran
    rfl

end Counts

section Registers

/-- The words are atomic registers, and operations take effect at once. -/
structure Linearized
    (state : State A W H T) : Prop where
  /-- The history ends with what the words hold. -/
  current : ∀ w, contents w state.events = state.word w
  /-- Every read and every swap found what the register held. -/
  legal : Legal state.events
  /-- Every operation that returned took effect inside its call. -/
  effects :
    ∀ later call outcome earlier,
      state.events = later ++ .returned call outcome :: earlier →
      ∃ w operation,
        .called call w operation ∈ earlier ∧
          TakesEffect call w earlier operation outcome

/-- How the calls ended that have returned, the last one first. -/
def returns
    (events : List (Event A W T)) :
    List ((T × Nat) × Outcome A) :=
  events.filterMap fun event =>
    match event with
    | .returned call outcome => some (call, outcome)
    | _ => none

/-- A load reads null; another thread stores an object before it returns. -/
def overtaking : List (Bool × Choice Bool Bool Nat) :=
  [(false, Choice.proceed), (false, .call (.make 0)), (false, .address true)] ++
    List.replicate 4 (false, Choice.proceed) ++
    [(false, Choice.call (.null 1))] ++
    List.replicate 4 (false, Choice.proceed) ++
    [(false, Choice.call (.build true 1))] ++
    List.replicate 7 (false, Choice.proceed) ++
    [(true, Choice.proceed), (true, .call (.load (.direct true) 3)),
      (true, .proceed), (true, .proceed),
      (false, .call (.store (.direct true) 0))] ++
    List.replicate 10 (false, Choice.proceed) ++
    List.replicate 6 (true, Choice.proceed)

/-- One handle is both the expected and the desired value. -/
def comparing : List (Bool × Choice Bool Bool Nat) :=
  overtaking ++
    [(false, Choice.call (.compareExchange true (.direct true) 1 1))] ++
    List.replicate 8 (false, Choice.proceed) ++ [(false, Choice.cell 2)] ++
    List.replicate 21 (false, Choice.proceed)

end Registers

section Teardown

/--
What a `~Node()` walk may count on: a node that it dismantles is held by its
own handle only, and nobody can get hold of it again.
-/
structure Spared
    (state : State A W H T) : Prop where
  /-- The walk's handle is the only one that holds the node. -/
  alone :
    ∀ thread x curr,
      (thread, (x, curr)) ∈ state.walking →
        ∀ h, handleRefers state.handle h = some x → h = curr
  /-- It is a local handle of the walk that nobody else uses. -/
  private_ :
    ∀ thread x curr,
      (thread, (x, curr)) ∈ state.walking →
        ∀ other exclusive,
          (other, ⟨.handle curr, exclusive⟩) ∈ state.pins →
            other = thread
  /-- No word leads to the node. -/
  unnamed :
    ∀ thread x curr,
      (thread, (x, curr)) ∈ state.walking →
        ∀ w, wordRefers state.word w ≠ some x
  /-- A load that has counted itself has not validated the word again. -/
  tentative :
    ∀ thread x curr,
      (thread, (x, curr)) ∈ state.walking →
        ∀ loader unvalidated,
          (loader, ⟨x, unvalidated⟩) ∈ state.flights →
            unvalidated = true
  /-- The node's own destructor runs when no handle holds it. -/
  destroyed :
    ∀ thread x,
      state.status x = .dying thread →
        ∀ h, handleRefers state.handle h ≠ some x

omit [DecidableEq H] in
theorem Invariant.spared
    {config : Config A W}
    {state : State A W H T}
    (inv : Invariant config state) :
    Spared state where
  alone thread x curr walks := (inv.walked thread x curr walks).1.only
  private_ thread x curr walks other exclusive pinned := by
    by_contra different
    have shared :=
      inv.disciplined.shared (inv.walked thread x curr walks).2 pinned
        (Ne.symm different)
    simp at shared
  unnamed thread x curr walks :=
    (inv.walked thread x curr walks).1.unnamed
  tentative thread x curr walks loader unvalidated flies :=
    (inv.walked thread x curr walks).1.tentative _ flies rfl
  destroyed thread x dying h refersTo := by
    rw [inv.owned_of_handle refersTo] at dying
    cases dying

/-- A thread links two nodes and drops both; the first one's walk begins. -/
def walking : List (Bool × Choice Bool (Option Bool) Nat) :=
  [(false, Choice.proceed), (false, .call (.make 0)), (false, .address true),
    (false, .proceed), (false, .proceed), (false, .proceed),
    (false, .proceed), (false, .call (.make 1)), (false, .address false),
    (false, .proceed), (false, .proceed), (false, .proceed),
    (false, .proceed), (false, .call (.store (.through 0 (some true)) 1))] ++
    List.replicate 13 (false, Choice.proceed) ++
    [(false, Choice.call (.destroy 1)), (false, .proceed), (false, .proceed),
      (false, .proceed), (false, .proceed), (false, .proceed),
      (false, .call (.destroy 0)), (false, .proceed), (false, .proceed),
      (false, .proceed), (false, .cell 2)] ++
    List.replicate 7 (false, Choice.proceed) ++ [(false, Choice.cell 3)] ++
    List.replicate 15 (false, Choice.proceed)

end Teardown

end ConcurrentCpp.IntrPointer
