import ConcurrentCpp.IntrPointerDisposal

namespace ConcurrentCpp.IntrPointer

/-!
# The steps of the atomic words

A word takes a reference that its thread has in flight and leaves its old one
to the thread.  A read of a word in the middle of a call is recorded with the
call, and so is the swap.
-/

variable {A W H T : Type}
variable [DecidableEq A] [DecidableEq W] [DecidableEq T]
variable
  {config : Config A W}
  {thread : T}
  {frame : Frame A W H T}
  {state : State A W H T}

section Reach

/-- The thread may use the word: nothing can end it. -/
def Frame.Reaches
    (config : Config A W)
    (frame : Frame A W H T)
    (w : W) : Prop :=
  match config.home w with
  | none => ⟨.word w, false⟩ ∈ frame.pins
  | some a =>
      (∃ h exclusive,
        ⟨.handle h, exclusive⟩ ∈ frame.pins ∧
          (frame.value h).bind Word.ptr = some a) ∨
        ∃ words, (a, words) ∈ frame.dying ∧ w ∈ words

omit [DecidableEq A] [DecidableEq W] in
theorem Frame.Reaches.uses
    {w : W}
    (reaches : frame.Reaches config w)
    (holds : Holds config thread frame state) :
    Uses config state thread w := by
  unfold Frame.Reaches at reaches
  unfold Uses
  split
  case h_1 alone =>
      rw [alone] at reaches
      exact holds.pin_mem reaches
  case h_2 a inside =>
      rw [inside] at reaches
      refine reaches.imp ?_ ?_
      · rintro ⟨h, exclusive, pinned, refersTo⟩
        refine ⟨h, exclusive, holds.pin_mem pinned, ?_⟩
        rw [handleRefers, holds.values h exclusive pinned]
        exact refersTo
      · rintro ⟨words, member, -⟩
        exact (holds.dying a words member).1

/-- A word that may be used exists. -/
theorem Frame.Reaches.built
    {w : W}
    (reaches : frame.Reaches config w)
    (inv : Invariant config state)
    (holds : Holds config thread frame state) :
    ∃ value, state.word w = some value := by
  rw [← Option.ne_none_iff_exists']
  unfold Frame.Reaches at reaches
  split at reaches
  case h_1 alone =>
      exact inv.pinned thread w (holds.pin_mem reaches)
  case h_2 a inside =>
      rcases reaches with ⟨h, exclusive, pinned, refersTo⟩ |
        ⟨words, member, remains⟩
      · have refersNow : handleRefers state.handle h = some a := by
          rw [handleRefers, holds.values h exclusive pinned]
          exact refersTo
        exact inv.built a w inside
          (by rw [inv.owned_of_handle refersNow]; exact alive_owned)
      · exact ((holds.dying a words member).2 w inside).mp remains

/-- No other thread uses the word alone. -/
theorem Uses.unpinned
    {other : T}
    {w : W}
    (uses : Uses config state thread w)
    (inv : Invariant config state)
    (different : other ≠ thread) :
    (other, ⟨.word w, true⟩) ∉ state.pins := by
  intro pinned
  unfold Uses at uses
  rw [inv.roots other w true pinned] at uses
  have shared := inv.disciplined.shared pinned uses different
  simp at shared

end Reach

section Records

/-- An event of a call of the thread. -/
def Mine
    (state : State A W H T)
    (thread : T)
    (event : Event A W T) : Prop :=
  ∀ call,
    event.caller = some call →
      call.1 = thread ∧ call.2 < state.calls thread

omit [DecidableEq A] [DecidableEq W] in
/-- The events of other threads are not touched. -/
theorem Mine.others
    {other : T}
    {event : Event A W T}
    (mine : Mine state thread event)
    (different : other ≠ thread)
    (number : Nat) :
    ofCall (other, number) (event :: state.events) =
      ofCall (other, number) state.events := by
  refine ofCall_cons_other fun same => ?_
  exact different (mine _ same).1

/-- Calls that have not begun have no events. -/
theorem Mine.numbered
    {event : Event A W T}
    (mine : Mine state thread event)
    (inv : Invariant config state) :
    ∀ other number,
      state.calls other ≤ number →
      ofCall (other, number) (event :: state.events) = [] := by
  intro other number later
  rw [ofCall_cons_other, inv.numbered other number later]
  intro same
  obtain ⟨caller, begun⟩ := mine _ same
  simp only at caller begun
  subst caller
  omega

/-- An event that changes no word. -/
theorem note_sound
    {event : Event A W T}
    (inv : Invariant config state)
    (mine : Mine state thread event)
    (allowed : EventOk state.events event)
    (unchanged :
      ∀ w, contents w (event :: state.events) = contents w state.events) :
    Sound config thread state (state.note event) :=
  ⟨{ inv with
      current := fun w => (unchanged w).trans (inv.current w)
      legal := ⟨allowed, inv.legal⟩
      numbered := mine.numbered inv
      walked := fun other a cell walks => by
        obtain ⟨solitary, pinned⟩ := inv.walked other a cell walks
        exact ⟨solitary.keep rfl (fun _ h => h) (fun _ h => h)
          (fun _ h _ => Or.inl h), pinned⟩ },
    fun other different => { Kept.refl config other state with
      events := mine.others different }⟩

/-- The frame inside a call that has done this much. -/
def Frame.call
    (frame : Frame A W H T)
    (number : Nat)
    (trail : List (Event A W T)) :
    Frame A W H T :=
  { frame with calls := (number, trail) :: frame.calls }

omit [DecidableEq A] [DecidableEq W] [DecidableEq T] in
theorem Frame.Calm.call
    {number : Nat}
    {trail : List (Event A W T)}
    (calm : frame.Calm) :
    (frame.call number trail).Calm :=
  ⟨calm.releasing, calm.hazard, calm.unshielded, calm.lock, calm.busy⟩

omit [DecidableEq A] [DecidableEq W] [DecidableEq T] in
theorem Frame.Reads.call
    {h : H}
    (reads : frame.Reads h)
    (number : Nat)
    (trail : List (Event A W T)) :
    (frame.call number trail).Reads h :=
  reads

/-- The number is none of the calls that the frame knows. -/
def Frame.Fresh
    (frame : Frame A W H T)
    (number : Nat) : Prop :=
  ∀ entry ∈ frame.calls, entry.1 ≠ number

omit [DecidableEq A] [DecidableEq W] in
/-- The call that records an event knows it. -/
theorem Holds.calls_note
    {number : Nat}
    {trail : List (Event A W T)}
    {event : Event A W T}
    (holds : Holds config thread (frame.call number trail) state)
    (fresh : frame.Fresh number)
    (caller : event.caller = some (thread, number)) :
    ∀ other trailOther,
      (other, trailOther) ∈ (frame.call number (event :: trail)).calls →
        other < state.calls thread ∧
          ofCall (thread, other) (event :: state.events) = trailOther := by
  intro other trailOther member
  rcases List.mem_cons.mp member with new | old
  · cases new
    obtain ⟨begun, known⟩ := holds.calls number trail List.mem_cons_self
    exact ⟨begun, by rw [ofCall_cons_own caller, known]⟩
  · obtain ⟨begun, known⟩ :=
      holds.calls other trailOther (List.mem_cons_of_mem _ old)
    refine ⟨begun, ?_⟩
    rw [ofCall_cons_other, known]
    rw [caller]
    intro same
    cases same
    exact fresh _ old rfl

omit [DecidableEq A] [DecidableEq W] in
/-- An event of the running call is the thread's own. -/
theorem Holds.mine
    {number : Nat}
    {trail : List (Event A W T)}
    {event : Event A W T}
    (holds : Holds config thread (frame.call number trail) state)
    (caller : event.caller = some (thread, number)) :
    Mine state thread event := by
  intro call same
  rw [caller] at same
  cases same
  exact ⟨rfl, (holds.calls number trail List.mem_cons_self).1⟩

end Records

section Swaps

/-- A word changes together with the flights of the thread. -/
theorem word_sound
    {w : W}
    {value : Option (Word A)}
    {flights : List (T × Flight A)}
    {event : Event A W T}
    (inv : Invariant config state)
    (busy : ∃ pin, (thread, pin) ∈ state.pins)
    (balanced :
      ∀ a,
        holding
            (wordRefers (Function.update state.word w value)) a +
          flying flights a =
        holding (wordRefers state.word) a + flying state.flights a)
    (others :
      ∀ other,
        other ≠ thread → own other flights = own other state.flights)
    (unpinned :
      ∀ other, other ≠ thread → (other, ⟨.word w, true⟩) ∉ state.pins)
    (unlocked : ∀ other, other ≠ thread → state.lock w ≠ some other)
    (unbuilt :
      ∀ a,
        config.home w = some a → state.status a = .free → value = none)
    (built :
      ∀ a,
        config.home w = some a → (state.status a).Alive → value ≠ none)
    (pinned :
      ∀ other, (other, ⟨.word w, false⟩) ∈ state.pins → value ≠ none)
    (dying :
      ∀ other a,
        other ≠ thread →
        config.home w = some a →
        state.status a = .dying other →
        (value = none ↔ state.word w = none))
    (current :
      ∀ other,
        contents other (event :: state.events) =
          Function.update state.word w value other)
    (allowed : EventOk state.events event)
    (mine : Mine state thread event)
    (gained : ∀ a, value.bind Word.ptr = some a → Unwalked state a)
    (flown :
      ∀ entry ∈ flights,
        entry ∈ state.flights ∨ Unwalked state entry.2.object) :
    Sound config thread state
      { state with
        word := Function.update state.word w value
        flights := flights
        events := event :: state.events } := by
  refine ⟨{ inv with
    exact := ?_
    boundedWords := ?_
    unbuilt := ?_
    built := ?_
    flown := inv.flown_own busy others
    pinned := ?_
    current := current
    legal := ⟨allowed, inv.legal⟩
    numbered := mine.numbered inv
    walked := ?_ }, fun other different => { Kept.refl config other state with
      roots := ?_
      flights := others other different
      lockedWord := ?_
      dying := ?_
      events := mine.others different }⟩
  · intro a
    have exact := inv.exact a
    have moved := balanced a
    simp only [references] at exact ⊢
    omega
  · rw [wordRefers_update]
    exact inv.boundedWords.update w _
  · intro a other inside free
    by_cases same : other = w
    · subst other
      simp only [Function.update_self]
      exact unbuilt a inside free
    · simp only [Function.update_of_ne same]
      exact inv.unbuilt a other inside free
  · intro a other inside alive
    by_cases same : other = w
    · subst other
      simp only [Function.update_self]
      exact built a inside alive
    · simp only [Function.update_of_ne same]
      exact inv.built a other inside alive
  · intro user other pins
    by_cases same : other = w
    · subst other
      simp only [Function.update_self]
      exact pinned user pins
    · simp only [Function.update_of_ne same]
      exact inv.pinned user other pins
  · intro other a cell walks
    obtain ⟨solitary, pins⟩ := inv.walked other a cell walks
    refine ⟨solitary.keep rfl (fun _ h => h) ?_ ?_, pins⟩
    · intro named refersTo
      simp only [wordRefers_update] at refersTo
      by_cases same : named = w
      · subst named
        rw [Function.update_self] at refersTo
        exact absurd walks (gained a refersTo other cell)
      · rw [Function.update_of_ne same] at refersTo
        exact refersTo
    · intro entry member named
      rcases flown entry member with old | unwalked
      · exact Or.inl old
      · rw [named] at unwalked
        exact absurd walks (unwalked other cell)
  · intro root pins
    refine Function.update_of_ne ?_ _ _
    rintro rfl
    exact unpinned other different pins
  · intro held locked
    refine Function.update_of_ne ?_ _ _
    rintro rfl
    exact unlocked other different locked
  · intro a destroyed
    refine ⟨destroyed, fun member inside => ?_⟩
    by_cases same : member = w
    · subst member
      simp only [Function.update_self]
      exact dying other a different inside destroyed
    · simp only [Function.update_of_ne same]

/-- A word that the thread uses takes its reference in flight. -/
theorem swap_sound
    {w : W}
    {number : Nat}
    {trail : List (Event A W T)}
    {old new : Word A}
    (inv : Invariant config state)
    (holds :
      Holds config thread
        ((frame.call number trail).push false new.ptr) state)
    (busy : frame.pins ≠ [])
    (uses : Uses config state thread w)
    (unlocked : ∀ other, other ≠ thread → state.lock w ≠ some other)
    (content : state.word w = some old) :
    Sound config thread state
      (state.swap (thread, number) w old new) := by
  have inCall :
      Holds config thread ((frame.push false new.ptr).call number trail)
        state :=
    holds
  unfold State.swap State.note State.pop State.push
  refine word_sound inv (holds.busy busy) ?_
    (fun other different =>
      (own_push_other different).trans (own_pop_other different))
    (fun other different => uses.unpinned inv different) unlocked ?_ ?_ ?_
    ?_ ?_ ?_ ?_ ?_ ?_
  · intro a
    have moved := holding_update inv.boundedWords w new.ptr a
    have popped := flying_pop (b := a) holds.flies
    have refersTo : wordRefers state.word w = old.ptr := by
      rw [wordRefers, content]
      rfl
    rw [refersTo] at moved
    rw [wordRefers_update, flying_push]
    simp only [Option.bind_some]
    omega
  · intro a inside free
    rw [inv.unbuilt a w inside free] at content
    cases content
  · intro a inside alive
    simp
  · intro other pinned
    simp
  · intro other a different inside destroyed
    simp [content]
  · intro other
    simp only [contents]
    by_cases same : w = other
    · subst other
      simp
    · rw [if_neg same, Function.update_of_ne (Ne.symm same)]
      exact inv.current other
  · show contents w state.events = some old
    rw [inv.current]
    exact content
  · exact inCall.mine rfl
  · intro a refersTo
    exact inv.unwalked_of_flight (holds.flies a refersTo)
  · intro entry member
    cases pointee : old.ptr with
    | none =>
        rw [pointee] at member
        exact Or.inl (mem_of_mem_pop member)
    | some a =>
        rw [pointee] at member
        rcases List.mem_cons.mp member with rfl | older
        · have refersTo : wordRefers state.word w = some a := by
            rw [wordRefers, content]
            exact pointee
          exact Or.inr (inv.unwalked_of_word refersTo)
        · exact Or.inl (mem_of_mem_pop older)

/-- What the thread knows after the swap. -/
theorem swap_holds
    {w : W}
    {number : Nat}
    {trail : List (Event A W T)}
    {old new : Word A}
    (inv : Invariant config state)
    (holds :
      Holds config thread
        ((frame.call number trail).push false new.ptr) state)
    (fresh : frame.Fresh number)
    (uses : Uses config state thread w)
    (content : state.word w = some old)
    (elsewhere : ∀ value, frame.lock ≠ some (w, value)) :
    Holds config thread
      ((frame.call number
          (.swapped (thread, number) w old new :: trail)).push false
        old.ptr)
      (state.swap (thread, number) w old new) := by
  have inCall :
      Holds config thread ((frame.push false new.ptr).call number trail)
        state :=
    holds
  refine { holds with
    roots := ?_
    flights := ?_
    lockedWord := ?_
    dying := ?_
    calls := inCall.calls_note fresh rfl }
  · intro root pinned
    have differs : root ≠ w := by
      rintro rfl
      unfold Uses at uses
      rw [inv.roots thread root true (holds.pin_mem pinned)] at uses
      exact inv.disciplined.alone (holds.pin_mem pinned) uses
    exact (Function.update_of_ne differs _ _).trans
      (holds.roots root pinned)
  · exact own_push.trans
      (congrArg (_ ++ ·) (own_pop holds.flights))
  · intro locked value same
    have differs : locked ≠ w := by
      rintro rfl
      exact elsewhere value same
    exact (Function.update_of_ne differs _ _).trans
      (holds.lockedWord locked value same)
  · intro a words member
    obtain ⟨destroyed, remaining⟩ := holds.dying a words member
    refine ⟨destroyed, fun other inside => ?_⟩
    rw [remaining other inside]
    by_cases same : other = w
    · subst other
      simp [State.swap, State.push, State.pop, State.note, content]
    · simp [State.swap, State.push, State.pop, State.note, same]

end Swaps

section Builds

/-- The word is the thread's alone. -/
def Sole
    (config : Config A W)
    (state : State A W H T)
    (thread : T)
    (w : W) : Prop :=
  (config.home w = none ∧ (thread, ⟨.word w, true⟩) ∈ state.pins) ∨
    ∃ a, config.home w = some a ∧ state.status a = .dying thread

theorem Sole.unpinned
    {other : T}
    {w : W}
    (sole : Sole config state thread w)
    (inv : Invariant config state)
    (different : other ≠ thread) :
    (other, ⟨.word w, true⟩) ∉ state.pins := by
  intro pinned
  rcases sole with ⟨-, mine⟩ | ⟨a, inside, -⟩
  · have shared := inv.disciplined.shared pinned mine different
    simp at shared
  · rw [inv.roots other w true pinned] at inside
    cases inside

theorem Sole.unshared
    {other : T}
    {w : W}
    (sole : Sole config state thread w)
    (inv : Invariant config state) :
    (other, ⟨.word w, false⟩) ∉ state.pins := by
  intro pinned
  rcases sole with ⟨-, mine⟩ | ⟨a, inside, -⟩
  · exact inv.disciplined.alone mine pinned
  · rw [inv.roots other w false pinned] at inside
    cases inside

theorem Sole.unlocked
    {other : T}
    {w : W}
    (sole : Sole config state thread w)
    (inv : Invariant config state)
    (different : other ≠ thread) :
    state.lock w ≠ some other := by
  intro locked
  have uses := inv.locked other w locked
  unfold Uses at uses
  rcases sole with ⟨alone, mine⟩ | ⟨a, inside, dying⟩
  · rw [alone] at uses
    exact inv.disciplined.alone mine uses
  · rw [inside] at uses
    rcases uses with ⟨h, exclusive, -, refersTo⟩ | foreign
    · rw [inv.owned_of_handle refersTo] at dying
      cases dying
    · rw [foreign] at dying
      cases dying
      exact different rfl

/-- A word ends; its reference is left to the thread. -/
theorem unbuild_sound
    {w : W}
    {old : Word A}
    (inv : Invariant config state)
    (busy : ∃ pin, (thread, pin) ∈ state.pins)
    (sole : Sole config state thread w)
    (content : state.word w = some old) :
    Sound config thread state
      ((({ state with word := Function.update state.word w none } :
        State A W H T).note (.gone w)).push thread false old.ptr) := by
  have refersTo : wordRefers state.word w = old.ptr := by
    rw [wordRefers, content]
    rfl
  unfold State.note State.push
  refine word_sound inv busy ?_
    (fun other different => own_push_other different)
    (fun other different => sole.unpinned inv different)
    (fun other different => sole.unlocked inv different)
    (fun _ _ _ => rfl) ?_ ?_ ?_ ?_ ?_ ?_ ?_ ?_
  · intro a
    have moved := holding_update inv.boundedWords w none a
    rw [refersTo] at moved
    rw [wordRefers_update, flying_push]
    simp only [reduceCtorEq, if_false, Option.bind_none] at moved ⊢
    omega
  · intro a inside alive
    rcases sole with ⟨alone, -⟩ | ⟨b, insideToo, dying⟩
    · rw [alone] at inside
      cases inside
    · rw [insideToo] at inside
      cases inside
      exact absurd dying (alive.2 thread)
  · intro other pinned
    exact absurd pinned (sole.unshared inv)
  · intro other a different inside foreign
    rcases sole with ⟨alone, -⟩ | ⟨b, insideToo, dying⟩
    · rw [alone] at inside
      cases inside
    · rw [insideToo] at inside
      cases inside
      rw [foreign] at dying
      cases dying
      exact absurd rfl different
  · intro other
    simp only [contents]
    by_cases same : w = other
    · subst other
      simp
    · rw [if_neg same, Function.update_of_ne (Ne.symm same)]
      exact inv.current other
  · show contents w state.events ≠ none
    rw [inv.current, content]
    simp
  · intro call caller
    cases caller
  · intro a refersNone
    cases refersNone
  · intro entry member
    cases pointee : old.ptr with
    | none =>
        rw [pointee] at member
        exact Or.inl member
    | some a =>
        rw [pointee] at member refersTo
        rcases List.mem_cons.mp member with rfl | older
        · exact Or.inr (inv.unwalked_of_word refersTo)
        · exact Or.inl older

/-- A word comes into being with a reference of the thread. -/
theorem build_sound
    {w : W}
    {value : Word A}
    (inv : Invariant config state)
    (holds : Holds config thread (frame.push false value.ptr) state)
    (alone : config.home w = none)
    (mine : ⟨.word w, true⟩ ∈ frame.pins)
    (vacant : state.word w = none) :
    Sound config thread state
      ((({ state with word := Function.update state.word w (some value) } :
        State A W H T).note (.built w value)).pop thread false
          value.ptr) := by
  have sole : Sole config state thread w :=
    Or.inl ⟨alone, holds.pin_mem mine⟩
  have refersTo : wordRefers state.word w = none := by
    rw [wordRefers, vacant]
    rfl
  unfold State.note State.pop
  refine word_sound inv (holds.busy (List.ne_nil_of_mem mine)) ?_
    (fun other different => own_pop_other different)
    (fun other different => sole.unpinned inv different)
    (fun other different => sole.unlocked inv different)
    ?_ (fun _ _ _ => by simp) (fun _ _ => by simp) ?_ ?_ ?_ ?_ ?_ ?_
  · intro a
    have moved := holding_update inv.boundedWords w value.ptr a
    have popped := flying_pop (b := a) holds.flies
    rw [refersTo] at moved
    rw [wordRefers_update]
    simp only [reduceCtorEq, if_false, Option.bind_some] at moved ⊢
    omega
  · intro a inside
    rw [alone] at inside
    cases inside
  · intro other a _ inside
    rw [alone] at inside
    cases inside
  · intro other
    simp only [contents]
    by_cases same : w = other
    · subst other
      simp
    · rw [if_neg same, Function.update_of_ne (Ne.symm same)]
      exact inv.current other
  · show contents w state.events = none
    rw [inv.current]
    exact vacant
  · intro call caller
    cases caller
  · intro a pointee
    exact inv.unwalked_of_flight (holds.flies a pointee)
  · intro entry member
    exact Or.inl (mem_of_mem_pop member)

end Builds

end ConcurrentCpp.IntrPointer
