import ConcurrentCpp.IntrPointerProtocol

namespace ConcurrentCpp.IntrPointer

/-!
# The steps of the value type

Every step of a handle moves references between handles and the flights of its
thread, or counts one more or one less.  Each lemma says that the step is sound
and what the thread knows afterwards.
-/

variable {A W H T : Type}
variable [DecidableEq A] [DecidableEq W] [DecidableEq T]

section Flights

omit [DecidableEq W] [DecidableEq T] in
theorem flying_cons
    {entry : T × Flight A}
    {flights : List (T × Flight A)}
    {a : A} :
    flying (entry :: flights) a =
      flying flights a + (if entry.2.object = a then 1 else 0) := by
  simp [flying, List.countP_cons]

omit [DecidableEq W] in
theorem flying_erase
    {entry : T × Flight A}
    {flights : List (T × Flight A)}
    {a : A}
    (member : entry ∈ flights) :
    flying (flights.erase entry) a +
        (if entry.2.object = a then 1 else 0) =
      flying flights a := by
  have moved := (List.perm_cons_erase member).countP_eq
    (fun entry => decide (entry.2.object = a))
  rw [← flying_cons]
  exact moved.symm

end Flights

/-- The frame with one more reference in flight. -/
def Frame.push
    (frame : Frame A W H T)
    (tentative : Bool)
    (object : Option A) :
    Frame A W H T :=
  { frame with
    flights :=
      object.toList.map (fun a => ⟨a, tentative⟩) ++ frame.flights }

/-- The frame with another value for a handle. -/
def Frame.set
    [DecidableEq H]
    (frame : Frame A W H T)
    (h : H)
    (value : Option (Word A)) :
    Frame A W H T :=
  { frame with value := Function.update frame.value h value }

/-- The frame with one more use. -/
def Frame.pin
    (frame : Frame A W H T)
    (pin : Pin W H) :
    Frame A W H T :=
  { frame with pins := pin :: frame.pins }

section Values

variable
  {config : Config A W}
  {thread : T}
  {frame : Frame A W H T}
  {state : State A W H T}

omit [DecidableEq A] [DecidableEq W] in
/-- What a handle refers to, from the frame. -/
theorem Holds.refers
    {h : H}
    (holds : Holds config thread frame state)
    (reads : frame.Reads h) :
    handleRefers state.handle h = (frame.value h).bind Word.ptr := by
  obtain ⟨⟨exclusive, pinned⟩, -⟩ := reads
  rw [handleRefers, holds.values h exclusive pinned]

omit [DecidableEq A] [DecidableEq W] in
/-- What a handle holds, from the frame. -/
theorem Holds.handleAt
    {h : H}
    (holds : Holds config thread frame state)
    (reads : frame.Reads h) :
    state.handleAt h = (frame.value h).getD Word.null := by
  obtain ⟨⟨exclusive, pinned⟩, -⟩ := reads
  rw [State.handleAt, holds.values h exclusive pinned]

omit [DecidableEq A] [DecidableEq W] [DecidableEq T] in
theorem getD_ptr
    (value : Option (Word A)) :
    (value.getD Word.null).ptr = value.bind Word.ptr := by
  cases value <;> rfl

end Values

section Counting

variable
  {config : Config A W}
  {thread : T}
  {frame : Frame A W H T}
  {state : State A W H T}

omit [DecidableEq W] [DecidableEq T] in
/-- The count of an owned object goes up. -/
theorem addRef_of_pos
    {a : A}
    (counted : 0 < state.count a) :
    state.addRef (some a) =
      { state with
        count := Function.update state.count a (state.count a + 1)
        deeds := .touched a :: state.deeds } := by
  simp [State.addRef, Nat.ne_of_gt counted]

omit [DecidableEq W] [DecidableEq T] in
theorem lifeOf_touched
    {a b : A}
    {deeds : List (Deed A W T)} :
    lifeOf b (.touched a :: deeds) = lifeOf b deeds :=
  rfl

/-- The count of a living object may be touched. -/
theorem Invariant.lawful_touched
    {a : A}
    (inv : Invariant config state)
    (alive : (state.status a).Alive) :
    Lawful (.touched a :: state.deeds) := by
  refine ⟨?_, inv.lawful⟩
  show (lifeOf a state.deeds).Alive
  rw [inv.life]
  exact alive

omit [DecidableEq A] [DecidableEq W] [DecidableEq T] in
theorem alive_owned : (Status.owned : Status T).Alive :=
  ⟨by simp, by simp⟩

/-- One more reference to an owned object, kept by the thread. -/
theorem addRef_sound
    {a : A}
    {tentative : Bool}
    (inv : Invariant config state)
    (busy : ∃ pin, (thread, pin) ∈ state.pins)
    (owned : state.status a = .owned)
    (unwalked : tentative = false → Unwalked state a) :
    Sound config thread state
      ((state.addRef (some a)).push thread tentative (some a)) := by
  have counted := (inv.owned a).mp owned
  rw [addRef_of_pos counted]
  refine ⟨{ inv with
    exact := ?_
    owned := ?_
    lawful := inv.lawful_touched (by rw [owned]; exact alive_owned)
    flown := inv.flown_own busy fun other different =>
      own_cons_other (Ne.symm different)
    walked := ?_ }, fun other different => { Kept.refl config other state with
      flights := own_cons_other (Ne.symm different) }⟩
  · intro b
    have exact := inv.exact b
    simp only [references, State.push, pushFlight, flying_cons] at exact ⊢
    by_cases same : b = a
    · subst b
      simp only [Function.update_self, if_true]
      omega
    · simp only [Function.update_of_ne same, Ne.symm same, if_false]
      omega
  · intro b
    have before := inv.owned b
    simp only [State.push]
    by_cases same : b = a
    · subst b
      simp only [Function.update_self]
      constructor
      · intro _
        omega
      · intro _
        exact owned
    · rw [Function.update_of_ne same]
      exact before
  · intro other b cell walks
    obtain ⟨solitary, pinned⟩ := inv.walked other b cell walks
    refine ⟨solitary.keep rfl (fun _ h => h) (fun _ h => h) ?_, pinned⟩
    intro entry member named
    rcases List.mem_cons.mp member with rfl | old
    · cases tentative with
      | false =>
          have names : a = b := named
          subst names
          exact absurd walks (unwalked rfl other cell)
      | true =>
          exact Or.inr rfl
    · exact Or.inl old

/-- The thread knows about its new reference. -/
theorem addRef_holds
    {a : A}
    {tentative : Bool}
    (inv : Invariant config state)
    (holds : Holds config thread frame state)
    (owned : state.status a = .owned) :
    Holds config thread (frame.push tentative (some a))
      ((state.addRef (some a)).push thread tentative (some a)) := by
  rw [addRef_of_pos ((inv.owned a).mp owned)]
  exact
    { holds with
      flights := by
        show own thread (_ :: _) = _
        rw [own_cons_self, holds.flights]
        rfl }

end Counting

section Transfers

variable
  {config : Config A W}
  {thread : T}
  {frame : Frame A W H T}
  {state : State A W H T}

omit [DecidableEq A] [DecidableEq W] [DecidableEq T] in
/-- A word stays in use while the handles on the way to it stay. -/
theorem Uses.handles
    {other : T}
    {w : W}
    {handle : H → Option (Word A)}
    {flights : List (T × Flight A)}
    (uses : Uses config state other w)
    (kept :
      ∀ h exclusive a,
        (other, ⟨.handle h, exclusive⟩) ∈ state.pins →
        handleRefers state.handle h = some a →
        handleRefers handle h = some a) :
    Uses config { state with handle := handle, flights := flights }
      other w := by
  unfold Uses at uses ⊢
  split
  case h_1 alone =>
      rw [alone] at uses
      exact uses
  case h_2 a inside =>
      rw [inside] at uses
      refine uses.imp ?_ id
      rintro ⟨h, exclusive, pinned, refersTo⟩
      exact ⟨h, exclusive, pinned, kept h exclusive a pinned refersTo⟩

/-- References move between the handles and the flights of the thread. -/
theorem transfer_sound
    {handle : H → Option (Word A)}
    {flights : List (T × Flight A)}
    (inv : Invariant config state)
    (busy : ∃ pin, (thread, pin) ∈ state.pins)
    (balanced :
      ∀ a,
        holding (handleRefers handle) a + flying flights a =
          holding (handleRefers state.handle) a + flying state.flights a)
    (bounded : Bounded (handleRefers handle))
    (changed :
      ∀ h,
        handle h ≠ state.handle h →
          (thread, ⟨.handle h, true⟩) ∈ state.pins ∧
            ∀ other a, (other, (a, h)) ∉ state.walking)
    (lockless :
      ∀ h a,
        handle h ≠ state.handle h →
        handleRefers state.handle h = some a →
        ∀ w, state.lock w ≠ some thread)
    (received :
      ∀ h a,
        handle h ≠ state.handle h →
        handleRefers handle h = some a →
        Unwalked state a)
    (flown :
      ∀ entry ∈ flights,
        entry ∈ state.flights ∨ Unwalked state entry.2.object)
    (others :
      ∀ other,
        other ≠ thread → own other flights = own other state.flights) :
    Sound config thread state
      { state with handle := handle, flights := flights } := by
  refine ⟨{ inv with
    exact := ?_
    boundedHandles := bounded
    flown := inv.flown_own busy others
    locked := ?_
    walked := ?_ }, ?_⟩
  · intro a
    have exact := inv.exact a
    have moved := balanced a
    simp only [references] at exact ⊢
    omega
  · intro other w locked
    refine (inv.locked other w locked).handles ?_
    intro h exclusive a pinned refersTo
    by_cases differs : handle h = state.handle h
    · show (handle h).bind Word.ptr = some a
      rw [differs]
      exact refersTo
    · by_cases mine : other = thread
      · subst other
        exact absurd locked (lockless h a differs refersTo w)
      · have shared :=
          inv.disciplined.shared (changed h differs).1 pinned
            (Ne.symm mine)
        simp at shared
  · intro other a cell walks
    obtain ⟨solitary, pinned⟩ := inv.walked other a cell walks
    refine ⟨solitary.keep ?_ ?_ (fun _ h => h) ?_, pinned⟩
    · by_contra differs
      exact (changed cell differs).2 other a walks
    · intro h refersTo
      by_cases differs : handle h = state.handle h
      · have refersTo' : handleRefers handle h = some a := refersTo
        rw [handleRefers, differs] at refersTo'
        exact refersTo'
      · exact absurd walks (received h a differs refersTo other cell)
    · intro entry member named
      rcases flown entry member with old | unwalked
      · exact Or.inl old
      · rw [named] at unwalked
        exact absurd walks (unwalked other cell)
  · intro other different
    refine { Kept.refl config other state with
      handles := ?_
      flights := others other different }
    intro h exclusive pinned
    by_contra differs
    have shared :=
      inv.disciplined.shared (changed h differs).1 pinned (Ne.symm different)
    simp at shared

omit [DecidableEq A] [DecidableEq W] in
/-- A new flight of one thread is none of another. -/
theorem own_push_other
    {other : T}
    {tentative : Bool}
    {object : Option A}
    {flights : List (T × Flight A)}
    (different : other ≠ thread) :
    own other (pushFlight thread tentative object flights) =
      own other flights := by
  cases object with
  | none =>
      rfl
  | some a =>
      exact own_cons_other (Ne.symm different)

omit [DecidableEq W] [DecidableEq T] in
theorem flying_push
    {tentative : Bool}
    {object : Option A}
    {flights : List (T × Flight A)}
    {b : A} :
    flying (pushFlight thread tentative object flights) b =
      flying flights b + (if object = some b then 1 else 0) := by
  cases object with
  | none =>
      simp [pushFlight]
  | some a =>
      simp [pushFlight, flying_cons]

variable [DecidableEq H]

omit [DecidableEq A] [DecidableEq W] [DecidableEq T] in
/-- Only the handle that is set changes. -/
theorem changed_eq
    {handle : H → Option (Word A)}
    {h other : H}
    {value : Option (Word A)}
    (differs : Function.update handle h value other ≠ handle other) :
    other = h := by
  by_contra different
  exact differs (Function.update_of_ne different _ _)

/-- The handle gives its reference away. -/
theorem take_sound
    {h : H}
    (inv : Invariant config state)
    (holds : Holds config thread frame state)
    (writes : frame.Writes h)
    (free : frame.lock = none) :
    Sound config thread state
      ((state.setHandle h none).push thread false
        (state.handleAt h).ptr) := by
  have refersAt : (state.handleAt h).ptr = handleRefers state.handle h :=
    getD_ptr _
  rw [refersAt]
  unfold State.setHandle State.push
  refine transfer_sound inv (holds.busy writes.reads.busy) ?_ ?_ ?_
    (fun _ _ _ _ _ => holds.lockless free) ?_ ?_
    (fun other different => own_push_other different)
  · intro a
    have moved := holding_update inv.boundedHandles h none a
    rw [handleRefers_update, flying_push]
    simp only [reduceCtorEq, if_false] at moved
    simp only [Option.bind_none]
    omega
  · rw [handleRefers_update]
    exact inv.boundedHandles.update h _
  · intro other differs
    rw [changed_eq differs]
    exact ⟨holds.pin_mem writes.1,
      fun _ _ => cell_unused inv holds writes.reads⟩
  · intro other a differs refersTo
    rw [changed_eq differs, handleRefers_update] at refersTo
    simp at refersTo
  · intro entry member
    cases pointee : handleRefers state.handle h with
    | none =>
        rw [pointee] at member
        exact Or.inl member
    | some a =>
        rw [pointee] at member
        rcases List.mem_cons.mp member with rfl | old
        · exact Or.inr
            (unwalked_of_handle inv holds writes.reads pointee)
        · exact Or.inl old

omit [DecidableEq A] [DecidableEq W] in
/-- The thread knows what it has written into a handle. -/
theorem Holds.setHandle
    (holds : Holds config thread frame state)
    (h : H)
    (value : Option (Word A)) :
    Holds config thread (frame.set h value) (state.setHandle h value) :=
  { holds with
    values := by
      intro other exclusive pinned
      by_cases same : other = h
      · subst other
        simp [State.setHandle, Frame.set]
      · simp only [State.setHandle, Frame.set,
          Function.update_of_ne same]
        exact holds.values other exclusive pinned }

omit [DecidableEq A] [DecidableEq W] [DecidableEq H] in
theorem own_push
    {tentative : Bool}
    {object : Option A}
    {flights : List (T × Flight A)} :
    own thread (pushFlight thread tentative object flights) =
      object.toList.map (fun a => ⟨a, tentative⟩) ++
        own thread flights := by
  cases object with
  | none =>
      rfl
  | some a =>
      exact own_cons_self

omit [DecidableEq W] [DecidableEq H] in
theorem own_pop
    {tentative : Bool}
    {object : Option A}
    {flights : List (T × Flight A)}
    {rest : List (Flight A)}
    (flies :
      own thread flights =
        object.toList.map (fun a => ⟨a, tentative⟩) ++ rest) :
    own thread (popFlight thread tentative object flights) = rest := by
  cases object with
  | none =>
      exact flies
  | some a =>
      show own thread (List.erase _ _) = _
      rw [own_erase_self, flies]
      exact List.erase_cons_head _ _

omit [DecidableEq A] [DecidableEq W] [DecidableEq H] in
theorem Holds.push
    (holds : Holds config thread frame state)
    (tentative : Bool)
    (object : Option A) :
    Holds config thread (frame.push tentative object)
      (state.push thread tentative object) :=
  { holds with
    flights := by
      show own thread (pushFlight _ _ _ _) = _
      rw [own_push, holds.flights]
      rfl }

omit [DecidableEq W] [DecidableEq H] in
theorem Holds.pop
    {tentative : Bool}
    {object : Option A}
    (holds : Holds config thread (frame.push tentative object) state) :
    Holds config thread frame (state.pop thread tentative object) :=
  { holds with flights := own_pop holds.flights }

omit [DecidableEq W] [DecidableEq H] in
theorem own_pop_other
    {other : T}
    {tentative : Bool}
    {object : Option A}
    {flights : List (T × Flight A)}
    (different : other ≠ thread) :
    own other (popFlight thread tentative object flights) =
      own other flights := by
  cases object with
  | none =>
      rfl
  | some a =>
      exact own_erase_other (Ne.symm different)

omit [DecidableEq W] [DecidableEq H] in
theorem flying_pop
    {tentative : Bool}
    {object : Option A}
    {flights : List (T × Flight A)}
    {b : A}
    (flies :
      ∀ a, object = some a → (thread, ⟨a, tentative⟩) ∈ flights) :
    flying (popFlight thread tentative object flights) b +
        (if object = some b then 1 else 0) =
      flying flights b := by
  cases object with
  | none =>
      simp [popFlight]
  | some a =>
      have popped := flying_erase (a := b) (flies a rfl)
      simpa [popFlight] using popped

omit [DecidableEq W] [DecidableEq H] in
theorem mem_of_mem_pop
    {tentative : Bool}
    {object : Option A}
    {flights : List (T × Flight A)}
    {entry : T × Flight A}
    (member : entry ∈ popFlight thread tentative object flights) :
    entry ∈ flights := by
  cases object with
  | none =>
      exact member
  | some a =>
      exact List.mem_of_mem_erase member

omit [DecidableEq A] [DecidableEq W] [DecidableEq H] in
/-- The reference that a frame has in flight. -/
theorem Holds.flies
    {tentative : Bool}
    {object : Option A}
    (holds : Holds config thread (frame.push tentative object) state) :
    ∀ a, object = some a → (thread, ⟨a, tentative⟩) ∈ state.flights := by
  rintro a rfl
  exact holds.flight_mem List.mem_cons_self

/-- A handle without a pointee takes a reference over. -/
theorem adopt_sound
    {h : H}
    {word : Word A}
    (inv : Invariant config state)
    (holds :
      Holds config thread (frame.push false word.ptr) state)
    (writes : frame.Writes h)
    (vacant : (frame.value h).bind Word.ptr = none) :
    Sound config thread state
      ((state.setHandle h (some word)).pop thread false word.ptr) := by
  have refersTo : handleRefers state.handle h = none :=
    (holds.refers writes.reads).trans vacant
  unfold State.setHandle State.pop
  refine transfer_sound inv (holds.busy writes.reads.busy) ?_ ?_ ?_ ?_ ?_
    ?_
    (fun other different => own_pop_other different)
  · intro a
    have moved := holding_update inv.boundedHandles h word.ptr a
    have popped := flying_pop (b := a) holds.flies
    rw [handleRefers_update]
    simp only [refersTo, reduceCtorEq, if_false] at moved
    simp only [Option.bind_some]
    omega
  · rw [handleRefers_update]
    exact inv.boundedHandles.update h _
  · intro other differs
    rw [changed_eq differs]
    exact ⟨holds.pin_mem writes.1,
      fun _ _ => cell_unused inv holds writes.reads⟩
  · intro other a differs refersOther
    rw [changed_eq differs, refersTo] at refersOther
    cases refersOther
  · intro other a differs refersTo
    rw [changed_eq differs, handleRefers_update, Function.update_self]
      at refersTo
    exact inv.unwalked_of_flight (holds.flies a refersTo)
  · intro entry member
    exact Or.inl (mem_of_mem_pop member)

omit [DecidableEq H] in
/-- A reference to something owned is taken for the thread, or none to null. -/
theorem addRef_keeps
    {object : Option A}
    (inv : Invariant config state)
    (holds : Holds config thread frame state)
    (busy : frame.pins ≠ [])
    (source :
      ∀ a, object = some a → state.status a = .owned ∧ Unwalked state a) :
    Sound config thread state
        ((state.addRef object).push thread false object) ∧
      Holds config thread (frame.push false object)
        ((state.addRef object).push thread false object) := by
  cases object with
  | none =>
      exact ⟨Sound.refl inv, holds⟩
  | some a =>
      obtain ⟨owned, unwalked⟩ := source a rfl
      exact ⟨addRef_sound inv (holds.busy busy) owned fun _ => unwalked,
        addRef_holds inv holds owned⟩

omit [DecidableEq W] in
/-- What has just been pushed is popped. -/
theorem pop_setHandle_push
    (state : State A W H T)
    (thread : T)
    (tentative : Bool)
    (object : Option A)
    (h : H)
    (value : Option (Word A)) :
    ((state.push thread tentative object).setHandle h value).pop thread
        tentative object =
      state.setHandle h value := by
  cases object with
  | none =>
      rfl
  | some a =>
      simp [State.push, State.setHandle, State.pop, pushFlight, popFlight]

/-- A handle is constructed with a reference of its own. -/
theorem copy_keeps
    {dst : H}
    {word : Word A}
    (inv : Invariant config state)
    (holds : Holds config thread frame state)
    (source :
      ∀ a, word.ptr = some a → state.status a = .owned ∧ Unwalked state a)
    (writes : frame.Writes dst)
    (vacant : (frame.value dst).bind Word.ptr = none) :
    Sound config thread state
        ((state.addRef word.ptr).setHandle dst (some word)) ∧
      Holds config thread (frame.set dst (some word))
        ((state.addRef word.ptr).setHandle dst (some word)) := by
  obtain ⟨counted, holdsCounted⟩ :=
    addRef_keeps inv holds writes.reads.busy source
  have adopted := adopt_sound counted.inv holdsCounted writes vacant
  have holdsAdopted : Holds config thread (frame.set dst (some word)) _ :=
    (holdsCounted.setHandle dst (some word)).pop
  rw [pop_setHandle_push] at adopted holdsAdopted
  exact ⟨counted.trans adopted, holdsAdopted⟩

omit [DecidableEq H] in
/-- What a handle that is used refers to may be referred to once more. -/
theorem handle_source
    {h : H}
    (inv : Invariant config state)
    (holds : Holds config thread frame state)
    (reads : frame.Reads h) :
    ∀ a,
      (frame.value h).bind Word.ptr = some a →
        state.status a = .owned ∧ Unwalked state a := by
  intro a pointee
  have refersTo := (holds.refers reads).trans pointee
  exact ⟨inv.owned_of_handle refersTo,
    unwalked_of_handle inv holds reads refersTo⟩

end Transfers

section Commands

variable
  {config : Config A W}
  {thread : T}
  {frame : Frame A W H T}

/-- `AddRef()` for the pointee of a handle that is used. -/
theorem addRef_triple
    {h : H}
    (reads : frame.Reads h) :
    Triple (protocol config) thread (keeping config thread frame)
      (addRef thread ((frame.value h).bind Word.ptr) :
        Program A W H T Unit)
      (fun _ => keeping config thread
        (frame.push false ((frame.value h).bind Word.ptr))) := by
  apply update_triple
  intro state inv holds
  exact addRef_keeps inv holds reads.busy (handle_source inv holds reads)

variable [DecidableEq H]

theorem take_triple
    {h : H}
    (writes : frame.Writes h)
    (free : frame.lock = none) :
    Triple (protocol config) thread (keeping config thread frame)
      (take thread h : Program A W H T (Option A))
      (fun old =>
        (Assertion.pure (old = (frame.value h).bind Word.ptr)).and
          (keeping config thread
            ((frame.set h none).push false
              ((frame.value h).bind Word.ptr)))) := by
  apply command_triple
  intro state choice old after inv holds ran
  have pointee : (state.handleAt h).ptr = (frame.value h).bind Word.ptr := by
    rw [holds.handleAt writes.reads, getD_ptr]
  cases ran
  refine ⟨take_sound inv holds writes free, pointee, ?_⟩
  rw [← pointee]
  exact (holds.setHandle h none).push false _

theorem adopt_triple
    {h : H}
    {word : Word A}
    (writes : frame.Writes h)
    (vacant : (frame.value h).bind Word.ptr = none) :
    Triple (protocol config) thread
      (keeping config thread (frame.push false word.ptr))
      (adopt thread h word : Program A W H T Unit)
      (fun _ => keeping config thread (frame.set h (some word))) := by
  apply update_triple
  intro state inv holds
  exact ⟨adopt_sound inv holds writes vacant,
    (holds.setHandle h (some word)).pop⟩

theorem constructNull_triple
    {dst : H}
    (writes : frame.Writes dst)
    (vacant : (frame.value dst).bind Word.ptr = none) :
    Triple (protocol config) thread (keeping config thread frame)
      (constructNull dst : Program A W H T Unit)
      (fun _ => keeping config thread (frame.set dst (some Word.null))) :=
  show
    Triple (protocol config) thread
      (keeping config thread (frame.push false (Word.null : Word A).ptr))
      (adopt thread dst Word.null) _
    from adopt_triple writes vacant

omit [DecidableEq W] [DecidableEq T] [DecidableEq H] [DecidableEq A] in
theorem Remark.apply_ptr
    (remark : Remark)
    (word : Word A) :
    (remark.apply word).ptr = word.ptr := by
  cases remark <;> rfl

theorem copyConstruct_triple
    {remark : Remark}
    {dst src : H}
    {word : Word A}
    (writes : frame.Writes dst)
    (vacant : (frame.value dst).bind Word.ptr = none)
    (reads : frame.Reads src)
    (value : frame.value src = some word) :
    Triple (protocol config) thread (keeping config thread frame)
      (copyConstruct remark dst src : Program A W H T Unit)
      (fun _ => keeping config thread
        (frame.set dst (some (remark.apply word)))) := by
  apply update_triple
  intro state inv holds
  have content : state.handleAt src = word := by
    rw [holds.handleAt reads, value]
    rfl
  have source := handle_source inv holds reads
  rw [value, Option.bind_some, ← remark.apply_ptr word] at source
  have copied := copy_keeps inv holds source writes vacant
  rw [remark.apply_ptr] at copied
  simp only [content]
  exact copied

/-- The reference of one handle moves to another, which has none. -/
theorem move_keeps
    {state : State A W H T}
    {dst src : H}
    {word : Word A}
    (inv : Invariant config state)
    (holds : Holds config thread frame state)
    (writesDst : frame.Writes dst)
    (vacant : (frame.value dst).bind Word.ptr = none)
    (writesSrc : frame.Writes src)
    (pointee : (frame.value src).bind Word.ptr = word.ptr)
    (different : dst ≠ src)
    (free : frame.lock = none) :
    Sound config thread state
        ((state.setHandle src (some Word.null)).setHandle dst
          (some word)) ∧
      Holds config thread
        ((frame.set src (some Word.null)).set dst (some word))
        ((state.setHandle src (some Word.null)).setHandle dst
          (some word)) := by
  have refersSrc :=
    (holds.refers writesSrc.reads).trans pointee
  have refersDst := (holds.refers writesDst.reads).trans vacant
  refine ⟨?_, (holds.setHandle src (some Word.null)).setHandle dst
    (some word)⟩
  unfold State.setHandle
  refine transfer_sound inv (holds.busy writesDst.reads.busy) ?_ ?_ ?_
    (fun _ _ _ _ _ => holds.lockless free) ?_ (fun _ old => Or.inl old)
    (fun _ _ => rfl)
  · intro a
    have emptied := holding_update inv.boundedHandles src none a
    have filled :=
      holding_update (inv.boundedHandles.update src none) dst word.ptr a
    rw [Function.update_of_ne different, refersDst] at filled
    rw [refersSrc] at emptied
    rw [handleRefers_update, handleRefers_update]
    simp only [reduceCtorEq, if_false, Option.bind_some, Word.null]
      at emptied filled ⊢
    omega
  · rw [handleRefers_update, handleRefers_update]
    exact (inv.boundedHandles.update src _).update dst _
  · intro other differs
    by_cases isDst : other = dst
    · subst other
      exact ⟨holds.pin_mem writesDst.1,
        fun _ _ => cell_unused inv holds writesDst.reads⟩
    · rw [Function.update_of_ne isDst] at differs
      rw [changed_eq differs]
      exact ⟨holds.pin_mem writesSrc.1,
        fun _ _ => cell_unused inv holds writesSrc.reads⟩
  · intro other a differs refersTo
    rw [handleRefers_update, handleRefers_update] at refersTo
    by_cases isDst : other = dst
    · subst other
      rw [Function.update_self, Option.bind_some, ← refersSrc] at refersTo
      exact unwalked_of_handle inv holds writesSrc.reads refersTo
    · rw [Function.update_of_ne isDst] at differs refersTo
      rw [changed_eq differs, Function.update_self] at refersTo
      simp [Word.null] at refersTo

theorem moveConstruct_triple
    {remark : Remark}
    {dst src : H}
    {word : Word A}
    (writesDst : frame.Writes dst)
    (vacant : (frame.value dst).bind Word.ptr = none)
    (writesSrc : frame.Writes src)
    (value : frame.value src = some word)
    (different : dst ≠ src)
    (free : frame.lock = none) :
    Triple (protocol config) thread (keeping config thread frame)
      (moveConstruct remark dst src : Program A W H T Unit)
      (fun _ => keeping config thread
        ((frame.set src (some Word.null)).set dst
          (some (remark.apply word)))) := by
  apply update_triple
  intro state inv holds
  have content : state.handleAt src = word := by
    rw [holds.handleAt writesSrc.reads, value]
    rfl
  simp only [content]
  exact move_keeps inv holds writesDst vacant writesSrc
    (by rw [value, remark.apply_ptr]; rfl) different free

omit [DecidableEq A] [DecidableEq W] [DecidableEq T] in
/-- Setting a handle twice. -/
theorem takeOver_state
    (state : State A W H T)
    {dst src : H}
    {word : Word A}
    {old : Option A}
    (different : dst ≠ src) :
    ((((state.setHandle dst none).push thread false old).setHandle src
        (some Word.null)).setHandle dst (some word)) =
      ((state.setHandle dst (some word)).setHandle src
        (some Word.null)).push thread false old := by
  simp only [State.setHandle, State.push]
  congr 1
  rw [Function.update_comm different.symm, Function.update_idem,
    Function.update_comm different]

/-- The first half of a move assignment. -/
theorem takeOver_triple
    {dst src : H}
    {word : Word A}
    (writesDst : frame.Writes dst)
    (writesSrc : frame.Writes src)
    (value : frame.value src = some word)
    (different : dst ≠ src)
    (free : frame.lock = none) :
    Triple (protocol config) thread (keeping config thread frame)
      (takeOver thread dst src : Program A W H T (Option A))
      (fun old =>
        (Assertion.pure (old = (frame.value dst).bind Word.ptr)).and
          (keeping config thread
            (((frame.set dst (some word)).set src
              (some Word.null)).push false
                ((frame.value dst).bind Word.ptr)))) := by
  apply command_triple
  intro state choice old after inv holds ran
  have pointee :
      (state.handleAt dst).ptr = (frame.value dst).bind Word.ptr := by
    rw [holds.handleAt writesDst.reads, getD_ptr]
  have content : state.handleAt src = word := by
    rw [holds.handleAt writesSrc.reads, value]
    rfl
  have taken := take_sound inv holds writesDst free
  have holdsTaken :=
    (holds.setHandle dst none).push false (state.handleAt dst).ptr
  have pointeeSrc :
      (((frame.set dst none).push false (state.handleAt dst).ptr).value
        src).bind Word.ptr = word.ptr := by
    simp [Frame.set, Frame.push, different.symm, value]
  obtain ⟨moved, -⟩ :=
    move_keeps taken.inv holdsTaken writesDst
      (by simp [Frame.set, Frame.push]) writesSrc pointeeSrc different free
  rw [takeOver_state state different] at moved
  cases ran
  rw [content]
  refine ⟨taken.trans moved, pointee, ?_⟩
  rw [← pointee]
  exact ((holds.setHandle dst (some word)).setHandle src
    (some Word.null)).push false _

omit [DecidableEq A] [DecidableEq W] in
/-- The end of a use is no concern of the walks. -/
theorem mem_erase_pin
    [DecidableEq W]
    {pins : List (T × Pin W H)}
    {other : T}
    {pin kept : Pin W H}
    (member : (other, kept) ∈ pins)
    (differs : other = thread → kept ≠ pin) :
    (other, kept) ∈ pins.erase (thread, pin) := by
  refine (List.mem_erase_of_ne ?_).mpr member
  rintro same
  rw [Prod.mk.injEq] at same
  exact differs same.1 same.2

omit [DecidableEq A] [DecidableEq W] [DecidableEq T] [DecidableEq H] in
/-- A word stays in use while the pins of the thread stay. -/
theorem Uses.pins
    {state : State A W H T}
    {other : T}
    {w : W}
    {pins : List (T × Pin W H)}
    (uses : Uses config state other w)
    (kept : ∀ pin, (other, pin) ∈ state.pins → (other, pin) ∈ pins) :
    Uses config { state with pins := pins } other w := by
  unfold Uses at uses ⊢
  split
  case h_1 alone =>
      rw [alone] at uses
      exact kept _ uses
  case h_2 a inside =>
      rw [inside] at uses
      refine uses.imp ?_ id
      rintro ⟨h, exclusive, pinned, refersTo⟩
      exact ⟨h, exclusive, kept _ pinned, refersTo⟩

/-- The end of a use. -/
theorem unpin_triple
    {pin : Pin W H}
    (rests : frame.flights = [] ∨ frame.pins.erase pin ≠ [])
    (unwalked :
      ∀ entry ∈ frame.walking, (⟨.handle entry.2, true⟩ : Pin W H) ≠ pin)
    (free : frame.lock = none) :
    Triple (protocol config) thread (keeping config thread frame)
      (unpin thread pin : Program A W H T Unit)
      (fun _ => keeping config thread
        { frame with pins := frame.pins.erase pin }) := by
  apply update_triple
  intro state inv holds
  have sublist : (state.pins.erase (thread, pin)).Sublist state.pins :=
    List.erase_sublist
  refine ⟨⟨{ inv with
    disciplined := inv.disciplined.sublist sublist
    flown := ?_
    inside := fun entry member => inv.inside entry (sublist.subset member)
    pinned := fun other w pinned =>
      inv.pinned other w (sublist.subset pinned)
    roots := fun other w exclusive pinned =>
      inv.roots other w exclusive (sublist.subset pinned)
    locked := ?_
    walked := ?_ }, ?_⟩, ?_⟩
  · rintro ⟨other, flight⟩ member
    by_cases mine : other = thread
    · subst other
      have flies : flight ∈ frame.flights := by
        rw [← holds.flights]
        exact mem_own.mpr member
      obtain ⟨left, kept⟩ := List.exists_mem_of_ne_nil _
        (rests.resolve_left (List.ne_nil_of_mem flies))
      rw [← holds.pins, ← own_erase_self, mem_own] at kept
      exact ⟨left, kept⟩
    · obtain ⟨used, pinned⟩ := inv.flown _ member
      exact ⟨used, mem_erase_pin pinned fun same => absurd same mine⟩
  · intro other w locked
    have mine : other ≠ thread := by
      rintro rfl
      exact holds.lockless free locked
    exact (inv.locked other w locked).pins fun pin member =>
      mem_erase_pin member fun same => absurd same mine
  · intro other a cell walks
    obtain ⟨solitary, pinned⟩ := inv.walked other a cell walks
    refine ⟨solitary.keep rfl (fun _ h => h) (fun _ h => h)
      (fun _ h _ => Or.inl h), mem_erase_pin pinned ?_⟩
    rintro rfl
    have mine : (a, cell) ∈ own other state.walking := mem_own.mpr walks
    rw [holds.walking] at mine
    exact unwalked _ mine
  · intro other different
    exact { Kept.refl config other state with
      pins := own_erase_other (Ne.symm different) }
  · exact { holds with
      pins := by
        show own thread (List.erase _ _) = _
        rw [own_erase_self, holds.pins]
      values := fun h exclusive pinned =>
        holds.values h exclusive (List.mem_of_mem_erase pinned)
      roots := fun w pinned =>
        holds.roots w (List.mem_of_mem_erase pinned) }

/-- Storage for a local handle that nobody else uses. -/
theorem newCell_triple
    (busy : frame.pins ≠ []) :
    Triple (protocol config) thread (keeping config thread frame)
      (newCell thread : Program A W H T H)
      (fun h =>
        (Assertion.pure
          ((∀ exclusive, ⟨.handle h, exclusive⟩ ∉ frame.pins) ∧
            ∀ entry ∈ frame.walking, entry.2 ≠ h)).and
          (keeping config thread
            ((frame.pin ⟨.handle h, true⟩).set h none))) := by
  apply command_triple
  intro state choice h after inv holds ran
  cases choice with
  | cell chosen =>
      simp only at ran
      split at ran
      case isFalse =>
          cases ran
      case isTrue vacant =>
          cases ran
          obtain ⟨unconstructed, unused⟩ := vacant
          have fresh : ∀ other exclusive,
              (other, ⟨.handle h, exclusive⟩) ∉ state.pins :=
            fun other exclusive member => unused _ member rfl
          refine ⟨⟨{ inv with
            disciplined := ?_
            flown := ?_
            inside := ?_
            pinned := ?_
            roots := ?_
            locked := fun other w locked =>
              (inv.locked other w locked).pins fun pin member =>
                List.mem_cons_of_mem _ member
            walked := ?_ }, ?_⟩, ⟨?_, ?_⟩, ?_⟩
          · refine List.pairwise_cons.mpr ⟨?_, inv.disciplined⟩
            intro entry member same
            exact absurd same.symm (unused entry member)
          · intro entry member
            obtain ⟨pin, pinned⟩ := inv.flown entry member
            exact ⟨pin, List.mem_cons_of_mem _ pinned⟩
          · intro entry member
            rcases List.mem_cons.mp member with new | old
            · rw [new]
              obtain ⟨pin, pinned⟩ := holds.busy busy
              obtain ⟨call, runs⟩ := inv.inside _ pinned
              exact ⟨call, runs⟩
            · exact inv.inside entry old
          · intro other w pinned
            rcases List.mem_cons.mp pinned with new | old
            · cases new
            · exact inv.pinned other w old
          · intro other w exclusive pinned
            rcases List.mem_cons.mp pinned with new | old
            · cases new
            · exact inv.roots other w exclusive old
          · intro other a cell walks
            obtain ⟨solitary, pinned⟩ := inv.walked other a cell walks
            exact ⟨solitary.keep rfl (fun _ h => h) (fun _ h => h)
              (fun _ h _ => Or.inl h), List.mem_cons_of_mem _ pinned⟩
          · intro other different
            exact { Kept.refl config other state with
              pins := own_cons_other (Ne.symm different) }
          · intro exclusive member
            exact fresh thread exclusive (holds.pin_mem member)
          · rintro ⟨a, cell⟩ member rfl
            rw [← holds.walking, mem_own] at member
            exact fresh thread true (inv.walked thread a cell member).2
          · exact { holds with
              pins := by
                show own thread (_ :: _) = _
                rw [own_cons_self, holds.pins]
                rfl
              values := by
                intro other exclusive pinned
                by_cases same : other = h
                · subst other
                  simpa [Frame.set] using unconstructed
                · simp only [Frame.set, Function.update_of_ne same]
                  rcases List.mem_cons.mp pinned with new | old
                  · cases new
                    exact absurd rfl same
                  · exact holds.values other exclusive old
              roots := by
                intro w pinned
                rcases List.mem_cons.mp pinned with new | old
                · cases new
                · exact holds.roots w old }
  | _ =>
      cases ran

end Commands

end ConcurrentCpp.IntrPointer
