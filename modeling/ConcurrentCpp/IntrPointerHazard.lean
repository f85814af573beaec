import ConcurrentCpp.IntrPointerAtomics

namespace ConcurrentCpp.IntrPointer

/-!
# The hazard pointer word

The load protocol.  A hazard that is followed by a read which still finds the
object shields it: the count may be touched.  The count is taken tentatively,
and the last read of the word makes it a reference.
-/

variable {A W H T : Type}
variable [DecidableEq A] [DecidableEq W] [DecidableEq T]
variable
  {config : Config A W}
  {thread : T}
  {frame : Frame A W H T}
  {number : Nat}
  {w : W}

/-- The frame with another hazard. -/
def Frame.aim
    (frame : Frame A W H T)
    (target : Option A)
    (shielded : Bool) :
    Frame A W H T :=
  { frame with hazard := target, shielded := shielded }

section Hazards

theorem makeHazardPointer_triple :
    Triple (protocol config) thread (keeping config thread frame)
      (makeHazardPointer : Program A W H T Bool)
      (fun _ => keeping config thread frame) := by
  apply command_triple
  intro state choice acquired after inv holds ran
  cases choice <;> cases ran <;> exact ⟨Sound.refl inv, holds⟩

/-- The hazard of the thread is set or cleared; other hazards go on. -/
theorem aim_triple
    {target : Option A}
    (hazardous : config.flavour = .hazard) :
    Triple (protocol config) thread (keeping config thread frame)
      (aim thread target : Program A W H T Unit)
      (fun _ => keeping config thread (frame.aim target false)) := by
  apply update_triple
  intro state inv holds
  refine ⟨⟨{ inv with
    unhazarded := ?_
    recorded := ?_
    walked := ?_ }, ?_⟩, ?_⟩
  · intro spinning
    rw [hazardous] at spinning
    cases spinning
  · intro other named
    by_cases same : other = thread
    · rw [same]
      exact List.mem_cons_self
    · simp only [Function.update_of_ne same] at named
      exact List.mem_cons_of_mem _ (inv.recorded other named)
  · intro other a cell walks
    obtain ⟨solitary, pinned⟩ := inv.walked other a cell walks
    exact ⟨solitary.keep rfl (fun _ h => h) (fun _ h => h)
      (fun _ h _ => Or.inl h), pinned⟩
  · intro other different
    refine { Kept.refl config other state with
      hazard := Function.update_of_ne different _ _
      shield := ?_ }
    intro a ⟨named, safe⟩
    refine ⟨(Function.update_of_ne different _ _).trans named, ?_⟩
    refine safe.imp id (Or.imp id ?_)
    rintro ⟨retired, guarded⟩
    exact ⟨retired, List.mem_filter.mpr ⟨guarded, by simpa using different⟩⟩
  · exact { holds with
      hazard := Function.update_self _ _ _
      shield := fun shielded => by cases shielded }

omit [DecidableEq A] [DecidableEq W] [DecidableEq T] in
/-- An object that a hazard shields has not been destroyed. -/
theorem Shielded.alive
    {state : State A W H T}
    {a : A}
    (shielded : Shielded state thread a) :
    (state.status a).Alive := by
  rcases shielded.2 with owned | ⟨other, condemned⟩ | ⟨retired, -⟩
  · rw [owned]
    exact alive_owned
  · rw [condemned]
    exact ⟨by simp, by simp⟩
  · rw [retired]
    exact ⟨by simp, by simp⟩

/-- The count of a living object is read. -/
theorem touch_keeps
    {state : State A W H T}
    {a : A}
    (inv : Invariant config state)
    (holds : Holds config thread frame state)
    (alive : (state.status a).Alive) :
    Sound config thread state (state.did (.touched a)) ∧
      Holds config thread frame (state.did (.touched a)) := by
  refine ⟨⟨{ inv with
    lawful := inv.lawful_touched alive
    walked := ?_ }, fun other _ => { Kept.refl config other state with }⟩,
    { holds with }⟩
  intro other b cell walks
  obtain ⟨solitary, pinned⟩ := inv.walked other b cell walks
  exact ⟨solitary.keep rfl (fun _ h => h) (fun _ h => h)
    (fun _ h _ => Or.inl h), pinned⟩

theorem loadCount_triple
    {a : A}
    (aimed : frame.hazard = some a)
    (shielded : frame.shielded = true) :
    Triple (protocol config) thread (keeping config thread frame)
      (loadCount a : Program A W H T Nat)
      (fun _ => keeping config thread frame) := by
  apply command_triple
  intro state choice count after inv holds ran
  cases ran
  exact touch_keeps inv holds (holds.shield shielded a aimed).alive

theorem casCount_triple
    {a : A}
    {count : Nat}
    (aimed : frame.hazard = some a)
    (shielded : frame.shielded = true)
    (busy : frame.pins ≠ [])
    (counted : count ≠ 0) :
    Triple (protocol config) thread (keeping config thread frame)
      (casCount thread a count : Program A W H T (Option Nat))
      (fun refreshed => keeping config thread
        (match refreshed with
        | none => frame.push true (some a)
        | some _ => frame)) := by
  apply command_triple
  intro state choice refreshed after inv holds ran
  have alive := (holds.shield shielded a aimed).alive
  have taken :
      state.count a = count →
        Sound config thread state
            ((state.addRef (some a)).push thread true (some a)) ∧
          Holds config thread (frame.push true (some a))
            ((state.addRef (some a)).push thread true (some a)) := by
    intro same
    have owned := (inv.owned a).mpr (by omega)
    exact ⟨addRef_sound inv (holds.busy busy) owned (by simp),
      addRef_holds inv holds owned⟩
  cases choice with
  | fail =>
      cases ran
      exact touch_keeps inv holds alive
  | _ =>
      simp only at ran
      split at ran
      case isTrue same =>
          cases ran
          exact taken same
      case isFalse =>
          cases ran
          exact touch_keeps inv holds alive

/-- `TryAddRef()` on a shielded object. -/
theorem tryAddRef_triple
    {a : A}
    (aimed : frame.hazard = some a)
    (shielded : frame.shielded = true)
    (busy : frame.pins ≠ []) :
    Triple (protocol config) thread (keeping config thread frame)
      (tryAddRef thread a : Program A W H T Bool)
      (fun taken => keeping config thread
        (if taken then frame.push true (some a) else frame)) := by
  refine Triple.bind (loadCount_triple aimed shielded) ?_
  intro first
  refine Triple.loop
    (fun count => ?_ :
      ∀ _ : Nat,
        Triple (protocol config) thread (keeping config thread frame)
          _ _)
  by_cases zero : count = 0
  · rw [if_pos zero]
    exact Triple.ret fun _ _ known => known
  · rw [if_neg zero]
    refine Triple.bind (casCount_triple aimed shielded busy zero) ?_
    intro refreshed
    cases refreshed with
    | none =>
        exact Triple.ret fun _ _ known => known
    | some seen =>
        by_cases gone : seen = 0
        · simp only [if_pos gone]
          refine Triple.bind (loadCount_triple aimed shielded) ?_
          intro again
          exact Triple.ret fun _ _ known => known
        · simp only [if_neg gone]
          exact Triple.ret fun _ _ known => known

end Hazards

section Loading

/-- The call has read the word some number of times. -/
def probing
    (config : Config A W)
    (thread : T)
    (frame : Frame A W H T)
    (number : Nat)
    (w : W)
    (base : List (Event A W T)) :
    Assertion (protocol config (H := H)) thread :=
  Assertion.any fun reads :
      { reads : List (Event A W T) // Reads (thread, number) w reads } =>
    keeping config thread (frame.call number (reads.1 ++ base))

/-- The call has read the word, and this is what it read last. -/
def found
    (config : Config A W)
    (thread : T)
    (frame : Frame A W H T)
    (number : Nat)
    (w : W)
    (base : List (Event A W T))
    (value : Word A) :
    Assertion (protocol config (H := H)) thread :=
  Assertion.any fun reads :
      { reads : List (Event A W T) // Reads (thread, number) w reads } =>
    keeping config thread
      (frame.call number
        (.read (thread, number) w value :: (reads.1 ++ base)))

omit [DecidableEq A] [DecidableEq W] [DecidableEq T] in
/-- One more read. -/
theorem Reads.cons
    {call : T × Nat}
    {reads : List (Event A W T)}
    (all : Reads call w reads)
    (value : Word A) :
    Reads call w (.read call w value :: reads) := by
  intro event member
  rcases List.mem_cons.mp member with rfl | old
  · exact ⟨value, rfl⟩
  · exact all event old

theorem load_found
    {base : List (Event A W T)}
    (fresh : frame.Fresh number)
    (reaches : frame.Reaches config w) :
    Triple (protocol config) thread
      (probing config thread frame number w base)
      (loadWord (thread, number) w : Program A W H T (Word A))
      (fun value =>
        found config thread frame number w base value) := by
  refine Triple.any fun reads => ?_
  refine (loadWord_triple fresh reaches).consequence ?_
  intro value world _ known
  exact ⟨reads, known⟩

omit [DecidableEq A] [DecidableEq W] in
/-- A shield may be forgotten. -/
theorem Holds.unshield
    {state : State A W H T}
    (holds : Holds config thread frame state) :
    Holds config thread { frame with shielded := false } state :=
  { holds with shield := fun shielded => by cases shielded }

/-- How the protect-and-validate loop ends. -/
def guarded
    (config : Config A W)
    (thread : T)
    (frame : Frame A W H T)
    (number : Nat)
    (w : W)
    (base : List (Event A W T)) :
    Protected A → Assertion (protocol config (H := H)) thread
  | .empty value =>
      (Assertion.pure (value.ptr = none)).and
        (Assertion.any fun target =>
          found config thread (frame.aim target false) number w base value)
  | .counted x =>
      probing config thread
        ((frame.aim (some x) true).push true (some x)) number w base

theorem protect_triple
    {base : List (Event A W T)}
    {first : A}
    (hazardous : config.flavour = .hazard)
    (fresh : frame.Fresh number)
    (reaches : frame.Reaches config w)
    (busy : frame.pins ≠ []) :
    Triple (protocol config) thread
      (Assertion.any fun target =>
        probing config thread (frame.aim target false) number w base)
      (protect (thread, number) w first :
        Program A W H T (Protected A))
      (guarded config thread frame number w base) := by
  refine Triple.loop
    (fun x => ?_ :
      ∀ _ : A,
        Triple (protocol config) thread
          (Assertion.any fun target =>
            probing config thread (frame.aim target false) number w base)
          _ _)
  refine Triple.any fun target => Triple.any fun reads => ?_
  refine Triple.bind (aim_triple hazardous) ?_
  intro _
  have validated :
      Triple (protocol config) thread
        (keeping config thread
          ((frame.aim (some x) false).call number (reads.1 ++ base)))
        (loadWord (thread, number) w : Program A W H T (Word A)) _ :=
    validate_triple fresh reaches rfl
  refine Triple.bind validated ?_
  intro reloaded
  by_cases same : reloaded.ptr = some x
  · rw [if_neg (not_not.mpr same)]
    have taking :
        Triple (protocol config) thread
          (keeping config thread
            ((frame.aim (some x) true).call number
              (.read (thread, number) w reloaded :: (reads.1 ++ base))))
          (tryAddRef thread x : Program A W H T Bool) _ :=
      tryAddRef_triple rfl rfl busy
    refine Triple.bind (taking.weaken ?_) ?_
    · intro world _ known
      simp only [same, decide_true] at known
      exact known
    · intro taken
      cases taken with
      | true =>
          exact Triple.ret fun _ _ known =>
            ⟨⟨_, reads.2.cons reloaded⟩, known⟩
      | false =>
          have again :
              Triple (protocol config) thread
                (probing config thread (frame.aim (some x) true) number w
                  base)
                (loadWord (thread, number) w : Program A W H T (Word A))
                _ :=
            load_found fresh reaches
          refine Triple.bind (again.weaken ?_) ?_
          · intro world _ known
            exact ⟨⟨_, reads.2.cons reloaded⟩, known⟩
          · intro word
            refine Triple.any fun later => ?_
            split
            case h_1 empty =>
                exact Triple.ret fun _ _ known =>
                  ⟨empty, some x, later, known.unshield⟩
            case h_2 next _ =>
                exact Triple.ret fun _ _ known =>
                  ⟨some x, ⟨_, later.2.cons word⟩, known.unshield⟩
  · rw [if_pos same]
    simp only [same, decide_false]
    split
    case h_1 empty =>
        exact Triple.ret fun _ _ known => ⟨empty, some x, reads, known⟩
    case h_2 next _ =>
        exact Triple.ret fun _ _ known =>
          ⟨some x, ⟨_, reads.2.cons reloaded⟩, known⟩

/-- The reference is no longer tentative: the word still names the object. -/
theorem promote_sound
    {state : State A W H T}
    {x : A}
    (inv : Invariant config state)
    (flies : (thread, ⟨x, true⟩) ∈ state.flights)
    (named : wordRefers state.word w = some x) :
    Sound config thread state
      ((state.pop thread true (some x)).push thread false (some x)) := by
  simp only [State.pop, State.push]
  refine transfer_sound inv (inv.flown _ flies) ?_ inv.boundedHandles
    (fun _ differs => absurd rfl differs)
    (fun _ _ differs => absurd rfl differs)
    (fun _ _ differs => absurd rfl differs) ?_
    (fun other different =>
      (own_push_other different).trans (own_pop_other different))
  · intro a
    have popped :=
      flying_pop (b := a) (fun b (same : some x = some b) => by
        cases same
        exact flies)
    rw [flying_push]
    omega
  · intro entry member
    rcases List.mem_cons.mp member with rfl | old
    · exact Or.inr (inv.unwalked_of_word named)
    · exact Or.inl (mem_of_mem_pop old)

/-- Step 6 of a load. -/
theorem revalidate_triple
    {trail : List (Event A W T)}
    {x : A}
    (fresh : frame.Fresh number)
    (reaches : frame.Reaches config w) :
    Triple (protocol config) thread
      (keeping config thread
        ((frame.call number trail).push true (some x)))
      (revalidate (thread, number) w x : Program A W H T (Word A))
      (fun value => keeping config thread
        ((frame.call number
            (.read (thread, number) w value :: trail)).push
          (decide (value.ptr ≠ some x)) (some x))) := by
  apply command_triple
  intro state choice value after inv holds ran
  have inCall :
      Holds config thread
        ((frame.push true (some x)).call number trail) state :=
    holds
  have reachesNow :
      ((frame.call number trail).push true (some x)).Reaches config w :=
    reaches
  obtain ⟨content, isContent⟩ := reachesNow.built inv holds
  obtain ⟨noted, holdsNoted⟩ := read_keeps inv inCall fresh isContent
  rw [isContent] at ran
  simp only at ran
  split at ran
  case isTrue named =>
      cases ran
      have refersTo : wordRefers state.word w = some x := by
        rw [wordRefers, isContent]
        exact named
      have promoted := promote_sound noted.inv (holds.flies x rfl) refersTo
      refine ⟨noted.trans promoted, ?_⟩
      simp only [named, ne_eq, not_true_eq_false, decide_false]
      have popped :
          Holds config thread
            (frame.call number (.read (thread, number) w value :: trail))
            _ :=
        Holds.pop holdsNoted
      exact popped.push false (some x)
  case isFalse unnamed =>
      cases ran
      refine ⟨noted, ?_⟩
      simp only [ne_eq, unnamed, not_false_eq_true, decide_true]
      exact holdsNoted

/-- What a load leaves behind: the handle holds what was read last. -/
def loaded
    (config : Config A W)
    (thread : T)
    [DecidableEq H]
    (frame : Frame A W H T)
    (number : Nat)
    (w : W)
    (base : List (Event A W T))
    (dst : H) :
    Bool → Assertion (protocol config (H := H)) thread
  | true =>
      Assertion.any fun value : Word A =>
        found config thread (frame.set dst (some value)) number w base value
  | false => probing config thread frame number w base

variable [DecidableEq H]

/-- Step 7 of a load: the handle takes the reference, then the hazard goes. -/
theorem deliver_triple
    {base : List (Event A W T)}
    {reads : List (Event A W T)}
    {dst : H}
    {value : Word A}
    {target : Option A}
    {shielded : Bool}
    (hazardous : config.flavour = .hazard)
    (calm : frame.Calm)
    (writes : frame.Writes dst)
    (vacant : (frame.value dst).bind Word.ptr = none)
    (all : Reads (thread, number) w reads) :
    Triple (protocol config) thread
      (keeping config thread
        (((frame.aim target shielded).call number
            (.read (thread, number) w value :: (reads ++ base))).push false
          value.ptr))
      (do
        adopt thread dst value
        aim thread none
        Prog.leave true : Program A W H T (Word A ⊕ Bool))
      (Assertion.turn (found config thread frame number w base)
        (loaded config thread frame number w base dst)) := by
  refine Triple.bind (adopt_triple writes vacant) ?_
  intro _
  refine Triple.bind (aim_triple hazardous) ?_
  intro _
  refine Triple.ret fun world _ known => ⟨value, ⟨reads, all⟩, ?_⟩
  have resting :
      ((((frame.aim target shielded).call number
        (.read (thread, number) w value :: (reads ++ base))).set dst
          (some value)).aim none false) =
        (frame.set dst (some value)).call number
          (.read (thread, number) w value :: (reads ++ base)) := by
    unfold Frame.aim Frame.set Frame.call
    rw [← calm.hazard, ← calm.unshielded]
  rw [resting] at known
  exact known

/-- The end of a round: deliver the reference, or give it back and retry. -/
theorem settle_triple
    {dispose : A → Program A W H T Unit}
    {base : List (Event A W T)}
    {reads : List (Event A W T)}
    {dst : H}
    {y : A}
    (hazardous : config.flavour = .hazard)
    (disposes : Disposes config thread dispose)
    (calm : frame.Calm)
    (fresh : frame.Fresh number)
    (reaches : frame.Reaches config w)
    (writes : frame.Writes dst)
    (vacant : (frame.value dst).bind Word.ptr = none)
    (all : Reads (thread, number) w reads) :
    Triple (protocol config) thread
      (keeping config thread
        (((frame.aim (some y) true).push true (some y)).call number
          (reads ++ base)))
      (do
        let value ← revalidate (thread, number) w y
        if value.ptr = some y then do
          adopt thread dst value
          aim thread none
          Prog.leave true
        else do
          aim thread none
          release dispose thread true (some y)
          Prog.again value : Program A W H T (Word A ⊕ Bool))
      (Assertion.turn (found config thread frame number w base)
        (loaded config thread frame number w base dst)) := by
  have revalidating :
      Triple (protocol config) thread
        (keeping config thread
          (((frame.aim (some y) true).call number (reads ++ base)).push true
            (some y)))
        (revalidate (thread, number) w y : Program A W H T (Word A)) _ :=
    revalidate_triple fresh reaches
  refine Triple.bind revalidating ?_
  intro value
  by_cases same : value.ptr = some y
  · rw [if_pos same]
    have delivering :
        Triple (protocol config) thread
          (keeping config thread
            (((frame.aim (some y) true).call number
                (.read (thread, number) w value ::
                  (reads ++ base))).push false value.ptr)) _ _ :=
      deliver_triple hazardous calm writes vacant all
    simp only [same, ne_eq, not_true_eq_false, decide_false]
      at delivering ⊢
    exact delivering
  · rw [if_neg same]
    simp only [same, ne_eq, not_false_eq_true, decide_true]
    refine Triple.bind (aim_triple hazardous) ?_
    intro _
    have releasing :
        Triple (protocol config) thread
          (keeping config thread
            ((frame.call number
              (.read (thread, number) w value ::
                (reads ++ base))).push true (some y))) _ _ :=
      release_triple disposes calm.call
    refine Triple.bind (releasing.weaken ?_) ?_
    · intro world _ known
      have resting :
          ((((frame.aim (some y) true).call number
            (.read (thread, number) w value :: (reads ++ base))).push true
              (some y)).aim none false) =
            (frame.call number
              (.read (thread, number) w value ::
                (reads ++ base))).push true (some y) := by
        unfold Frame.aim Frame.push Frame.call
        rw [← calm.hazard, ← calm.unshielded]
      rw [resting] at known
      exact known
    · intro _
      exact Triple.ret fun _ _ known => ⟨⟨reads, all⟩, known⟩

/-- `intr_shared_ptr_hp::load()`. -/
theorem hpLoad_triple
    {dispose : A → Program A W H T Unit}
    {base : List (Event A W T)}
    {dst : H}
    (hazardous : config.flavour = .hazard)
    (disposes : Disposes config thread dispose)
    (calm : frame.Calm)
    (fresh : frame.Fresh number)
    (reaches : frame.Reaches config w)
    (writes : frame.Writes dst)
    (vacant : (frame.value dst).bind Word.ptr = none) :
    Triple (protocol config) thread
      (probing config thread frame number w base)
      (hpLoad dispose (thread, number) w dst)
      (loaded config thread frame number w base dst) := by
  have resting : frame.aim none false = frame := by
    unfold Frame.aim
    rw [← calm.hazard, ← calm.unshielded]
  refine Triple.bind (load_found fresh reaches) ?_
  intro first
  refine Triple.loop
    (fun word => ?_ :
      ∀ word : Word A,
        Triple (protocol config) thread
          (found config thread frame number w base word) _ _)
  refine Triple.any fun reads => ?_
  split
  case h_1 empty =>
      have adopting :
          Triple (protocol config) thread
            (keeping config thread
              ((frame.call number
                (.read (thread, number) w word ::
                  (reads.1 ++ base))).push false word.ptr))
            (adopt thread dst word : Program A W H T Unit) _ :=
        adopt_triple writes vacant
      rw [empty] at adopting
      refine Triple.bind adopting ?_
      intro _
      exact Triple.ret fun _ _ known => ⟨word, reads, known⟩
  case h_2 x _ =>
      refine Triple.bind makeHazardPointer_triple ?_
      intro acquired
      cases acquired with
      | false =>
          exact Triple.ret fun _ _ known =>
            ⟨⟨_, reads.2.cons word⟩, known⟩
      | true =>
          have protecting :
              Triple (protocol config) thread
                (Assertion.any fun target =>
                  probing config thread (frame.aim target false) number w
                    base)
                (protect (thread, number) w x :
                  Program A W H T (Protected A)) _ :=
            protect_triple hazardous fresh reaches calm.busy
          refine Triple.bind (protecting.weaken ?_) ?_
          · intro world _ known
            refine ⟨none, ⟨_, reads.2.cons word⟩, ?_⟩
            rw [resting]
            exact known
          · intro outcome
            cases outcome with
            | empty value =>
                refine Triple.given fun empty => ?_
                refine Triple.any fun target => Triple.any fun later => ?_
                have delivering :
                    Triple (protocol config) thread
                      (keeping config thread
                        (((frame.aim target false).call number
                            (.read (thread, number) w value ::
                              (later.1 ++ base))).push false value.ptr))
                      _ _ :=
                  deliver_triple hazardous calm writes vacant later.2
                rw [empty] at delivering
                exact delivering
            | counted y =>
                refine Triple.any fun later => ?_
                exact settle_triple hazardous disposes calm fresh reaches
                  writes vacant later.2

end Loading

section Storing

/-- A handle whose value is known is read. -/
theorem readHandle_triple
    {h : H}
    {word : Word A}
    (reads : frame.Reads h)
    (value : frame.value h = some word) :
    Triple (protocol config) thread (keeping config thread frame)
      (Prog.read fun state => state.handleAt h :
        Program A W H T (Word A))
      (fun seen =>
        (Assertion.pure (seen = word)).and
          (keeping config thread frame)) := by
  refine Triple.read fun world _ known => ⟨?_, known⟩
  have seen := Holds.handleAt known reads
  rw [value] at seen
  exact seen

/-- `AddRef()` for a handle whose value is known. -/
theorem countHandle_triple
    {h : H}
    {word : Word A}
    (reads : frame.Reads h)
    (value : frame.value h = some word) :
    Triple (protocol config) thread (keeping config thread frame)
      (addRef thread word.ptr : Program A W H T Unit)
      (fun _ => keeping config thread (frame.push false word.ptr)) := by
  have counting :
      Triple (protocol config) thread (keeping config thread frame)
        (addRef thread ((frame.value h).bind Word.ptr) :
          Program A W H T Unit) _ :=
    addRef_triple reads
  rw [value] at counting
  exact counting

/-- A store has swapped the word. -/
def stored
    (config : Config A W)
    (thread : T)
    (frame : Frame A W H T)
    (number : Nat)
    (w : W)
    (base : List (Event A W T))
    (desired : Word A) :
    Assertion (protocol config (H := H)) thread :=
  Assertion.any fun old : Word A =>
    keeping config thread
      (frame.call number
        (.swapped (thread, number) w old desired :: base))

/-- `intr_shared_ptr_hp::store()`. -/
theorem hpStore_triple
    {dispose : A → Program A W H T Unit}
    {base : List (Event A W T)}
    {h : H}
    {desired : Word A}
    (hazardous : config.flavour = .hazard)
    (disposes : Disposes config thread dispose)
    (calm : frame.Calm)
    (fresh : frame.Fresh number)
    (reaches : frame.Reaches config w)
    (reads : frame.Reads h)
    (value : frame.value h = some desired) :
    Triple (protocol config) thread
      (keeping config thread (frame.call number base))
      (hpStore dispose (thread, number) w desired)
      (fun _ =>
        stored config thread frame number w base desired) := by
  have counting :
      Triple (protocol config) thread
        (keeping config thread (frame.call number base)) _ _ :=
    countHandle_triple reads value
  refine Triple.bind counting ?_
  intro _
  refine Triple.bind
    (exchange_triple hazardous fresh reaches calm.busy calm.lock) ?_
  intro old
  refine (release_triple disposes calm.call).consequence ?_
  intro _ world _ known
  exact ⟨old, known⟩

end Storing

section Comparing

variable [DecidableEq H]

/-- How a compare-exchange ends. -/
def compared
    (config : Config A W)
    (thread : T)
    (frame : Frame A W H T)
    (number : Nat)
    (w : W)
    (base : List (Event A W T))
    (strong : Bool)
    (original desired : Word A)
    (expected : H) :
    Option Bool → Assertion (protocol config (H := H)) thread
  | some true =>
      Assertion.any fun reads :
          { reads : List (Event A W T) //
            Reads (thread, number) w reads } =>
        keeping config thread
          (frame.call number
            (.swapped (thread, number) w original desired ::
              (reads.1 ++ base)))
  | some false =>
      Assertion.any fun value : Word A =>
        (Assertion.pure (strong = true → value ≠ original)).and
          (found config thread (frame.set expected (some value)) number w
            base value)
  | none => probing config thread frame number w base

/--
The failure path of a compare-exchange: `expected` takes the current word, and
a strong one goes around again if that is the original.
-/
theorem refresh_triple
    {dispose : A → Program A W H T Unit}
    {base sofar : List (Event A W T)}
    {strong : Bool}
    {original new : Word A}
    {expected : H}
    (hazardous : config.flavour = .hazard)
    (disposes : Disposes config thread dispose)
    (calm : frame.Calm)
    (fresh : frame.Fresh number)
    (reaches : frame.Reaches config w)
    (writes : frame.Writes expected)
    (expectedIs : frame.value expected = some original)
    (all : Reads (thread, number) w sofar) :
    Triple (protocol config) thread
      (keeping config thread (frame.call number (sofar ++ base)))
      (do
        let current ← newCell thread
        let loaded ← hpLoad dispose (thread, number) w current
        if loaded then do
          let refreshed ← Prog.read fun state => state.handleAt current
          let old ← takeOver thread expected current
          release dispose thread false old
          leaveScope dispose thread current
          if strong = false ∨ refreshed ≠ original then
            Prog.leave (some false)
          else Prog.again ()
        else do
          unpin thread ⟨.handle current, true⟩
          Prog.leave none : Program A W H T (Unit ⊕ Option Bool))
      (Assertion.turn
        (fun _ => probing config thread frame number w base)
        (compared config thread frame number w base strong original new
          expected)) := by
  refine Triple.bind (newCell_triple calm.busy) ?_
  intro current
  refine Triple.given fun unused => ?_
  have unusedNow : frame.Unused current := unused
  have vacant :
      ((frame.withCell current none).value current).bind Word.ptr =
        none := by
    simp [Frame.withCell, Frame.set]
  have loading :
      Triple (protocol config) thread
        (probing config thread (frame.withCell current none) number w base)
        (hpLoad dispose (thread, number) w current) _ :=
    hpLoad_triple hazardous disposes calm.withCell fresh
      (reaches.withCell unusedNow) unusedNow.writes vacant
  refine Triple.bind (loading.weaken ?_) ?_
  · intro world _ known
    exact ⟨⟨sofar, all⟩, known⟩
  · intro success
    cases success with
    | false =>
        refine Triple.any fun reads => ?_
        have unpinning :
            Triple (protocol config) thread
              (keeping config thread
                ((frame.call number (reads.1 ++ base)).withCell current
                  none)) _ _ :=
          unpinCell_triple unusedNow calm.call
        refine Triple.bind unpinning ?_
        intro _
        exact Triple.ret fun _ _ known => ⟨reads, known⟩
    | true =>
        refine Triple.any fun value => Triple.any fun reads => ?_
        have same :
            (frame.withCell current none).set current (some value) =
              frame.withCell current (some value) := by
          simp [Frame.withCell, Frame.set]
        rw [same]
        have content :
            ((frame.call number
              (.read (thread, number) w value ::
                (reads.1 ++ base))).withCell current
                  (some value)).value current = some value := by
          simp [Frame.withCell, Frame.set]
        have unusedInCall :
            (frame.call number
              (.read (thread, number) w value ::
                (reads.1 ++ base))).Unused current :=
          unused
        have reading :
            Triple (protocol config) thread
              (keeping config thread
                ((frame.call number
                  (.read (thread, number) w value ::
                    (reads.1 ++ base))).withCell current
                      (some value))) _ _ :=
          readHandle_triple unusedInCall.writes.reads content
        refine Triple.bind reading ?_
        intro refreshed
        refine Triple.given ?_
        rintro rfl
        refine assign_triple disposes unusedInCall calm.call writes ?_
        split
        case isTrue ends =>
            refine Triple.ret fun world _ known =>
              ⟨refreshed, ?_, reads, known⟩
            intro isStrong
            rw [isStrong] at ends
            exact ends.resolve_left (by simp)
        case isFalse repeats =>
            rw [not_or, not_not] at repeats
            refine Triple.ret fun world _ known =>
              ⟨⟨_, reads.2.cons refreshed⟩, ?_⟩
            have unchanged :
                frame.set expected (some refreshed) = frame := by
              rw [repeats.2, ← expectedIs]
              simp [Frame.set]
            have knownStill :
                Holds config thread
                  ((frame.set expected (some refreshed)).call number
                    (.read (thread, number) w refreshed ::
                      (reads.1 ++ base))) world.1 :=
              known
            rw [unchanged] at knownStill
            exact knownStill

/-- `compare_exchange()` of the hazard pointer word. -/
theorem hpCompareExchange_triple
    {dispose : A → Program A W H T Unit}
    {base : List (Event A W T)}
    {strong : Bool}
    {original new : Word A}
    {expected desired : H}
    (hazardous : config.flavour = .hazard)
    (disposes : Disposes config thread dispose)
    (calm : frame.Calm)
    (fresh : frame.Fresh number)
    (reaches : frame.Reaches config w)
    (writes : frame.Writes expected)
    (expectedIs : frame.value expected = some original)
    (reads : frame.Reads desired)
    (desiredIs : frame.value desired = some new) :
    Triple (protocol config) thread
      (probing config thread frame number w base)
      (hpCompareExchange dispose (thread, number) strong w original new
        expected)
      (compared config thread frame number w base strong original new
        expected) := by
  refine Triple.loop
    (fun _ => ?_ :
      ∀ _ : Unit,
        Triple (protocol config) thread
          (probing config thread frame number w base) _ _)
  refine Triple.any fun sofar => ?_
  have counting :
      Triple (protocol config) thread
        (keeping config thread (frame.call number (sofar.1 ++ base))) _ _ :=
    countHandle_triple reads desiredIs
  refine Triple.bind counting ?_
  intro _
  refine Triple.bind
    (casWord_triple hazardous fresh reaches calm.busy calm.lock) ?_
  intro swapped
  cases swapped with
  | true =>
      refine Triple.bind (release_triple disposes calm.call) ?_
      intro _
      exact Triple.ret fun _ _ known => ⟨sofar, known⟩
  | false =>
      refine Triple.bind (release_triple disposes calm.call) ?_
      intro _
      exact refresh_triple hazardous disposes calm fresh reaches writes
        expectedIs sofar.2

end Comparing

end ConcurrentCpp.IntrPointer
