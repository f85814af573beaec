import ConcurrentCpp.IntrPointerSteps

namespace ConcurrentCpp.IntrPointer

/-!
# Releases, disposal and destruction

The release that takes a count to 0 condemns the object, and only its thread
disposes of it.  A destructor keeps what its thread knew before: that is what
`Disposes` asks of the program that is run at the end of a release.
-/

variable {A W H T : Type}
variable [DecidableEq A] [DecidableEq W] [DecidableEq T]
variable
  {config : Config A W}
  {thread : T}
  {frame : Frame A W H T}
  {state : State A W H T}

omit [DecidableEq A] [DecidableEq W] [DecidableEq T] in
/-- A word stays in use while its object stays in destruction. -/
theorem Uses.status
    {other : T}
    {w : W}
    {status : A → Status T}
    (uses : Uses config state other w)
    (kept :
      ∀ a,
        state.status a = .dying other →
        status a = .dying other) :
    Uses config { state with status := status } other w := by
  unfold Uses at uses ⊢
  split
  case h_1 alone =>
      rw [alone] at uses
      exact uses
  case h_2 a inside =>
      rw [inside] at uses
      exact uses.imp id (kept a)

omit [DecidableEq W] [DecidableEq T] in
/-- Only the status of one object changes. -/
theorem update_dying
    {a b : A}
    {other : T}
    {status : Status T}
    (differs : state.status a ≠ .dying other)
    (dying : state.status b = .dying other) :
    Function.update state.status a status b = .dying other := by
  have distinct : b ≠ a := by
    rintro rfl
    exact differs dying
  rw [Function.update_of_ne distinct]
  exact dying

section DelRef

/-- The count of an object goes down by a reference in flight. -/
theorem delRef_exact
    {tentative : Bool}
    {a : A}
    (inv : Invariant config state)
    (flies : (thread, ⟨a, tentative⟩) ∈ state.flights)
    (b : A) :
    Function.update state.count a (state.count a - 1) b =
      holding (handleRefers state.handle) b +
        holding (wordRefers state.word) b +
        flying (state.flights.erase (thread, ⟨a, tentative⟩)) b := by
  have exact := inv.exact b
  have erased := flying_erase (a := b) flies
  simp only [references] at exact
  by_cases same : b = a
  · subst b
    simp only [Function.update_self, if_true] at erased ⊢
    omega
  · simp only [Function.update_of_ne same, Ne.symm same, if_false]
      at erased ⊢
    omega

/-- A release that is not the last one. -/
theorem delRef_sound_some
    {tentative : Bool}
    {a : A}
    (inv : Invariant config state)
    (flies : (thread, ⟨a, tentative⟩) ∈ state.flights)
    (more : state.count a ≠ 1) :
    Sound config thread state (state.delRef thread tentative a) := by
  have owned := inv.owned_of_flight flies
  have counted := (inv.owned a).mp owned
  simp only [State.delRef, if_neg more]
  refine ⟨{ inv with
    exact := delRef_exact inv flies
    owned := ?_
    lawful := inv.lawful_touched (by rw [owned]; exact alive_owned)
    flown := fun entry member =>
      inv.flown entry (List.mem_of_mem_erase member)
    walked := ?_ }, fun other different => { Kept.refl config other state with
      flights := own_erase_other (Ne.symm different) }⟩
  · intro b
    have before := inv.owned b
    simp only
    by_cases same : b = a
    · subst b
      simp only [Function.update_self]
      constructor
      · intro _
        omega
      · intro _
        exact owned
    · rw [Function.update_of_ne same]
      exact before
  · intro other b cell walks
    obtain ⟨solitary, pinned⟩ := inv.walked other b cell walks
    exact ⟨solitary.keep rfl (fun _ h => h) (fun _ h => h)
      (fun _ member _ => Or.inl (List.mem_of_mem_erase member)), pinned⟩

/-- The last release condemns the object. -/
theorem delRef_sound_last
    {tentative : Bool}
    {a : A}
    (inv : Invariant config state)
    (flies : (thread, ⟨a, tentative⟩) ∈ state.flights)
    (idle : state.releasing thread = none)
    (last : state.count a = 1) :
    Sound config thread state (state.delRef thread tentative a) := by
  have owned : state.status a = .owned := inv.owned_of_flight flies
  have exact := delRef_exact inv flies
  simp only [State.delRef, if_pos last]
  refine ⟨{ inv with
    exact := exact
    owned := ?_
    life := ?_
    lawful := ?_
    condemned := ?_
    unbuilt := ?_
    built := ?_
    flown := fun entry member =>
      inv.flown entry (List.mem_of_mem_erase member)
    locked := fun other w locked =>
      (inv.locked other w locked).status fun b =>
        update_dying (by rw [owned]; simp)
    walked := ?_ }, fun other different => { Kept.refl config other state with
      flights := own_erase_other (Ne.symm different)
      shield := ?_
      releasing := Function.update_of_ne different _ _
      fresh := ?_
      dying := ?_ }⟩
  · intro b
    have before := inv.owned b
    simp only
    by_cases same : b = a
    · subst b
      simp [last]
    · simp only [Function.update_of_ne same]
      exact before
  · intro b
    simp only [lifeOf]
    by_cases same : b = a
    · subst b
      simp
    · rw [if_neg (Ne.symm same), Function.update_of_ne same]
      exact inv.life b
  · refine ⟨?_, inv.lawful_touched (by rw [owned]; exact alive_owned)⟩
    show lifeOf a state.deeds = .owned
    rw [inv.life]
    exact owned
  · intro other b
    have before := inv.condemned other b
    simp only
    by_cases sameThread : other = thread
    · subst other
      rw [Function.update_self]
      by_cases same : b = a
      · subst b
        simp
      · rw [Function.update_of_ne same, ← before, idle]
        simp [Ne.symm same]
    · rw [Function.update_of_ne sameThread]
      by_cases same : b = a
      · subst b
        rw [Function.update_self, before, owned]
        simp [Ne.symm sameThread]
      · rw [Function.update_of_ne same]
        exact before
  · intro b w inside free
    by_cases same : b = a
    · subst b
      simp at free
    · simp only [Function.update_of_ne same] at free
      exact inv.unbuilt b w inside free
  · intro b w inside alive
    by_cases same : b = a
    · subst b
      exact inv.built a w inside (by rw [owned]; exact alive_owned)
    · simp only [Function.update_of_ne same] at alive
      exact inv.built b w inside alive
  · intro other b cell walks
    obtain ⟨solitary, pinned⟩ := inv.walked other b cell walks
    exact ⟨solitary.keep rfl (fun _ h => h) (fun _ h => h)
      (fun _ member _ => Or.inl (List.mem_of_mem_erase member)), pinned⟩
  · rintro b ⟨hazard, safe⟩
    refine ⟨hazard, ?_⟩
    by_cases same : b = a
    · subst b
      exact Or.inr (Or.inl ⟨thread, by simp⟩)
    · simp only [Function.update_of_ne same]
      exact safe
  · intro b fresh
    have differs : b ≠ a := by
      rintro rfl
      rw [owned] at fresh
      cases fresh
    simp only [Function.update_of_ne differs]
    exact fresh
  · intro b dying
    exact ⟨update_dying (by rw [owned]; simp) dying, fun _ _ => Iff.rfl⟩

/-- `DelRef()`: the thread that reaches 0 is about to dispose. -/
theorem delRef_triple
    {tentative : Bool}
    {a : A}
    (idle : frame.releasing = none)
    (unshielded : frame.shielded = false) :
    Triple (protocol config) thread
      (keeping config thread (frame.push tentative (some a)))
      (delRef thread tentative a : Program A W H T Bool)
      (fun last => keeping config thread
        { frame with releasing := if last then some a else none }) := by
  apply command_triple
  intro state choice last after inv holds ran
  cases ran
  have flies := holds.flies a rfl
  have owned : state.status a = .owned := inv.owned_of_flight flies
  have idleNow : state.releasing thread = none := holds.releasing.trans idle
  have popped : own thread (state.flights.erase (thread, ⟨a, tentative⟩)) =
      frame.flights := by
    rw [own_erase_self, holds.flights]
    exact List.erase_cons_head _ _
  by_cases last : state.count a = 1
  · refine ⟨delRef_sound_last inv flies idleNow last, ?_⟩
    simp only [State.delRef, if_pos last]
    refine { holds with
      flights := popped
      shield := ?_
      releasing := ?_
      dying := ?_ }
    · intro shielded
      rw [show frame.shielded = true from shielded] at unshielded
      cases unshielded
    · simp [last]
    · intro b words member
      obtain ⟨dying, remaining⟩ := holds.dying b words member
      exact ⟨update_dying (by rw [owned]; simp) dying, remaining⟩
  · refine ⟨delRef_sound_some inv flies last, ?_⟩
    simp only [State.delRef, if_neg last]
    exact { holds with
      flights := popped
      releasing := by simpa [last] using idleNow }

end DelRef

section Release

/-- The thread is at a point where it may run other calls. -/
structure Frame.Settled (frame : Frame A W H T) : Prop where
  releasing : frame.releasing = none
  hazard : frame.hazard = none
  unshielded : frame.shielded = false
  lock : frame.lock = none
  flown : frame.flights = [] ∨ frame.pins ≠ []

/-- The same in the middle of a call. -/
structure Frame.Calm (frame : Frame A W H T) : Prop where
  releasing : frame.releasing = none
  hazard : frame.hazard = none
  unshielded : frame.shielded = false
  lock : frame.lock = none
  busy : frame.pins ≠ []

/-- What is run at a count of 0 keeps what its thread knew. -/
def Disposes
    (config : Config A W)
    (thread : T)
    (dispose : A → Program A W H T Unit) : Prop :=
  ∀ (frame : Frame A W H T) a,
    frame.Calm →
    Triple (protocol config) thread
      (keeping config thread { frame with releasing := some a })
      (dispose a)
      (fun _ => keeping config thread frame)

/-- `Disposal::release(p)`. -/
theorem release_triple
    {dispose : A → Program A W H T Unit}
    {tentative : Bool}
    {object : Option A}
    (disposes : Disposes config thread dispose)
    (calm : frame.Calm) :
    Triple (protocol config) thread
      (keeping config thread (frame.push tentative object))
      (release dispose thread tentative object)
      (fun _ => keeping config thread frame) := by
  cases object with
  | none =>
      exact Triple.pure fun _ _ known => known
  | some a =>
      refine Triple.bind (delRef_triple calm.releasing calm.unshielded) ?_
      intro last
      cases last with
      | true =>
          exact disposes frame a calm
      | false =>
          have restored : { frame with releasing := none } = frame := by
            rw [← calm.releasing]
          refine Triple.pure fun world _ known => ?_
          have holds : Holds config thread { frame with releasing := none }
            world.1 := known
          rw [restored] at holds
          exact holds

end Release

section Destruction

/-- The status of an object that nobody owns changes. -/
theorem restatus_sound
    {a : A}
    {status : Status T}
    {releasing : T → Option A}
    {guards : A → List T}
    {deeds : List (Deed A W T)}
    (inv : Invariant config state)
    (unowned : state.status a ≠ .owned)
    (unownedStill : status ≠ .owned)
    (life :
      ∀ b, lifeOf b deeds = Function.update state.status a status b)
    (lawful : Lawful deeds)
    (condemned :
      ∀ other b,
        releasing other = some b ↔
          Function.update state.status a status b = .condemned other)
    (unbuilt :
      status = .free → ∀ w, config.home w = some a → state.word w = none)
    (built : status.Alive → (state.status a).Alive)
    (foreign :
      ∀ other,
        other ≠ thread →
          state.status a ≠ .fresh other ∧ state.status a ≠ .dying other)
    (lockless : ∀ w, state.lock w ≠ some thread)
    (releasingKept :
      ∀ other, other ≠ thread → releasing other = state.releasing other)
    (shield :
      ∀ other b,
        other ≠ thread →
        Shielded state other b →
        Function.update state.status a status b = .owned ∨
          (∃ releaser,
            Function.update state.status a status b =
              .condemned releaser) ∨
          (Function.update state.status a status b = .retired ∧
            other ∈ guards b)) :
    Sound config thread state
      { state with
        status := Function.update state.status a status
        releasing := releasing
        guards := guards
        deeds := deeds } := by
  refine ⟨{ inv with
    owned := ?_
    life := life
    lawful := lawful
    condemned := condemned
    unbuilt := ?_
    built := ?_
    locked := ?_
    walked := fun other b cell walks => by
      obtain ⟨solitary, pinned⟩ := inv.walked other b cell walks
      exact ⟨solitary.keep rfl (fun _ h => h) (fun _ h => h)
        (fun _ h _ => Or.inl h), pinned⟩ },
    fun other different => { Kept.refl config other state with
      shield := fun b known => ⟨known.1, shield other b different known⟩
      releasing := releasingKept other different
      fresh := ?_
      dying := ?_ }⟩
  · intro b
    have before := inv.owned b
    by_cases same : b = a
    · subst b
      simp only [Function.update_self, unownedStill, false_iff]
      rw [← before]
      exact unowned
    · simp only [Function.update_of_ne same]
      exact before
  · intro b w inside free
    by_cases same : b = a
    · subst b
      simp only [Function.update_self] at free
      exact unbuilt free w inside
    · simp only [Function.update_of_ne same] at free
      exact inv.unbuilt b w inside free
  · intro b w inside alive
    by_cases same : b = a
    · subst b
      simp only [Function.update_self] at alive
      exact inv.built _ w inside (built alive)
    · simp only [Function.update_of_ne same] at alive
      exact inv.built b w inside alive
  · intro other w locked
    have different : other ≠ thread := by
      rintro rfl
      exact lockless w locked
    exact (inv.locked other w locked).status fun b =>
      update_dying (foreign other different).2
  · intro b fresh
    have differs : b ≠ a := by
      rintro rfl
      exact (foreign other different).1 fresh
    simp only [Function.update_of_ne differs]
    exact fresh
  · intro b dying
    exact ⟨update_dying (foreign other different).2 dying,
      fun _ _ => Iff.rfl⟩

/-- The thread that condemned an object is no longer about to dispose. -/
theorem uncondemned
    {a : A}
    {status : Status T}
    (inv : Invariant config state)
    (releases : state.releasing thread = some a)
    (changes : ∀ other, status ≠ .condemned other)
    (other : T)
    (b : A) :
    Function.update state.releasing thread none other = some b ↔
      Function.update state.status a status b = .condemned other := by
  have before := inv.condemned other b
  by_cases same : b = a
  · subst b
    simp only [Function.update_self, changes other, iff_false]
    by_cases mine : other = thread
    · simp [mine]
    · rw [Function.update_of_ne mine, before,
        (inv.condemned thread a).mp releases]
      simp [Ne.symm mine]
  · rw [Function.update_of_ne same, ← before]
    by_cases mine : other = thread
    · subst other
      simp [releases, Ne.symm same]
    · rw [Function.update_of_ne mine]

/-- The members of an object whose destructor begins. -/
theorem members_built
    {a : A}
    (inv : Invariant config state)
    (alive : (state.status a).Alive)
    (w : W)
    (inside : config.home w = some a) :
    w ∈ config.members a ↔ state.word w ≠ none :=
  iff_of_true ((config.mem_members a w).mpr inside)
    (inv.built a w inside alive)

omit [DecidableEq W] in
/-- The objects in destruction stay so when another one changes. -/
theorem Holds.dying_restatus
    {a : A}
    {status : Status T}
    (holds : Holds config thread frame state)
    (differs : state.status a ≠ .dying thread) :
    ∀ b words,
      (b, words) ∈ frame.dying →
        Function.update state.status a status b = .dying thread ∧
          ∀ w,
            config.home w = some b →
              (w ∈ words ↔ state.word w ≠ none) := by
  intro b words member
  obtain ⟨dying, remaining⟩ := holds.dying b words member
  exact ⟨update_dying differs dying, remaining⟩

omit [DecidableEq A] [DecidableEq W] in
/-- An object that is not in destruction is none of the frame's. -/
theorem Holds.not_dying
    {a : A}
    (holds : Holds config thread frame state)
    (differs : state.status a ≠ .dying thread) :
    ∀ entry ∈ frame.dying, entry.1 ≠ a := by
  rintro ⟨b, words⟩ member rfl
  exact differs (holds.dying b words member).1

/-- The frame when the destructor of an object has begun. -/
def Frame.destroy
    (frame : Frame A W H T)
    (a : A)
    (words : List W) :
    Frame A W H T :=
  { frame with dying := (a, words) :: frame.dying }

/-- `delete p` begins. -/
theorem deleteObject_triple
    {a : A}
    (spinning : config.flavour = .spinning)
    (calm : frame.Calm) :
    Triple (protocol config) thread
      (keeping config thread { frame with releasing := some a })
      (deleteObject thread a : Program A W H T Unit)
      (fun _ =>
        (Assertion.pure (∀ entry ∈ frame.dying, entry.1 ≠ a)).and
          (keeping config thread
            (frame.destroy a (config.members a)))) := by
  apply command_triple
  intro state choice value after inv holds ran
  cases ran
  have releases : state.releasing thread = some a := holds.releasing
  have condemned := (inv.condemned thread a).mp releases
  have distinct : ∀ other, state.status a ≠ .dying other := by
    rw [condemned]
    simp
  have alive : (state.status a).Alive := by
    rw [condemned]
    exact ⟨by simp, by simp⟩
  refine ⟨restatus_sound inv ?_ (by simp) ?_ ?_
    (uncondemned inv releases (by simp)) (by simp) (fun _ => alive) ?_
    (fun w => holds.lockless calm.lock)
    (fun other different => Function.update_of_ne different _ _) ?_,
    holds.not_dying (distinct thread), ?_⟩
  · rw [condemned]
    simp
  · intro b
    simp only [lifeOf]
    by_cases same : b = a
    · subst b
      simp
    · simp only [if_neg (Ne.symm same), Function.update_of_ne same]
      exact inv.life b
  · refine ⟨?_, ?_, inv.lawful⟩
    · show lifeOf a (_ :: _) = .retired
      simp [lifeOf]
    · show lifeOf a state.deeds = .condemned thread
      rw [inv.life]
      exact condemned
  · intro other different
    rw [condemned]
    simp
  · intro other b _ shielded
    rw [Shielded, inv.unhazarded spinning other] at shielded
    cases shielded.1
  · refine { holds with
      shield := ?_
      releasing := by simp [Frame.destroy, calm.releasing]
      dying := ?_ }
    · intro shielded
      exact absurd (calm.unshielded.symm.trans shielded) (by simp)
    · intro b words member
      rcases List.mem_cons.mp member with new | old
      · cases new
        exact ⟨Function.update_self _ _ _, fun w inside =>
          (members_built inv alive w inside :
            w ∈ config.members a ↔ state.word w ≠ none)⟩
      · exact holds.dying_restatus (distinct thread) b words old

/-- `p->retire()`: whoever protects the object goes on doing so. -/
theorem retire_triple
    {a : A}
    (calm : frame.Calm) :
    Triple (protocol config) thread
      (keeping config thread { frame with releasing := some a })
      (retire thread a : Program A W H T Unit)
      (fun _ => keeping config thread frame) := by
  apply update_triple
  intro state inv holds
  have releases : state.releasing thread = some a := holds.releasing
  have condemned := (inv.condemned thread a).mp releases
  refine ⟨restatus_sound inv ?_ (by simp) ?_ ?_
    (uncondemned inv releases (by simp)) (by simp) ?_ ?_
    (fun w => holds.lockless calm.lock)
    (fun other different => Function.update_of_ne different _ _) ?_, ?_⟩
  · rw [condemned]
    simp
  · intro b
    simp only [lifeOf]
    by_cases same : b = a
    · subst b
      simp
    · simp only [if_neg (Ne.symm same), Function.update_of_ne same]
      exact inv.life b
  · refine ⟨?_, inv.lawful⟩
    show lifeOf a state.deeds = .condemned thread
    rw [inv.life]
    exact condemned
  · intro _
    rw [condemned]
    exact ⟨by simp, by simp⟩
  · intro other different
    rw [condemned]
    simp
  · intro other b _ ⟨named, safe⟩
    by_cases same : b = a
    · subst b
      simp only [Function.update_self, List.mem_filter, decide_eq_true_eq]
      exact Or.inr (Or.inr ⟨trivial,
        inv.recorded other (by rw [named]; simp), named⟩)
    · simp only [Function.update_of_ne same]
      exact safe
  · exact { holds with
      shield := fun shielded =>
        absurd (calm.unshielded.symm.trans shielded) (by simp)
      releasing := by simp [calm.releasing]
      dying := holds.dying_restatus (by rw [condemned]; simp) }

/-- A scan destroys only what nobody protects. -/
theorem reclaim_triple
    (calm : frame.Calm) :
    Triple (protocol config) thread (keeping config thread frame)
      (reclaim thread : Program A W H T (Option A))
      (fun found =>
        match found with
        | none => keeping config thread frame
        | some a =>
            (Assertion.pure (∀ entry ∈ frame.dying, entry.1 ≠ a)).and
              (keeping config thread
                (frame.destroy a (config.members a)))) := by
  apply command_triple
  intro state choice found after inv holds ran
  cases choice with
  | done =>
      cases ran
      exact ⟨Sound.refl inv, holds⟩
  | address a =>
      simp only at ran
      split at ran
      case isFalse =>
          cases ran
      case isTrue reclaimable =>
          obtain ⟨retired, unguarded⟩ := reclaimable
          cases ran
          have alive : (state.status a).Alive := by
            rw [retired]
            exact ⟨by simp, by simp⟩
          have idle : state.releasing thread = none :=
            holds.releasing.trans calm.releasing
          refine ⟨restatus_sound inv ?_ (by simp) ?_ ?_ ?_ (by simp)
            (fun _ => alive) ?_ (fun w => holds.lockless calm.lock)
            (fun _ _ => rfl) ?_,
            holds.not_dying (by rw [retired]; simp), ?_⟩
          · rw [retired]
            simp
          · intro b
            simp only [lifeOf]
            by_cases same : b = a
            · subst b
              simp
            · simp only [if_neg (Ne.symm same), Function.update_of_ne same]
              exact inv.life b
          · refine ⟨?_, inv.lawful⟩
            show lifeOf a state.deeds = .retired
            rw [inv.life]
            exact retired
          · intro other b
            by_cases same : b = a
            · subst b
              rw [inv.condemned, retired]
              simp
            · rw [Function.update_of_ne same]
              exact inv.condemned other b
          · intro other different
            rw [retired]
            simp
          · intro other b _ ⟨_, safe⟩
            by_cases same : b = a
            · subst b
              simp [retired, unguarded] at safe
            · simp only [Function.update_of_ne same]
              exact safe
          · refine { holds with
              shield := fun shielded =>
                absurd (calm.unshielded.symm.trans shielded) (by simp)
              dying := ?_ }
            intro b words member
            rcases List.mem_cons.mp member with new | old
            · cases new
              exact ⟨Function.update_self _ _ _, fun w inside =>
                (members_built inv alive w inside :
                  w ∈ config.members a ↔ state.word w ≠ none)⟩
            · exact holds.dying_restatus (by rw [retired]; simp) b words old
  | _ =>
      cases ran

/-- The memory of an object without members left is free again. -/
theorem freeObject_triple
    {a : A}
    (calm : frame.Calm)
    (distinct : ∀ entry ∈ frame.dying, entry.1 ≠ a) :
    Triple (protocol config) thread
      (keeping config thread (frame.destroy a []))
      (freeObject a : Program A W H T Unit)
      (fun _ => keeping config thread frame) := by
  apply update_triple
  intro state inv holds
  obtain ⟨dying, remaining⟩ := holds.dying a [] List.mem_cons_self
  refine ⟨restatus_sound inv ?_ (by simp) ?_ ?_ ?_ ?_ ?_ ?_
    (fun w => holds.lockless calm.lock) (fun _ _ => rfl) ?_, ?_⟩
  · rw [dying]
    simp
  · intro b
    simp only [lifeOf]
    by_cases same : b = a
    · subst b
      simp
    · simp only [if_neg (Ne.symm same), Function.update_of_ne same]
      exact inv.life b
  · refine ⟨⟨thread, ?_⟩, inv.lawful⟩
    rw [inv.life]
    exact dying
  · intro other b
    by_cases same : b = a
    · subst b
      rw [inv.condemned, dying]
      simp
    · rw [Function.update_of_ne same]
      exact inv.condemned other b
  · intro _ w inside
    have gone := (remaining w inside).not
    simpa using gone
  · intro alive
    exact absurd rfl alive.1
  · intro other different
    rw [dying]
    simp [Ne.symm different]
  · intro other b _ ⟨_, safe⟩
    by_cases same : b = a
    · subst b
      simp [dying] at safe
    · simp only [Function.update_of_ne same]
      exact safe
  · refine { holds with
      shield := fun shielded =>
        absurd (calm.unshielded.symm.trans shielded) (by simp)
      dying := ?_ }
    intro b words member
    obtain ⟨dyingToo, remainingToo⟩ :=
      holds.dying b words (List.mem_cons_of_mem _ member)
    refine ⟨?_, remainingToo⟩
    simp only [Function.update_of_ne (distinct (b, words) member)]
    exact dyingToo

end Destruction

end ConcurrentCpp.IntrPointer
