import ConcurrentCpp.IntrPointerLists

namespace ConcurrentCpp.IntrPointer

/-!
# Sessions

A client picks calls within the rules for handles, and each call keeps what the
client knew before it.  A destructor that runs a session of its own does so in
the middle of another call, so nothing here assumes that a thread starts with
nothing.
-/

variable {A W H T : Type}
variable [DecidableEq A] [DecidableEq W] [DecidableEq H] [DecidableEq T]
variable
  {config : Config A W}
  {thread : T}
  {frame : Frame A W H T}
  {this : Option A}
  {call : Call A W H}
  {seen : State A W H T}

section Picking

/-- The frame with the uses of a call, and with these values. -/
def Frame.using
    (frame : Frame A W H T)
    (pins : List (Pin W H))
    (value : H → Option (Word A))
    (root : W → Option (Word A)) :
    Frame A W H T :=
  { frame with
    pins := pins ++ frame.pins
    value := value
    root := root }

/-- The frame inside one more call. -/
def Frame.entered
    (frame : Frame A W H T)
    (call : Call A W H) :
    Frame A W H T :=
  { frame with running := call :: frame.running }

/-- A call was picked in a state that it suits. -/
structure Picked
    (config : Config A W)
    (this : Option A)
    (frame : Frame A W H T)
    (call : Call A W H)
    (seen : State A W H T) : Prop where
  valid : call.Valid config this seen
  distinct : call.pins.Pairwise Pin.Compatible
  apart : ∀ pin ∈ call.pins, ∀ other ∈ frame.pins, pin.Compatible other
  unwalked :
    ∀ entry ∈ frame.walking,
      ∀ exclusive, ⟨.handle entry.2, exclusive⟩ ∉ call.pins
  values :
    ∀ h exclusive,
      ⟨.handle h, exclusive⟩ ∈ frame.pins → frame.value h = seen.handle h
  roots :
    ∀ w, ⟨.word w, true⟩ ∈ frame.pins → frame.root w = seen.word w
  inside : frame.pins ≠ [] → frame.running ≠ []

omit [DecidableEq A] [DecidableEq W] [DecidableEq T] in
/-- The call was picked as well for the frame inside it. -/
theorem Picked.entered
    (picked : Picked config this frame call seen) :
    Picked config this (frame.entered call) call seen :=
  { picked with inside := fun _ => List.cons_ne_nil _ _ }

/-- What a client knows once it has picked. -/
def picking
    (config : Config A W)
    (thread : T)
    (this : Option A)
    (frame : Frame A W H T) :
    Option (Call A W H) → Assertion (protocol config (H := H)) thread
  | none => keeping config thread frame
  | some call =>
      Assertion.any fun seen : State A W H T =>
        (Assertion.pure (Picked config this frame call seen)).and
          (keeping config thread
            ((frame.entered call).using call.pins seen.handle seen.word))

omit [DecidableEq A] [DecidableEq W] [DecidableEq T] in
/-- The words that a call uses itself stand alone; those it shares exist. -/
theorem Call.Valid.word
    {w : W}
    {exclusive : Bool}
    (valid : call.Valid config this seen)
    (uses : ⟨.word w, exclusive⟩ ∈ call.pins) :
    config.home w = none ∧ (exclusive = false → seen.word w ≠ none) := by
  have access :
      ∀ access : Access W H,
        access.Valid config this seen →
        ⟨.word w, exclusive⟩ ∈ access.pins →
        config.home w = none ∧
          (exclusive = false → seen.word w ≠ none) := by
    intro access valid member
    cases access with
    | direct root =>
        simp only [Access.pins, List.mem_singleton, Pin.mk.injEq,
          Place.word.injEq] at member
        obtain ⟨rfl, rfl⟩ := member
        exact ⟨valid.1, fun _ => valid.2⟩
    | through h member =>
        simp [Access.pins] at member
    | own member =>
        simp [Access.pins] at member
  cases call with
  | load path dst =>
      refine access path valid.2 ?_
      simpa [Call.pins] using uses
  | store path desired =>
      refine access path valid.2 ?_
      simpa [Call.pins] using uses
  | compareExchange strong path expected desired =>
      refine access path valid.2.2.1 ?_
      simp only [Call.pins] at uses
      split at uses
      · simpa using uses
      · simpa using uses
  | beforeBegin path dst =>
      refine access path valid.2 ?_
      simpa [Call.pins] using uses
  | build root desired =>
      simp only [Call.pins, List.mem_cons, Pin.mk.injEq, Place.word.injEq,
        reduceCtorEq, false_and, List.not_mem_nil, or_false] at uses
      obtain ⟨rfl, rfl⟩ := uses
      exact ⟨valid.1, by simp⟩
  | unbuild root =>
      simp only [Call.pins, List.mem_singleton, Pin.mk.injEq,
        Place.word.injEq] at uses
      obtain ⟨rfl, rfl⟩ := uses
      exact ⟨valid.1, by simp⟩
  | copyAssign dst src =>
      simp only [Call.pins] at uses
      split at uses <;> simp at uses
  | moveAssign dst src =>
      simp only [Call.pins] at uses
      split at uses <;> simp at uses
  | _ =>
      simp [Call.pins] at uses

/-- The uses of a call join those of the thread. -/
theorem pick_sound
    {state : State A W H T}
    (inv : Invariant config state)
    (valid : call.Valid config this state)
    (disciplined :
      Disciplined
        (call.pins.map (fun pin => (thread, pin)) ++ state.pins)) :
    Sound config thread state
      { state with
        running := (thread, call) :: state.running
        pins :=
          call.pins.map (fun pin => (thread, pin)) ++ state.pins } := by
  have mine :
      ∀ other pin,
        (other, pin) ∈
            call.pins.map (fun pin => (thread, pin)) ++ state.pins →
          other = thread ∧ pin ∈ call.pins ∨ (other, pin) ∈ state.pins := by
    intro other pin member
    rcases List.mem_append.mp member with new | old
    · obtain ⟨used, member, same⟩ := List.mem_map.mp new
      cases same
      exact Or.inl ⟨rfl, member⟩
    · exact Or.inr old
  refine ⟨{ inv with
    disciplined := disciplined
    flown := ?_
    inside := ?_
    pinned := ?_
    roots := ?_
    locked := fun other w locked =>
      (inv.locked other w locked).pins fun pin member =>
        List.mem_append_right _ member
    walked := ?_ }, fun other different =>
      { Kept.refl config other state with
        running := own_cons_other (Ne.symm different)
        pins := ?_ }⟩
  · intro entry flies
    obtain ⟨pin, pinned⟩ := inv.flown entry flies
    exact ⟨pin, List.mem_append_right _ pinned⟩
  · rintro ⟨other, pin⟩ pinned
    rcases mine other pin pinned with ⟨rfl, -⟩ | old
    · exact ⟨call, List.mem_cons_self⟩
    · obtain ⟨first, runs⟩ := inv.inside _ old
      exact ⟨first, List.mem_cons_of_mem _ runs⟩
  · intro other w pinned
    rcases mine other _ pinned with ⟨-, new⟩ | old
    · exact (valid.word new).2 rfl
    · exact inv.pinned other w old
  · intro other w exclusive pinned
    rcases mine other _ pinned with ⟨-, new⟩ | old
    · exact (valid.word new).1
    · exact inv.roots other w exclusive old
  · intro other a cell walks
    obtain ⟨solitary, pinned⟩ := inv.walked other a cell walks
    exact ⟨solitary.keep rfl (fun _ h => h) (fun _ h => h)
      (fun _ h _ => Or.inl h), List.mem_append_right _ pinned⟩
  · rw [own_append, own_map_other (Ne.symm different), List.nil_append]

theorem pick_triple :
    Triple (protocol config) thread (keeping config thread frame)
      (pick config thread this)
      (picking config thread this frame) := by
  apply command_triple
  intro state choice picked after inv holds ran
  cases choice with
  | done =>
      cases ran
      exact ⟨Sound.refl inv, holds⟩
  | call chosen =>
      simp only at ran
      split at ran
      case isFalse =>
          cases ran
      case isTrue allowed =>
          cases ran
          obtain ⟨valid, disciplined⟩ := allowed
          have pairs := List.pairwise_append.mp disciplined
          refine ⟨pick_sound inv valid disciplined, state,
            ⟨valid, ?_, ?_, ?_, ?_, ?_, ?_⟩, ?_⟩
          · have own := pairs.1
            rw [List.pairwise_map] at own
            exact own
          · intro pin member other pinned
            exact pairs.2.2 (thread, pin)
              (List.mem_map.mpr ⟨pin, member, rfl⟩) (thread, other)
              (holds.pin_mem pinned)
          · rintro ⟨a, cell⟩ member exclusive used
            rw [← holds.walking, mem_own] at member
            have pinned := (inv.walked thread a cell member).2
            have compatible :=
              pairs.2.2 (thread, _)
                (List.mem_map.mpr ⟨_, used, rfl⟩) _ pinned rfl
            simp at compatible
          · intro h exclusive pinned
            exact (holds.values h exclusive pinned).symm
          · intro w pinned
            exact (holds.roots w pinned).symm
          · intro uses
            obtain ⟨pin, pinned⟩ := holds.busy uses
            obtain ⟨first, runs⟩ := inv.inside _ pinned
            rw [← mem_own, holds.running] at runs
            exact List.ne_nil_of_mem runs
          · exact { holds with
              running := own_cons_self.trans
                (congrArg (_ :: ·) holds.running)
              pins := by
                rw [own_append, own_map_self, holds.pins]
                rfl
              values := fun _ _ _ => rfl
              roots := fun _ _ => rfl }
  | _ =>
      cases ran

end Picking

section Finishing

/-- What a call may leave different: what it used alone. -/
structure Changes
    (call : Call A W H)
    (seen : State A W H T) where
  value : H → Option (Word A)
  root : W → Option (Word A)
  values :
    ∀ h, ⟨.handle h, true⟩ ∉ call.pins → value h = seen.handle h
  roots : ∀ w, ⟨.word w, true⟩ ∉ call.pins → root w = seen.word w

/-- Nothing is different. -/
def Changes.nothing
    (call : Call A W H)
    (seen : State A W H T) :
    Changes call seen :=
  ⟨seen.handle, seen.word, fun _ _ => rfl, fun _ _ => rfl⟩

/-- A handle that the call used alone is different. -/
def Changes.set
    (changes : Changes call seen)
    (h : H)
    (content : Option (Word A))
    (alone : ⟨.handle h, true⟩ ∈ call.pins) :
    Changes call seen :=
  ⟨Function.update changes.value h content, changes.root,
    fun other outside => by
      have differs : other ≠ h := by
        rintro rfl
        exact outside alone
      rw [Function.update_of_ne differs]
      exact changes.values other outside,
    changes.roots⟩

/-- A word that the call used alone is different. -/
def Changes.setRoot
    (changes : Changes call seen)
    (w : W)
    (content : Option (Word A))
    (alone : ⟨.word w, true⟩ ∈ call.pins) :
    Changes call seen :=
  ⟨changes.value, Function.update changes.root w content,
    changes.values,
    fun other outside => by
      have differs : other ≠ w := by
        rintro rfl
        exact outside alone
      rw [Function.update_of_ne differs]
      exact changes.roots other outside⟩

/-- With the uses gone, the client knows what it knew. -/
theorem Picked.restores
    {world : State A W H T × Unit}
    (picked : Picked config this frame call seen)
    (changes : Changes call seen)
    (known :
      (keeping config thread
        (frame.using [] changes.value changes.root)).holds world) :
    (keeping config thread frame).holds world := by
  have holds :
      Holds config thread (frame.using [] changes.value changes.root)
        world.1 :=
    known
  refine { holds with values := ?_, roots := ?_ }
  · intro h exclusive pinned
    rw [holds.values h exclusive pinned, picked.values h exclusive pinned]
    refine changes.values h fun used => ?_
    have compatible := picked.apart _ used _ pinned rfl
    simp at compatible
  · intro w pinned
    rw [holds.roots w pinned, picked.roots w pinned]
    refine changes.roots w fun used => ?_
    have compatible := picked.apart _ used _ pinned rfl
    simp at compatible

theorem unpinHead_triple
    {pin : Pin W H}
    {pins : List (Pin W H)}
    {value : H → Option (Word A)}
    {root : W → Option (Word A)}
    (rests : frame.flights = [] ∨ pins ++ frame.pins ≠ [])
    (free : frame.lock = none)
    (unwalked :
      ∀ entry ∈ frame.walking, (⟨.handle entry.2, true⟩ : Pin W H) ≠ pin) :
    Triple (protocol config) thread
      (keeping config thread (frame.using (pin :: pins) value root))
      (unpin thread pin : Program A W H T Unit)
      (fun _ => keeping config thread (frame.using pins value root)) := by
  have freeNow : (frame.using (pin :: pins) value root).lock = none := free
  have erased :
      (frame.using (pin :: pins) value root).pins.erase pin =
        (frame.using pins value root).pins :=
    List.erase_cons_head _ _
  have restsNow :
      (frame.using (pin :: pins) value root).flights = [] ∨
        (frame.using (pin :: pins) value root).pins.erase pin ≠ [] := by
    rw [erased]
    exact rests
  refine (unpin_triple restsNow unwalked freeNow).consequence ?_
  intro _ world _ known
  rw [erased] at known
  exact known

theorem unpinAll_triple
    {pins : List (Pin W H)}
    {value : H → Option (Word A)}
    {root : W → Option (Word A)}
    (settled : frame.Settled)
    (unwalked :
      ∀ entry ∈ frame.walking,
        (⟨.handle entry.2, true⟩ : Pin W H) ∉ pins) :
    Triple (protocol config) thread
      (keeping config thread (frame.using pins value root))
      (unpinAll thread pins : Program A W H T Unit)
      (fun _ => keeping config thread (frame.using [] value root)) := by
  induction pins with
  | nil =>
      exact Triple.pure fun _ _ known => known
  | cons pin pins inductionHypothesis =>
      have rests : frame.flights = [] ∨ pins ++ frame.pins ≠ [] :=
        settled.flown.imp id
          (List.append_ne_nil_of_right_ne_nil pins)
      refine Triple.bind
        (unpinHead_triple rests settled.lock fun entry member same =>
          unwalked entry member (same ▸ List.mem_cons_self)) ?_
      intro _
      exact inductionHypothesis fun entry member used =>
        unwalked entry member (List.mem_cons_of_mem _ used)

/-- A call that changes only what it used alone keeps what the client knew. -/
theorem unpinning_triple
    {β : Type}
    {operation : Program A W H T β}
    {pre : Assertion (protocol config (H := H)) thread}
    (picked : Picked config this frame call seen)
    (settled : frame.Settled)
    (does :
      Triple (protocol config) thread pre operation
        (fun _ =>
          Assertion.any fun changes : Changes call seen =>
            keeping config thread
              (frame.using call.pins changes.value changes.root))) :
    Triple (protocol config) thread pre
      (do
        let _ ← operation
        unpinAll thread call.pins)
      (fun _ => keeping config thread frame) := by
  refine Triple.bind does ?_
  intro _
  refine Triple.any fun changes => ?_
  refine (unpinAll_triple settled fun entry member =>
    picked.unwalked entry member true).consequence ?_
  intro _ world _ known
  exact picked.restores changes known

end Finishing

section Performing

variable
  {value : H → Option (Word A)}
  {root : W → Option (Word A)}

omit [DecidableEq A] [DecidableEq W] [DecidableEq T] in
theorem Picked.writes
    {h : H}
    (picked : Picked config this frame call seen)
    (alone : ⟨.handle h, true⟩ ∈ call.pins) :
    (frame.using call.pins value root).Writes h :=
  ⟨List.mem_append_left _ alone, fun entry member same =>
    picked.unwalked entry member true (same ▸ alone)⟩

omit [DecidableEq A] [DecidableEq W] [DecidableEq T] in
theorem Picked.reads
    {h : H}
    {exclusive : Bool}
    (picked : Picked config this frame call seen)
    (used : ⟨.handle h, exclusive⟩ ∈ call.pins) :
    (frame.using call.pins value root).Reads h :=
  ⟨⟨exclusive, List.mem_append_left _ used⟩, fun entry member same =>
    picked.unwalked entry member exclusive (same ▸ used)⟩

omit [DecidableEq A] [DecidableEq W] [DecidableEq H] [DecidableEq T] in
theorem Frame.Settled.using
    {pins : List (Pin W H)}
    (settled : frame.Settled)
    (uses : pins ≠ []) :
    (frame.using pins value root).Calm :=
  ⟨settled.releasing, settled.hazard, settled.unshielded, settled.lock,
    List.append_ne_nil_of_left_ne_nil uses _⟩

omit [DecidableEq A] [DecidableEq W] [DecidableEq T] in
/-- Every call uses something. -/
theorem Call.pins_ne_nil
    (call : Call A W H) :
    call.pins ≠ [] := by
  cases call <;> simp only [Call.pins] <;> first | split <;> simp | simp

omit [DecidableEq A] [DecidableEq W] [DecidableEq T] in
/-- The path of a call leads to a word in reach. -/
theorem reaches_access
    {access : Access W H}
    (valid : access.Valid config this seen)
    (used : ∀ pin ∈ access.pins, pin ∈ call.pins)
    (own : ∀ a, this = some a → (a, config.members a) ∈ frame.dying) :
    (frame.using call.pins seen.handle seen.word).Reaches config
      access.word := by
  unfold Frame.Reaches
  cases access with
  | direct w =>
      simp only [Access.word, valid.1]
      exact List.mem_append_left _ (used _ (by simp [Access.pins]))
  | through h w =>
      obtain ⟨inside, pointee⟩ := valid
      obtain ⟨a, isHome⟩ := Option.ne_none_iff_exists'.mp inside
      simp only [Access.word, isHome]
      refine Or.inl ⟨h, false,
        List.mem_append_left _ (used _ (by simp [Access.pins])), ?_⟩
      rw [isHome, State.handleAt, getD_ptr] at pointee
      exact pointee
  | own w =>
      obtain ⟨inside, isThis⟩ := valid
      obtain ⟨a, isHome⟩ := Option.ne_none_iff_exists'.mp inside
      simp only [Access.word, isHome]
      exact Or.inr ⟨config.members a, own a (isThis.trans isHome),
        (config.mem_members a w).mpr isHome⟩

omit [DecidableEq A] [DecidableEq W] [DecidableEq T] in
/-- Two handles that a call uses, one of them alone, differ. -/
theorem Picked.differ
    {first second : H}
    {exclusive : Bool}
    {rest : List (Pin W H)}
    (picked : Picked config this frame call seen)
    (shape :
      call.pins =
        ⟨.handle first, true⟩ :: ⟨.handle second, exclusive⟩ :: rest) :
    first ≠ second := by
  rintro rfl
  have distinct := picked.distinct
  rw [shape] at distinct
  have compatible :=
    (List.pairwise_cons.mp distinct).1 _ List.mem_cons_self rfl
  simp at compatible

/-- What an assignment leaves to its caller: the target is still in use. -/
def assigned
    (config : Config A W)
    (thread : T)
    (frame : Frame A W H T)
    (call : Call A W H)
    (seen : State A W H T)
    (dst : H) :
    Assertion (protocol config (H := H)) thread :=
  Assertion.any fun changes : Changes call seen =>
    keeping config thread
      (frame.using [⟨.handle dst, true⟩] changes.value changes.root)

/-- The copy assignment. -/
theorem copyAssign_triple
    {dispose : A → Program A W H T Unit}
    {dst src : H}
    (picked : Picked config this frame (.copyAssign dst src) seen)
    (disposes : Disposes config thread dispose)
    (settled : frame.Settled) :
    Triple (protocol config) thread
      (keeping config thread
        (frame.using (Call.copyAssign (A := A) (W := W) dst src).pins
          seen.handle seen.word))
      (copyAssign dispose thread dst src)
      (fun _ =>
        assigned config thread frame (.copyAssign dst src) seen dst) := by
  unfold copyAssign
  by_cases same : dst = src
  · have pins :
        (Call.copyAssign (A := A) (W := W) dst src).pins =
          [⟨.handle dst, true⟩] := by
      simp [Call.pins, same]
    rw [if_pos same, pins]
    exact Triple.pure fun _ _ known => ⟨Changes.nothing _ seen, known⟩
  · have pins :
        (Call.copyAssign (A := A) (W := W) dst src).pins =
          [⟨.handle src, false⟩, ⟨.handle dst, true⟩] := by
      simp [Call.pins, same]
    have usesSrc :
        ⟨.handle src, false⟩ ∈
          (Call.copyAssign (A := A) (W := W) dst src).pins := by
      simp [pins]
    have usesDst :
        ⟨.handle dst, true⟩ ∈
          (Call.copyAssign (A := A) (W := W) dst src).pins := by
      simp [pins]
    obtain ⟨word, content⟩ :=
      Option.ne_none_iff_exists'.mp picked.valid.2
    rw [if_neg same]
    refine Triple.bind
      (readHandle_triple (picked.reads usesSrc) content) ?_
    intro read
    refine Triple.given ?_
    rintro rfl
    refine Triple.bind
      (countHandle_triple (picked.reads usesSrc) content) ?_
    intro _
    rw [pins]
    have unpinning :
        Triple (protocol config) thread
          (keeping config thread
            ((frame.push false read.ptr).using
              [⟨.handle src, false⟩, ⟨.handle dst, true⟩] seen.handle
              seen.word))
          (unpin thread ⟨.handle src, false⟩ : Program A W H T Unit) _ :=
      unpinHead_triple (Or.inr (List.cons_ne_nil _ _)) settled.lock
        (fun _ _ => by simp)
    refine Triple.bind unpinning ?_
    intro _
    have writes :
        (frame.using [⟨.handle dst, true⟩] seen.handle seen.word).Writes
          dst :=
      ⟨List.mem_cons_self, fun entry member isDst =>
        picked.unwalked entry member true (isDst ▸ usesDst)⟩
    have replacing :
        Triple (protocol config) thread
          (keeping config thread
            ((frame.using [⟨.handle dst, true⟩] seen.handle
              seen.word).push false read.ptr))
          (replace dispose thread dst read) _ :=
      replace_triple disposes (settled.using (List.cons_ne_nil _ _)) writes
    refine replacing.consequence ?_
    intro _ world _ known
    exact ⟨(Changes.nothing _ seen).set dst (some read) usesDst, known⟩

/-- The move assignment. -/
theorem moveAssign_triple
    {dispose : A → Program A W H T Unit}
    {dst src : H}
    (picked : Picked config this frame (.moveAssign dst src) seen)
    (disposes : Disposes config thread dispose)
    (settled : frame.Settled) :
    Triple (protocol config) thread
      (keeping config thread
        (frame.using (Call.moveAssign (A := A) (W := W) dst src).pins
          seen.handle seen.word))
      (moveAssign dispose thread dst src)
      (fun _ =>
        assigned config thread frame (.moveAssign dst src) seen dst) := by
  unfold moveAssign
  by_cases same : dst = src
  · have pins :
        (Call.moveAssign (A := A) (W := W) dst src).pins =
          [⟨.handle dst, true⟩] := by
      simp [Call.pins, same]
    rw [if_pos same, pins]
    exact Triple.pure fun _ _ known => ⟨Changes.nothing _ seen, known⟩
  · have pins :
        (Call.moveAssign (A := A) (W := W) dst src).pins =
          [⟨.handle src, true⟩, ⟨.handle dst, true⟩] := by
      simp [Call.pins, same]
    have usesSrc :
        ⟨.handle src, true⟩ ∈
          (Call.moveAssign (A := A) (W := W) dst src).pins := by
      simp [pins]
    have usesDst :
        ⟨.handle dst, true⟩ ∈
          (Call.moveAssign (A := A) (W := W) dst src).pins := by
      simp [pins]
    obtain ⟨word, content⟩ :=
      Option.ne_none_iff_exists'.mp picked.valid.2
    rw [if_neg same]
    refine Triple.bind
      (takeOver_triple (picked.writes usesDst) (picked.writes usesSrc)
        content same settled.lock) ?_
    intro old
    refine Triple.given ?_
    rintro rfl
    rw [pins]
    have unpinning :
        Triple (protocol config) thread
          (keeping config thread
            ((frame.push false ((seen.handle dst).bind Word.ptr)).using
              [⟨.handle src, true⟩, ⟨.handle dst, true⟩]
              (Function.update (Function.update seen.handle dst (some word))
                src (some Word.null))
              seen.word))
          (unpin thread ⟨.handle src, true⟩ : Program A W H T Unit) _ :=
      unpinHead_triple (Or.inr (List.cons_ne_nil _ _)) settled.lock
        fun entry member isSrc =>
          picked.unwalked entry member true (by rw [isSrc]; exact usesSrc)
    refine Triple.bind unpinning ?_
    intro _
    have releasing :
        Triple (protocol config) thread
          (keeping config thread
            ((frame.using [⟨.handle dst, true⟩]
              (Function.update (Function.update seen.handle dst (some word))
                src (some Word.null))
              seen.word).push false ((seen.handle dst).bind Word.ptr)))
          (release dispose thread false
            ((seen.handle dst).bind Word.ptr)) _ :=
      release_triple disposes (settled.using (List.cons_ne_nil _ _))
    refine releasing.consequence ?_
    intro _ world _ known
    exact ⟨((Changes.nothing _ seen).set dst (some word) usesDst).set src
      (some Word.null) usesSrc, known⟩

/-- The end of an assignment. -/
theorem unpinningAssign_triple
    {operation : Program A W H T Unit}
    {dst : H}
    {pre : Assertion (protocol config (H := H)) thread}
    (picked : Picked config this frame call seen)
    (settled : frame.Settled)
    (alone : ⟨.handle dst, true⟩ ∈ call.pins)
    (does :
      Triple (protocol config) thread pre operation
        (fun _ => assigned config thread frame call seen dst)) :
    Triple (protocol config) thread pre
      (do
        operation
        unpin thread ⟨.handle dst, true⟩)
      (fun _ => keeping config thread frame) := by
  refine Triple.bind does ?_
  intro _
  refine Triple.any fun changes => ?_
  have rests : frame.flights = [] ∨ [] ++ frame.pins ≠ [] := settled.flown
  refine (unpinHead_triple rests settled.lock ?_).consequence ?_
  · intro entry member isDst
    exact picked.unwalked entry member true (by rw [isDst]; exact alone)
  · intro _ world _ known
    exact picked.restores changes known

omit [DecidableEq H] in
/-- `use_count()` -/
theorem useCount_triple
    {h : H} :
    Triple (protocol config) thread (keeping config thread frame)
      (useCount h : Program A W H T Nat)
      (fun _ => keeping config thread frame) := by
  apply command_triple
  intro state choice result after inv holds ran
  split at ran
  case h_1 =>
      cases ran
      exact ⟨Sound.refl inv, holds⟩
  case h_2 a pointee =>
      cases ran
      rw [State.handleAt, getD_ptr] at pointee
      exact touch_keeps inv holds
        (by rw [inv.owned_of_handle pointee]; exact alive_owned)

/-- `intr_shared_ptr(desired)` for a word that stands alone. -/
theorem build_triple
    {w : W}
    {desired : H}
    (picked : Picked config this frame (.build w desired) seen)
    (settled : frame.Settled) :
    Triple (protocol config) thread
      (keeping config thread
        (frame.using (Call.build (A := A) w desired).pins seen.handle
          seen.word))
      (do
        let word ← Prog.read fun state => state.handleAt desired
        addRef thread word.ptr
        buildWord thread w word
        unpinAll thread (Call.build (A := A) w desired).pins)
      (fun _ => keeping config thread frame) := by
  obtain ⟨alone, vacant, desiredBuilt⟩ := picked.valid
  obtain ⟨word, content⟩ := Option.ne_none_iff_exists'.mp desiredBuilt
  have usesDesired :
      ⟨.handle desired, false⟩ ∈ (Call.build (A := A) w desired).pins := by
    simp [Call.pins]
  have usesWord :
      ⟨.word w, true⟩ ∈ (Call.build (A := A) w desired).pins := by
    simp [Call.pins]
  refine Triple.bind
    (readHandle_triple (picked.reads usesDesired) content) ?_
  intro read
  refine Triple.given ?_
  rintro rfl
  refine Triple.bind
    (countHandle_triple (picked.reads usesDesired) content) ?_
  intro _
  have free :
      (frame.using (Call.build (A := A) w desired).pins seen.handle
        seen.word).lock = none :=
    settled.lock
  refine unpinning_triple picked settled
    ((buildWord_triple alone (List.mem_append_left _ usesWord) vacant
      free).consequence ?_)
  intro _ world _ known
  exact ⟨(Changes.nothing _ seen).setRoot w (some read) usesWord, known⟩

/-- `~intr_shared_ptr()` for a word that stands alone. -/
theorem unbuild_triple
    {dispose : A → Program A W H T Unit}
    {w : W}
    (disposes : Disposes config thread dispose)
    (picked : Picked config this frame (.unbuild w) seen)
    (settled : frame.Settled) :
    Triple (protocol config) thread
      (keeping config thread
        (frame.using (Call.unbuild (A := A) (H := H) w).pins seen.handle
          seen.word))
      (do
        let old ← unbuildWord thread w
        release dispose thread false old
        unpinAll thread (Call.unbuild (A := A) (H := H) w).pins)
      (fun _ => keeping config thread frame) := by
  obtain ⟨alone, exists_⟩ := picked.valid
  obtain ⟨old, content⟩ := Option.ne_none_iff_exists'.mp exists_
  have usesWord :
      ⟨.word w, true⟩ ∈ (Call.unbuild (A := A) (H := H) w).pins := by
    simp [Call.pins]
  refine Triple.bind
    (unbuildRoot_triple alone (List.mem_append_left _ usesWord) content
      settled.lock) ?_
  intro pointee
  refine Triple.given ?_
  rintro rfl
  have calmNow :
      (frame.using (Call.unbuild (A := A) (H := H) w).pins seen.handle
        (Function.update seen.word w none)).Calm :=
    settled.using (Call.pins_ne_nil _)
  refine unpinning_triple picked settled
    ((release_triple disposes calmNow).consequence ?_)
  intro _ world _ known
  exact ⟨(Changes.nothing _ seen).setRoot w none usesWord, known⟩

/-- A call keeps what the client knew. -/
theorem perform_triple
    {services : Services A W H T}
    (servicesOk : ServicesOk config thread services)
    (picked : Picked config this frame call seen)
    (settled : frame.Settled)
    (own : ∀ a, this = some a → (a, config.members a) ∈ frame.dying) :
    Triple (protocol config) thread
      (keeping config thread
        (frame.using call.pins seen.handle seen.word))
      (perform config services thread call)
      (fun _ => keeping config thread frame) := by
  have disposes := servicesOk.disposes
  have calm : (frame.using call.pins seen.handle seen.word).Calm :=
    settled.using call.pins_ne_nil
  have vacated :
      ∀ h, seen.handle h = none → (seen.handle h).bind Word.ptr = none :=
    fun h vacant => by rw [vacant]; rfl
  cases call with
  | make dst =>
      refine unpinning_triple picked settled
        ((make_triple (picked.writes (by simp [Call.pins]))
          picked.valid).consequence ?_)
      rintro _ world _ ⟨a, known⟩
      exact ⟨(Changes.nothing _ seen).set dst _ (by simp [Call.pins]),
        known⟩
  | null dst =>
      refine unpinning_triple picked settled
        ((constructNull_triple (picked.writes (by simp [Call.pins]))
          (vacated dst picked.valid)).consequence ?_)
      intro _ world _ known
      exact ⟨(Changes.nothing _ seen).set dst _ (by simp [Call.pins]),
        known⟩
  | copy remark dst src =>
      obtain ⟨vacant, srcBuilt⟩ := picked.valid
      obtain ⟨word, content⟩ := Option.ne_none_iff_exists'.mp srcBuilt
      have usesSrc :
          ⟨.handle src, false⟩ ∈
            (Call.copy (A := A) (W := W) remark dst src).pins := by
        simp [Call.pins]
      refine unpinning_triple picked settled
        ((copyConstruct_triple (picked.writes (by simp [Call.pins]))
          (vacated dst vacant) (picked.reads usesSrc)
          content).consequence ?_)
      intro _ world _ known
      exact ⟨(Changes.nothing _ seen).set dst _ (by simp [Call.pins]),
        known⟩
  | move remark dst src =>
      obtain ⟨vacant, srcBuilt⟩ := picked.valid
      obtain ⟨word, content⟩ := Option.ne_none_iff_exists'.mp srcBuilt
      refine unpinning_triple picked settled
        ((moveConstruct_triple (picked.writes (by simp [Call.pins]))
          (vacated dst vacant) (picked.writes (by simp [Call.pins]))
          content (picked.differ rfl) calm.lock).consequence ?_)
      intro _ world _ known
      exact ⟨((Changes.nothing _ seen).set src _
        (by simp [Call.pins])).set dst _ (by simp [Call.pins]), known⟩
  | copyAssign dst src =>
      refine unpinningAssign_triple picked settled ?_
        (copyAssign_triple picked disposes settled)
      simp only [Call.pins]
      split <;> simp
  | moveAssign dst src =>
      refine unpinningAssign_triple picked settled ?_
        (moveAssign_triple picked disposes settled)
      simp only [Call.pins]
      split <;> simp
  | destroy h =>
      refine unpinning_triple picked settled
        ((destroyHandle_triple disposes calm
          (picked.writes (by simp [Call.pins]))).consequence ?_)
      intro _ world _ known
      exact ⟨(Changes.nothing _ seen).set h _ (by simp [Call.pins]),
        known⟩
  | useCount h =>
      refine unpinning_triple picked settled
        (useCount_triple.consequence ?_)
      intro _ world _ known
      exact ⟨Changes.nothing _ seen, known⟩
  | load access dst =>
      obtain ⟨vacant, path⟩ := picked.valid
      have reaches :
          (frame.using (Call.load (A := A) access dst).pins seen.handle
            seen.word).Reaches config access.word :=
        reaches_access path (fun _ used => List.mem_cons_of_mem _ used) own
      refine unpinning_triple picked settled
        ((callLoad_triple disposes calm reaches
          (picked.writes List.mem_cons_self) vacant).consequence ?_)
      intro success world _ known
      cases success with
      | true =>
          obtain ⟨word, holds⟩ := known
          exact ⟨(Changes.nothing _ seen).set dst _ List.mem_cons_self,
            holds⟩
      | false =>
          exact ⟨Changes.nothing _ seen, known⟩
  | store access desired =>
      obtain ⟨desiredBuilt, path⟩ := picked.valid
      obtain ⟨word, content⟩ := Option.ne_none_iff_exists'.mp desiredBuilt
      have reaches :
          (frame.using (Call.store (A := A) access desired).pins seen.handle
            seen.word).Reaches config access.word :=
        reaches_access path (fun _ used => List.mem_cons_of_mem _ used) own
      refine unpinning_triple picked settled
        ((callStore_triple disposes calm reaches
          (picked.reads List.mem_cons_self) content).consequence ?_)
      intro _ world _ known
      exact ⟨Changes.nothing _ seen, known⟩
  | compareExchange strong access expected desired =>
      obtain ⟨expectedBuilt, desiredBuilt, path, -⟩ := picked.valid
      obtain ⟨original, expectedIs⟩ :=
        Option.ne_none_iff_exists'.mp expectedBuilt
      obtain ⟨new, desiredIs⟩ :=
        Option.ne_none_iff_exists'.mp desiredBuilt
      have usesPath :
          ∀ pin ∈ access.pins,
            pin ∈
              (Call.compareExchange (A := A) strong access expected
                desired).pins := by
        intro pin used
        simp only [Call.pins]
        split <;> simp [used]
      have usesExpected :
          ⟨.handle expected, true⟩ ∈
            (Call.compareExchange (A := A) strong access expected
              desired).pins := by
        simp only [Call.pins]
        split <;> simp
      have usesDesired :
          ∃ exclusive,
            ⟨.handle desired, exclusive⟩ ∈
              (Call.compareExchange (A := A) strong access expected
                desired).pins := by
        simp only [Call.pins]
        split
        case isTrue same =>
            exact ⟨true, by simp [same]⟩
        case isFalse =>
            exact ⟨false, by simp⟩
      obtain ⟨exclusive, usesDesiredNow⟩ := usesDesired
      refine unpinning_triple picked settled
        ((callCompareExchange_triple disposes calm
          (reaches_access path usesPath own) (picked.writes usesExpected)
          expectedIs (picked.reads usesDesiredNow)
          desiredIs).consequence ?_)
      rintro _ world _ ⟨word, known⟩
      exact ⟨(Changes.nothing _ seen).set expected _ usesExpected, known⟩
  | build w desired =>
      exact build_triple picked settled
  | unbuild w =>
      exact unbuild_triple disposes picked settled
  | scan =>
      refine unpinning_triple picked settled
        ((servicesOk.scans _ calm).consequence ?_)
      intro _ world _ known
      exact ⟨Changes.nothing _ seen, known⟩
  | beforeBegin access dst =>
      obtain ⟨vacant, path⟩ := picked.valid
      have reaches :
          (frame.using (Call.beforeBegin (A := A) access dst).pins
            seen.handle seen.word).Reaches config access.word :=
        reaches_access path (fun _ used => List.mem_cons_of_mem _ used) own
      refine unpinning_triple picked settled
        ((beforeBegin_triple disposes calm
          (picked.writes List.mem_cons_self) vacant reaches).consequence ?_)
      rintro _ world _ ⟨result, known⟩
      exact ⟨(Changes.nothing _ seen).set dst _ List.mem_cons_self, known⟩
  | increment h =>
      obtain ⟨word, content⟩ := Option.ne_none_iff_exists'.mp picked.valid
      refine unpinning_triple picked settled
        ((increment_triple disposes calm
          (picked.writes List.mem_cons_self) content).consequence ?_)
      rintro _ world _ ⟨result, known⟩
      exact ⟨(Changes.nothing _ seen).set h _ List.mem_cons_self, known⟩
  | insertAfter anchor newNode =>
      obtain ⟨anchorBuilt, newBuilt⟩ := picked.valid
      obtain ⟨anchorWord, anchorIs⟩ :=
        Option.ne_none_iff_exists'.mp anchorBuilt
      obtain ⟨newWord, newIs⟩ : ∃ word, seen.handle newNode = some word := by
        rw [← Option.ne_none_iff_exists']
        intro vacant
        rw [State.handleAt, vacant] at newBuilt
        exact newBuilt rfl
      refine unpinning_triple picked settled
        ((insertAfter_triple disposes calm
          (picked.reads List.mem_cons_self) anchorIs
          (picked.reads (List.mem_cons_of_mem _ List.mem_cons_self))
          newIs).consequence ?_)
      intro _ world _ known
      exact ⟨Changes.nothing _ seen, known⟩
  | eraseAfter anchor =>
      obtain ⟨word, content⟩ := Option.ne_none_iff_exists'.mp picked.valid
      refine unpinning_triple picked settled
        ((eraseAfter_triple disposes calm
          (picked.reads List.mem_cons_self) content).consequence ?_)
      intro _ world _ known
      exact ⟨Changes.nothing _ seen, known⟩

/-- The client is out of its innermost call. -/
theorem finish_triple
    (inside : frame.pins ≠ [] → frame.running ≠ []) :
    Triple (protocol config) thread
      (keeping config thread (frame.entered call))
      (finish thread call)
      (fun _ => keeping config thread frame) := by
  apply update_triple
  intro state inv holds
  have erased : own thread (state.running.erase (thread, call)) =
      frame.running := by
    rw [own_erase_self, holds.running]
    exact List.erase_cons_head _ _
  refine ⟨⟨{ inv with
    inside := ?_
    walked := ?_ }, fun other different =>
      { Kept.refl config other state with
        running := own_erase_other (Ne.symm different) }⟩,
    { holds with running := erased }⟩
  · rintro ⟨other, pin⟩ pinned
    by_cases same : other = thread
    · subst other
      rw [← mem_own, holds.pins] at pinned
      obtain ⟨outer, runs⟩ :=
        List.exists_mem_of_ne_nil _ (inside (List.ne_nil_of_mem pinned))
      rw [← erased, mem_own] at runs
      exact ⟨outer, runs⟩
    · obtain ⟨theirs, runs⟩ := inv.inside _ pinned
      refine ⟨theirs, ?_⟩
      rw [← mem_own, own_erase_other (Ne.symm same), mem_own]
      exact runs
  · intro other a cell walks
    obtain ⟨solitary, pinned⟩ := inv.walked other a cell walks
    exact ⟨solitary.keep rfl (fun _ h => h) (fun _ h => h)
      (fun _ h _ => Or.inl h), pinned⟩

/-- A session keeps what its thread knew. -/
theorem session_triple
    {services : Services A W H T}
    (servicesOk : ServicesOk config thread services)
    (settled : frame.Settled)
    (own : ∀ a, this = some a → (a, config.members a) ∈ frame.dying) :
    Triple (protocol config) thread (keeping config thread frame)
      (session config services thread this)
      (fun _ => keeping config thread frame) := by
  refine Triple.loop
    (fun _ => ?_ :
      ∀ _ : Unit,
        Triple (protocol config) thread (keeping config thread frame)
          _ _)
  refine Triple.bind pick_triple ?_
  intro picked
  cases picked with
  | none =>
      exact Triple.ret fun _ _ known => known
  | some call =>
      refine Triple.any fun seen => Triple.given fun suits => ?_
      have settledIn : (frame.entered call).Settled :=
        ⟨settled.releasing, settled.hazard, settled.unshielded,
          settled.lock, settled.flown⟩
      refine Triple.bind
        (perform_triple servicesOk suits.entered settledIn own) ?_
      intro _
      refine Triple.bind (finish_triple suits.inside) ?_
      intro _
      exact Triple.ret fun _ _ known => known

/-- A destructor that runs any session keeps what its thread knew. -/
theorem anyBody_ok :
    BodyOk config (anyBody config : Body A W H T) := by
  intro thread services frame a servicesOk calm
  refine session_triple servicesOk
    ⟨calm.releasing, calm.hazard, calm.unshielded, calm.lock,
      Or.inr calm.busy⟩ ?_
  intro b isThis
  cases isThis
  exact List.mem_cons_self

end Performing

end ConcurrentCpp.IntrPointer
