import ConcurrentCpp.IntrPointerCalls

namespace ConcurrentCpp.IntrPointer

/-!
# Operations with local handles

The list operations use local handles.  A scope says which cells they have and
what all handles in use hold; leaving the last cell gives back what the thread
knew before.
-/

variable {A W H T : Type}
variable [DecidableEq A] [DecidableEq W] [DecidableEq H] [DecidableEq T]
variable
  {config : Config A W}
  {thread : T}
  {frame : Frame A W H T}
  {dispose : A → Program A W H T Unit}
  {cells : List H}
  {value : H → Option (Word A)}

section Assignments

omit [DecidableEq A] [DecidableEq W] [DecidableEq T] in
theorem Frame.set_self
    {h : H}
    {content : Option (Word A)}
    (same : frame.value h = content) :
    frame.set h content = frame := by
  rw [← same]
  simp [Frame.set]

/-- `~shared_ptr_type()` -/
theorem destroyHandle_triple
    {h : H}
    (disposes : Disposes config thread dispose)
    (calm : frame.Calm)
    (writes : frame.Writes h) :
    Triple (protocol config) thread (keeping config thread frame)
      (destroyHandle dispose thread h)
      (fun _ => keeping config thread (frame.set h none)) := by
  refine Triple.bind (take_triple writes calm.lock) ?_
  intro old
  refine Triple.given ?_
  rintro rfl
  exact release_triple disposes calm.set

/-- The old pointee goes, and the handle takes a reference in flight. -/
theorem replace_triple
    {h : H}
    {word : Word A}
    (disposes : Disposes config thread dispose)
    (calm : frame.Calm)
    (writes : frame.Writes h) :
    Triple (protocol config) thread
      (keeping config thread (frame.push false word.ptr))
      (replace dispose thread h word)
      (fun _ => keeping config thread (frame.set h (some word))) := by
  have writesNow : (frame.push false word.ptr).Writes h := writes
  refine Triple.bind (take_triple writesNow calm.lock) ?_
  intro old
  refine Triple.given ?_
  rintro rfl
  have calmNow : ((frame.push false word.ptr).set h none).Calm :=
    ⟨calm.releasing, calm.hazard, calm.unshielded, calm.lock, calm.busy⟩
  refine Triple.bind (release_triple disposes calmNow) ?_
  intro _
  have writesStill : (frame.set h none).Writes h := writes
  have vacant : ((frame.set h none).value h).bind Word.ptr = none := by
    simp [Frame.set]
  have adopting :
      Triple (protocol config) thread
        (keeping config thread
          ((frame.set h none).push false word.ptr)) _ _ :=
    adopt_triple writesStill vacant
  refine adopting.consequence ?_
  intro _ world _ known
  have same : (frame.set h none).set h (some word) =
      frame.set h (some word) := by
    simp [Frame.set]
  rw [same] at known
  exact known

end Assignments

section Scopes

/-- The frame with local handles, and with these values. -/
def Frame.within
    (frame : Frame A W H T)
    (cells : List H)
    (value : H → Option (Word A)) :
    Frame A W H T :=
  { frame with
    pins := cells.map (fun cell => ⟨.handle cell, true⟩) ++ frame.pins
    value := value }

/-- The cells are none of the frame's handles, whose values are kept. -/
structure Frame.Scope
    (frame : Frame A W H T)
    (cells : List H)
    (value : H → Option (Word A)) : Prop where
  unused : ∀ cell ∈ cells, frame.Unused cell
  agrees :
    ∀ h exclusive,
      ⟨.handle h, exclusive⟩ ∈ frame.pins → frame.value h = value h

/-- What a thread knows in a scope. -/
def enclosed
    (config : Config A W)
    (thread : T)
    (frame : Frame A W H T)
    (cells : List H)
    (value : H → Option (Word A)) :
    Assertion (protocol config (H := H)) thread :=
  (Assertion.pure (frame.Scope cells value)).and
    (keeping config thread (frame.within cells value))

omit [DecidableEq A] [DecidableEq W] [DecidableEq H] [DecidableEq T] in
theorem Frame.Scope.refl
    (frame : Frame A W H T) :
    frame.Scope [] frame.value :=
  ⟨fun _ member => absurd member List.not_mem_nil, fun _ _ _ => rfl⟩

omit [DecidableEq A] [DecidableEq W] [DecidableEq T] in
theorem Frame.Scope.update
    {cell : H}
    {word : Option (Word A)}
    (scope : frame.Scope cells value)
    (inside : cell ∈ cells) :
    frame.Scope cells (Function.update value cell word) where
  unused := scope.unused
  agrees h exclusive pinned := by
    have differs : h ≠ cell := by
      rintro rfl
      exact (scope.unused h inside).1 exclusive pinned
    rw [Function.update_of_ne differs]
    exact scope.agrees h exclusive pinned

omit [DecidableEq A] [DecidableEq W] [DecidableEq H] [DecidableEq T] in
theorem Frame.Scope.tail
    {cell : H}
    (scope : frame.Scope (cell :: cells) value) :
    frame.Scope cells value :=
  ⟨fun other inside => scope.unused other (List.mem_cons_of_mem _ inside),
    scope.agrees⟩

omit [DecidableEq A] [DecidableEq W] [DecidableEq H] [DecidableEq T] in
/-- A local handle is the thread's alone. -/
theorem Frame.Scope.writes
    {cell : H}
    (scope : frame.Scope cells value)
    (inside : cell ∈ cells) :
    (frame.within cells value).Writes cell :=
  ⟨List.mem_append_left _ (List.mem_map.mpr ⟨cell, inside, rfl⟩),
    (scope.unused cell inside).2⟩

omit [DecidableEq A] [DecidableEq W] [DecidableEq H] [DecidableEq T] in
theorem Frame.Reads.within
    {h : H}
    (reads : frame.Reads h) :
    (frame.within cells value).Reads h := by
  obtain ⟨⟨exclusive, pinned⟩, unwalked⟩ := reads
  exact ⟨⟨exclusive, List.mem_append_right _ pinned⟩, unwalked⟩

omit [DecidableEq A] [DecidableEq W] [DecidableEq H] [DecidableEq T] in
theorem Frame.Writes.within
    {h : H}
    (writes : frame.Writes h) :
    (frame.within cells value).Writes h :=
  ⟨List.mem_append_right _ writes.1, writes.2⟩

omit [DecidableEq A] [DecidableEq W] [DecidableEq H] [DecidableEq T] in
theorem Frame.Calm.within
    (calm : frame.Calm) :
    (frame.within cells value).Calm :=
  ⟨calm.releasing, calm.hazard, calm.unshielded, calm.lock,
    List.append_ne_nil_of_right_ne_nil _ calm.busy⟩

omit [DecidableEq A] [DecidableEq W] [DecidableEq H] [DecidableEq T] in
/-- The words that were in reach are so in the scope. -/
theorem Frame.Reaches.within
    {w : W}
    (reaches : frame.Reaches config w)
    (scope : frame.Scope cells value) :
    (frame.within cells value).Reaches config w := by
  unfold Frame.Reaches at reaches ⊢
  split
  case h_1 alone =>
      rw [alone] at reaches
      exact List.mem_append_right _ reaches
  case h_2 a inside =>
      rw [inside] at reaches
      refine reaches.imp ?_ id
      rintro ⟨h, exclusive, pinned, refersTo⟩
      refine ⟨h, exclusive, List.mem_append_right _ pinned, ?_⟩
      rw [scope.agrees h exclusive pinned] at refersTo
      exact refersTo

omit [DecidableEq A] [DecidableEq W] [DecidableEq H] [DecidableEq T] in
/-- The next of the pointee of a handle is in reach. -/
theorem Frame.Reads.reaches
    {h : H}
    {w : W}
    (reads : frame.Reads h)
    (isNext :
      ((frame.value h).bind Word.ptr).bind config.next = some w) :
    frame.Reaches config w := by
  obtain ⟨⟨exclusive, pinned⟩, -⟩ := reads
  rw [Option.bind_eq_some_iff] at isNext
  obtain ⟨a, pointee, next⟩ := isNext
  unfold Frame.Reaches
  rw [config.home_next a w next]
  exact Or.inl ⟨h, exclusive, pinned, pointee⟩

omit [DecidableEq H] in
/-- A scope without cells. -/
theorem enclosed_nil
    {world : State A W H T × Unit} :
    (keeping config thread frame).holds world ↔
      (enclosed config thread frame [] frame.value).holds world :=
  ⟨fun known => ⟨Frame.Scope.refl frame, known⟩, fun known => known.2⟩

omit [DecidableEq H] in
/-- The scope is left. -/
theorem enclosed_leave
    {world : State A W H T × Unit}
    (known : (enclosed config thread frame [] value).holds world) :
    (keeping config thread frame).holds world := by
  obtain ⟨scope, holds⟩ := known
  have inside :
      Holds config thread (frame.within [] value) world.1 :=
    holds
  exact inside.congr_value fun h exclusive pinned =>
    (scope.agrees h exclusive pinned).symm

omit [DecidableEq H] in
/-- What a cell that was left held does not matter. -/
theorem enclosed_forget
    {cell : H}
    {other : H → Option (Word A)}
    {world : State A W H T × Unit}
    (outside : cell ∉ cells)
    (unused : frame.Unused cell)
    (same : ∀ h, h ≠ cell → value h = other h)
    (known : (enclosed config thread frame cells value).holds world) :
    (enclosed config thread frame cells other).holds world := by
  obtain ⟨scope, holds⟩ := known
  have inside :
      Holds config thread (frame.within cells value) world.1 :=
    holds
  have apart :
      ∀ h exclusive, ⟨.handle h, exclusive⟩ ∈ frame.pins → h ≠ cell := by
    rintro h exclusive pinned rfl
    exact unused.1 exclusive pinned
  refine ⟨⟨scope.unused, fun h exclusive pinned => ?_⟩,
    inside.congr_value fun h exclusive pinned => same h ?_⟩
  · rw [scope.agrees h exclusive pinned]
    exact same h (apart h exclusive pinned)
  · rcases List.mem_append.mp pinned with mine | old
    · obtain ⟨other, member, isPin⟩ := List.mem_map.mp mine
      cases isPin
      rintro rfl
      exact outside member
    · exact apart h exclusive old

theorem newCell_scoped
    (calm : frame.Calm) :
    Triple (protocol config) thread
      (enclosed config thread frame cells value)
      (newCell thread : Program A W H T H)
      (fun cell =>
        (Assertion.pure (cell ∉ cells ∧ frame.Unused cell)).and
          (enclosed config thread frame (cell :: cells)
            (Function.update value cell none))) := by
  refine Triple.given fun scope => ?_
  refine (newCell_triple calm.within.busy).consequence ?_
  rintro cell world _ ⟨fresh, known⟩
  have outside : cell ∉ cells := by
    intro inside
    exact fresh.1 true (scope.writes inside).1
  have unused : frame.Unused cell :=
    ⟨fun exclusive pinned =>
      fresh.1 exclusive (List.mem_append_right _ pinned), fresh.2⟩
  refine ⟨⟨outside, unused⟩, ⟨?_, ?_⟩, known⟩
  · intro other inside
    rcases List.mem_cons.mp inside with rfl | old
    · exact unused
    · exact scope.unused other old
  · intro h exclusive pinned
    have differs : h ≠ cell := by
      rintro rfl
      exact unused.1 exclusive pinned
    rw [Function.update_of_ne differs]
    exact scope.agrees h exclusive pinned

/-- The use of the last cell ends. -/
theorem unpin_scoped
    {cell : H}
    (calm : frame.Calm) :
    Triple (protocol config) thread
      (enclosed config thread frame (cell :: cells) value)
      (unpin thread ⟨.handle cell, true⟩ : Program A W H T Unit)
      (fun _ => enclosed config thread frame cells value) := by
  refine Triple.given fun scope => ?_
  have free : (frame.within (cell :: cells) value).lock = none := calm.lock
  have erased :
      (frame.within (cell :: cells) value).pins.erase
          ⟨.handle cell, true⟩ =
        (frame.within cells value).pins :=
    List.erase_cons_head _ _
  refine (unpin_triple ?_ ?_ free).consequence ?_
  · rw [erased]
    exact Or.inr calm.within.busy
  · intro entry member same
    refine (scope.unused cell List.mem_cons_self).2 entry member ?_
    cases same
    rfl
  · intro _ world _ known
    refine ⟨scope.tail, ?_⟩
    rw [erased] at known
    exact known

theorem leaveScope_scoped
    {cell : H}
    (disposes : Disposes config thread dispose)
    (calm : frame.Calm) :
    Triple (protocol config) thread
      (enclosed config thread frame (cell :: cells) value)
      (leaveScope dispose thread cell)
      (fun _ =>
        enclosed config thread frame cells
          (Function.update value cell none)) := by
  refine Triple.given fun scope => ?_
  have inside : cell ∈ cell :: cells := List.mem_cons_self
  refine Triple.bind
    (destroyHandle_triple disposes calm.within (scope.writes inside)) ?_
  intro _
  refine (unpin_scoped calm).weaken ?_
  intro world _ known
  exact ⟨scope.update inside, known⟩

/-- A cell is left, and the others are as they were. -/
theorem leaveScope_forget
    {cell : H}
    {other : H → Option (Word A)}
    (disposes : Disposes config thread dispose)
    (calm : frame.Calm)
    (fresh : cell ∉ cells ∧ frame.Unused cell)
    (same : ∀ h, h ≠ cell → value h = other h) :
    Triple (protocol config) thread
      (enclosed config thread frame (cell :: cells) value)
      (leaveScope dispose thread cell)
      (fun _ => enclosed config thread frame cells other) := by
  refine (leaveScope_scoped disposes calm).consequence ?_
  intro _ world _ known
  refine enclosed_forget fresh.1 fresh.2 (fun h differs => ?_) known
  rw [Function.update_of_ne differs]
  exact same h differs

omit [DecidableEq H] in
/-- A cell is read whose value is known. -/
theorem readHandle_scoped
    {cell : H}
    {word : Word A}
    (inside : cell ∈ cells)
    (content : value cell = some word) :
    Triple (protocol config) thread
      (enclosed config thread frame cells value)
      (Prog.read fun state => state.handleAt cell :
        Program A W H T (Word A))
      (fun seen =>
        (Assertion.pure (seen = word)).and
          (enclosed config thread frame cells value)) := by
  refine Triple.given fun scope => ?_
  refine (readHandle_triple (scope.writes inside).reads
    content).consequence ?_
  rintro seen world _ ⟨same, known⟩
  exact ⟨same, scope, known⟩

/-- What a load into a cell leaves. -/
def loadedCell
    (config : Config A W)
    (thread : T)
    (frame : Frame A W H T)
    (cells : List H)
    (value : H → Option (Word A))
    (cell : H) :
    Bool → Assertion (protocol config (H := H)) thread
  | true =>
      Assertion.any fun word : Word A =>
        enclosed config thread frame cells
          (Function.update value cell (some word))
  | false => enclosed config thread frame cells value

theorem callLoad_scoped
    {cell : H}
    {w : W}
    (disposes : Disposes config thread dispose)
    (calm : frame.Calm)
    (inside : cell ∈ cells)
    (vacant : value cell = none)
    (reaches :
      frame.Scope cells value → (frame.within cells value).Reaches config w) :
    Triple (protocol config) thread
      (enclosed config thread frame cells value)
      (callLoad config dispose thread w cell)
      (loadedCell config thread frame cells value cell) := by
  refine Triple.given fun scope => ?_
  refine (callLoad_triple disposes calm.within (reaches scope)
    (scope.writes inside) vacant).consequence ?_
  intro success world _ known
  cases success with
  | true =>
      obtain ⟨word, holds⟩ := known
      exact ⟨word, scope.update inside, holds⟩
  | false =>
      exact ⟨scope, known⟩

omit [DecidableEq H] in
theorem callStore_scoped
    {cell : H}
    {w : W}
    {word : Word A}
    (disposes : Disposes config thread dispose)
    (calm : frame.Calm)
    (inside : cell ∈ cells)
    (content : value cell = some word)
    (reaches :
      frame.Scope cells value → (frame.within cells value).Reaches config w) :
    Triple (protocol config) thread
      (enclosed config thread frame cells value)
      (callStore config dispose thread w cell)
      (fun _ => enclosed config thread frame cells value) := by
  refine Triple.given fun scope => ?_
  refine (callStore_triple disposes calm.within (reaches scope)
    (scope.writes inside).reads content).consequence ?_
  intro _ world _ known
  exact ⟨scope, known⟩

theorem callCompareExchange_scoped
    {strong : Bool}
    {expected desired : H}
    {w : W}
    {original new : Word A}
    (disposes : Disposes config thread dispose)
    (calm : frame.Calm)
    (inside : expected ∈ cells)
    (expectedIs : value expected = some original)
    (reads :
      frame.Scope cells value → (frame.within cells value).Reads desired)
    (desiredIs : value desired = some new)
    (reaches :
      frame.Scope cells value → (frame.within cells value).Reaches config w) :
    Triple (protocol config) thread
      (enclosed config thread frame cells value)
      (callCompareExchange config dispose thread strong w expected desired)
      (fun _ =>
        Assertion.any fun word : Word A =>
          enclosed config thread frame cells
            (Function.update value expected (some word))) := by
  refine Triple.given fun scope => ?_
  refine (callCompareExchange_triple disposes calm.within (reaches scope)
    (scope.writes inside) expectedIs (reads scope)
    desiredIs).consequence ?_
  rintro _ world _ ⟨word, known⟩
  exact ⟨word, scope.update inside, known⟩

theorem copyConstruct_scoped
    {remark : Remark}
    {dst src : H}
    {word : Word A}
    (inside : dst ∈ cells)
    (vacant : value dst = none)
    (reads :
      frame.Scope cells value → (frame.within cells value).Reads src)
    (content : value src = some word) :
    Triple (protocol config) thread
      (enclosed config thread frame cells value)
      (copyConstruct remark dst src : Program A W H T Unit)
      (fun _ =>
        enclosed config thread frame cells
          (Function.update value dst (some (remark.apply word)))) := by
  refine Triple.given fun scope => ?_
  have vacantNow :
      ((frame.within cells value).value dst).bind Word.ptr = none := by
    show (value dst).bind Word.ptr = none
    rw [vacant]
    rfl
  refine (copyConstruct_triple (scope.writes inside) vacantNow
    (reads scope) content).consequence ?_
  intro _ world _ known
  exact ⟨scope.update inside, known⟩

theorem moveConstruct_scoped
    {remark : Remark}
    {dst src : H}
    {word : Word A}
    (calm : frame.Calm)
    (inside : dst ∈ cells)
    (vacant : value dst = none)
    (insideSrc : src ∈ cells)
    (content : value src = some word)
    (different : dst ≠ src) :
    Triple (protocol config) thread
      (enclosed config thread frame cells value)
      (moveConstruct remark dst src : Program A W H T Unit)
      (fun _ =>
        enclosed config thread frame cells
          (Function.update (Function.update value src (some Word.null)) dst
            (some (remark.apply word)))) := by
  refine Triple.given fun scope => ?_
  have vacantNow :
      ((frame.within cells value).value dst).bind Word.ptr = none := by
    show (value dst).bind Word.ptr = none
    rw [vacant]
    rfl
  refine (moveConstruct_triple (scope.writes inside) vacantNow
    (scope.writes insideSrc) content different calm.lock).consequence ?_
  intro _ world _ known
  exact ⟨(scope.update insideSrc).update inside, known⟩

omit [DecidableEq H] in
/-- The next of the pointee of a handle, as the frame knows it. -/
theorem nextOf_triple
    {h : H}
    (reads : frame.Reads h) :
    Triple (protocol config) thread (keeping config thread frame)
      (nextOf config h : Program A W H T (Option W))
      (fun found =>
        (Assertion.pure
          (found =
            ((frame.value h).bind Word.ptr).bind config.next)).and
          (keeping config thread frame)) := by
  refine Triple.read fun world _ known => ⟨?_, known⟩
  have seen := Holds.handleAt known reads
  show (world.1.handleAt h).ptr.bind config.next = _
  rw [seen, getD_ptr]

omit [DecidableEq H] in
theorem nextOf_scoped
    {cell : H}
    (inside : cell ∈ cells) :
    Triple (protocol config) thread
      (enclosed config thread frame cells value)
      (nextOf config cell : Program A W H T (Option W))
      (fun found =>
        (Assertion.pure
          (found = ((value cell).bind Word.ptr).bind config.next)).and
          (enclosed config thread frame cells value)) := by
  refine Triple.given fun scope => ?_
  refine (nextOf_triple (scope.writes inside).reads).consequence ?_
  rintro found world _ ⟨isNext, known⟩
  exact ⟨isNext, scope, known⟩

omit [DecidableEq A] [DecidableEq W] [DecidableEq T] in
/-- A handle of the frame changes. -/
theorem Frame.Scope.set
    {h : H}
    {content : Option (Word A)}
    (scope : frame.Scope cells value) :
    (frame.set h content).Scope cells
      (Function.update value h content) := by
  refine ⟨scope.unused, fun other exclusive pinned => ?_⟩
  by_cases same : other = h
  · subst other
    simp [Frame.set]
  · simp only [Frame.set, Function.update_of_ne same]
    exact scope.agrees other exclusive pinned

/-- A handle of the frame is constructed from a cell. -/
theorem moveOut_scoped
    {remark : Remark}
    {dst src : H}
    {word : Word A}
    (calm : frame.Calm)
    (writes : frame.Writes dst)
    (vacant : frame.value dst = none)
    (inside : src ∈ cells)
    (content : value src = some word) :
    Triple (protocol config) thread
      (enclosed config thread frame cells value)
      (moveConstruct remark dst src : Program A W H T Unit)
      (fun _ =>
        enclosed config thread
          (frame.set dst (some (remark.apply word))) cells
          (Function.update (Function.update value src (some Word.null)) dst
            (some (remark.apply word)))) := by
  refine Triple.given fun scope => ?_
  have differs : dst ≠ src := (scope.unused src inside).ne writes.reads
  have vacantNow :
      ((frame.within cells value).value dst).bind Word.ptr = none := by
    show (value dst).bind Word.ptr = none
    rw [← scope.agrees dst true writes.1, vacant]
    rfl
  have writesNow : (frame.within cells value).Writes dst := writes.within
  refine (moveConstruct_triple writesNow vacantNow (scope.writes inside)
    content differs calm.lock).consequence ?_
  intro _ world _ known
  exact ⟨(scope.update inside).set, known⟩

/-- A handle of the frame takes over what a cell holds. -/
theorem takeOver_scoped
    {β : Type}
    {h cell : H}
    {word : Word A}
    {next : Program A W H T β}
    {post : β → Assertion (protocol config) thread}
    (disposes : Disposes config thread dispose)
    (calm : frame.Calm)
    (writes : frame.Writes h)
    (inside : cell ∈ cells)
    (content : value cell = some word)
    (continues :
      Triple (protocol config) thread
        (enclosed config thread (frame.set h (some word)) cells
          (Function.update (Function.update value h (some word)) cell
            (some Word.null)))
        next post) :
    Triple (protocol config) thread
      (enclosed config thread frame cells value)
      (do
        let old ← takeOver thread h cell
        release dispose thread false old
        next)
      post := by
  refine Triple.given fun scope => ?_
  have differs : h ≠ cell := (scope.unused cell inside).ne writes.reads
  have writesNow : (frame.within cells value).Writes h := writes.within
  refine Triple.bind
    (takeOver_triple writesNow (scope.writes inside) content differs
      calm.lock) ?_
  intro old
  refine Triple.given ?_
  rintro rfl
  have calmNow :
      (((frame.within cells value).set h (some word)).set cell
        (some Word.null)).Calm :=
    calm.within.set.set
  refine Triple.bind (release_triple disposes calmNow) ?_
  intro _
  refine continues.weaken ?_
  intro world _ known
  exact ⟨scope.set.update inside, known⟩

omit [DecidableEq H] in
/-- A program that keeps what the thread knows keeps the scope. -/
theorem enclosed_keeps
    {β : Type}
    {program : Program A W H T β}
    (keeps :
      frame.Scope cells value →
      Triple (protocol config) thread
        (keeping config thread (frame.within cells value)) program
        (fun _ => keeping config thread (frame.within cells value))) :
    Triple (protocol config) thread
      (enclosed config thread frame cells value) program
      (fun _ => enclosed config thread frame cells value) := by
  refine Triple.given fun scope => ?_
  exact (keeps scope).consequence fun _ _ _ known => ⟨scope, known⟩

omit [DecidableEq A] [DecidableEq W] [DecidableEq H] [DecidableEq T] in
/-- The next of the pointee of a cell is in reach. -/
theorem Frame.Scope.reaches
    {cell : H}
    {word : Word A}
    {w : W}
    (scope : frame.Scope cells value)
    (inside : cell ∈ cells)
    (content : value cell = some word)
    (isNext : word.ptr.bind config.next = some w) :
    (frame.within cells value).Reaches config w := by
  refine (scope.writes inside).reads.reaches ?_
  show ((value cell).bind Word.ptr).bind config.next = some w
  rw [content]
  exact isNext

/-- The copy assignment between cells. -/
theorem copyAssign_scoped
    {β : Type}
    {dst src : H}
    {word : Word A}
    {next : Program A W H T β}
    {post : β → Assertion (protocol config) thread}
    (disposes : Disposes config thread dispose)
    (calm : frame.Calm)
    (inside : dst ∈ cells)
    (insideSrc : src ∈ cells)
    (content : value src = some word)
    (continues :
      Triple (protocol config) thread
        (enclosed config thread frame cells
          (Function.update value dst (some word)))
        next post) :
    Triple (protocol config) thread
      (enclosed config thread frame cells value)
      (do
        let seen ← Prog.read fun state => state.handleAt src
        addRef thread seen.ptr
        replace dispose thread dst seen
        next)
      post := by
  refine Triple.bind (readHandle_scoped insideSrc content) ?_
  intro seen
  refine Triple.given ?_
  rintro rfl
  refine Triple.given fun scope => ?_
  refine Triple.bind
    (countHandle_triple (scope.writes insideSrc).reads content) ?_
  intro _
  refine Triple.bind
    (replace_triple disposes calm.within (scope.writes inside)) ?_
  intro _
  exact continues.weaken fun world _ known => ⟨scope.update inside, known⟩

end Scopes

section Iterators

/-- `++it` changes the handle of the iterator only. -/
theorem advance_triple
    {h : H}
    {edge : Option W}
    {word : Word A}
    (disposes : Disposes config thread dispose)
    (calm : frame.Calm)
    (writes : frame.Writes h)
    (content : frame.value h = some word)
    (reaches : ∀ w, edge = some w → frame.Reaches config w) :
    Triple (protocol config) thread (keeping config thread frame)
      (advance config dispose thread h edge)
      (fun _ =>
        Assertion.any fun word : Word A =>
          keeping config thread (frame.set h (some word))) := by
  cases edge with
  | none =>
      refine Triple.pure fun world _ known => ⟨word, ?_⟩
      simp only [Frame.set_self content]
      exact known
  | some w =>
      refine Triple.weaken ?_ fun world _ known => enclosed_nil.mp known
      refine Triple.bind (newCell_scoped calm) ?_
      intro current
      refine Triple.given fun fresh => ?_
      refine Triple.bind
        (callLoad_scoped disposes calm List.mem_cons_self (by simp)
          (reaches w rfl).within) ?_
      intro success
      cases success with
      | false =>
          refine (unpin_scoped calm).consequence ?_
          intro _ world _ known
          refine ⟨word, ?_⟩
          simp only [Frame.set_self content]
          exact enclosed_leave known
      | true =>
          refine Triple.any fun loaded => ?_
          refine Triple.bind (newCell_scoped calm) ?_
          intro unmarked
          refine Triple.given fun freshUnmarked => ?_
          have differs : current ≠ unmarked := by
            rintro rfl
            exact freshUnmarked.1 List.mem_cons_self
          refine Triple.bind
            (moveConstruct_scoped calm List.mem_cons_self (by simp)
              (List.mem_cons_of_mem _ List.mem_cons_self)
              (show _ = some loaded by simp [differs])
              (Ne.symm differs)) ?_
          intro _
          refine takeOver_scoped disposes calm writes List.mem_cons_self
            (Function.update_self _ _ _) ?_
          refine Triple.bind (leaveScope_scoped disposes calm.set) ?_
          intro _
          refine (leaveScope_scoped disposes calm.set).consequence ?_
          intro _ world _ known
          exact ⟨_, enclosed_leave known⟩

theorem increment_triple
    {h : H}
    {word : Word A}
    (disposes : Disposes config thread dispose)
    (calm : frame.Calm)
    (writes : frame.Writes h)
    (content : frame.value h = some word) :
    Triple (protocol config) thread (keeping config thread frame)
      (increment config dispose thread h)
      (fun _ =>
        Assertion.any fun word : Word A =>
          keeping config thread (frame.set h (some word))) := by
  refine Triple.bind (nextOf_triple writes.reads) ?_
  intro edge
  refine Triple.given fun isNext => ?_
  refine advance_triple disposes calm writes content ?_
  intro w found
  exact writes.reads.reaches (isNext.symm.trans found)

theorem beforeBegin_triple
    {head : W}
    {dst : H}
    (disposes : Disposes config thread dispose)
    (calm : frame.Calm)
    (writes : frame.Writes dst)
    (vacant : frame.value dst = none)
    (reaches : frame.Reaches config head) :
    Triple (protocol config) thread (keeping config thread frame)
      (beforeBegin config dispose thread head dst)
      (fun _ =>
        Assertion.any fun result : Option (Word A) =>
          keeping config thread (frame.set dst result)) := by
  refine Triple.weaken ?_ fun world _ known => enclosed_nil.mp known
  refine Triple.bind (newCell_scoped calm) ?_
  intro current
  refine Triple.given fun fresh => ?_
  refine Triple.bind
    (callLoad_scoped disposes calm List.mem_cons_self (by simp)
      reaches.within) ?_
  intro success
  cases success with
  | false =>
      refine (unpin_scoped calm).consequence ?_
      intro _ world _ known
      refine ⟨none, ?_⟩
      simp only [Frame.set_self vacant]
      exact enclosed_leave known
  | true =>
      refine Triple.any fun loaded => ?_
      refine Triple.bind
        (moveOut_scoped calm writes vacant List.mem_cons_self
          (Function.update_self _ _ _)) ?_
      intro _
      refine (leaveScope_scoped disposes calm.set).consequence ?_
      intro _ world _ known
      exact ⟨_, enclosed_leave known⟩

end Iterators

end ConcurrentCpp.IntrPointer
