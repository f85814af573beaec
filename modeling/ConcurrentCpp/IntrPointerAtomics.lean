import ConcurrentCpp.IntrPointerWords

namespace ConcurrentCpp.IntrPointer

/-!
# The commands on words, and destructors

The triples of the commands that touch atomic words, and of the destructors and
scans that are made of them.
-/

variable {A W H T : Type}
variable [DecidableEq A] [DecidableEq W] [DecidableEq T]
variable
  {config : Config A W}
  {thread : T}
  {frame : Frame A W H T}
  {number : Nat}
  {trail : List (Event A W T)}

section Reading

/-- A read of a word is recorded with its call. -/
theorem read_keeps
    {state : State A W H T}
    {w : W}
    {value : Word A}
    (inv : Invariant config state)
    (holds : Holds config thread (frame.call number trail) state)
    (fresh : frame.Fresh number)
    (content : state.word w = some value) :
    Sound config thread state
        (state.note (.read (thread, number) w value)) ∧
      Holds config thread
        (frame.call number (.read (thread, number) w value :: trail))
        (state.note (.read (thread, number) w value)) := by
  refine ⟨note_sound inv (holds.mine rfl) ?_ (fun _ => rfl), ?_⟩
  · show contents w state.events = some value
    rw [inv.current]
    exact content
  · exact { holds with calls := holds.calls_note fresh rfl }

theorem loadWord_triple
    {w : W}
    (fresh : frame.Fresh number)
    (reaches : frame.Reaches config w) :
    Triple (protocol config) thread
      (keeping config thread (frame.call number trail))
      (loadWord (thread, number) w : Program A W H T (Word A))
      (fun value => keeping config thread
        (frame.call number
          (.read (thread, number) w value :: trail))) := by
  apply command_triple
  intro state choice value after inv holds ran
  have reachesNow : (frame.call number trail).Reaches config w := reaches
  obtain ⟨content, isContent⟩ := reachesNow.built inv holds
  rw [isContent] at ran
  cases ran
  exact read_keeps inv holds fresh isContent

/--
A read that still finds the object of the hazard: the hazard was set before the
object could be retired.
-/
theorem validate_triple
    {w : W}
    {x : A}
    (fresh : frame.Fresh number)
    (reaches : frame.Reaches config w)
    (aimed : frame.hazard = some x) :
    Triple (protocol config) thread
      (keeping config thread (frame.call number trail))
      (loadWord (thread, number) w : Program A W H T (Word A))
      (fun value => keeping config thread
        { frame.call number
            (.read (thread, number) w value :: trail) with
          shielded := decide (value.ptr = some x) }) := by
  apply command_triple
  intro state choice value after inv holds ran
  have reachesNow : (frame.call number trail).Reaches config w := reaches
  obtain ⟨content, isContent⟩ := reachesNow.built inv holds
  rw [isContent] at ran
  cases ran
  obtain ⟨sound, known⟩ := read_keeps inv holds fresh isContent
  refine ⟨sound, { known with shield := ?_ }⟩
  intro found a named
  have same : some x = some a := aimed.symm.trans named
  cases same
  have refersTo : wordRefers state.word w = some x := by
    rw [wordRefers, isContent]
    exact of_decide_eq_true found
  exact ⟨known.hazard.trans aimed, Or.inl (inv.owned_of_word refersTo)⟩

end Reading

section Exchanging

theorem exchange_triple
    {w : W}
    {new : Word A}
    (hazardous : config.flavour = .hazard)
    (fresh : frame.Fresh number)
    (reaches : frame.Reaches config w)
    (busy : frame.pins ≠ [])
    (free : frame.lock = none) :
    Triple (protocol config) thread
      (keeping config thread
        ((frame.call number trail).push false new.ptr))
      (exchange (thread, number) w new : Program A W H T (Word A))
      (fun old => keeping config thread
        ((frame.call number
            (.swapped (thread, number) w old new :: trail)).push false
          old.ptr)) := by
  apply command_triple
  intro state choice old after inv holds ran
  have reachesNow :
      ((frame.call number trail).push false new.ptr).Reaches config w :=
    reaches
  obtain ⟨content, isContent⟩ := reachesNow.built inv holds
  have uses := reachesNow.uses holds
  rw [isContent] at ran
  cases ran
  refine ⟨swap_sound inv holds busy uses ?_ isContent,
    swap_holds inv holds fresh uses isContent ?_⟩
  · intro other _
    rw [inv.unlocked hazardous w]
    simp
  · intro value
    rw [free]
    simp

theorem casWord_triple
    {w : W}
    {original new : Word A}
    (hazardous : config.flavour = .hazard)
    (fresh : frame.Fresh number)
    (reaches : frame.Reaches config w)
    (busy : frame.pins ≠ [])
    (free : frame.lock = none) :
    Triple (protocol config) thread
      (keeping config thread
        ((frame.call number trail).push false new.ptr))
      (casWord (thread, number) w original new : Program A W H T Bool)
      (fun success => keeping config thread
        (if success then
          (frame.call number
            (.swapped (thread, number) w original new :: trail)).push false
              original.ptr
        else (frame.call number trail).push false new.ptr)) := by
  apply command_triple
  intro state choice success after inv holds ran
  have reachesNow :
      ((frame.call number trail).push false new.ptr).Reaches config w :=
    reaches
  obtain ⟨content, isContent⟩ := reachesNow.built inv holds
  have uses := reachesNow.uses holds
  rw [isContent] at ran
  simp only at ran
  split at ran
  case isTrue same =>
      subst content
      cases ran
      refine ⟨swap_sound inv holds busy uses ?_ isContent,
        swap_holds inv holds fresh uses isContent ?_⟩
      · intro other _
        rw [inv.unlocked hazardous w]
        simp
      · intro value
        rw [free]
        simp
  case isFalse =>
      cases ran
      exact ⟨Sound.refl inv, holds⟩

end Exchanging

section Building

/-- A word of the thread alone ends. -/
theorem unbuildRoot_triple
    {w : W}
    {old : Word A}
    (alone : config.home w = none)
    (mine : ⟨.word w, true⟩ ∈ frame.pins)
    (content : frame.root w = some old)
    (free : frame.lock = none) :
    Triple (protocol config) thread (keeping config thread frame)
      (unbuildWord thread w : Program A W H T (Option A))
      (fun pointee =>
        (Assertion.pure (pointee = old.ptr)).and
          (keeping config thread
            ({ frame with root := Function.update frame.root w none }.push
              false old.ptr))) := by
  apply command_triple
  intro state choice pointee after inv holds ran
  have contentNow : state.word w = some old :=
    (holds.roots w mine).trans content
  rw [contentNow] at ran
  cases ran
  have pinned := holds.pin_mem mine
  refine ⟨unbuild_sound inv ⟨_, pinned⟩ (Or.inl ⟨alone, pinned⟩)
    contentNow, rfl, ?_⟩
  refine { holds with
    roots := ?_
    flights := own_push.trans (congrArg (_ ++ ·) holds.flights)
    lockedWord := ?_
    dying := ?_
    calls := ?_ }
  · intro other pinned
    by_cases same : other = w
    · subst other
      simp [State.note, State.push, Frame.push]
    · simp only [State.note, State.push, Frame.push,
        Function.update_of_ne same]
      exact holds.roots other pinned
  · intro other value locked
    rw [show frame.lock = some (other, value) from locked] at free
    cases free
  · intro a words member
    obtain ⟨dying, remaining⟩ := holds.dying a words member
    refine ⟨dying, fun other inside => ?_⟩
    have differs : other ≠ w := by
      rintro rfl
      rw [alone] at inside
      cases inside
    simp only [State.note, State.push, Function.update_of_ne differs]
    exact remaining other inside
  · intro other trail member
    obtain ⟨begun, known⟩ := holds.calls other trail member
    exact ⟨begun, (ofCall_cons_other (by simp [Event.caller])).trans known⟩

/-- The next member of an object in destruction ends. -/
theorem unbuildMember_triple
    {w : W}
    {a : A}
    {words : List W}
    (inside : config.home w = some a)
    (distinct : w ∉ words)
    (single : ∀ entry ∈ frame.dying, entry.1 ≠ a)
    (busy : frame.pins ≠ [])
    (free : frame.lock = none) :
    Triple (protocol config) thread
      (keeping config thread (frame.destroy a (w :: words)))
      (unbuildWord thread w : Program A W H T (Option A))
      (fun pointee => keeping config thread
        ((frame.destroy a words).push false pointee)) := by
  apply command_triple
  intro state choice pointee after inv holds ran
  obtain ⟨destroyed, remains⟩ :=
    holds.dying a (w :: words) List.mem_cons_self
  obtain ⟨old, content⟩ := Option.ne_none_iff_exists'.mp
    ((remains w inside).mp List.mem_cons_self)
  rw [content] at ran
  cases ran
  refine ⟨unbuild_sound inv (holds.busy busy)
    (Or.inr ⟨a, inside, destroyed⟩) content, ?_⟩
  refine { holds with
    roots := ?_
    flights := own_push.trans (congrArg (_ ++ ·) holds.flights)
    lockedWord := ?_
    dying := ?_
    calls := ?_ }
  · intro other pinned
    have differs : other ≠ w := by
      rintro rfl
      rw [inv.roots thread other true (holds.pin_mem pinned)] at inside
      cases inside
    simp only [State.note, State.push, Frame.push,
        Function.update_of_ne differs]
    exact holds.roots other pinned
  · intro other value locked
    rw [show frame.lock = some (other, value) from locked] at free
    cases free
  · intro b left member
    rcases List.mem_cons.mp member with new | old
    · cases new
      refine ⟨destroyed, fun other insideOther => ?_⟩
      by_cases same : other = w
      · subst other
        simp [State.note, State.push, distinct]
      · simp only [State.note, State.push, Function.update_of_ne same]
        rw [← remains other insideOther]
        simp [same]
    · obtain ⟨dying, remaining⟩ :=
        holds.dying b left (List.mem_cons_of_mem _ old)
      refine ⟨dying, fun other insideOther => ?_⟩
      have differs : other ≠ w := by
        rintro rfl
        rw [inside] at insideOther
        cases insideOther
        exact single _ old rfl
      simp only [State.note, State.push, Function.update_of_ne differs]
      exact remaining other insideOther
  · intro other trail member
    obtain ⟨begun, known⟩ := holds.calls other trail member
    exact ⟨begun, (ofCall_cons_other (by simp [Event.caller])).trans known⟩

theorem buildWord_triple
    {w : W}
    {value : Word A}
    (alone : config.home w = none)
    (mine : ⟨.word w, true⟩ ∈ frame.pins)
    (vacant : frame.root w = none)
    (free : frame.lock = none) :
    Triple (protocol config) thread
      (keeping config thread (frame.push false value.ptr))
      (buildWord thread w value : Program A W H T Unit)
      (fun _ => keeping config thread
        { frame with
          root := Function.update frame.root w (some value) }) := by
  apply update_triple
  intro state inv holds
  have vacantNow : state.word w = none := (holds.roots w mine).trans vacant
  refine ⟨build_sound inv holds alone mine vacantNow, ?_⟩
  refine { holds with
    roots := ?_
    flights := own_pop holds.flights
    lockedWord := ?_
    dying := ?_
    calls := ?_ }
  · intro other pinned
    by_cases same : other = w
    · subst other
      simp [State.note, State.pop]
    · simp only [State.note, State.pop, Function.update_of_ne same]
      exact holds.roots other pinned
  · intro other value locked
    rw [show frame.lock = some (other, value) from locked] at free
    cases free
  · intro a words member
    obtain ⟨dying, remaining⟩ := holds.dying a words member
    refine ⟨dying, fun other inside => ?_⟩
    have differs : other ≠ w := by
      rintro rfl
      rw [alone] at inside
      cases inside
    simp only [State.note, State.pop, Function.update_of_ne differs]
    exact remaining other inside
  · intro other trail member
    obtain ⟨begun, known⟩ := holds.calls other trail member
    exact ⟨begun, (ofCall_cons_other (by simp [Event.caller])).trans known⟩

end Building

section Scopes

variable [DecidableEq H]

omit [DecidableEq A] [DecidableEq W] [DecidableEq H] in
/-- Only the values of the handles in use matter. -/
theorem Holds.congr_value
    {state : State A W H T}
    {value : H → Option (Word A)}
    (holds : Holds config thread frame state)
    (same :
      ∀ h exclusive,
        ⟨.handle h, exclusive⟩ ∈ frame.pins → frame.value h = value h) :
    Holds config thread { frame with value := value } state :=
  { holds with
    values := fun h exclusive pinned =>
      (holds.values h exclusive pinned).trans (same h exclusive pinned) }

/-- The frame with a local handle. -/
def Frame.withCell
    (frame : Frame A W H T)
    (cell : H)
    (value : Option (Word A)) :
    Frame A W H T :=
  (frame.pin ⟨.handle cell, true⟩).set cell value

/-- The cell is new to the frame. -/
def Frame.Unused
    (frame : Frame A W H T)
    (cell : H) : Prop :=
  (∀ exclusive, ⟨.handle cell, exclusive⟩ ∉ frame.pins) ∧
    ∀ entry ∈ frame.walking, entry.2 ≠ cell

omit [DecidableEq A] [DecidableEq W] [DecidableEq T] in
theorem Frame.Unused.writes
    {cell : H}
    {value : Option (Word A)}
    (unused : frame.Unused cell) :
    (frame.withCell cell value).Writes cell :=
  ⟨List.mem_cons_self, unused.2⟩

omit [DecidableEq A] [DecidableEq W] [DecidableEq T] [DecidableEq H] in
/-- A handle in use is not the new cell. -/
theorem Frame.Unused.ne
    {cell h : H}
    (unused : frame.Unused cell)
    (reads : frame.Reads h) :
    h ≠ cell := by
  rintro rfl
  obtain ⟨⟨exclusive, pinned⟩, -⟩ := reads
  exact unused.1 exclusive pinned

omit [DecidableEq A] [DecidableEq W] [DecidableEq T] in
/-- The other handles keep their uses. -/
theorem Frame.Writes.withCell
    {cell h : H}
    {value : Option (Word A)}
    (writes : frame.Writes h) :
    (frame.withCell cell value).Writes h :=
  ⟨List.mem_cons_of_mem _ writes.1, writes.2⟩

omit [DecidableEq A] [DecidableEq W] [DecidableEq T] in
theorem Frame.Calm.withCell
    {cell : H}
    {value : Option (Word A)}
    (calm : frame.Calm) :
    (frame.withCell cell value).Calm :=
  ⟨calm.releasing, calm.hazard, calm.unshielded, calm.lock,
    List.cons_ne_nil _ _⟩

omit [DecidableEq A] [DecidableEq W] [DecidableEq T] in
theorem Frame.Calm.set
    {h : H}
    {value : Option (Word A)}
    (calm : frame.Calm) :
    (frame.set h value).Calm :=
  ⟨calm.releasing, calm.hazard, calm.unshielded, calm.lock, calm.busy⟩

omit [DecidableEq A] [DecidableEq W] in
/-- The local handle is forgotten. -/
theorem Holds.dropCell
    {state : State A W H T}
    {cell : H}
    {value : Option (Word A)}
    (unused : frame.Unused cell)
    (holds :
      Holds config thread
        { frame.withCell cell value with pins := frame.pins } state) :
    Holds config thread frame state := by
  refine holds.congr_value fun h exclusive pinned => ?_
  have differs : h ≠ cell := by
    rintro rfl
    exact unused.1 exclusive pinned
  simp [Frame.withCell, Frame.set, Frame.pin, differs]

/-- The use of a local handle ends. -/
theorem unpinCell_triple
    {cell : H}
    {value : Option (Word A)}
    (unused : frame.Unused cell)
    (calm : frame.Calm) :
    Triple (protocol config) thread
      (keeping config thread (frame.withCell cell value))
      (unpin thread ⟨.handle cell, true⟩ : Program A W H T Unit)
      (fun _ => keeping config thread frame) := by
  have free : (frame.withCell cell value).lock = none := calm.lock
  have erased :
      (frame.withCell cell value).pins.erase ⟨.handle cell, true⟩ =
        frame.pins :=
    List.erase_cons_head _ _
  refine (unpin_triple ?_ ?_ free).consequence ?_
  · rw [erased]
    exact Or.inr calm.busy
  · intro entry member same
    cases same
    exact unused.2 entry member rfl
  · intro _ world _ known
    rw [erased] at known
    exact Holds.dropCell unused known

/-- A local handle goes out of scope. -/
theorem leaveScope_triple
    {dispose : A → Program A W H T Unit}
    {cell : H}
    {value : Option (Word A)}
    (disposes : Disposes config thread dispose)
    (unused : frame.Unused cell)
    (calm : frame.Calm) :
    Triple (protocol config) thread
      (keeping config thread (frame.withCell cell value))
      (leaveScope dispose thread cell)
      (fun _ => keeping config thread frame) := by
  have destroying :
      Triple (protocol config) thread
        (keeping config thread (frame.withCell cell value))
        (destroyHandle dispose thread cell)
        (fun _ => keeping config thread
          ((frame.withCell cell value).set cell none)) := by
    refine Triple.bind (take_triple unused.writes calm.lock) ?_
    intro old
    refine Triple.given ?_
    rintro rfl
    exact release_triple disposes calm.withCell.set
  refine Triple.bind destroying ?_
  intro _
  have unpinning :
      Triple (protocol config) thread
        (keeping config thread (frame.withCell cell none)) _ _ :=
    unpinCell_triple unused calm
  refine unpinning.weaken ?_
  intro world _ known
  have same :
      (frame.withCell cell value).set cell none =
        frame.withCell cell none := by
    simp [Frame.withCell, Frame.set]
  rw [same] at known
  exact known

omit [DecidableEq A] [DecidableEq W] [DecidableEq T] in
/-- A local handle does not bar the way to a word. -/
theorem Frame.Reaches.withCell
    {w : W}
    {cell : H}
    {value : Option (Word A)}
    (reaches : frame.Reaches config w)
    (unused : frame.Unused cell) :
    (frame.withCell cell value).Reaches config w := by
  unfold Frame.Reaches at reaches ⊢
  split
  case h_1 alone =>
      rw [alone] at reaches
      exact List.mem_cons_of_mem _ reaches
  case h_2 a inside =>
      rw [inside] at reaches
      refine reaches.imp ?_ id
      rintro ⟨h, exclusive, pinned, refersTo⟩
      refine ⟨h, exclusive, List.mem_cons_of_mem _ pinned, ?_⟩
      have differs : h ≠ cell := by
        rintro rfl
        exact unused.1 exclusive pinned
      simp only [Frame.withCell, Frame.set, Frame.pin,
        Function.update_of_ne differs]
      exact refersTo

/-- A handle is assigned from a local one: `h = std::move(current)`. -/
theorem assign_triple
    {β : Type}
    {dispose : A → Program A W H T Unit}
    {cell h : H}
    {word : Word A}
    {next : Program A W H T β}
    {post : β → Assertion (protocol config) thread}
    (disposes : Disposes config thread dispose)
    (unused : frame.Unused cell)
    (calm : frame.Calm)
    (writes : frame.Writes h)
    (continues :
      Triple (protocol config) thread
        (keeping config thread (frame.set h (some word))) next post) :
    Triple (protocol config) thread
      (keeping config thread (frame.withCell cell (some word)))
      (do
        let old ← takeOver thread h cell
        release dispose thread false old
        leaveScope dispose thread cell
        next)
      post := by
  have differs : h ≠ cell := unused.ne writes.reads
  have content :
      (frame.withCell cell (some word)).value cell = some word := by
    simp [Frame.withCell, Frame.set]
  refine Triple.bind
    (takeOver_triple writes.withCell unused.writes content differs
      calm.lock) ?_
  intro old
  refine Triple.given ?_
  rintro rfl
  refine Triple.bind (release_triple disposes calm.withCell.set.set) ?_
  intro _
  refine Triple.bind ?_ (fun _ => continues)
  have unusedStill : (frame.set h (some word)).Unused cell := unused
  have leaving :
      Triple (protocol config) thread
        (keeping config thread
          ((frame.set h (some word)).withCell cell (some Word.null)))
        (leaveScope dispose thread cell) _ :=
    leaveScope_triple disposes unusedStill calm.set
  refine leaving.weaken ?_
  intro world _ known
  have same :
      ((frame.withCell cell (some word)).set h (some word)).set cell
          (some Word.null) =
        (frame.set h (some word)).withCell cell (some Word.null) := by
    simp only [Frame.withCell, Frame.set, Frame.pin]
    rw [Function.update_comm differs, Function.update_idem,
      Function.update_comm differs.symm]
  rw [same] at known
  exact known

end Scopes

section Destructors

/-- A program that a thread may run in the middle of a call. -/
def Scans
    (config : Config A W)
    (thread : T)
    (program : Program A W H T Unit) : Prop :=
  ∀ frame : Frame A W H T,
    frame.Calm →
    Triple (protocol config) thread (keeping config thread frame) program
      (fun _ => keeping config thread frame)

/-- What a thread does at a count of 0 and in a scan keeps what it knew. -/
structure ServicesOk
    (config : Config A W)
    (thread : T)
    (services : Services A W H T) : Prop where
  disposes : Disposes config thread services.dispose
  scans : Scans config thread services.scan

/-- The body of a destructor keeps what its thread knew. -/
def BodyOk
    (config : Config A W)
    (body : Body A W H T) : Prop :=
  ∀ (thread : T) (services : Services A W H T) (frame : Frame A W H T) a,
    ServicesOk config thread services →
    frame.Calm →
    Triple (protocol config) thread
      (keeping config thread (frame.destroy a (config.members a)))
      (body services thread a)
      (fun _ => keeping config thread
        (frame.destroy a (config.members a)))

theorem unbuildAll_triple
    {dispose : A → Program A W H T Unit}
    {a : A}
    {words : List W}
    (disposes : Disposes config thread dispose)
    (calm : frame.Calm)
    (inside : ∀ w ∈ words, config.home w = some a)
    (distinct : words.Nodup)
    (single : ∀ entry ∈ frame.dying, entry.1 ≠ a) :
    Triple (protocol config) thread
      (keeping config thread (frame.destroy a words))
      (unbuildAll dispose thread words)
      (fun _ => keeping config thread (frame.destroy a [])) := by
  induction words with
  | nil =>
      exact Triple.pure fun _ _ known => known
  | cons w words inductionHypothesis =>
      rw [List.nodup_cons] at distinct
      refine Triple.bind
        (unbuildMember_triple (inside w List.mem_cons_self) distinct.1
          single calm.busy calm.lock) ?_
      intro pointee
      have calmStill : (frame.destroy a words).Calm :=
        ⟨calm.releasing, calm.hazard, calm.unshielded, calm.lock, calm.busy⟩
      refine Triple.bind (release_triple disposes calmStill) ?_
      intro _
      exact inductionHypothesis
        (fun other member => inside other (List.mem_cons_of_mem w member))
        distinct.2

theorem destruct_triple
    {body : Body A W H T}
    {services : Services A W H T}
    {a : A}
    (bodyOk : BodyOk config body)
    (servicesOk : ServicesOk config thread services)
    (calm : frame.Calm)
    (single : ∀ entry ∈ frame.dying, entry.1 ≠ a) :
    Triple (protocol config) thread
      (keeping config thread (frame.destroy a (config.members a)))
      (destruct config body services thread a)
      (fun _ => keeping config thread frame) := by
  refine Triple.bind (bodyOk thread services frame a servicesOk calm) ?_
  intro _
  refine Triple.bind
    (unbuildAll_triple servicesOk.disposes calm
      (fun w member => (config.mem_members a w).mp member)
      (config.nodup_members a) single) ?_
  intro _
  exact freeObject_triple calm single

theorem scan_triple
    {body : Body A W H T}
    {services : Services A W H T}
    (bodyOk : BodyOk config body)
    (servicesOk : ServicesOk config thread services) :
    Scans config thread (scan config body services thread) := by
  intro frame calm
  refine Triple.loop
    (fun _ => ?_ :
      ∀ _ : Unit,
        Triple (protocol config) thread (keeping config thread frame)
          _ _)
  refine Triple.bind (reclaim_triple calm) ?_
  intro found
  cases found with
  | none =>
      exact Triple.ret fun _ _ known => known
  | some a =>
      refine Triple.given fun single => ?_
      refine Triple.bind (destruct_triple bodyOk servicesOk calm single) ?_
      intro _
      exact Triple.ret fun _ _ known => known

theorem stuck_triple
    {pre post : Assertion (protocol config) thread} :
    Triple (protocol config) thread pre
      (stuck : Program A W H T Unit) (fun _ => post) := by
  apply Triple.atomic
  intro world choice value shared inv known ran
  cases ran

/-- At every depth, disposal keeps what its thread knew. -/
theorem services_ok
    {body : Body A W H T}
    (bodyOk : BodyOk config body)
    (depth : Nat)
    (thread : T) :
    ServicesOk config thread (services config body depth thread) := by
  induction depth with
  | zero =>
      exact ⟨fun _ _ _ => stuck_triple, fun _ _ => stuck_triple⟩
  | succ depth inductionHypothesis =>
      refine ⟨?_, scan_triple bodyOk inductionHypothesis⟩
      intro frame a calm
      simp only [services]
      cases flavour : config.flavour with
      | spinning =>
          refine Triple.bind (deleteObject_triple flavour calm) ?_
          intro _
          exact Triple.given fun single =>
            destruct_triple bodyOk inductionHypothesis calm single
      | hazard =>
          refine Triple.bind (retire_triple calm) ?_
          intro _
          exact scan_triple bodyOk inductionHypothesis frame calm

end Destructors

end ConcurrentCpp.IntrPointer
