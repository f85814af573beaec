import ConcurrentCpp.IntrPointerHazard

namespace ConcurrentCpp.IntrPointer

/-!
# The spinlock word

The thread that set the lock bit is the only one that may change the word until
it clears the bit.  A load takes its reference inside the lock, a store and a
successful compare-exchange swap the word by the write that unlocks it.
-/

variable {A W H T : Type}
variable [DecidableEq A] [DecidableEq W] [DecidableEq T]
variable
  {config : Config A W}
  {thread : T}
  {frame : Frame A W H T}
  {number : Nat}
  {w : W}

/-- The frame with the lock of a word and what the word holds. -/
def Frame.locked
    (frame : Frame A W H T)
    (w : W)
    (val : Word A) :
    Frame A W H T :=
  { frame with lock := some (w, val) }

section Locks

variable {state : State A W H T}

/-- A free lock is taken. -/
theorem lock_keeps
    {val : Word A}
    (spinning : config.flavour = .spinning)
    (inv : Invariant config state)
    (holds : Holds config thread frame state)
    (reaches : frame.Reaches config w)
    (free : frame.lock = none)
    (unlocked : state.lock w = none)
    (content : state.word w = some val) :
    Sound config thread state
        { state with lock := Function.update state.lock w (some thread) } ∧
      Holds config thread (frame.locked w val)
        { state with
          lock := Function.update state.lock w (some thread) } := by
  refine ⟨⟨{ inv with
    unlocked := ?_
    locked := ?_
    walked := ?_ }, ?_⟩, ?_⟩
  · intro hazardous
    rw [spinning] at hazardous
    cases hazardous
  · intro other word locked
    by_cases same : word = w
    · subst word
      simp only [Function.update_self, Option.some.injEq] at locked
      subst locked
      have uses := reaches.uses holds
      exact uses
    · simp only [Function.update_of_ne same] at locked
      exact inv.locked other word locked
  · intro other a cell walks
    obtain ⟨solitary, pinned⟩ := inv.walked other a cell walks
    exact ⟨solitary.keep rfl (fun _ h => h) (fun _ h => h)
      (fun _ h _ => Or.inl h), pinned⟩
  · intro other different
    refine { Kept.refl config other state with
      lock := ?_
      lockedWord := fun _ _ => rfl }
    intro word
    by_cases same : word = w
    · subst word
      simp [unlocked, Ne.symm different]
    · simp [same]
  · refine { holds with
      lock := ?_
      lockedWord := ?_ }
    · intro word
      by_cases same : word = w
      · subst word
        simp [Frame.locked]
      · have lockless : state.lock word ≠ some thread :=
          holds.lockless free
        simp [Frame.locked, same, lockless, Ne.symm same]
    · intro word value same
      cases same
      exact content

/-- The holder of a lock gives it back. -/
theorem unlock_keeps
    {val : Word A}
    (inv : Invariant config state)
    (holds : Holds config thread (frame.locked w val) state)
    (free : frame.lock = none) :
    Sound config thread state
        { state with lock := Function.update state.lock w none } ∧
      Holds config thread frame
        { state with lock := Function.update state.lock w none } := by
  have mine : state.lock w = some thread := (holds.lock w).mpr rfl
  refine ⟨⟨{ inv with
    unlocked := ?_
    locked := ?_
    walked := ?_ }, ?_⟩, ?_⟩
  · intro hazardous word
    rw [inv.unlocked hazardous w] at mine
    cases mine
  · intro other word locked
    by_cases same : word = w
    · subst word
      simp at locked
    · simp only [Function.update_of_ne same] at locked
      exact inv.locked other word locked
  · intro other a cell walks
    obtain ⟨solitary, pinned⟩ := inv.walked other a cell walks
    exact ⟨solitary.keep rfl (fun _ h => h) (fun _ h => h)
      (fun _ h _ => Or.inl h), pinned⟩
  · intro other different
    refine { Kept.refl config other state with
      lock := ?_
      lockedWord := fun _ _ => rfl }
    intro word
    by_cases same : word = w
    · subst word
      simp [mine, Ne.symm different]
    · simp [same]
  · refine { holds with
      lock := ?_
      lockedWord := ?_ }
    · intro word
      rw [free]
      by_cases same : word = w
      · subst word
        simp
      · have known := holds.lock word
        simp only [Frame.locked, Option.map_some, Option.some.injEq,
          Ne.symm same, iff_false] at known
        simp [same, known]
    · intro word value same
      rw [free] at same
      cases same

omit [DecidableEq A] [DecidableEq W] in
/-- A locked word holds what its holder knows. -/
theorem Holds.content
    {val : Word A}
    (holds : Holds config thread (frame.locked w val) state) :
    state.word w = some val :=
  holds.lockedWord w val rfl

end Locks

section Locking

theorem loadRaw_triple
    (reaches : frame.Reaches config w) :
    Triple (protocol config) thread (keeping config thread frame)
      (loadRaw w : Program A W H T (Word A × Bool))
      (fun _ => keeping config thread frame) := by
  apply command_triple
  intro state choice value after inv holds ran
  obtain ⟨content, isContent⟩ := reaches.built inv holds
  rw [isContent] at ran
  cases ran
  exact ⟨Sound.refl inv, holds⟩

theorem recheck_triple
    {tries : Nat}
    {val : Word A × Bool}
    (reaches : frame.Reaches config w) :
    Triple (protocol config) thread (keeping config thread frame)
      (recheck w tries val : Program A W H T (Word A × Bool))
      (fun _ => keeping config thread frame) := by
  induction tries generalizing val with
  | zero =>
      exact Triple.pure fun _ _ known => known
  | succ tries inductionHypothesis =>
      refine Triple.bind (loadRaw_triple reaches) ?_
      intro seen
      split
      · exact inductionHypothesis
      · exact Triple.pure fun _ _ known => known

theorem lockWord_triple
    {val : Word A}
    (spinning : config.flavour = .spinning)
    (reaches : frame.Reaches config w)
    (free : frame.lock = none) :
    Triple (protocol config) thread (keeping config thread frame)
      (lockWord thread w val : Program A W H T (Option (Word A × Bool)))
      (fun refreshed => keeping config thread
        (if refreshed.isNone then frame.locked w val else frame)) := by
  apply command_triple
  intro state choice refreshed after inv holds ran
  obtain ⟨content, isContent⟩ := reaches.built inv holds
  rw [isContent] at ran
  simp only at ran
  split at ran
  case h_1 =>
      cases ran
      exact ⟨Sound.refl inv, holds⟩
  case h_2 =>
      split at ran
      case isTrue unlocked =>
          cases ran
          obtain ⟨rfl, unlockedNow⟩ := unlocked
          exact lock_keeps spinning inv holds reaches free unlockedNow
            isContent
      case isFalse =>
          cases ran
          exact ⟨Sound.refl inv, holds⟩

/-- `lock()` returns the word as it is while the lock is held. -/
theorem lock_triple
    (spinning : config.flavour = .spinning)
    (reaches : frame.Reaches config w)
    (free : frame.lock = none) :
    Triple (protocol config) thread (keeping config thread frame)
      (lock thread w : Program A W H T (Word A))
      (fun val => keeping config thread (frame.locked w val)) := by
  refine Triple.bind (loadRaw_triple reaches) ?_
  intro first
  refine Triple.loop
    (fun val => ?_ :
      ∀ _ : Word A × Bool,
        Triple (protocol config) thread (keeping config thread frame)
          _ _)
  split
  · refine Triple.bind (recheck_triple reaches) ?_
    intro seen
    split
    · refine Triple.bind (loadRaw_triple reaches) ?_
      intro later
      exact Triple.ret fun _ _ known => known
    · exact Triple.ret fun _ _ known => known
  · refine Triple.bind (lockWord_triple spinning reaches free) ?_
    intro refreshed
    cases refreshed with
    | none =>
        exact Triple.ret fun _ _ known => known
    | some seen =>
        exact Triple.ret fun _ _ known => known

theorem unlock_triple
    {val : Word A}
    (free : frame.lock = none) :
    Triple (protocol config) thread
      (keeping config thread (frame.locked w val))
      (unlock w val : Program A W H T Unit)
      (fun _ => keeping config thread frame) := by
  apply update_triple
  intro state inv holds
  have same : Function.update state.word w (some val) = state.word := by
    rw [← holds.content, Function.update_eq_self]
  simp only [same]
  exact unlock_keeps inv holds free

/-- The swap and the unlock are one write. -/
theorem storeUnlock_triple
    {trail : List (Event A W T)}
    {val new : Word A}
    (fresh : frame.Fresh number)
    (reaches : frame.Reaches config w)
    (busy : frame.pins ≠ [])
    (free : frame.lock = none) :
    Triple (protocol config) thread
      (keeping config thread
        (((frame.call number trail).push false new.ptr).locked w val))
      (storeUnlock (thread, number) w val new : Program A W H T Unit)
      (fun _ => keeping config thread
        ((frame.call number
            (.swapped (thread, number) w val new :: trail)).push false
          val.ptr)) := by
  apply update_triple
  intro state inv holds
  have freeNow :
      ((frame.call number trail).push false new.ptr).lock = none :=
    free
  have reachesNow :
      ((frame.call number trail).push false new.ptr).Reaches config w :=
    reaches
  obtain ⟨unlocked, known⟩ := unlock_keeps inv holds freeNow
  have uses := reachesNow.uses known
  have swapped := swap_sound unlocked.inv known busy uses ?_ holds.content
  · refine ⟨unlocked.trans swapped,
      swap_holds unlocked.inv known fresh uses holds.content ?_⟩
    intro value
    rw [free]
    simp
  · intro other _
    simp

variable [DecidableEq H]

/-- The reference of a load is taken while the word is locked. -/
theorem copyLocked_triple
    {trail : List (Event A W T)}
    {val : Word A}
    {dst : H}
    (fresh : frame.Fresh number)
    (writes : frame.Writes dst)
    (vacant : (frame.value dst).bind Word.ptr = none) :
    Triple (protocol config) thread
      (keeping config thread ((frame.call number trail).locked w val))
      (copyLocked (thread, number) w val dst : Program A W H T Unit)
      (fun _ => keeping config thread
        (((frame.set dst (some val)).call number
          (.read (thread, number) w val :: trail)).locked w val)) := by
  apply update_triple
  intro state inv holds
  have named :
      ∀ a, val.ptr = some a → wordRefers state.word w = some a := by
    intro a pointee
    rw [wordRefers, holds.content]
    exact pointee
  have writesNow :
      ((frame.call number trail).locked w val).Writes dst :=
    writes
  obtain ⟨copied, known⟩ :=
    copy_keeps inv holds
      (fun a pointee =>
        ⟨inv.owned_of_word (named a pointee),
          inv.unwalked_of_word (named a pointee)⟩)
      writesNow vacant
  have knownInCall :
      Holds config thread
        (((frame.set dst (some val)).locked w val).call number trail) _ :=
    known
  obtain ⟨noted, knownNoted⟩ :=
    read_keeps copied.inv knownInCall fresh
      (known.lockedWord w val rfl)
  exact ⟨copied.trans noted, knownNoted⟩

end Locking

section Operations

variable [DecidableEq H]
variable {dispose : A → Program A W H T Unit}

/-- `intr_shared_ptr::load()`. -/
theorem spinLoad_triple
    {base : List (Event A W T)}
    {dst : H}
    (spinning : config.flavour = .spinning)
    (calm : frame.Calm)
    (fresh : frame.Fresh number)
    (reaches : frame.Reaches config w)
    (writes : frame.Writes dst)
    (vacant : (frame.value dst).bind Word.ptr = none) :
    Triple (protocol config) thread
      (keeping config thread (frame.call number base))
      (spinLoad (thread, number) w dst : Program A W H T Unit)
      (fun _ => loaded config thread frame number w base dst true) := by
  have reachesNow : (frame.call number base).Reaches config w := reaches
  have free : (frame.call number base).lock = none := calm.lock
  refine Triple.bind (lock_triple spinning reachesNow free) ?_
  intro val
  refine Triple.bind (copyLocked_triple fresh writes vacant) ?_
  intro _
  have freeStill :
      ((frame.set dst (some val)).call number
        (.read (thread, number) w val :: base)).lock = none :=
    calm.lock
  refine (unlock_triple freeStill).consequence ?_
  intro _ world _ known
  exact ⟨val, ⟨[], Reads.nil⟩, known⟩

omit [DecidableEq H] in
/-- `intr_shared_ptr::store()`. -/
theorem spinStore_triple
    {base : List (Event A W T)}
    {h : H}
    {desired : Word A}
    (spinning : config.flavour = .spinning)
    (disposes : Disposes config thread dispose)
    (calm : frame.Calm)
    (fresh : frame.Fresh number)
    (reaches : frame.Reaches config w)
    (reads : frame.Reads h)
    (value : frame.value h = some desired) :
    Triple (protocol config) thread
      (keeping config thread (frame.call number base))
      (spinStore dispose (thread, number) w desired)
      (fun _ => stored config thread frame number w base desired) := by
  have counting :
      Triple (protocol config) thread
        (keeping config thread (frame.call number base)) _ _ :=
    countHandle_triple reads value
  refine Triple.bind counting ?_
  intro _
  have reachesNow :
      ((frame.call number base).push false desired.ptr).Reaches config w :=
    reaches
  refine Triple.bind (lock_triple spinning reachesNow calm.lock) ?_
  intro val
  refine Triple.bind
    (storeUnlock_triple fresh reaches calm.busy calm.lock) ?_
  intro _
  refine (release_triple disposes calm.call).consequence ?_
  intro _ world _ known
  exact ⟨val, known⟩

/-- The failure path: `expected` takes the word that was locked. -/
theorem spinRefresh_triple
    {base : List (Event A W T)}
    {strong : Bool}
    {original new val : Word A}
    {expected : H}
    (disposes : Disposes config thread dispose)
    (calm : frame.Calm)
    (fresh : frame.Fresh number)
    (writes : frame.Writes expected)
    (differs : val ≠ original) :
    Triple (protocol config) thread
      (keeping config thread ((frame.call number base).locked w val))
      (do
        let res ← newCell thread
        copyLocked (thread, number) w val res
        unlock w val
        let old ← takeOver thread expected res
        release dispose thread false old
        leaveScope dispose thread res
        pure false : Program A W H T Bool)
      (fun swapped =>
        compared config thread frame number w base strong original new
          expected (some swapped)) := by
  refine Triple.bind (newCell_triple calm.busy) ?_
  intro res
  refine Triple.given fun unused => ?_
  have unusedNow : frame.Unused res := unused
  have vacant :
      ((frame.withCell res none).value res).bind Word.ptr = none := by
    simp [Frame.withCell, Frame.set]
  have copying :
      Triple (protocol config) thread
        (keeping config thread
          (((frame.withCell res none).call number base).locked w val))
        (copyLocked (thread, number) w val res : Program A W H T Unit) _ :=
    copyLocked_triple fresh unusedNow.writes vacant
  refine Triple.bind copying ?_
  intro _
  have same :
      (frame.withCell res none).set res (some val) =
        frame.withCell res (some val) := by
    simp [Frame.withCell, Frame.set]
  rw [same]
  have free :
      ((frame.withCell res (some val)).call number
        (.read (thread, number) w val :: base)).lock = none :=
    calm.lock
  refine Triple.bind (unlock_triple free) ?_
  intro _
  have unusedInCall :
      (frame.call number
        (.read (thread, number) w val :: base)).Unused res :=
    unused
  refine assign_triple disposes unusedInCall calm.call writes ?_
  exact Triple.pure fun world _ known =>
    ⟨val, fun _ => differs, ⟨[], Reads.nil⟩, known⟩

/-- `intr_shared_ptr::compare_exchange_strong()`. -/
theorem spinCompareExchange_triple
    {base : List (Event A W T)}
    {strong : Bool}
    {original new : Word A}
    {expected desired : H}
    (spinning : config.flavour = .spinning)
    (disposes : Disposes config thread dispose)
    (calm : frame.Calm)
    (fresh : frame.Fresh number)
    (reaches : frame.Reaches config w)
    (writes : frame.Writes expected)
    (reads : frame.Reads desired)
    (desiredIs : frame.value desired = some new) :
    Triple (protocol config) thread
      (keeping config thread (frame.call number base))
      (spinCompareExchange dispose (thread, number) w original new expected)
      (fun swapped =>
        compared config thread frame number w base strong original new
          expected (some swapped)) := by
  have reachesNow : (frame.call number base).Reaches config w := reaches
  have free : (frame.call number base).lock = none := calm.lock
  refine Triple.bind (lock_triple spinning reachesNow free) ?_
  intro val
  split
  case isTrue same =>
      subst same
      have counting :
          Triple (protocol config) thread
            (keeping config thread
              ((frame.call number base).locked w val)) _ _ :=
        countHandle_triple reads desiredIs
      refine Triple.bind counting ?_
      intro _
      refine Triple.bind
        (storeUnlock_triple fresh reaches calm.busy calm.lock) ?_
      intro _
      refine Triple.bind (release_triple disposes calm.call) ?_
      intro _
      exact Triple.pure fun world _ known => ⟨⟨[], Reads.nil⟩, known⟩
  case isFalse differs =>
      exact spinRefresh_triple disposes calm fresh writes differs

end Operations

end ConcurrentCpp.IntrPointer
