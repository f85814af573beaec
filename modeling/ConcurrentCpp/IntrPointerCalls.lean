import ConcurrentCpp.IntrPointerClients
import ConcurrentCpp.IntrPointerSpin

namespace ConcurrentCpp.IntrPointer

/-!
# Whole operations

An operation on a word is a call: it begins with an event, records its reads
and its swap, and returns with an outcome that these explain.  Both pointers
give the same account, so everything above is said of both at once.
-/

variable {A W H T : Type}
variable [DecidableEq A] [DecidableEq W] [DecidableEq H] [DecidableEq T]
variable
  {config : Config A W}
  {thread : T}
  {frame : Frame A W H T}
  {w : W}

section Brackets

omit [DecidableEq H] in
/-- The call of a beginning operation has a new number. -/
theorem beginCall_triple
    {operation : Operation A} :
    Triple (protocol config) thread (keeping config thread frame)
      (beginCall thread w operation :
        Program A W H T (T × Nat))
      (fun call =>
        Assertion.any fun number =>
          (Assertion.pure
            (call = (thread, number) ∧ frame.Fresh number)).and
            (keeping config thread
              (frame.call number
                [.called (thread, number) w operation]))) := by
  apply command_triple
  intro state choice call after inv holds ran
  cases ran
  have unstarted :
      ofCall (thread, state.calls thread) state.events = [] := by
    exact inv.numbered thread _ (Nat.le_refl _)
  have fresh : frame.Fresh (state.calls thread) := by
    rintro ⟨number, trail⟩ member same
    have begun := (holds.calls number trail member).1
    simp only at same
    omega
  refine ⟨⟨{ inv with
    current := inv.current
    legal := ⟨unstarted, inv.legal⟩
    numbered := ?_
    walked := ?_ }, ?_⟩, state.calls thread, ⟨rfl, fresh⟩, ?_⟩
  · intro other number later
    by_cases same : other = thread
    · subst other
      simp only [State.note, Function.update_self] at later
      refine (ofCall_cons_other ?_).trans
        (inv.numbered thread number (by omega))
      intro named
      cases named
      omega
    · simp only [State.note, Function.update_of_ne same] at later
      refine (ofCall_cons_other ?_).trans (inv.numbered other number later)
      intro named
      cases named
      exact same rfl
  · intro other a cell walks
    obtain ⟨solitary, pinned⟩ := inv.walked other a cell walks
    exact ⟨solitary.keep rfl (fun _ h => h) (fun _ h => h)
      (fun _ h _ => Or.inl h), pinned⟩
  · intro other different
    refine { Kept.refl config other state with
      calls := Function.update_of_ne different _ _
      events := fun number => ofCall_cons_other ?_ }
    intro named
    cases named
    exact different rfl
  · refine { holds with calls := ?_ }
    intro number trail member
    simp only [State.note, Function.update_self]
    rcases List.mem_cons.mp member with new | old
    · cases new
      refine ⟨Nat.lt_succ_self _, ?_⟩
      rw [ofCall_cons_own rfl, unstarted]
    · obtain ⟨begun, known⟩ := holds.calls number trail old
      refine ⟨Nat.lt_succ_of_lt begun, ?_⟩
      rw [ofCall_cons_other, known]
      intro named
      cases named
      exact fresh _ old rfl

omit [DecidableEq H] in
/-- An operation returns what its reads and its swap explain. -/
theorem endCall_triple
    {number : Nat}
    {operation : Operation A}
    {trail : List (Event A W T)}
    {outcome : State A W H T → Outcome A}
    (fresh : frame.Fresh number)
    (explains :
      ∀ state,
        Holds config thread
          (frame.call number
            (trail ++ [.called (thread, number) w operation])) state →
        Explains (thread, number) w trail operation (outcome state)) :
    Triple (protocol config) thread
      (keeping config thread
        (frame.call number
          (trail ++ [.called (thread, number) w operation])))
      (endCall (thread, number) outcome : Program A W H T Unit)
      (fun _ => keeping config thread frame) := by
  apply update_triple
  intro state inv holds
  have trailIs := (holds.calls number _ List.mem_cons_self).2
  refine ⟨note_sound inv (holds.mine rfl)
    ⟨w, operation, trail, trailIs, explains state holds⟩
    (fun _ => rfl), ?_⟩
  have noted :=
    holds.calls_note fresh
      (show (Event.returned (thread, number) (outcome state)).caller = _ from
        rfl)
  exact
    { holds with
      calls := fun other known member =>
        noted other known (List.mem_cons_of_mem _ member) }

end Brackets

section Words

variable {dispose : A → Program A W H T Unit}

/-- What `load()` leaves to its caller. -/
def loadedHandle
    (config : Config A W)
    (thread : T)
    (frame : Frame A W H T)
    (dst : H) :
    Bool → Assertion (protocol config (H := H)) thread
  | true =>
      Assertion.any fun value : Word A =>
        keeping config thread (frame.set dst (some value))
  | false => keeping config thread frame

theorem callLoad_triple
    {dst : H}
    (disposes : Disposes config thread dispose)
    (calm : frame.Calm)
    (reaches : frame.Reaches config w)
    (writes : frame.Writes dst)
    (vacant : frame.value dst = none) :
    Triple (protocol config) thread (keeping config thread frame)
      (callLoad config dispose thread w dst)
      (loadedHandle config thread frame dst) := by
  refine Triple.bind beginCall_triple ?_
  intro call
  refine Triple.any fun number => Triple.given ?_
  rintro ⟨rfl, fresh⟩
  have vacantNow : (frame.value dst).bind Word.ptr = none := by
    rw [vacant]
    rfl
  have loading :
      Triple (protocol config) thread
        (keeping config thread
          (frame.call number [.called (thread, number) w .load]))
        (load config dispose (thread, number) w dst)
        (loaded config thread frame number w
          [.called (thread, number) w .load] dst) := by
    unfold load
    cases flavour : config.flavour with
    | spinning =>
        refine Triple.bind
          (spinLoad_triple flavour calm fresh reaches writes vacantNow) ?_
        intro _
        exact Triple.pure fun _ _ known => known
    | hazard =>
        refine (hpLoad_triple flavour disposes calm fresh reaches writes
          vacantNow).weaken ?_
        intro world _ known
        exact ⟨⟨[], Reads.nil⟩, known⟩
  refine Triple.bind loading ?_
  intro success
  cases success with
  | true =>
      refine Triple.any fun value => Triple.any fun reads => ?_
      have freshNow : (frame.set dst (some value)).Fresh number := fresh
      have ending :
          Triple (protocol config) thread
            (keeping config thread
              ((frame.set dst (some value)).call number
                ((.read (thread, number) w value :: reads.1) ++
                  [.called (thread, number) w .load]))) _ _ :=
        endCall_triple freshNow (fun state holds => by
          have writesNow :
              ((frame.set dst (some value)).call number
                ((.read (thread, number) w value :: reads.1) ++
                  [.called (thread, number) w .load])).Writes dst :=
            writes
          have content := holds.handleAt writesNow.reads
          have contentIs : state.handleAt dst = value := by
            rw [content]
            simp [Frame.call, Frame.set]
          show Explains _ _ _ _ (.loaded (state.handleAt dst))
          rw [contentIs]
          exact ⟨reads.1, rfl, reads.2⟩)
      refine Triple.bind ending ?_
      intro _
      exact Triple.pure fun _ _ known => ⟨value, known⟩
  | false =>
      refine Triple.any fun reads => ?_
      have ending :
          Triple (protocol config) thread
            (keeping config thread
              (frame.call number
                (reads.1 ++ [.called (thread, number) w .load])))
            (endCall (thread, number) fun _ => .threw :
              Program A W H T Unit) _ :=
        endCall_triple fresh (fun _ _ => reads.2)
      refine Triple.bind ending ?_
      intro _
      exact Triple.pure fun _ _ known => known

omit [DecidableEq H] in
theorem callStore_triple
    {desired : H}
    {word : Word A}
    (disposes : Disposes config thread dispose)
    (calm : frame.Calm)
    (reaches : frame.Reaches config w)
    (reads : frame.Reads desired)
    (value : frame.value desired = some word) :
    Triple (protocol config) thread (keeping config thread frame)
      (callStore config dispose thread w desired)
      (fun _ => keeping config thread frame) := by
  refine Triple.bind (readHandle_triple reads value) ?_
  intro seen
  refine Triple.given ?_
  rintro rfl
  refine Triple.bind beginCall_triple ?_
  intro call
  refine Triple.any fun number => Triple.given ?_
  rintro ⟨rfl, fresh⟩
  have storing :
      Triple (protocol config) thread
        (keeping config thread
          (frame.call number [.called (thread, number) w (.store seen)]))
        (store config dispose (thread, number) w desired)
        (fun _ =>
          stored config thread frame number w
            [.called (thread, number) w (.store seen)] seen) := by
    refine Triple.bind
      (readHandle_triple (reads.call number _) value) ?_
    intro found
    refine Triple.given ?_
    rintro rfl
    cases flavour : config.flavour with
    | spinning =>
        exact spinStore_triple flavour disposes calm fresh reaches reads
          value
    | hazard =>
        exact hpStore_triple flavour disposes calm fresh reaches reads
          value
  refine Triple.bind storing ?_
  intro _
  refine Triple.any fun old => ?_
  have ending :
      Triple (protocol config) thread
        (keeping config thread
          (frame.call number
            ([.swapped (thread, number) w old seen] ++
              [.called (thread, number) w (.store seen)])))
        (endCall (thread, number) fun _ => .stored :
          Program A W H T Unit) _ :=
    endCall_triple fresh (fun _ _ => ⟨old, rfl⟩)
  exact ending

omit [DecidableEq H] in
/-- The account of a compare-exchange that returns. -/
theorem endExchange_triple
    {number : Nat}
    {strong : Bool}
    {original new word : Word A}
    {expected : H}
    {trail : List (Event A W T)}
    {success : Bool}
    (fresh : frame.Fresh number)
    (writes : frame.Writes expected)
    (content : frame.value expected = some word)
    (explains :
      Explains (thread, number) w trail
        (.compareExchange strong original new)
        (.exchanged success word)) :
    Triple (protocol config) thread
      (keeping config thread
        (frame.call number
          (trail ++
            [.called (thread, number) w
              (.compareExchange strong original new)])))
      (endCall (thread, number) fun state =>
        .exchanged success (state.handleAt expected) :
        Program A W H T Unit)
      (fun _ => keeping config thread frame) := by
  refine endCall_triple fresh fun state holds => ?_
  have writesNow :
      (frame.call number
        (trail ++
          [.called (thread, number) w
            (.compareExchange strong original new)])).Writes expected :=
    writes
  have seen : state.handleAt expected = word := by
    rw [holds.handleAt writesNow.reads]
    show (frame.value expected).getD Word.null = word
    rw [content]
    rfl
  rw [seen]
  exact explains

theorem callCompareExchange_triple
    {strong : Bool}
    {expected desired : H}
    {original new : Word A}
    (disposes : Disposes config thread dispose)
    (calm : frame.Calm)
    (reaches : frame.Reaches config w)
    (writes : frame.Writes expected)
    (expectedIs : frame.value expected = some original)
    (reads : frame.Reads desired)
    (desiredIs : frame.value desired = some new) :
    Triple (protocol config) thread (keeping config thread frame)
      (callCompareExchange config dispose thread strong w expected desired)
      (fun _ =>
        Assertion.any fun word : Word A =>
          keeping config thread (frame.set expected (some word))) := by
  have unchanged : frame.set expected (some original) = frame := by
    rw [← expectedIs]
    simp [Frame.set]
  refine Triple.bind (readHandle_triple writes.reads expectedIs) ?_
  intro seenExpected
  refine Triple.given ?_
  rintro rfl
  refine Triple.bind (readHandle_triple reads desiredIs) ?_
  intro seenDesired
  refine Triple.given ?_
  rintro rfl
  refine Triple.bind beginCall_triple ?_
  intro call
  refine Triple.any fun number => Triple.given ?_
  rintro ⟨rfl, fresh⟩
  have comparing :
      Triple (protocol config) thread
        (keeping config thread
          (frame.call number
            [.called (thread, number) w
              (.compareExchange strong seenExpected seenDesired)]))
        (compareExchange config dispose (thread, number) strong w expected
          desired)
        (compared config thread frame number w
          [.called (thread, number) w
            (.compareExchange strong seenExpected seenDesired)] strong
          seenExpected seenDesired expected) := by
    refine Triple.bind
      (readHandle_triple (writes.reads.call number _) expectedIs) ?_
    intro foundExpected
    refine Triple.given ?_
    rintro rfl
    refine Triple.bind
      (readHandle_triple (reads.call number _) desiredIs) ?_
    intro foundDesired
    refine Triple.given ?_
    rintro rfl
    cases flavour : config.flavour with
    | spinning =>
        have comparing :
            Triple (protocol config) thread _ _ fun swapped =>
              compared config thread frame number w
                [.called (thread, number) w
                  (.compareExchange strong foundExpected foundDesired)]
                strong foundExpected foundDesired expected
                (some swapped) :=
          spinCompareExchange_triple flavour disposes calm fresh reaches
            writes reads desiredIs
        refine Triple.bind comparing ?_
        intro swapped
        exact Triple.pure fun _ _ known => known
    | hazard =>
        refine (hpCompareExchange_triple flavour disposes calm fresh
          reaches writes expectedIs reads desiredIs).weaken ?_
        intro world _ known
        exact ⟨⟨[], Reads.nil⟩, known⟩
  refine Triple.bind comparing ?_
  intro result
  cases result with
  | none =>
      refine Triple.any fun seen => ?_
      have ending :
          Triple (protocol config) thread
            (keeping config thread
              (frame.call number
                (seen.1 ++
                  [.called (thread, number) w
                    (.compareExchange strong seenExpected seenDesired)])))
            (endCall (thread, number) fun _ => .threw :
              Program A W H T Unit) _ :=
        endCall_triple fresh (fun _ _ => seen.2)
      refine Triple.bind ending ?_
      intro _
      refine Triple.pure fun world _ known => ⟨seenExpected, ?_⟩
      simp only [unchanged]
      exact known
  | some won =>
      cases won with
      | true =>
          refine Triple.any fun seen => ?_
          have ending :
              Triple (protocol config) thread
                (keeping config thread
                  (frame.call number
                    ((.swapped (thread, number) w seenExpected seenDesired ::
                        seen.1) ++
                      [.called (thread, number) w
                        (.compareExchange strong seenExpected seenDesired)])))
                (endCall (thread, number) fun state =>
                  .exchanged true (state.handleAt expected) :
                  Program A W H T Unit) _ :=
            endExchange_triple fresh writes expectedIs
              ⟨rfl, seen.1, rfl, seen.2⟩
          refine Triple.bind ending ?_
          intro _
          refine Triple.pure fun world _ known => ⟨seenExpected, ?_⟩
          simp only [unchanged]
          exact known
      | false =>
          refine Triple.any fun value => Triple.given fun differs => ?_
          refine Triple.any fun seen => ?_
          have freshNow : (frame.set expected (some value)).Fresh number :=
            fresh
          have writesNow : (frame.set expected (some value)).Writes expected :=
            writes
          have content :
              (frame.set expected (some value)).value expected =
                some value := by
            simp [Frame.set]
          have ending :
              Triple (protocol config) thread
                (keeping config thread
                  ((frame.set expected (some value)).call number
                    ((.read (thread, number) w value :: seen.1) ++
                      [.called (thread, number) w
                        (.compareExchange strong seenExpected seenDesired)])))
                (endCall (thread, number) fun state =>
                  .exchanged false (state.handleAt expected) :
                  Program A W H T Unit) _ :=
            endExchange_triple freshNow writesNow content
              ⟨differs, seen.1, rfl, seen.2⟩
          refine Triple.bind ending ?_
          intro _
          exact Triple.pure fun world _ known => ⟨value, known⟩

end Words

section Objects

variable {state : State A W H T}

/-- The object was constructed by the thread, and nothing refers to it. -/
def newborn
    (config : Config A W)
    (thread : T)
    (a : A) :
    Assertion (protocol config (H := H)) thread where
  holds world := world.1.status a = .fresh thread
  stable different _ _ guarantee known :=
    (guarantee _ (Ne.symm different)).fresh a known

omit [DecidableEq H] in
/-- No word of a free address is in use. -/
theorem Invariant.unused_of_free
    {a : A}
    {user : T}
    (inv : Invariant config state)
    (free : state.status a = .free)
    (uses : Uses config state user w) :
    config.home w ≠ some a := by
  intro inside
  unfold Uses at uses
  rw [inside] at uses
  rcases uses with ⟨h, exclusive, -, refersTo⟩ | dying
  · rw [inv.owned_of_handle refersTo] at free
    cases free
  · rw [free] at dying
    cases dying

omit [DecidableEq W] [DecidableEq H] [DecidableEq T] in
/-- The words of a new object refer to nothing. -/
theorem wordRefers_allocated
    {a : A}
    (vacant : ∀ w, config.home w = some a → state.word w = none) :
    wordRefers
        (fun w =>
          if config.home w = some a then some Word.null
          else state.word w) =
      wordRefers state.word := by
  funext other
  by_cases inside : config.home other = some a
  · simp [wordRefers, inside, vacant other inside, Word.null]
  · simp [wordRefers, inside]

omit [DecidableEq H] in
/-- An object and its words come into being at a free address. -/
theorem allocate_invariant
    {a : A}
    (inv : Invariant config state)
    (free : state.status a = .free) :
    Invariant config
      { state with
        status := Function.update state.status a (.fresh thread)
        count := Function.update state.count a 0
        word := fun w =>
          if config.home w = some a then some Word.null
          else state.word w
        deeds := .allocated thread a :: state.deeds
        events :=
          (config.members a).map (fun w => .built w Word.null) ++
            state.events } := by
  have vacant : ∀ w, config.home w = some a → state.word w = none :=
    fun w inside => inv.unbuilt a w inside free
  have refersSame := wordRefers_allocated vacant
  have uncounted : state.count a = 0 := by
    have unowned := inv.owned a
    rw [free] at unowned
    simp only [reduceCtorEq, false_iff] at unowned
    omega
  have counts : Function.update state.count a 0 = state.count := by
    rw [← uncounted, Function.update_eq_self]
  refine { inv with
    exact := ?_
    boundedWords := ?_
    owned := ?_
    life := ?_
    lawful := ⟨(inv.life a).trans free, inv.lawful⟩
    condemned := ?_
    unbuilt := ?_
    built := ?_
    pinned := ?_
    locked := ?_
    current := ?_
    legal := ?_
    numbered := ?_
    walked := ?_ }
  · intro b
    simp only [references, refersSame, counts]
    exact inv.exact b
  · rw [refersSame]
    exact inv.boundedWords
  · intro b
    rw [counts]
    by_cases same : b = a
    · subst b
      simp [uncounted]
    · simp only [Function.update_of_ne same]
      exact inv.owned b
  · intro b
    by_cases same : a = b
    · subst b
      simp [lifeOf]
    · simp only [lifeOf, if_neg same,
        Function.update_of_ne (Ne.symm same)]
      exact inv.life b
  · intro other b
    rw [inv.condemned]
    by_cases same : b = a
    · subst b
      simp [free]
    · simp only [Function.update_of_ne same]
  · intro b other inside freeThere
    by_cases same : b = a
    · subst b
      simp at freeThere
    · simp only [Function.update_of_ne same] at freeThere
      have outside : config.home other ≠ some a := by
        rw [inside]
        simpa using same
      simp only [if_neg outside]
      exact inv.unbuilt b other inside freeThere
  · intro b other inside alive
    by_cases same : b = a
    · subst b
      simp [inside]
    · simp only [Function.update_of_ne same] at alive
      have outside : config.home other ≠ some a := by
        rw [inside]
        simpa using same
      simp only [if_neg outside]
      exact inv.built b other inside alive
  · intro other root pinned
    have outside : config.home root ≠ some a := by
      rw [inv.roots other root false pinned]
      simp
    simp only [if_neg outside]
    exact inv.pinned other root pinned
  · intro other word locked
    have uses := inv.locked other word locked
    have outside := inv.unused_of_free free uses
    unfold Uses at uses ⊢
    split
    case h_1 alone =>
        rw [alone] at uses
        exact uses
    case h_2 b inside =>
        rw [inside] at uses outside
        refine uses.imp id fun dying => ?_
        have differs : b ≠ a := by
          simpa using outside
        simpa [differs] using dying
  · intro other
    simp only [contents_built, config.mem_members, inv.current]
  · refine legal_built inv.legal (config.nodup_members a) ?_
    intro other member
    rw [inv.current]
    exact vacant other ((config.mem_members a other).mp member)
  · intro other number later
    rw [ofCall_built]
    exact inv.numbered other number later
  · intro other b cell walks
    obtain ⟨solitary, pinned⟩ := inv.walked other b cell walks
    refine ⟨solitary.keep rfl (fun _ h => h) ?_
      (fun _ h _ => Or.inl h), pinned⟩
    intro named refersTo
    simp only [refersSame] at refersTo
    exact refersTo

omit [DecidableEq H] in
/-- What a thread knows is not about free addresses. -/
theorem allocate_kept
    {a : A}
    {other : T}
    (inv : Invariant config state)
    (free : state.status a = .free) :
    Kept config other state
      { state with
        status := Function.update state.status a (.fresh thread)
        count := Function.update state.count a 0
        word := fun w =>
          if config.home w = some a then some Word.null
          else state.word w
        deeds := .allocated thread a :: state.deeds
        events :=
          (config.members a).map (fun w => .built w Word.null) ++
            state.events } := by
  have elsewhere :
      ∀ b, state.status b ≠ .free → b ≠ a := by
    rintro b occupied rfl
    exact occupied free
  refine { Kept.refl config other state with
    roots := ?_
    shield := ?_
    lockedWord := ?_
    fresh := ?_
    dying := ?_
    events := fun number => ofCall_built }
  · intro root pinned
    have outside : config.home root ≠ some a := by
      rw [inv.roots other root true pinned]
      simp
    exact if_neg outside
  · rintro b ⟨aimed, shield⟩
    have occupied : state.status b ≠ .free := by
      rcases shield with owned | ⟨releaser, condemned⟩ | ⟨retired, -⟩
      · simp [owned]
      · simp [condemned]
      · simp [retired]
    refine ⟨aimed, ?_⟩
    simp only [Function.update_of_ne (elsewhere b occupied)]
    exact shield
  · intro word locked
    exact if_neg (inv.unused_of_free free (inv.locked other word locked))
  · intro b known
    have occupied : state.status b ≠ .free := by simp [known]
    simp only [Function.update_of_ne (elsewhere b occupied)]
    exact known
  · intro b known
    have occupied : state.status b ≠ .free := by simp [known]
    have differs := elsewhere b occupied
    simp only [Function.update_of_ne differs]
    refine ⟨known, fun word inside => ?_⟩
    have outside : config.home word ≠ some a := by
      rw [inside]
      simpa using differs
    simp only [if_neg outside]

omit [DecidableEq H] in
/-- `new U`. -/
theorem allocate_triple :
    Triple (protocol config) thread (keeping config thread frame)
      (allocate config thread : Program A W H T A)
      (fun a =>
        (newborn config thread a).and (keeping config thread frame)) := by
  apply command_triple
  intro state choice found after inv holds ran
  cases choice with
  | address a =>
      simp only at ran
      split at ran
      case isFalse =>
          cases ran
      case isTrue free =>
          cases ran
          refine ⟨⟨allocate_invariant inv free,
            fun _ _ => allocate_kept inv free⟩, ?_,
            holds.kept (allocate_kept inv free)⟩
          simp [newborn]
  | _ =>
      cases ran

/-- The first owner of an object. -/
theorem firstOwner_sound
    {a : A}
    {dst : H}
    (inv : Invariant config state)
    (holds : Holds config thread frame state)
    (fresh : state.status a = .fresh thread)
    (writes : frame.Writes dst)
    (vacant : frame.value dst = none) :
    Sound config thread state
      ((state.addRef (some a)).setHandle dst (some ⟨some a, false⟩)) := by
  have uncounted : state.count a = 0 := by
    have unowned := inv.owned a
    rw [fresh] at unowned
    simp only [reduceCtorEq, false_iff] at unowned
    omega
  have unreferred : handleRefers state.handle dst = none := by
    rw [holds.refers writes.reads, vacant]
    rfl
  have occupied : ∀ b, state.status b = .owned → b ≠ a := by
    rintro b owned rfl
    rw [fresh] at owned
    cases owned
  unfold State.addRef State.setHandle
  simp only [uncounted, if_true]
  refine ⟨{ inv with
    exact := ?_
    boundedHandles := ?_
    owned := ?_
    life := ?_
    lawful := ?_
    condemned := ?_
    unbuilt := ?_
    built := ?_
    locked := ?_
    walked := ?_ }, fun other different =>
      { Kept.refl config other state with
        handles := ?_
        shield := ?_
        fresh := ?_
        dying := ?_ }⟩
  · intro b
    have exact := inv.exact b
    have moved := holding_update inv.boundedHandles dst (some a) b
    simp only [references] at exact
    simp only [references, handleRefers_update, Option.bind_some]
    rw [unreferred] at moved
    simp only [reduceCtorEq, if_false] at moved
    by_cases same : b = a
    · subst b
      simp only [Function.update_self, if_true] at moved ⊢
      omega
    · simp only [Function.update_of_ne same]
      rw [if_neg (by simpa using Ne.symm same)] at moved
      omega
  · rw [handleRefers_update]
    exact inv.boundedHandles.update dst _
  · intro b
    by_cases same : b = a
    · subst b
      simp
    · simp only [Function.update_of_ne same]
      exact inv.owned b
  · intro b
    by_cases same : a = b
    · subst b
      simp [lifeOf]
    · simp only [lifeOf, if_neg same,
        Function.update_of_ne (Ne.symm same)]
      exact inv.life b
  · refine ⟨⟨thread, ?_⟩, inv.lawful_touched ?_⟩
    · rw [lifeOf_touched, inv.life, fresh]
    · rw [fresh]
      exact ⟨by simp, by simp⟩
  · intro other b
    rw [inv.condemned]
    by_cases same : b = a
    · subst b
      simp [fresh]
    · simp only [Function.update_of_ne same]
  · intro b w inside free
    by_cases same : b = a
    · subst b
      simp at free
    · simp only [Function.update_of_ne same] at free
      exact inv.unbuilt b w inside free
  · intro b w inside alive
    by_cases same : b = a
    · rw [same] at inside
      refine inv.built a w inside ?_
      rw [fresh]
      exact ⟨by simp, by simp⟩
    · simp only [Function.update_of_ne same] at alive
      exact inv.built b w inside alive
  · intro other w locked
    have uses := inv.locked other w locked
    unfold Uses at uses ⊢
    split
    case h_1 alone =>
        rw [alone] at uses
        exact uses
    case h_2 b inside =>
        rw [inside] at uses
        rcases uses with ⟨h, exclusive, pinned, refersTo⟩ | dying
        · refine Or.inl ⟨h, exclusive, pinned, ?_⟩
          have differs : h ≠ dst := by
            rintro rfl
            rw [unreferred] at refersTo
            cases refersTo
          simp only [handleRefers_update, Function.update_of_ne differs]
          exact refersTo
        · refine Or.inr ?_
          have differs : b ≠ a := by
            rintro rfl
            rw [fresh] at dying
            cases dying
          simp only [Function.update_of_ne differs]
          exact dying
  · intro other b cell walks
    obtain ⟨solitary, pinned⟩ := inv.walked other b cell walks
    have differs := occupied b (inv.owned_of_handle solitary.held)
    refine ⟨solitary.keep ?_ ?_ (fun _ h => h)
      (fun _ h _ => Or.inl h), pinned⟩
    · refine Function.update_of_ne ?_ _ _
      rintro rfl
      exact cell_unused inv holds writes.reads walks
    · intro h refersTo
      simp only [handleRefers_update] at refersTo
      by_cases same : h = dst
      · subst h
        simp only [Function.update_self, Option.bind_some,
          Option.some.injEq] at refersTo
        exact absurd refersTo.symm differs
      · rw [Function.update_of_ne same] at refersTo
        exact refersTo
  · intro h exclusive pinned
    refine Function.update_of_ne ?_ _ _
    rintro rfl
    have shared :=
      inv.disciplined.shared (holds.pin_mem writes.1) pinned
        (Ne.symm different)
    simp at shared
  · rintro b ⟨aimed, shield⟩
    have differs : b ≠ a := by
      rintro rfl
      rw [fresh] at shield
      simp at shield
    refine ⟨aimed, ?_⟩
    simp only [Function.update_of_ne differs]
    exact shield
  · intro b known
    have differs : b ≠ a := by
      rintro rfl
      rw [fresh] at known
      cases known
      exact different rfl
    simp only [Function.update_of_ne differs]
    exact known
  · intro b known
    have differs : b ≠ a := by
      rintro rfl
      rw [fresh] at known
      cases known
    simp only [Function.update_of_ne differs]
    exact ⟨known, fun _ _ => trivial⟩

/-- `shared_ptr_type(new U)` -/
theorem make_triple
    {dst : H}
    (writes : frame.Writes dst)
    (vacant : frame.value dst = none) :
    Triple (protocol config) thread (keeping config thread frame)
      (make config thread dst : Program A W H T Unit)
      (fun _ =>
        Assertion.any fun a : A =>
          keeping config thread
            (frame.set dst (some ⟨some a, false⟩))) := by
  refine Triple.bind allocate_triple ?_
  intro a
  apply Triple.atomic
  intro world choice value shared inv known ran
  cases ran
  obtain ⟨fresh, holds⟩ := known
  have freshNow : world.1.status a = .fresh thread := fresh
  have sound := firstOwner_sound inv holds freshNow writes vacant
  refine ⟨(), sound.inv, sound.kept, a, ?_⟩
  have counted :
      Holds config thread frame (world.1.addRef (some a)) := by
    refine { holds with
      shield := ?_
      dying := ?_ }
    · intro shielded b aimed
      obtain ⟨hazard, shield⟩ := holds.shield shielded b aimed
      have differs : b ≠ a := by
        rintro rfl
        rw [freshNow] at shield
        simp at shield
      refine ⟨hazard, ?_⟩
      simp only [State.addRef]
      split
      · simp only [Function.update_of_ne differs]
        exact shield
      · exact shield
    · intro b words member
      obtain ⟨dying, remaining⟩ := holds.dying b words member
      have differs : b ≠ a := by
        rintro rfl
        rw [freshNow] at dying
        cases dying
      refine ⟨?_, remaining⟩
      simp only [State.addRef]
      split
      · simp only [Function.update_of_ne differs]
        exact dying
      · exact dying
  exact counted.setHandle dst (some ⟨some a, false⟩)

end Objects

end ConcurrentCpp.IntrPointer
