import ConcurrentCpp.IntrPointerScopes

namespace ConcurrentCpp.IntrPointer

/-!
# The list operations and the walk of `~Node()`

Insertion and erasure keep what their caller knew.  The walk takes a node for
its own when it has seen a count of 1: the reference counted is the walk's own
handle, so there is no other.
-/

variable {A W H T : Type}
variable [DecidableEq A] [DecidableEq W] [DecidableEq H] [DecidableEq T]
variable
  {config : Config A W}
  {thread : T}
  {frame : Frame A W H T}
  {dispose : A → Program A W H T Unit}
  {cells : List H}
  {value : H → Option (Word A)}

section Insertion

theorem linkAfter_triple
    {node : H}
    {word : Word A}
    {edge place : Option W}
    (disposes : Disposes config thread dispose)
    (calm : frame.Calm)
    (reads : frame.Reads node)
    (content : frame.value node = some word)
    (reachesEdge : ∀ w, edge = some w → frame.Reaches config w)
    (reachesPlace : ∀ w, place = some w → frame.Reaches config w) :
    Triple (protocol config) thread (keeping config thread frame)
      (linkAfter config dispose thread node edge place)
      (fun _ => keeping config thread frame) := by
  match edge, place with
  | none, _ =>
      exact Triple.pure fun _ _ known => known
  | some _, none =>
      exact Triple.pure fun _ _ known => known
  | some from_, some towards =>
      refine Triple.loop
        (fun _ => ?_ :
          ∀ _ : Unit,
            Triple (protocol config) thread (keeping config thread frame)
              _ _)
      refine Triple.weaken ?_ fun world _ known => enclosed_nil.mp known
      refine Triple.bind (newCell_scoped calm) ?_
      intro expected
      refine Triple.given fun fresh => ?_
      have differs : node ≠ expected := fresh.2.ne reads
      refine Triple.bind
        (callLoad_scoped disposes calm List.mem_cons_self (by simp)
          (reachesEdge from_ rfl).within) ?_
      intro success
      cases success with
      | false =>
          refine Triple.bind (unpin_scoped calm) ?_
          intro _
          exact Triple.ret fun _ _ known => enclosed_leave known
      | true =>
          refine Triple.any fun loaded => ?_
          refine Triple.bind
            (readHandle_scoped List.mem_cons_self
              (Function.update_self _ _ _)) ?_
          intro seen
          refine Triple.given ?_
          rintro rfl
          split
          · refine Triple.bind (leaveScope_scoped disposes calm) ?_
            intro _
            exact Triple.ret fun _ _ known => enclosed_leave known
          · refine Triple.bind
              (callStore_scoped disposes calm List.mem_cons_self
                (Function.update_self _ _ _)
                (reachesPlace towards rfl).within) ?_
            intro _
            refine Triple.bind
              (callCompareExchange_scoped disposes calm List.mem_cons_self
                (Function.update_self _ _ _) (fun _ => reads.within)
                (show _ = some word by simp [differs, content])
                (reachesEdge from_ rfl).within) ?_
            intro swapped
            refine Triple.any fun refreshed => ?_
            refine Triple.bind (leaveScope_scoped disposes calm) ?_
            intro _
            split
            · exact Triple.ret fun _ _ known => enclosed_leave known
            · exact Triple.ret fun _ _ known => enclosed_leave known

theorem insertAfter_triple
    {anchor newNode : H}
    {anchorWord newWord : Word A}
    (disposes : Disposes config thread dispose)
    (calm : frame.Calm)
    (readsAnchor : frame.Reads anchor)
    (anchorIs : frame.value anchor = some anchorWord)
    (readsNew : frame.Reads newNode)
    (newIs : frame.value newNode = some newWord) :
    Triple (protocol config) thread (keeping config thread frame)
      (insertAfter config dispose thread anchor newNode)
      (fun _ => keeping config thread frame) := by
  refine Triple.weaken ?_ fun world _ known => enclosed_nil.mp known
  refine Triple.bind (newCell_scoped calm) ?_
  intro from_
  refine Triple.given fun freshFrom => ?_
  have anchorApart : anchor ≠ from_ := freshFrom.2.ne readsAnchor
  have newApart : newNode ≠ from_ := freshFrom.2.ne readsNew
  refine Triple.bind
    (copyConstruct_scoped List.mem_cons_self (by simp)
      (fun _ => readsAnchor.within)
      (show _ = some anchorWord by simp [anchorApart, anchorIs])) ?_
  intro _
  refine Triple.bind (newCell_scoped calm) ?_
  intro node
  refine Triple.given fun freshNode => ?_
  have newApartNode : newNode ≠ node := freshNode.2.ne readsNew
  refine Triple.bind
    (copyConstruct_scoped List.mem_cons_self (by simp)
      (fun _ => readsNew.within)
      (show _ = some newWord by simp [newApart, newApartNode, newIs])) ?_
  intro _
  have insideFrom : from_ ∈ [node, from_] :=
    List.mem_cons_of_mem _ List.mem_cons_self
  refine Triple.bind (nextOf_scoped insideFrom) ?_
  intro edge
  refine Triple.given fun isEdge => ?_
  refine Triple.bind (nextOf_scoped List.mem_cons_self) ?_
  intro place
  refine Triple.given fun isPlace => ?_
  refine Triple.bind
    (enclosed_keeps fun scope =>
      linkAfter_triple disposes calm.within
        (scope.writes List.mem_cons_self).reads
        (Function.update_self _ _ _)
        (fun w found =>
          (scope.writes insideFrom).reads.reaches
            (isEdge.symm.trans found))
        (fun w found =>
          (scope.writes List.mem_cons_self).reads.reaches
            (isPlace.symm.trans found))) ?_
  intro outcome
  refine Triple.bind (leaveScope_scoped disposes calm) ?_
  intro _
  refine Triple.bind (leaveScope_scoped disposes calm) ?_
  intro _
  exact Triple.pure fun _ _ known => enclosed_leave known

end Insertion

section Erasure

/-- The race to mark the target's next leaves some word in its handle. -/
theorem markNext_triple
    {place : W}
    {target targetNext : H}
    {word first : Word A}
    (disposes : Disposes config thread dispose)
    (calm : frame.Calm)
    (inside : targetNext ∈ cells)
    (content : value targetNext = some first)
    (insideTarget : target ∈ cells)
    (targetIs : value target = some word)
    (isPlace : word.ptr.bind config.next = some place)
    (apart : target ≠ targetNext) :
    Triple (protocol config) thread
      (enclosed config thread frame cells value)
      (markNext config dispose thread place targetNext)
      (fun _ =>
        Assertion.any fun last : Word A =>
          enclosed config thread frame cells
            (Function.update value targetNext (some last))) := by
  have looping :
      Triple (protocol config) thread
        (Assertion.any fun last : Word A =>
          enclosed config thread frame cells
            (Function.update value targetNext (some last)))
        (markNext config dispose thread place targetNext)
        (fun _ =>
          Assertion.any fun last : Word A =>
            enclosed config thread frame cells
              (Function.update value targetNext (some last))) := by
    refine Triple.loop
      (fun _ => ?_ :
        ∀ _ : Unit,
          Triple (protocol config) thread
            (Assertion.any fun last : Word A =>
              enclosed config thread frame cells
                (Function.update value targetNext (some last))) _ _)
    refine Triple.any fun last => ?_
    refine Triple.bind
      (readHandle_scoped inside (Function.update_self _ _ _)) ?_
    intro seen
    refine Triple.given ?_
    rintro rfl
    split
    · exact Triple.ret fun _ _ known => ⟨seen, known⟩
    · refine Triple.bind (newCell_scoped calm) ?_
      intro marked
      refine Triple.given fun fresh => ?_
      have nextApart : targetNext ≠ marked := by
        rintro rfl
        exact fresh.1 inside
      have targetApart : target ≠ marked := by
        rintro rfl
        exact fresh.1 insideTarget
      have insideNow : targetNext ∈ marked :: cells :=
        List.mem_cons_of_mem _ inside
      have insideTargetNow : target ∈ marked :: cells :=
        List.mem_cons_of_mem _ insideTarget
      refine Triple.bind
        (copyConstruct_scoped List.mem_cons_self (by simp)
          (fun scope => (scope.writes insideNow).reads)
          (show _ = some seen by simp [nextApart])) ?_
      intro _
      refine Triple.bind
        (callCompareExchange_scoped disposes calm insideNow
          (show _ = some seen by simp [nextApart])
          (fun scope => (scope.writes List.mem_cons_self).reads)
          (Function.update_self _ _ _)
          (fun scope =>
            scope.reaches insideTargetNow
              (show _ = some word by simp [targetApart, apart, targetIs])
              isPlace)) ?_
      intro swapped
      refine Triple.any fun refreshed => ?_
      have same :
          ∀ h, h ≠ marked →
            Function.update
                (Function.update
                  (Function.update
                    (Function.update value targetNext (some seen)) marked
                    none)
                  marked (some (Remark.set.apply seen)))
                targetNext (some refreshed) h =
              Function.update value targetNext (some refreshed) h := by
        intro h differs
        by_cases isNext : h = targetNext
        · simp [isNext]
        · simp [differs, isNext]
      match swapped with
      | some true =>
          refine copyAssign_scoped disposes calm insideNow
            List.mem_cons_self
            (show _ = some (Remark.set.apply seen) by
              simp [nextApart.symm]) ?_
          refine Triple.bind
            (leaveScope_forget disposes calm fresh fun h differs => ?_)
            fun _ => Triple.ret fun _ _ known =>
              ⟨Remark.set.apply seen, known⟩
          by_cases isNext : h = targetNext
          · simp [isNext]
          · simp [differs, isNext]
      | some false =>
          refine Triple.bind
            (leaveScope_forget disposes calm fresh same) ?_
          intro _
          exact Triple.ret fun _ _ known => ⟨refreshed, known⟩
      | none =>
          refine Triple.bind
            (leaveScope_forget disposes calm fresh same) ?_
          intro _
          exact Triple.ret fun _ _ known => ⟨refreshed, known⟩
  refine looping.weaken fun world _ known => ⟨first, ?_⟩
  simp only [← content, Function.update_eq_self]
  exact known

/-- The swing past the target leaves some word in the target's handle. -/
theorem unlinkTarget_triple
    {edge : W}
    {target targetNext : H}
    {word nextWord : Word A}
    (disposes : Disposes config thread dispose)
    (calm : frame.Calm)
    (reaches : frame.Reaches config edge)
    (insideTarget : target ∈ cells)
    (targetIs : value target = some word)
    (inside : targetNext ∈ cells)
    (content : value targetNext = some nextWord) :
    Triple (protocol config) thread
      (enclosed config thread frame cells value)
      (unlinkTarget config dispose thread edge target targetNext)
      (fun _ =>
        Assertion.any fun last : Word A =>
          enclosed config thread frame cells
            (Function.update value target (some last))) := by
  refine Triple.bind (newCell_scoped calm) ?_
  intro unmarked
  refine Triple.given fun fresh => ?_
  have nextApart : targetNext ≠ unmarked := by
    rintro rfl
    exact fresh.1 inside
  have targetApart : target ≠ unmarked := by
    rintro rfl
    exact fresh.1 insideTarget
  refine Triple.bind
    (copyConstruct_scoped List.mem_cons_self (by simp)
      (fun scope =>
        (scope.writes (List.mem_cons_of_mem _ inside)).reads)
      (show _ = some nextWord by simp [nextApart, content])) ?_
  intro _
  refine Triple.bind
    (callCompareExchange_scoped disposes calm
      (List.mem_cons_of_mem _ insideTarget)
      (show _ = some word by simp [targetApart, targetIs])
      (fun scope => (scope.writes List.mem_cons_self).reads)
      (Function.update_self _ _ _) reaches.within) ?_
  intro swung
  refine Triple.any fun refreshed => ?_
  refine Triple.bind
    (leaveScope_forget disposes calm fresh fun h differs => ?_)
    fun _ => Triple.pure fun _ _ known => ⟨refreshed, known⟩
  by_cases same : h = target
  · simp [same]
  · simp [differs, same]

/-- One turn of an erasure keeps the scope, but for the target's handle. -/
theorem eraseTarget_triple
    {edge place : W}
    {target : H}
    {word : Word A}
    (disposes : Disposes config thread dispose)
    (calm : frame.Calm)
    (reaches : frame.Reaches config edge)
    (insideTarget : target ∈ cells)
    (targetIs : value target = some word)
    (isPlace : word.ptr.bind config.next = some place) :
    Triple (protocol config) thread
      (enclosed config thread frame cells value)
      (eraseTarget config dispose thread edge place target)
      (fun _ =>
        Assertion.any fun last : Word A =>
          enclosed config thread frame cells
            (Function.update value target (some last))) := by
  refine Triple.bind (newCell_scoped calm) ?_
  intro targetNext
  refine Triple.given fun fresh => ?_
  have apart : target ≠ targetNext := by
    rintro rfl
    exact fresh.1 insideTarget
  have insideNow : target ∈ targetNext :: cells :=
    List.mem_cons_of_mem _ insideTarget
  refine Triple.bind
    (callLoad_scoped disposes calm List.mem_cons_self (by simp)
      (fun scope =>
        scope.reaches insideNow
          (show _ = some word by simp [apart, targetIs]) isPlace)) ?_
  intro success
  cases success with
  | false =>
      refine Triple.bind (unpin_scoped calm) ?_
      intro _
      refine Triple.ret fun _ _ known =>
        ⟨word,
          enclosed_forget fresh.1 fresh.2 (fun h differs => ?_) known⟩
      rw [← targetIs, Function.update_eq_self]
      simp [differs]
  | true =>
      refine Triple.any fun loaded => ?_
      refine Triple.bind
        (markNext_triple disposes calm List.mem_cons_self
          (Function.update_self _ _ _) insideNow
          (show _ = some word by simp [apart, targetIs]) isPlace apart) ?_
      intro marking
      refine Triple.any fun nextWord => ?_
      cases marking with
      | none =>
          refine Triple.bind
            (leaveScope_forget disposes calm fresh fun h differs => ?_)
            fun _ => Triple.ret fun _ _ known => ⟨word, known⟩
          rw [← targetIs, Function.update_eq_self]
          simp [differs]
      | some markedByUs =>
          refine Triple.bind
            (unlinkTarget_triple disposes calm reaches insideNow
              (show _ = some word by simp [apart, targetIs])
              List.mem_cons_self (Function.update_self _ _ _)) ?_
          intro swung
          refine Triple.any fun last => ?_
          refine Triple.bind
            (show Triple (protocol config) thread _ _ fun _ =>
                enclosed config thread frame cells
                  (Function.update value target (some last))
              from leaveScope_forget disposes calm fresh
                fun h differs => ?_) ?_
          · by_cases same : h = target
            · simp [same]
            · simp [differs, same]
          intro _
          split
          · exact Triple.ret fun world _ known => ⟨last, known⟩
          · exact Triple.ret fun world _ known => ⟨last, known⟩
          · exact Triple.ret fun world _ known => ⟨last, known⟩

theorem eraseFrom_triple
    {edge : Option W}
    (disposes : Disposes config thread dispose)
    (calm : frame.Calm)
    (reaches : ∀ w, edge = some w → frame.Reaches config w) :
    Triple (protocol config) thread (keeping config thread frame)
      (eraseFrom config dispose thread edge)
      (fun _ => keeping config thread frame) := by
  cases edge with
  | none =>
      exact Triple.pure fun _ _ known => known
  | some edge =>
      refine Triple.loop
        (fun _ => ?_ :
          ∀ _ : Unit,
            Triple (protocol config) thread (keeping config thread frame)
              _ _)
      refine Triple.weaken ?_ fun world _ known => enclosed_nil.mp known
      refine Triple.bind (newCell_scoped calm) ?_
      intro target
      refine Triple.given fun fresh => ?_
      refine Triple.bind
        (callLoad_scoped disposes calm List.mem_cons_self (by simp)
          (reaches edge rfl).within) ?_
      intro success
      cases success with
      | false =>
          refine Triple.bind (unpin_scoped calm) ?_
          intro _
          exact Triple.ret fun _ _ known => enclosed_leave known
      | true =>
          refine Triple.any fun loaded => ?_
          refine Triple.bind
            (readHandle_scoped List.mem_cons_self
              (Function.update_self _ _ _)) ?_
          intro seen
          refine Triple.given ?_
          rintro rfl
          split
          case h_1 place unmarked isPlace =>
              refine Triple.bind
                (eraseTarget_triple disposes calm (reaches edge rfl)
                  List.mem_cons_self (Function.update_self _ _ _)
                  isPlace) ?_
              intro turn
              refine Triple.any fun last => ?_
              refine Triple.bind (leaveScope_scoped disposes calm) ?_
              intro _
              refine Triple.pure fun _ _ known => ?_
              cases turn with
              | inl again =>
                  exact enclosed_leave known
              | inr outcome =>
                  exact enclosed_leave known
          case h_2 =>
              refine Triple.bind (leaveScope_scoped disposes calm) ?_
              intro _
              exact Triple.ret fun _ _ known => enclosed_leave known

theorem eraseAfter_triple
    {anchor : H}
    {word : Word A}
    (disposes : Disposes config thread dispose)
    (calm : frame.Calm)
    (reads : frame.Reads anchor)
    (content : frame.value anchor = some word) :
    Triple (protocol config) thread (keeping config thread frame)
      (eraseAfter config dispose thread anchor)
      (fun _ => keeping config thread frame) := by
  refine Triple.weaken ?_ fun world _ known => enclosed_nil.mp known
  refine Triple.bind (newCell_scoped calm) ?_
  intro from_
  refine Triple.given fun fresh => ?_
  have apart : anchor ≠ from_ := fresh.2.ne reads
  refine Triple.bind
    (copyConstruct_scoped List.mem_cons_self (by simp)
      (fun _ => reads.within)
      (show _ = some word by simp [apart, content])) ?_
  intro _
  refine Triple.bind (nextOf_scoped List.mem_cons_self) ?_
  intro edge
  refine Triple.given fun isEdge => ?_
  refine Triple.bind
    (enclosed_keeps fun scope =>
      eraseFrom_triple disposes calm.within fun w found =>
        (scope.writes List.mem_cons_self).reads.reaches
          (isEdge.symm.trans found)) ?_
  intro outcome
  refine Triple.bind (leaveScope_scoped disposes calm) ?_
  intro _
  exact Triple.pure fun _ _ known => enclosed_leave known

end Erasure

section Teardown

/-- The frame of a walk that has judged a node its own. -/
def Frame.walks
    (frame : Frame A W H T)
    (a : A)
    (curr : H) :
    Frame A W H T :=
  { frame with walking := (a, curr) :: frame.walking }

end Teardown

end ConcurrentCpp.IntrPointer
