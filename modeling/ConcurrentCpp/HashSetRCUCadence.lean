import ConcurrentCpp.HashSetRCUPieces
import ConcurrentCpp.HashSetCounting

namespace ConcurrentCpp.HashSetRCU

/-!
# The automatic cadence

A retire push tests whether it took the count of its shard across a multiple
of the cadence, and if so attempts to reclaim.  Every attempt belongs to one
run and to one multiple that its shard's count has passed.
-/

open HashSet (bitCeil bitCeil_le le_bitCeil Slot FreeHead)

/-- `get_internal_auto_reclaim_every()`: the effective cadence. -/
def effectiveEvery (mask : BitVec 64) : Nat :=
  if mask = 0 then 0 else (~~~mask + 1).toNat

/--
The effective cadence of a requested one: off exactly if that is off, and
otherwise the least power of two not below the request clamped to `2 ^ 63`.
-/
structure EffectiveCadence
    (every : BitVec 64)
    (cadence : Nat) : Prop where
  off : cadence = 0 ↔ every = 0
  ceil : every ≠ 0 → cadence = bitCeil (min every.toNat (2 ^ 63))
  power : every ≠ 0 → ∃ bits < 64, cadence = 2 ^ bits
  covers : min every.toNat (2 ^ 63) ≤ cadence
  least :
    ∀ bits, min every.toNat (2 ^ 63) ≤ 2 ^ bits → cadence ≤ 2 ^ bits

section Cadence

/-- The multiples of a power of two below two words, by their high bits. -/
theorem xor_and_eq_zero
    {bits : Nat}
    (small : bits < 64)
    (left right : BitVec 64) :
    (left ^^^ right) &&& ~~~(BitVec.ofNat 64 (2 ^ bits) - 1) = 0 ↔
      left.toNat / 2 ^ bits = right.toNat / 2 ^ bits := by
  have low :
      (BitVec.ofNat 64 (2 ^ bits) - 1).toNat = 2 ^ bits - 1 := by
    have fits : 2 ^ bits < 2 ^ 64 :=
      (Nat.pow_lt_pow_iff_right (by decide)).mpr small
    rw [BitVec.toNat_sub_of_le, BitVec.toNat_ofNat, Nat.mod_eq_of_lt fits]
    · rfl
    · rw [BitVec.le_def, BitVec.toNat_ofNat, Nat.mod_eq_of_lt fits]
      exact Nat.two_pow_pos bits
  have lowBit :
      ∀ index,
        (BitVec.ofNat 64 (2 ^ bits) - 1).getLsbD index =
          decide (index < bits) := by
    intro index
    rw [← BitVec.testBit_toNat, low, Nat.testBit_two_pow_sub_one]
  rw [← Nat.shiftRight_eq_div_pow, ← Nat.shiftRight_eq_div_pow]
  constructor
  · intro zero
    apply Nat.eq_of_testBit_eq
    intro index
    rw [Nat.testBit_shiftRight, Nat.testBit_shiftRight,
      BitVec.testBit_toNat, BitVec.testBit_toNat]
    by_cases inside : bits + index < 64
    · have bit :
          ((left ^^^ right) &&&
            ~~~(BitVec.ofNat 64 (2 ^ bits) - 1)).getLsbD
              (bits + index) = false := by
        rw [zero]
        exact BitVec.getLsbD_zero
      rw [BitVec.getLsbD_and, BitVec.getLsbD_xor, BitVec.getLsbD_not,
        lowBit, decide_eq_false (by omega : ¬ bits + index < bits)] at bit
      simpa [inside] using bit
    · rw [BitVec.getLsbD_of_ge _ _ (Nat.not_lt.mp inside),
        BitVec.getLsbD_of_ge _ _ (Nat.not_lt.mp inside)]
  · intro same
    apply BitVec.eq_of_getLsbD_eq
    intro index inside
    rw [BitVec.getLsbD_and, BitVec.getLsbD_xor, BitVec.getLsbD_not, lowBit]
    by_cases below : index < bits
    · simp [below]
    · have bit := congrArg (fun number => number.testBit (index - bits)) same
      simp only [Nat.testBit_shiftRight, BitVec.testBit_toNat] at bit
      rw [Nat.add_sub_cancel' (Nat.not_lt.mp below)] at bit
      simp [bit]

/-- The mask of a cadence that is on. -/
theorem autoReclaimMask_shape
    {every : BitVec 64}
    (on : every ≠ 0) :
    ∃ bits < 64,
      autoReclaimMask every = ~~~(BitVec.ofNat 64 (2 ^ bits) - 1) ∧
        effectiveEvery (autoReclaimMask every) = 2 ^ bits ∧
        bitCeil (min every.toNat (2 ^ 63)) = 2 ^ bits := by
  have clamps :
      (if 2 ^ 63 < every.toNat then 2 ^ 63 else every.toNat) =
        min every.toNat (2 ^ 63) := by
    split <;> omega
  obtain ⟨bits, small, ceil⟩ :
      ∃ bits < 64, bitCeil (min every.toNat (2 ^ 63)) = 2 ^ bits := by
    refine ⟨_, ?_, HashSet.bitCeil_power _⟩
    have bound : bitCeil (min every.toNat (2 ^ 63)) ≤ 2 ^ 63 :=
      bitCeil_le (Nat.min_le_right ..)
    exact (Nat.log2_lt (Nat.ne_of_gt (HashSet.bitCeil_pos _))).mpr
      (bound.trans_lt (by decide))
  have mask :
      autoReclaimMask every = ~~~(BitVec.ofNat 64 (2 ^ bits) - 1) := by
    rw [autoReclaimMask, if_neg on, ← ceil, ← clamps]
  have fits : 2 ^ bits < 2 ^ 64 :=
    (Nat.pow_lt_pow_iff_right (by decide)).mpr small
  have back :
      ~~~autoReclaimMask every + 1 = BitVec.ofNat 64 (2 ^ bits) := by
    rw [mask, BitVec.not_not, BitVec.sub_add_cancel]
  have nonzero : autoReclaimMask every ≠ 0 := by
    intro zero
    have whole :=
      (xor_and_eq_zero small (BitVec.ofNat 64 (2 ^ 63))
        (BitVec.ofNat 64 0)).mp (by
          rw [← mask, zero]
          exact BitVec.and_zero)
    have log : 2 ^ bits ≤ 2 ^ 63 :=
      Nat.pow_le_pow_right (by decide) (by omega)
    have quotient : 0 < 2 ^ 63 / 2 ^ bits :=
      Nat.div_pos log (Nat.two_pow_pos bits)
    rw [BitVec.toNat_ofNat, BitVec.toNat_ofNat, Nat.zero_mod,
      Nat.mod_eq_of_lt (by decide : 2 ^ 63 < 2 ^ 64), Nat.zero_div] at whole
    exact absurd whole (Nat.ne_of_gt quotient)
  refine ⟨bits, small, mask, ?_, ceil⟩
  rw [effectiveEvery, if_neg nonzero, back, BitVec.toNat_ofNat,
    Nat.mod_eq_of_lt fits]

/-- The effective cadence is the one that was asked for, rounded up. -/
theorem effectiveCadence (every : BitVec 64) :
    EffectiveCadence every (effectiveEvery (autoReclaimMask every)) := by
  by_cases off : every = 0
  · subst off
    exact
      { off := ⟨fun _ => rfl, fun _ => rfl⟩
        ceil := fun on => absurd rfl on
        power := fun on => absurd rfl on
        covers := Nat.zero_le _
        least := fun _ _ => Nat.zero_le _ }
  · obtain ⟨bits, small, _, value, ceil⟩ := autoReclaimMask_shape off
    rw [value]
    exact
      { off :=
          ⟨fun zero => absurd zero (Nat.two_pow_pos bits).ne',
            fun zero => absurd zero off⟩
        ceil := fun _ => ceil.symm
        power := fun _ => ⟨bits, small, rfl⟩
        covers := ceil ▸ le_bitCeil _
        least := fun _ fits => ceil ▸ bitCeil_le fits }

/-- Without a cadence the test never holds. -/
theorem passesMultiple_off
    (old count : Nat) :
    passesMultiple (autoReclaimMask 0) old count = false := by
  simp [passesMultiple, autoReclaimMask]

/-- The test compares the quotients of the two counts, as words. -/
theorem passesMultiple_words
    {every : BitVec 64}
    {bits : Nat}
    (small : bits < 64)
    (mask :
      autoReclaimMask every = ~~~(BitVec.ofNat 64 (2 ^ bits) - 1))
    (old count : Nat) :
    passesMultiple (autoReclaimMask every) old count = true ↔
      old % 2 ^ 64 / 2 ^ bits ≠ (old + count) % 2 ^ 64 / 2 ^ bits := by
  have sum :
      BitVec.ofNat 64 old + BitVec.ofNat 64 count =
        BitVec.ofNat 64 (old + count) :=
    (BitVec.ofNat_add ..).symm
  rw [passesMultiple, decide_eq_true_iff, mask, sum, ne_eq,
    xor_and_eq_zero small, BitVec.toNat_ofNat, BitVec.toNat_ofNat]

/-- A test that holds has passed a multiple, also if the counts wrap. -/
theorem passesMultiple_div_lt
    {every : BitVec 64}
    {old count : Nat}
    (passes : passesMultiple (autoReclaimMask every) old count = true) :
    old / effectiveEvery (autoReclaimMask every) <
      (old + count) / effectiveEvery (autoReclaimMask every) := by
  by_cases off : every = 0
  · rw [off, passesMultiple_off] at passes
    cases passes
  · obtain ⟨bits, small, mask, value, _⟩ := autoReclaimMask_shape off
    have words := (passesMultiple_words small mask old count).mp passes
    rw [value]
    refine Nat.lt_of_le_of_ne
      (Nat.div_le_div_right (Nat.le_add_right old count)) fun same => ?_
    have split : 2 ^ 64 = 2 ^ bits * 2 ^ (64 - bits) := by
      rw [← Nat.pow_add, Nat.add_sub_cancel' (Nat.le_of_lt small)]
    rw [split, Nat.mod_mul_right_div_self, Nat.mod_mul_right_div_self,
      same] at words
    exact words rfl

/-- Below the word size the test holds exactly if a multiple is passed. -/
theorem passesMultiple_iff
    (every : BitVec 64)
    {old count : Nat}
    (fits : old + count < 2 ^ 64) :
    passesMultiple (autoReclaimMask every) old count = true ↔
      ∃ multiple,
        effectiveEvery (autoReclaimMask every) ∣ multiple ∧
          old < multiple ∧ multiple ≤ old + count := by
  constructor
  · intro passes
    have less := passesMultiple_div_lt passes
    generalize effectiveEvery (autoReclaimMask every) = cadence at less
    refine ⟨cadence * ((old + count) / cadence), Nat.dvd_mul_right .., ?_,
      Nat.mul_div_le _ _⟩
    have positive : 0 < cadence := by
      refine Nat.pos_of_ne_zero fun zero => ?_
      rw [zero, Nat.div_zero, Nat.div_zero] at less
      exact absurd less (Nat.lt_irrefl 0)
    rw [Nat.mul_comm]
    exact (Nat.div_lt_iff_lt_mul positive).mp less
  · rintro ⟨multiple, divides, above, within⟩
    by_cases off : every = 0
    · have none : effectiveEvery (autoReclaimMask every) = 0 := by
        rw [off]
        rfl
      rw [none, Nat.zero_dvd] at divides
      omega
    · obtain ⟨bits, small, mask, value, _⟩ := autoReclaimMask_shape off
      rw [value] at divides
      rw [passesMultiple_words small mask, Nat.mod_eq_of_lt fits,
        Nat.mod_eq_of_lt (by omega)]
      obtain ⟨times, rfl⟩ := divides
      have positive := Nat.two_pow_pos bits
      have lower : old / 2 ^ bits < times := by
        rw [Nat.div_lt_iff_lt_mul positive, Nat.mul_comm]
        exact above
      have upper : times ≤ (old + count) / 2 ^ bits := by
        rw [Nat.le_div_iff_mul_le positive, Nat.mul_comm]
        exact within
      omega

end Cadence

variable {K H T : Type}

/-- The words that the cadence is about. -/
structure CadenceView (H T : Type) where
  retireRuns : Nat → Nat
  retireNodes : Nat → Nat
  autoReclaims : Nat
  autoSkipped : Nat
  uses : List (Use H T)

/-- What the state shows of these words. -/
def State.cadenceView (state : State K H T) : CadenceView H T where
  retireRuns := state.retireRuns
  retireNodes := state.retireNodes
  autoReclaims := state.autoReclaims
  autoSkipped := state.autoSkipped
  uses := state.uses

/-- The program never touches these words. -/
abbrev Aloof
    {α : Type}
    (program : Program K H T α) : Prop :=
  program.Spares State.cadenceView

section Aloof

open Prog

variable {config : Config K T} {thread : T}

/-- The words of the cadence are among those of the memory. -/
theorem cadenceView_eq
    {state after : State K H T}
    (same : after.memoryView = state.memoryView) :
    after.cadenceView = state.cadenceView :=
  congrArg
    (fun view : MemoryView H T =>
      (⟨view.retireRuns, view.retireNodes, view.autoReclaims,
        view.autoSkipped, view.uses⟩ : CadenceView H T)) same

/-- A program that never touches the words of the memory. -/
theorem Still.aloof
    {α : Type}
    {program : Program K H T α}
    (still : Still program) :
    Aloof program :=
  still.coarser cadenceView_eq

section Allocation

variable [DecidableEq T]

theorem aloof_casPop
    (shard : Nat)
    (node : Slot)
    (expected : FreeHead)
    (successor : Option Slot) :
    Aloof
      (casPop thread shard node expected successor :
        Program K H T (Bool × FreeHead)) :=
  spares_atomic fun state choice value after ran => by
    have tried :
        (if state.freeHead shard = expected then
            some ((true, expected),
              { (state.seeTop thread none).keep thread node with
                freeHead :=
                  Function.update state.freeHead shard
                    ⟨successor, (expected.pops + 1) % 512⟩ })
          else
            some ((false, state.freeHead shard),
              state.seeTop thread (state.freeHead shard).top)) =
            some (value, after) →
          after.cadenceView = state.cadenceView := by
      intro ran
      split at ran
      · cases ran
        rfl
      · cases ran
        rfl
    cases choice with
    | spurious =>
        cases ran
        rfl
    | proceed =>
        exact tried ran
    | throws =>
        exact tried ran
    | call request =>
        exact tried ran

theorem aloof_popFree
    (shard : Nat) :
    Aloof
      (popFree thread shard : Program K H T (Option (Slot × FreeHead))) := by
  refine spares_bind (spares_atomic fun _ _ _ _ ran => ?_) fun head =>
    spares_loop fun head => ?_
  · cases ran
    rfl
  split
  · exact spares_leave _
  refine spares_bind (spares_read _) fun link => ?_
  refine spares_bind (aloof_casPop _ _ _ _) fun outcome => ?_
  split
  · exact spares_leave _
  · exact spares_again _

theorem aloof_stealNode
    (value : K)
    (next : Option Slot) :
    Aloof
      (stealNode config thread value next : Program K H T Stolen) := by
  refine spares_bind (spares_read _) fun hint => ?_
  split
  · exact spares_pure _
  refine spares_bind (spares_read _) fun hint => ?_
  split
  · exact spares_pure _
  refine spares_loop fun index => ?_
  split
  · refine spares_bind (aloof_popFree _) fun popped => ?_
    split
    · exact spares_again _
    · exact spares_bind (Still.aloof (still_reuseNode _ _ _ _)) fun _ =>
        spares_leave _
  · refine spares_bind (spares_write fun state => ?_) fun _ =>
      spares_leave _
    split <;> rfl

theorem aloof_allocNode
    (value : K)
    (next : Option Slot) :
    Aloof
      (allocNode config thread value next : Program K H T (Option Slot)) := by
  refine spares_bind (aloof_popFree _) fun popped => ?_
  split
  · exact Still.aloof (still_reuseNode _ _ _ _)
  refine spares_bind (aloof_stealNode _ _) fun stolen => ?_
  split
  · exact spares_pure _
  · exact spares_pure _
  refine spares_bind (spares_atomic fun state choice value after ran => ?_)
    fun appended => ?_
  · cases choice <;> cases ran <;> rfl
  split
  · exact spares_pure _
  · exact spares_bind (Still.aloof (still_countBatch _)) fun _ => spares_pure _

end Allocation

section Reclaim

theorem aloof_pushFree
    (shard : Nat)
    (node : Slot) :
    Aloof (pushFree shard node : Program K H T Unit) :=
  spares_push (fun _ _ => rfl) fun _ _ => rfl

/-- A list of a bag is freed without a touch of these words. -/
theorem aloof_freeList
    {head : GenerationBlock → Option Slot}
    {next : State K H T → Slot → Option Slot}
    {store : GenerationBlock → Option Slot → GenerationBlock}
    (slot count : Nat) :
    Aloof
      (freeList (takeBagged config head next store slot) count :
        Program K H T Nat) := by
  refine spares_loop fun count => ?_
  refine spares_bind (Still.aloof (still_takeBagged slot)) fun taken => ?_
  split
  · exact spares_leave _
  · exact spares_bind (aloof_pushFree _ _) fun _ => spares_again _

theorem aloof_freeOldest
    (result : AdvanceResult) :
    Aloof
      (freeOldest config result : Program K H T AdvanceResult) := by
  refine spares_loop fun result => ?_
  refine spares_bind (spares_read _) fun oldest => ?_
  split
  · exact spares_leave _
  refine spares_bind (Still.aloof (still_scanCounts _ _))
    fun deserted => ?_
  split
  · exact spares_leave _
  refine spares_bind (spares_loop fun walk => ?_) fun count => ?_
  · split
    · refine spares_bind (aloof_freeList _ _) fun retired => ?_
      exact spares_bind (aloof_freeList _ _) fun limbo => spares_again _
    · exact spares_leave _
  refine spares_bind (Still.aloof (still_closeBag _ _)) fun _ => ?_
  refine spares_bind ?_ fun _ => spares_again _
  unfold stampHint
  split
  · exact spares_write fun _ => rfl
  · exact spares_pure _

theorem aloof_bumpAndFree
    (result : AdvanceResult) :
    Aloof
      (bumpAndFree config result : Program K H T AdvanceResult) := by
  refine spares_bind ?_ fun bumped => aloof_freeOldest bumped
  refine spares_bind (Still.aloof still_lookRetired) fun look => ?_
  split
  · exact spares_pure _
  refine spares_bind (spares_read _) fun closing => ?_
  refine spares_bind (spares_read _) fun before => ?_
  split
  · exact Still.aloof (still_closeCurrent _ _ _)
  refine spares_bind (aloof_freeOldest _) fun freed => ?_
  refine spares_bind (spares_read _) fun after => ?_
  split
  · exact Still.aloof (still_closeCurrent _ _ _)
  · exact spares_pure _

theorem aloof_takeFlag
    (thread : T) :
    Aloof (takeFlag thread : Program K H T Bool) :=
  spares_atomic fun state _ value after ran => by
    split at ran
    · cases ran
      rfl
    · cases ran
      rfl

theorem aloof_releaseFlag :
    Aloof (releaseFlag : Program K H T Unit) :=
  spares_write fun _ => rfl

end Reclaim

end Aloof

end ConcurrentCpp.HashSetRCU
