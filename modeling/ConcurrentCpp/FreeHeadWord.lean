import ConcurrentCpp.HashSetSlots
import Mathlib.Algebra.Order.Floor.Div

namespace ConcurrentCpp.FreeHeadWord

/-!
# The word of a free-list head

Both hash sets keep the head of a free list in one 64-bit word: the address of
the top node without its three low bits, and above it a pop counter of nine
bits.  The encoding loses nothing, the counter wraps without touching the
address, and the pops that open a batch are every 256th one.
-/

open HashSet (Word Slot FreeHead ptrMask emptyWord freeAddrOf addressWord
  freeAddrOf_encoded)

/-- `FREE_COUNT_SHIFT`. -/
def freeCountShift : Nat := 55

/-- `FREE_POP_ONE`. -/
def freePopOne : Word := 1 <<< freeCountShift

/-- `FREE_COUNT_MASK`. -/
def freeCountMask : Word := ~~~(freePopOne - 1)

/-- `FREE_BATCH_MASK`. -/
def freeBatchMask : Word := 255 <<< freeCountShift

/-- `free_word(addr, count_bits)`. -/
def freeWord (addr countBits : Word) : Word :=
  (addr >>> 3) ||| (countBits &&& freeCountMask)

/-- The counter field of a head, bits 63..55. -/
def popCounter (head : Word) : Nat :=
  (head >>> freeCountShift).toNat

/-- What `alloc_node()` admits as an address, and `EMPTY`. -/
def Admitted (addr : Word) : Prop :=
  addr &&& ~~~ptrMask = 0

instance (addr : Word) : Decidable (Admitted addr) :=
  inferInstanceAs (Decidable (addr &&& ~~~ptrMask = 0))

/-- What a pop puts in the place of this head. -/
def popHead (head successor : Word) : Word :=
  freeWord successor (head + freePopOne)

/-- What `push_free()` puts in the place of this head. -/
def pushHead (head node : Word) : Word :=
  freeWord node head

/-- The test of a pop on the head it replaced. -/
def opensBatch (head : Word) : Bool :=
  decide (head &&& freeBatchMask = 0)

section Fields

/-- The counter bits of a word, moved down and up again. -/
theorem and_freeCountMask
    (word : Word) :
    word &&& freeCountMask = (word >>> 55) <<< 55 := by
  have mask :
      ∀ index < 64, freeCountMask.getLsbD index = decide (55 ≤ index) := by
    decide
  apply BitVec.eq_of_getLsbD_eq
  intro index within
  rw [BitVec.getLsbD_and, mask index within, BitVec.getLsbD_shiftLeft,
    BitVec.getLsbD_ushiftRight]
  by_cases high : 55 ≤ index
  · simp [high, within, Nat.not_lt.mpr high]
  · simp [high, Nat.lt_of_not_le high]

/-- An admitted address fits its field. -/
theorem Admitted.lt
    {addr : Word}
    (admitted : Admitted addr) :
    addr.toNat < 2 ^ 58 := by
  have decoded := freeAddrOf_encoded addr 0 admitted
  rw [← decoded]
  simp only [freeAddrOf, BitVec.toNat_ushiftRight, Nat.shiftRight_eq_div_pow]
  have bound :=
    ((addr >>> 3 ||| (0 : Word) <<< 55) <<< 9).isLt
  omega

/-- The address survives the encoding. -/
theorem freeAddrOf_freeWord
    {addr : Word}
    (admitted : Admitted addr)
    (word : Word) :
    freeAddrOf (freeWord addr word) = addr := by
  rw [freeWord, and_freeCountMask]
  exact freeAddrOf_encoded addr (word >>> 55) admitted

/-- The counter survives the encoding. -/
theorem popCounter_freeWord
    {addr : Word}
    (admitted : Admitted addr)
    (word : Word) :
    popCounter (freeWord addr word) = popCounter word := by
  have small : addr >>> 3 >>> 55 = 0 := by
    apply BitVec.eq_of_toNat_eq
    have bound := admitted.lt
    simp only [BitVec.toNat_ushiftRight, Nat.shiftRight_eq_div_pow]
    rw [Nat.div_div_eq_div_mul]
    exact Nat.div_eq_of_lt bound
  have kept : (word >>> 55) <<< 55 >>> 55 = word >>> 55 := by
    apply BitVec.eq_of_toNat_eq
    have bound := word.isLt
    simp only [BitVec.toNat_ushiftRight, BitVec.toNat_shiftLeft,
      Nat.shiftRight_eq_div_pow, Nat.shiftLeft_eq]
    omega
  unfold popCounter freeWord
  rw [and_freeCountMask]
  unfold freeCountShift
  rw [BitVec.ushiftRight_or_distrib, small, kept]
  simp

/-- The counter as a quotient. -/
theorem popCounter_eq
    (head : Word) :
    popCounter head = head.toNat / 2 ^ 55 := by
  rw [popCounter, freeCountShift, BitVec.toNat_ushiftRight,
    Nat.shiftRight_eq_div_pow]

theorem add_freePopOne_toNat
    (head : Word) :
    (head + freePopOne).toNat =
      (head.toNat + 2 ^ 55) % (2 ^ 55 * 512) := by
  rw [BitVec.toNat_add]
  rfl

/-- One more pop: the carry out of the counter is lost. -/
theorem popCounter_add
    (head : Word) :
    popCounter (head + freePopOne) = (popCounter head + 1) % 512 := by
  rw [popCounter_eq, popCounter_eq, add_freePopOne_toNat,
    Nat.mod_mul_right_div_self, Nat.add_div_right _ (Nat.two_pow_pos 55)]

/-- The address in a head as a number. -/
theorem freeAddrOf_toNat
    (head : Word) :
    (freeAddrOf head).toNat = head.toNat * 512 % (2 ^ 55 * 512) / 64 := by
  rw [freeAddrOf, BitVec.toNat_ushiftRight, BitVec.toNat_shiftLeft,
    Nat.shiftRight_eq_div_pow, Nat.shiftLeft_eq]
  simp only [Nat.reducePow, Nat.reduceMul]

/-- The counter is above the address. -/
theorem freeAddrOf_add
    (head : Word) :
    freeAddrOf (head + freePopOne) = freeAddrOf head := by
  apply BitVec.eq_of_toNat_eq
  rw [freeAddrOf_toNat, freeAddrOf_toNat, add_freePopOne_toNat,
    Nat.mod_mul_mod, Nat.add_mul, Nat.add_mod_right]

/-- The batch test looks at the low eight bits of the counter. -/
theorem opensBatch_iff
    (head : Word) :
    opensBatch head = true ↔ popCounter head % 256 = 0 := by
  have field :
      head &&& freeBatchMask = ((head >>> 55) &&& 255) <<< 55 := by
    have mask :
        ∀ index < 64,
          freeBatchMask.getLsbD index =
            (decide (55 ≤ index) &&
              (255 : Word).getLsbD (index - 55)) := by
      decide
    apply BitVec.eq_of_getLsbD_eq
    intro index within
    rw [BitVec.getLsbD_and, mask index within, BitVec.getLsbD_shiftLeft,
      BitVec.getLsbD_and, BitVec.getLsbD_ushiftRight]
    by_cases high : 55 ≤ index
    · simp [high, within, Nat.not_lt.mpr high]
    · simp [high, Nat.lt_of_not_le high]
  have low :
      ((head >>> 55) &&& 255).toNat = popCounter head % 256 := by
    rw [BitVec.toNat_and]
    exact Nat.and_two_pow_sub_one_eq_mod _ 8
  have value :
      (((head >>> 55) &&& 255) <<< 55).toNat =
        popCounter head % 256 * 2 ^ 55 := by
    rw [BitVec.toNat_shiftLeft, low, Nat.shiftLeft_eq]
    have small := Nat.mod_lt (popCounter head) (show 0 < 256 by decide)
    omega
  rw [opensBatch, decide_eq_true_iff, field, ← BitVec.toNat_inj, value]
  simp

end Fields

section Accesses

/-- What happens to one list: a pop or a push, with the address it leaves. -/
inductive Access where
  | pop (successor : Word)
  | push (node : Word)

/-- The address that an access puts on top. -/
def Access.address : Access → Word
  | .pop successor => successor
  | .push node => node

/-- The head of a list with the pops it has seen and the batches they opened. -/
structure Tally where
  head : Word
  pops : Nat
  opened : Nat

/-- One access; a pop of an empty list fails. -/
def Tally.access
    (tally : Tally) :
    Access → Tally
  | .pop successor =>
      if freeAddrOf tally.head = emptyWord then
        tally
      else
        { head := popHead tally.head successor
          pops := tally.pops + 1
          opened := tally.opened + (opensBatch tally.head).toNat }
  | .push node =>
      { tally with head := pushHead tally.head node }

/-- The counter and the opened batches follow from the number of pops. -/
structure Tally.Exact (tally : Tally) : Prop where
  counter : popCounter tally.head = tally.pops % 512
  opened : tally.opened = tally.pops ⌈/⌉ 256

/-- The next pop opens a batch exactly at a multiple of the batch size. -/
theorem succ_ceilDiv
    (pops : Nat) :
    (pops + 1) ⌈/⌉ 256 =
      pops ⌈/⌉ 256 + (decide (pops % 256 = 0)).toNat := by
  simp only [Nat.ceilDiv_eq_add_pred_div]
  by_cases opens : pops % 256 = 0
  · rw [decide_eq_true opens, Bool.toNat_true]
    omega
  · rw [decide_eq_false opens, Bool.toNat_false]
    omega

theorem Tally.Exact.access
    {tally : Tally}
    (exact : tally.Exact)
    (access : Access)
    (admitted : Admitted access.address) :
    (tally.access access).Exact := by
  cases access with
  | pop successor =>
      unfold Tally.access
      dsimp only
      split
      · exact exact
      · refine ⟨?_, ?_⟩
        · have counted :
              popCounter (popHead tally.head successor) =
                (popCounter tally.head + 1) % 512 :=
            (popCounter_freeWord admitted _).trans
              (popCounter_add tally.head)
          rw [exact.counter] at counted
          exact counted.trans (Nat.mod_add_mod tally.pops 512 1)
        · have test :
              opensBatch tally.head = decide (tally.pops % 256 = 0) := by
            rw [Bool.eq_iff_iff, opensBatch_iff, exact.counter,
              decide_eq_true_iff]
            omega
          rw [succ_ceilDiv, exact.opened, test]
  | push node =>
      refine ⟨?_, exact.opened⟩
      exact (popCounter_freeWord admitted tally.head).trans exact.counter

theorem Tally.Exact.accesses
    {tally : Tally}
    (exact : tally.Exact)
    (accesses : List Access)
    (admitted : ∀ access ∈ accesses, Admitted access.address) :
    (accesses.foldl Tally.access tally).Exact := by
  induction accesses generalizing tally with
  | nil =>
      exact exact
  | cons first rest inductionHypothesis =>
      refine inductionHypothesis
        (exact.access first (admitted first (List.mem_cons_self ..))) ?_
      intro later member
      exact admitted later (List.mem_cons_of_mem first member)

/--
The encoding of a free-list head: address and counter survive it, a pop counts
modulo 512 and leaves the address, a push keeps the counter, and of the pops
of any sequence of accesses exactly every 256th opens a batch.
-/
theorem freeHead_encoding
    {start : Word}
    {accesses : List Access}
    (cleared : popCounter start = 0)
    (admitted : ∀ access ∈ accesses, Admitted access.address) :
    (∀ addr word,
        Admitted addr →
          freeAddrOf (freeWord addr word) = addr ∧
            popCounter (freeWord addr word) = popCounter word) ∧
      (∀ head,
        popCounter (head + freePopOne) = (popCounter head + 1) % 512 ∧
          freeAddrOf (head + freePopOne) = freeAddrOf head) ∧
      (∀ head node,
        Admitted node →
          popCounter (pushHead head node) = popCounter head) ∧
      (∀ head,
        opensBatch head = true ↔ popCounter head % 256 = 0) ∧
      (accesses.foldl Tally.access ⟨start, 0, 0⟩).opened =
        (accesses.foldl Tally.access ⟨start, 0, 0⟩).pops ⌈/⌉ 256 := by
  have begins : Tally.Exact ⟨start, 0, 0⟩ :=
    ⟨cleared, by simp⟩
  refine ⟨fun addr word fits => ?_, fun head => ?_, fun head node fits => ?_,
    opensBatch_iff, (begins.accesses accesses admitted).opened⟩
  · exact ⟨freeAddrOf_freeWord fits word, popCounter_freeWord fits word⟩
  · exact ⟨popCounter_add head, freeAddrOf_add head⟩
  · exact popCounter_freeWord fits head

/-- One pop between two pushes opens the first batch. -/
theorem freeHead_encoding_onePop :
    ([.push 4096, .pop emptyWord, .push 4096].foldl
        Tally.access ⟨emptyWord, 0, 0⟩).pops = 1 ∧
      ([.push 4096, .pop emptyWord, .push 4096].foldl
          Tally.access ⟨emptyWord, 0, 0⟩).opened =
        ([.push 4096, .pop emptyWord, .push 4096].foldl
          Tally.access ⟨emptyWord, 0, 0⟩).pops ⌈/⌉ 256 := by
  have cleared : popCounter emptyWord = 0 := by decide
  have admitted :
      ∀ access ∈ [Access.push 4096, .pop emptyWord, .push 4096],
        Admitted access.address := by
    intro access member
    simp only [List.mem_cons, List.not_mem_nil, or_false] at member
    rcases member with rfl | rfl | rfl
    · decide
    · decide
    · decide
  exact ⟨by decide, (freeHead_encoding cleared admitted).2.2.2.2⟩

end Accesses

section Records

/-- A head is determined by its two fields. -/
theorem eq_of_fields
    {first second : Word}
    (address : freeAddrOf first = freeAddrOf second)
    (counter : popCounter first = popCounter second) :
    first = second := by
  have low : first.toNat % 2 ^ 55 = second.toNat % 2 ^ 55 := by
    have fields := congrArg BitVec.toNat address
    rw [freeAddrOf_toNat, freeAddrOf_toNat, Nat.mul_mod_mul_right,
      Nat.mul_mod_mul_right] at fields
    omega
  rw [popCounter_eq, popCounter_eq] at counter
  apply BitVec.eq_of_toNat_eq
  rw [← Nat.div_add_mod first.toNat (2 ^ 55),
    ← Nat.div_add_mod second.toNat (2 ^ 55), low, counter]

variable
  {address : Slot → Word}
  (admitted : ∀ slot, Admitted (address slot))

include admitted

theorem addressWord_admitted
    (top : Option Slot) :
    Admitted (addressWord address top) := by
  cases top with
  | none =>
      have empty : Admitted emptyWord := by decide
      exact empty
  | some slot =>
      exact admitted slot

/-- The fields of the word of a record. -/
theorem record_fields
    (head : FreeHead)
    (small : head.pops < 512) :
    freeAddrOf (HashSet.freeWord address head) =
        addressWord address head.top ∧
      popCounter (HashSet.freeWord address head) = head.pops := by
  have pops :
      popCounter (BitVec.ofNat 64 head.pops <<< 55) = head.pops := by
    rw [popCounter_eq, BitVec.toNat_shiftLeft, BitVec.toNat_ofNat,
      Nat.mod_eq_of_lt (by omega : head.pops < 2 ^ 64), Nat.shiftLeft_eq]
    omega
  have encoded :
      HashSet.freeWord address head =
        freeWord (addressWord address head.top)
          (BitVec.ofNat 64 head.pops <<< 55) := by
    have kept :
        (BitVec.ofNat 64 head.pops <<< 55) &&& freeCountMask =
          BitVec.ofNat 64 head.pops <<< 55 := by
      rw [and_freeCountMask]
      apply BitVec.eq_of_toNat_eq
      have value : (BitVec.ofNat 64 head.pops <<< 55 >>> 55).toNat =
          head.pops := pops
      rw [BitVec.toNat_shiftLeft, value, BitVec.toNat_shiftLeft,
        BitVec.toNat_ofNat,
        Nat.mod_eq_of_lt (by omega : head.pops < 2 ^ 64)]
    rw [freeWord, kept, HashSet.freeWord]
  have fits := addressWord_admitted admitted head.top
  rw [encoded]
  exact ⟨freeAddrOf_freeWord fits _, (popCounter_freeWord fits _).trans pops⟩

/-- A pop of the record is the pop of its word. -/
theorem record_pop
    {head : FreeHead}
    (small : head.pops < 512)
    (successor : Option Slot) :
    HashSet.freeWord address ⟨successor, (head.pops + 1) % 512⟩ =
      popHead (HashSet.freeWord address head)
        (addressWord address successor) := by
  have fits := addressWord_admitted admitted successor
  obtain ⟨top, counter⟩ :=
    record_fields admitted ⟨successor, (head.pops + 1) % 512⟩
      (Nat.mod_lt _ (by decide))
  apply eq_of_fields
  · rw [top, popHead, freeAddrOf_freeWord fits]
  · rw [counter, popHead, popCounter_freeWord fits, popCounter_add,
      (record_fields admitted head small).2]

/-- A push on the record is the push on its word. -/
theorem record_push
    {head : FreeHead}
    (small : head.pops < 512)
    (node : Slot) :
    HashSet.freeWord address ⟨some node, head.pops⟩ =
      pushHead (HashSet.freeWord address head) (address node) := by
  obtain ⟨top, counter⟩ :=
    record_fields admitted ⟨some node, head.pops⟩ small
  apply eq_of_fields
  · rw [top, pushHead, freeAddrOf_freeWord (admitted node)]
    rfl
  · rw [counter, pushHead, popCounter_freeWord (admitted node),
      (record_fields admitted head small).2]

/-- The batch test of the record is the test of its word. -/
theorem record_opensBatch
    {head : FreeHead}
    (small : head.pops < 512) :
    decide (head.pops % 256 = 0) =
      opensBatch (HashSet.freeWord address head) := by
  rw [Bool.eq_iff_iff, opensBatch_iff, decide_eq_true_iff,
    (record_fields admitted head small).2]

end Records

end ConcurrentCpp.FreeHeadWord
