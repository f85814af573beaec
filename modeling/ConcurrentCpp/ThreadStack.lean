import ConcurrentCpp.MachineWords

namespace ConcurrentCpp.ThreadStack

/-!
# The sizes of a thread's stack and guard

The size arithmetic of `Thread`: the stagger, the rounding to pages, the bound
on what the static TLS takes, and the check that `AttrOwner` makes before it
asks for any attribute.  Sizes are 64-bit words; every operation on them
remembers whether it wrapped.  What the C library and the kernel report is a
parameter.
-/

open Wrapping

/-- `std::size_t`. -/
abbrev Size := BitVec 64

/-- `std::numeric_limits<std::size_t>::max()`. -/
def maxSize : Size := BitVec.allOnes 64

/-- `stagger_step`. -/
def staggerStep : Size := 256

/-- `stagger_slots`. -/
def staggerSlots : BitVec 32 := 16

/-- `max_stagger`. -/
def maxStagger : Size := (staggerSlots - 1).setWidth 64 * staggerStep

/-- `start_frames_allowance`. -/
def startFramesAllowance : Size := 2048

/-- `stack_extra`. -/
def stackExtra : Size := maxStagger + startFramesAllowance

/-- `default_guard_bytes`. -/
def defaultGuardBytes : Size := 1 <<< 20

/-- `stagger_for(n)`. -/
def staggerFor (number : BitVec 32) : Wrapping Size :=
  mul ((number % staggerSlots).setWidth 64) staggerStep

/-- `page_round(n, granule)`. -/
def pageRound (number granule : Size) : Wrapping (Option Size) := do
  let less ← sub granule 1
  let bound ← sub maxSize less
  if bound < number then
    pure none
  else do
    let sum ← add number less
    let rounded ← mul (sum / granule) granule
    pure (some rounded)

/-- `compute_stack_size(requested, extra, tls, granule, minimum)`. -/
def computeStackSize
    (requested extra tls granule minimum : Size) :
    Wrapping (Option Size) := do
  let clamped := if requested < minimum then minimum else requested
  let room ← sub maxSize clamped
  if room < extra then
    pure none
  else do
    let withExtra ← add clamped extra
    let left ← sub maxSize withExtra
    if left < tls then
      pure none
    else do
      let sum ← add withExtra tls
      pageRound sum granule

/-- `guard_fits(stack, guard, page)`. -/
def guardFits (stack guard page : Size) : Wrapping Bool := do
  let rounded ← pageRound guard page
  match rounded with
  | none => pure false
  | some rounded => do
      let room ← sub maxSize stack
      pure (decide (rounded ≤ room))

/-- `tls_carve_bound(size, align)`. -/
def tlsCarveBound (size align : Size) : Wrapping Size := do
  let align := if align = 0 then 1 else align
  let rounded ← pageRound size align
  match rounded with
  | none => pure maxSize
  | some rounded => do
      let less ← sub align 1
      let room ← sub maxSize less
      if room < rounded then
        pure maxSize
      else
        add rounded less

/-- `StaticTlsInfo`. -/
structure StaticTlsInfo where
  size : Size
  align : Size
  deriving DecidableEq

/-- `tls_info_from(query)`; the query is `none` if the symbol is absent. -/
def tlsInfoFrom : Option StaticTlsInfo → StaticTlsInfo
  | none => ⟨0, 1⟩
  | some info => { info with align := if info.align = 0 then 1 else info.align }

/-- What the system reports, and the process default of the stack size. -/
structure System where
  pageSize : Size
  minStackSize : Size
  tlsQuery : Option StaticTlsInfo
  defaultStackBytes : Size

/-- `stack_granule()`. -/
def stackGranule (system : System) : Size :=
  let align := (tlsInfoFrom system.tlsQuery).align
  if system.pageSize < align then align else system.pageSize

/-- `static_tls_size()`. -/
def staticTlsSize (system : System) : Wrapping Size :=
  let info := tlsInfoFrom system.tlsQuery
  tlsCarveBound info.size info.align

/--
The sizes that `AttrOwner::AttrOwner` settles on, the stack and the guard;
`none` if it throws before it initializes the attributes.
-/
def attrOwner
    (system : System)
    (stackRequest guardRequest : Option Size) :
    Wrapping (Option (Size × Size)) := do
  let requested := stackRequest.getD system.defaultStackBytes
  let guardBytes := guardRequest.getD defaultGuardBytes
  let tls ← staticTlsSize system
  let stack ←
    computeStackSize requested stackExtra tls (stackGranule system)
      system.minStackSize
  match stack with
  | none => pure none
  | some stack => do
      let fits ← guardFits stack guardBytes system.pageSize
      if fits then
        pure (some (stack, guardBytes))
      else
        pure none

section Exact

/-- The word that holds a number, if one does. -/
def word? (number : Nat) : Option Size :=
  if number < 2 ^ 64 then some (BitVec.ofNat 64 number) else none

theorem word?_of_toNat
    {number : Nat}
    {size : Size}
    (value : size.toNat = number) :
    word? number = some size := by
  have small := size.isLt
  rw [value] at small
  rw [word?, if_pos small, ← value, BitVec.ofNat_toNat,
    BitVec.setWidth_eq]

theorem word?_of_large
    {number : Nat}
    (large : 2 ^ 64 ≤ number) :
    word? number = none :=
  if_neg (Nat.not_lt.mpr large)

theorem maxSize_toNat : maxSize.toNat = 2 ^ 64 - 1 := by decide

variable {granule : Size} {shift : Nat}

/-- A granule that is a power of two divides the word size. -/
theorem granule_dvd
    (power : granule.toNat = 2 ^ shift) :
    0 < granule.toNat ∧ granule.toNat ∣ 2 ^ 64 := by
  have small : shift < 64 := by
    have bound := granule.isLt
    rw [power] at bound
    exact (Nat.pow_lt_pow_iff_right (by decide)).mp bound
  rw [power]
  exact ⟨Nat.two_pow_pos shift, Nat.pow_dvd_pow 2 (Nat.le_of_lt small)⟩

/-- The rounding is exact and wraps nowhere. -/
theorem pageRound_yields
    (power : granule.toNat = 2 ^ shift)
    (number : Size) :
    Yields (pageRound number granule)
      (word? (ceilTo granule.toNat number.toNat)) := by
  obtain ⟨positive, divides⟩ := granule_dvd power
  have inRange :
      ceilTo granule.toNat number.toNat < 2 ^ 64 ↔
        number.toNat + (granule.toNat - 1) < 2 ^ 64 :=
    ceilTo_lt_iff positive divides
  have bound := granule.isLt
  obtain ⟨less, lessValue, ranLess⟩ :=
    sub_fits granule 1 positive
  rw [show (1 : Size).toNat = 1 from rfl] at lessValue
  obtain ⟨room, roomValue, ranRoom⟩ :=
    sub_fits maxSize less (by rw [lessValue, maxSize_toNat]; omega)
  rw [lessValue, maxSize_toNat] at roomValue
  refine ranLess.bind (ranRoom.bind ?_)
  by_cases exceeds : room < number
  · rw [if_pos exceeds, word?_of_large]
    · exact .pure _
    · rw [BitVec.lt_def] at exceeds
      omega
  · rw [if_neg exceeds]
    rw [BitVec.lt_def] at exceeds
    obtain ⟨sum, sumValue, ranSum⟩ :=
      add_fits number less (by omega)
    have exact :
        (sum / granule).toNat * granule.toNat =
          ceilTo granule.toNat number.toNat := by
      rw [BitVec.toNat_udiv, sumValue, lessValue, ceilTo_eq positive]
    obtain ⟨rounded, roundedValue, ranRounded⟩ :=
      mul_fits (sum / granule) granule (by rw [exact]; omega)
    rw [word?_of_toNat (roundedValue.trans exact)]
    exact ranSum.bind (ranRounded.bind (.pure _))

/-- The stack computation is exact and wraps nowhere. -/
theorem computeStackSize_yields
    (power : granule.toNat = 2 ^ shift)
    (requested extra tls minimum : Size) :
    Yields (computeStackSize requested extra tls granule minimum)
      (word?
        (ceilTo granule.toNat
          (max requested.toNat minimum.toNat + extra.toNat +
            tls.toNat))) := by
  obtain ⟨positive, _⟩ := granule_dvd power
  have rounds :
      ∀ {number : Nat},
        2 ^ 64 ≤ number → word? (ceilTo granule.toNat number) = none :=
    fun large =>
      word?_of_large (Nat.le_trans large (le_ceilTo positive))
  have clamp :
      (if requested < minimum then minimum else requested).toNat =
        max requested.toNat minimum.toNat := by
    split
    · rename_i below
      rw [BitVec.lt_def] at below
      omega
    · rename_i above
      rw [BitVec.lt_def] at above
      omega
  unfold computeStackSize
  generalize
    (if requested < minimum then minimum else requested) = clamped at clamp
  have clampedSmall := clamped.isLt
  rw [← clamp]
  obtain ⟨room, roomValue, ranRoom⟩ :=
    sub_fits maxSize clamped (by rw [maxSize_toNat]; omega)
  rw [maxSize_toNat] at roomValue
  refine ranRoom.bind ?_
  by_cases exceeds : room < extra
  · rw [if_pos exceeds, rounds]
    · exact .pure _
    · rw [BitVec.lt_def] at exceeds
      omega
  rw [if_neg exceeds]
  rw [BitVec.lt_def] at exceeds
  obtain ⟨withExtra, withExtraValue, ranWithExtra⟩ :=
    add_fits clamped extra (by omega)
  obtain ⟨left, leftValue, ranLeft⟩ :=
    sub_fits maxSize withExtra (by rw [maxSize_toNat]; omega)
  rw [maxSize_toNat] at leftValue
  refine ranWithExtra.bind (ranLeft.bind ?_)
  by_cases past : left < tls
  · rw [if_pos past, rounds]
    · exact .pure _
    · rw [BitVec.lt_def] at past
      omega
  rw [if_neg past]
  rw [BitVec.lt_def] at past
  obtain ⟨sum, sumValue, ranSum⟩ := add_fits withExtra tls (by omega)
  refine ranSum.bind ?_
  rw [← withExtraValue, ← sumValue]
  exact pageRound_yields power sum

/-- The check of the guard is exact and wraps nowhere. -/
theorem guardFits_yields
    (power : granule.toNat = 2 ^ shift)
    (stack guardBytes : Size) :
    Yields (guardFits stack guardBytes granule)
      (decide
        (stack.toNat + ceilTo granule.toNat guardBytes.toNat <
          2 ^ 64)) := by
  have stackSmall := stack.isLt
  refine (pageRound_yields power guardBytes).bind ?_
  by_cases small : ceilTo granule.toNat guardBytes.toNat < 2 ^ 64
  · obtain ⟨room, roomValue, ranRoom⟩ :=
      sub_fits maxSize stack (by rw [maxSize_toNat]; omega)
    rw [maxSize_toNat] at roomValue
    rw [word?, if_pos small]
    refine ranRoom.bind ?_
    have agree :
        decide
            (BitVec.ofNat 64 (ceilTo granule.toNat guardBytes.toNat) ≤
              room) =
          decide
            (stack.toNat + ceilTo granule.toNat guardBytes.toNat <
              2 ^ 64) := by
      rw [decide_eq_decide, BitVec.le_def, BitVec.toNat_ofNat,
        Nat.mod_eq_of_lt small]
      omega
    rw [agree]
    exact .pure _
  · have outside :
        ¬ stack.toNat + ceilTo granule.toNat guardBytes.toNat < 2 ^ 64 := by
      omega
    rw [word?, if_neg small, decide_eq_false outside]
    exact .pure _

/-- The bound on what the static TLS takes is exact or saturates. -/
theorem tlsCarveBound_yields
    (power : granule.toNat = 2 ^ shift)
    (size : Size) :
    Yields (tlsCarveBound size granule)
      ((word?
        (ceilTo granule.toNat size.toNat +
          (granule.toNat - 1))).getD maxSize) := by
  obtain ⟨positive, _⟩ := granule_dvd power
  have bound := granule.isLt
  have nonzero : granule ≠ 0 := by
    rintro rfl
    simp at positive
  unfold tlsCarveBound
  rw [if_neg nonzero]
  refine (pageRound_yields power size).bind ?_
  by_cases small : ceilTo granule.toNat size.toNat < 2 ^ 64
  · rw [word?, if_pos small]
    obtain ⟨less, lessValue, ranLess⟩ :=
      sub_fits granule 1 positive
    rw [show (1 : Size).toNat = 1 from rfl] at lessValue
    obtain ⟨room, roomValue, ranRoom⟩ :=
      sub_fits maxSize less (by rw [lessValue, maxSize_toNat]; omega)
    rw [lessValue, maxSize_toNat] at roomValue
    have rounded :
        (BitVec.ofNat 64 (ceilTo granule.toNat size.toNat)).toNat =
          ceilTo granule.toNat size.toNat := by
      rw [BitVec.toNat_ofNat, Nat.mod_eq_of_lt small]
    refine ranLess.bind (ranRoom.bind ?_)
    split
    · rename_i exceeds
      rw [BitVec.lt_def, rounded] at exceeds
      rw [word?_of_large (by omega)]
      exact .pure _
    · rename_i under
      rw [BitVec.lt_def, rounded] at under
      obtain ⟨sum, sumValue, ranSum⟩ :=
        add_fits (BitVec.ofNat 64 (ceilTo granule.toNat size.toNat)) less
          (by omega)
      rw [rounded, lessValue] at sumValue
      rw [word?_of_toNat sumValue]
      exact ranSum
  · rw [word?, if_neg small, word?_of_large (by omega)]
    exact .pure _

/-- The stagger is exact and at most `max_stagger`. -/
theorem staggerFor_yields
    (number : BitVec 32) :
    ∃ stagger : Size,
      Yields (staggerFor number) stagger ∧
        stagger.toNat = number.toNat % 16 * 256 := by
  have slot :
      ((number % staggerSlots).setWidth 64).toNat = number.toNat % 16 := by
    rw [BitVec.toNat_setWidth, BitVec.toNat_umod]
    exact Nat.mod_eq_of_lt
      (Nat.lt_trans (Nat.mod_lt _ (by decide)) (by decide))
  have step : staggerStep.toNat = 256 := rfl
  have small := Nat.mod_lt number.toNat (show 0 < 16 by decide)
  obtain ⟨stagger, value, ran⟩ :=
    mul_fits ((number % staggerSlots).setWidth 64) staggerStep
      (by rw [slot, step]; omega)
  rw [slot, step] at value
  exact ⟨stagger, ran, value⟩

end Exact

/-- The bound on what the static TLS takes, in unbounded arithmetic. -/
def exactTls (info : StaticTlsInfo) : Nat :=
  ceilTo info.align.toNat info.size.toNat + (info.align.toNat - 1)

/-- The stack size of a request in unbounded arithmetic. -/
def exactStack
    (system : System)
    (requested : Size) :
    Nat :=
  let info := tlsInfoFrom system.tlsQuery
  ceilTo (max system.pageSize.toNat info.align.toNat)
    (max requested.toNat system.minStackSize.toNat + stackExtra.toNat +
      exactTls info)

section Check

variable {system : System} {pageShift alignShift : Nat}

/-- The granule is the larger of the page size and the TLS alignment. -/
theorem stackGranule_toNat
    (system : System) :
    (stackGranule system).toNat =
      max system.pageSize.toNat
        (tlsInfoFrom system.tlsQuery).align.toNat := by
  unfold stackGranule
  dsimp only
  split
  · rename_i below
    rw [BitVec.lt_def] at below
    omega
  · rename_i above
    rw [BitVec.lt_def] at above
    omega

/-- Of two powers of two the larger is a multiple of both. -/
theorem max_two_pow
    (first second : Nat) :
    max (2 ^ first) (2 ^ second) = 2 ^ max first second := by
  rcases Nat.le_total first second with ordered | ordered
  · rw [Nat.max_eq_right ordered,
      Nat.max_eq_right (Nat.pow_le_pow_right (by decide) ordered)]
  · rw [Nat.max_eq_left ordered,
      Nat.max_eq_left (Nat.pow_le_pow_right (by decide) ordered)]

/-- The stack that the class computes is the exact one, if that fits. -/
theorem stack_yields
    (page : system.pageSize.toNat = 2 ^ pageShift)
    (align :
      (tlsInfoFrom system.tlsQuery).align.toNat = 2 ^ alignShift)
    (requested : Size) :
    ∃ tls : Size,
      Yields (staticTlsSize system) tls ∧
        Yields
          (computeStackSize requested stackExtra tls
            (stackGranule system) system.minStackSize)
          (word? (exactStack system requested)) ∧
        (exactStack system requested < 2 ^ 64 →
          tls.toNat = exactTls (tlsInfoFrom system.tlsQuery)) := by
  have granule :
      (stackGranule system).toNat = 2 ^ max pageShift alignShift := by
    rw [stackGranule_toNat, page, align, max_two_pow]
  obtain ⟨positive, _⟩ := granule_dvd granule
  have carved :
      Yields (staticTlsSize system)
        ((word? (exactTls (tlsInfoFrom system.tlsQuery))).getD maxSize) :=
    tlsCarveBound_yields align (tlsInfoFrom system.tlsQuery).size
  have computed := fun tls =>
    computeStackSize_yields granule requested stackExtra tls
      system.minStackSize
  have extra : 0 < stackExtra.toNat := by decide
  refine ⟨_, carved, ?_⟩
  -- Either the bound on the TLS is exact, or it saturates; then the extra
  -- bytes push both sums past the word size.
  by_cases fits : exactTls (tlsInfoFrom system.tlsQuery) < 2 ^ 64
  · rw [word?, if_pos fits, Option.getD_some]
    have value :
        (BitVec.ofNat 64
          (exactTls (tlsInfoFrom system.tlsQuery))).toNat =
          exactTls (tlsInfoFrom system.tlsQuery) := by
      rw [BitVec.toNat_ofNat, Nat.mod_eq_of_lt fits]
    have stack :=
      computed
        (BitVec.ofNat 64 (exactTls (tlsInfoFrom system.tlsQuery)))
    rw [value, stackGranule_toNat] at stack
    exact ⟨stack, fun _ => value⟩
  · rw [word?, if_neg fits, Option.getD_none]
    have beyond : 2 ^ 64 ≤ exactStack system requested := by
      rw [stackGranule_toNat] at positive
      refine Nat.le_trans ?_ (le_ceilTo positive)
      omega
    have stack := computed maxSize
    rw [word?_of_large] at stack
    · rw [word?_of_large beyond]
      exact ⟨stack, fun small => absurd small (by omega)⟩
    · refine Nat.le_trans ?_ (le_ceilTo positive)
      rw [maxSize_toNat]
      omega

/-- The granule of an exact stack is a multiple of both granules. -/
theorem dvd_exactStack
    (page : system.pageSize.toNat = 2 ^ pageShift)
    (align :
      (tlsInfoFrom system.tlsQuery).align.toNat = 2 ^ alignShift)
    (requested : Size) :
    system.pageSize.toNat ∣ exactStack system requested ∧
      (tlsInfoFrom system.tlsQuery).align.toNat ∣
        exactStack system requested := by
  have granule :
      max system.pageSize.toNat
          (tlsInfoFrom system.tlsQuery).align.toNat ∣
        exactStack system requested :=
    dvd_ceilTo
  rw [page, align, max_two_pow] at granule
  rw [page, align]
  exact
    ⟨(Nat.pow_dvd_pow 2 (Nat.le_max_left _ _)).trans granule,
      (Nat.pow_dvd_pow 2 (Nat.le_max_right _ _)).trans granule⟩

/-- An exact stack holds the request, the TLS and the extra bytes. -/
theorem le_exactStack
    (page : system.pageSize.toNat = 2 ^ pageShift)
    (requested : Size) :
    requested.toNat + stackExtra.toNat +
        exactTls (tlsInfoFrom system.tlsQuery) ≤
      exactStack system requested := by
  have positive : 0 < system.pageSize.toNat := by
    rw [page]
    exact Nat.two_pow_pos pageShift
  have granulePositive :
      0 <
        max system.pageSize.toNat
          (tlsInfoFrom system.tlsQuery).align.toNat :=
    Nat.lt_of_lt_of_le positive (Nat.le_max_left _ _)
  have larger := Nat.le_max_left requested.toNat system.minStackSize.toNat
  refine Nat.le_trans ?_ (le_ceilTo granulePositive)
  omega

/-- Any stagger and the start frames are within the extra bytes. -/
theorem stagger_le_stackExtra
    (number : Nat) :
    number % 16 * 256 + startFramesAllowance.toNat ≤ stackExtra.toNat := by
  have slot := Nat.mod_lt number (show 0 < 16 by decide)
  rw [show startFramesAllowance.toNat = 2048 from rfl,
    show stackExtra.toNat = 15 * 256 + 2048 by decide]
  omega

/--
The check is exact at the limits of the word: no operation wraps, a request is
accepted exactly if its stack and its rounded guard fit in unbounded
arithmetic, and an accepted stack is the exact one, a multiple of both
granules, with room for the request beside the TLS, any stagger and the start
frames.
-/
theorem sizing_exact
    (system : System)
    (stackRequest guardRequest : Option Size)
    (page : system.pageSize.toNat = 2 ^ pageShift)
    (align :
      (tlsInfoFrom system.tlsQuery).align.toNat = 2 ^ alignShift) :
    ∃ result tls,
      Yields (attrOwner system stackRequest guardRequest) result ∧
        Yields (staticTlsSize system) tls ∧
        (result.isSome ↔
          exactStack system
                (stackRequest.getD system.defaultStackBytes) < 2 ^ 64 ∧
            exactStack system
                  (stackRequest.getD system.defaultStackBytes) +
                ceilTo system.pageSize.toNat
                  (guardRequest.getD defaultGuardBytes).toNat < 2 ^ 64) ∧
        ∀ stack guardBytes,
          result = some (stack, guardBytes) →
            guardBytes = guardRequest.getD defaultGuardBytes ∧
              stack.toNat =
                exactStack system
                  (stackRequest.getD system.defaultStackBytes) ∧
              system.pageSize.toNat ∣ stack.toNat ∧
              (tlsInfoFrom system.tlsQuery).align.toNat ∣ stack.toNat ∧
              ∀ number,
                ∃ stagger,
                  Yields (staggerFor number) stagger ∧
                    (stackRequest.getD system.defaultStackBytes).toNat +
                        tls.toNat + stagger.toNat +
                        startFramesAllowance.toNat ≤
                      stack.toNat := by
  generalize asked : stackRequest.getD system.defaultStackBytes = requested
  generalize guarded : guardRequest.getD defaultGuardBytes = guardBytes
  obtain ⟨tls, carved, computed, exactly⟩ :=
    stack_yields page align requested
  have begins :
      ∀ {result},
        Yields
          (match word? (exactStack system requested) with
            | none => pure none
            | some stack => do
                let fits ← guardFits stack guardBytes system.pageSize
                if fits then
                  pure (some (stack, guardBytes))
                else
                  pure none)
          result →
        Yields (attrOwner system stackRequest guardRequest) result := by
    intro result ran
    unfold attrOwner
    rw [asked, guarded]
    exact carved.bind (computed.bind ran)
  by_cases stackFits : exactStack system requested < 2 ^ 64
  · have shape :
        word? (exactStack system requested) =
          some (BitVec.ofNat 64 (exactStack system requested)) :=
      if_pos stackFits
    have value :
        (BitVec.ofNat 64 (exactStack system requested)).toNat =
          exactStack system requested := by
      rw [BitVec.toNat_ofNat, Nat.mod_eq_of_lt stackFits]
    have checked :=
      guardFits_yields page
        (BitVec.ofNat 64 (exactStack system requested)) guardBytes
    rw [shape] at begins
    rw [value] at checked
    by_cases guardFit :
        exactStack system requested +
            ceilTo system.pageSize.toNat guardBytes.toNat < 2 ^ 64
    · rw [decide_eq_true guardFit] at checked
      refine
        ⟨_, tls, begins (checked.bind (.pure _)), carved, ?_, ?_⟩
      · exact ⟨fun _ => ⟨stackFits, guardFit⟩, fun _ => rfl⟩
      · intro stack bytes shaped
        cases shaped
        rw [value]
        obtain ⟨byPage, byAlign⟩ := dvd_exactStack page align requested
        refine ⟨rfl, rfl, byPage, byAlign, fun number => ?_⟩
        obtain ⟨stagger, ran, staggerValue⟩ := staggerFor_yields number
        refine ⟨stagger, ran, ?_⟩
        have room := le_exactStack page requested
        have within := stagger_le_stackExtra number.toNat
        rw [exactly stackFits, staggerValue]
        omega
    · rw [decide_eq_false guardFit] at checked
      refine
        ⟨_, tls, begins (checked.bind (.pure _)), carved, ?_, ?_⟩
      · exact ⟨nofun, fun both => absurd both.2 guardFit⟩
      · nofun
  · rw [word?, if_neg stackFits] at begins
    refine ⟨_, tls, begins (.pure _), carved, ?_, ?_⟩
    · exact ⟨nofun, fun both => absurd both.1 stackFits⟩
    · nofun

/-- A system with pages of 4096 bytes and TLS of 4800 bytes. -/
def ordinarySystem : System :=
  ⟨4096, 16384, some ⟨4800, 64⟩, 8388608⟩

theorem sizing_exact_ordinarySystem :
    exactStack ordinarySystem 65536 = 77824 ∧
      ∃ result tls,
        Yields (attrOwner ordinarySystem (some 65536) (some 1)) result ∧
          Yields (staticTlsSize ordinarySystem) tls ∧
          result.isSome := by
  refine ⟨by decide, ?_⟩
  have page : ordinarySystem.pageSize.toNat = 2 ^ 12 := by decide
  have align :
      (tlsInfoFrom ordinarySystem.tlsQuery).align.toNat = 2 ^ 6 := by
    decide
  obtain ⟨result, tls, ran, carved, accepted, _⟩ :=
    sizing_exact ordinarySystem (some 65536) (some 1) page align
  exact ⟨result, tls, ran, carved, accepted.mpr (by decide)⟩

end Check

end ConcurrentCpp.ThreadStack
