import Mathlib.Data.Nat.Bitwise
import Mathlib.Order.Monotone.Basic
import Mathlib.Logic.Function.Iterate

/-! # The jump-destination bitmap

`codeBitmap` of `core/vm/analysis.go` marks the immediates of every
`PUSHn` in a bit vector of `len(code)/8 + 1 + 4` bytes, one bit a code
byte, the most significant bit first: eight bits at a time with `set8`,
whose mask is split over two adjacent bytes by `pos % 8`, then the rest bit
by bit with `set`. `codeSegment` reads a bit back.

The bytes are a `List UInt8`; a write to an index past its end, where Go
panics, is `none`. The spec is the plain scan: the boundaries are the
positions reached from `0` by stepping over an opcode and its immediates,
and a byte is data when it is among the immediates of a `PUSHn` at a
boundary inside the code (`IsData`). The bitmap agrees with it at every
position of the code, and no write leaves the allocated bytes
(`codeBitmap_agrees_with_scan`). -/

namespace Xdchain.Vm.Analysis

def PUSH1 : UInt8 := 0x60

def PUSH32 : UInt8 := 0x7f

/-- `bitvec.set`: the bit of `pos`. -/
def set (bits : List UInt8) (pos : Nat) : Option (List UInt8) :=
  if pos / 8 < bits.length then some (bits.modify (pos / 8) (· ||| (0x80 >>> UInt8.ofNat (pos % 8))))
  else none

/-- `bitvec.set8`: the eight bits from `pos`, the high part of the mask in
the byte of `pos` and the low part in the next one. -/
def set8 (bits : List UInt8) (pos : Nat) : Option (List UInt8) :=
  if pos / 8 + 1 < bits.length then
    some ((bits.modify (pos / 8) (· ||| (0xFF >>> UInt8.ofNat (pos % 8)))).modify (pos / 8 + 1)
      (· ||| ~~~((0xFF : UInt8) >>> UInt8.ofNat (pos % 8))))
  else none

/-- `bitvec.codeSegment`: whether the bit of `pos` is clear. -/
def codeSegment (bits : List UInt8) (pos : Nat) : Bool :=
  ((bits.getD (pos / 8) 0) &&& (0x80 >>> UInt8.ofNat (pos % 8))) == 0

/-- The loop `for ; numbits >= 8; numbits -= 8 { bits.set8(pc); pc += 8 }`. -/
def set8Loop : Nat → Nat → List UInt8 → Option (Nat × Nat × List UInt8)
  | numbits + 8, pc, bits => (set8 bits pc).bind fun bits => set8Loop numbits (pc + 8) bits
  | numbits, pc, bits => some (numbits, pc, bits)

/-- The loop `for ; numbits > 0; numbits-- { bits.set(pc); pc++ }`. -/
def setLoop : Nat → Nat → List UInt8 → Option (Nat × List UInt8)
  | numbits + 1, pc, bits => (set bits pc).bind fun bits => setLoop numbits (pc + 1) bits
  | 0, pc, bits => some (pc, bits)

/-- The main loop of `codeBitmap` from `pc`, for at most `fuel` rounds. -/
def codeBitmapLoop (code : List UInt8) : Nat → Nat → List UInt8 → Option (List UInt8)
  | 0, _, _ => none
  | fuel + 1, pc, bits =>
    if pc < code.length then
      let op := code.getD pc 0
      if PUSH1 ≤ op ∧ op ≤ PUSH32 then
        match set8Loop (op - PUSH1 + 1).toNat (pc + 1) bits with
        | none => none
        | some (numbits, pc, bits) =>
          match setLoop numbits pc bits with
          | none => none
          | some (pc, bits) => codeBitmapLoop code fuel pc bits
      else codeBitmapLoop code fuel (pc + 1) bits
    else some bits

/-- `codeBitmap`: the zeroed bit vector, four bytes longer than needed, in
case the code ends with a `PUSH32`; each round moves `pc` on, so
`len(code) + 1` rounds are enough. -/
def codeBitmap (code : List UInt8) : Option (List UInt8) :=
  codeBitmapLoop code (code.length + 1) 0 (List.replicate (code.length / 8 + 1 + 4) 0)

/-! ## The plain scan -/

/-- The immediates of the opcode `op`: `n` for `PUSHn`, none for the rest. -/
def pushSize (op : UInt8) : Nat := if 0x60 ≤ op.toNat ∧ op.toNat ≤ 0x7f then op.toNat - 0x5f else 0

/-- The boundary after the one at `q`: past the opcode and its immediates. -/
def nextBoundary (code : List UInt8) (q : Nat) : Nat := q + 1 + pushSize (code.getD q 0)

/-- The immediates of the opcode at `q` cover `pos`. -/
def Covers (code : List UInt8) (q pos : Nat) : Prop := q < pos ∧ pos ≤ q + pushSize (code.getD q 0)

/-- `pos` is data: an immediate of an opcode at a boundary inside the code,
reached by scanning from `0` through boundaries inside the code. -/
def IsData (code : List UInt8) (pos : Nat) : Prop :=
  ∃ k, (∀ i ≤ k, (nextBoundary code)^[i] 0 < code.length) ∧ Covers code ((nextBoundary code)^[k] 0) pos

/-! ## Bits as positions -/

/-- The bit of `pos`: bit `7 - pos % 8` of byte `pos / 8`. -/
def bitAt (bits : List UInt8) (pos : Nat) : Bool := (bits.getD (pos / 8) 0).toNat.testBit (7 - pos % 8)

theorem mask_bit_testBit : ∀ k < 8, ∀ i < 8,
    (((0x80 : UInt8) >>> UInt8.ofNat k).toNat.testBit i) = decide (i = 7 - k) := by
  decide

theorem mask_high_testBit : ∀ k < 8, ∀ i < 8,
    (((0xFF : UInt8) >>> UInt8.ofNat k).toNat.testBit i) = decide (i < 8 - k) := by
  decide

theorem mask_low_testBit : ∀ k < 8, ∀ i < 8,
    ((~~~((0xFF : UInt8) >>> UInt8.ofNat k)).toNat.testBit i) = decide (8 - k ≤ i) := by
  decide

theorem mask_bit_toNat : ∀ k < 8, ((0x80 : UInt8) >>> UInt8.ofNat k).toNat = 2 ^ (7 - k) := by
  decide

theorem getD_modify {l : List UInt8} {j : Nat} (hj : j < l.length) (f : UInt8 → UInt8) (i : Nat) :
    (l.modify j f).getD i 0 = if i = j then f (l.getD i 0) else l.getD i 0 := by
  simp only [List.getD_eq_getElem?_getD, List.getElem?_modify]
  by_cases h : i = j
  · subst h
    simp [List.getElem?_eq_getElem hj]
  · simp [h, Ne.symm h]

/-- A clear bit is a code segment. -/
theorem codeSegment_eq (bits : List UInt8) (pos : Nat) : codeSegment bits pos = !bitAt bits pos := by
  have hk : pos % 8 < 8 := Nat.mod_lt _ (by decide)
  have hzero : ∀ b : UInt8, (b == 0) = decide (b.toNat = 0) := by
    intro b
    rw [Bool.eq_iff_iff, beq_iff_eq, decide_eq_true_iff, ← UInt8.toNat_inj]
    rfl
  rw [codeSegment, hzero, UInt8.toNat_and, mask_bit_toNat _ hk, Nat.and_two_pow, bitAt]
  cases (bits.getD (pos / 8) 0).toNat.testBit (7 - pos % 8) <;> simp

/-- `set` raises the bit of `pos` and no other. -/
theorem bitAt_set {bits bits' : List UInt8} {p : Nat} (h : set bits p = some bits') (pos : Nat) :
    bitAt bits' pos = (bitAt bits pos || decide (pos = p)) := by
  unfold set at h
  split_ifs at h with hp
  cases h
  have hk : p % 8 < 8 := Nat.mod_lt _ (by decide)
  have hi : 7 - pos % 8 < 8 := by omega
  unfold bitAt
  rw [getD_modify hp]
  split_ifs with hj
  · rw [UInt8.toNat_or, Nat.testBit_or, mask_bit_testBit _ hk _ hi]
    congr 1
    apply decide_eq_decide.mpr
    omega
  · have : pos ≠ p := fun he => hj (by rw [he])
    simp [this]

/-- `set8` raises the eight bits from `pos` and no other. -/
theorem bitAt_set8 {bits bits' : List UInt8} {p : Nat} (h : set8 bits p = some bits') (pos : Nat) :
    bitAt bits' pos = (bitAt bits pos || decide (p ≤ pos ∧ pos < p + 8)) := by
  unfold set8 at h
  split_ifs at h with hp
  cases h
  have hk : p % 8 < 8 := Nat.mod_lt _ (by decide)
  have hi : 7 - pos % 8 < 8 := by omega
  unfold bitAt
  rw [getD_modify (by rw [List.length_modify]; exact hp), getD_modify (by omega)]
  split_ifs with hj1 hj0 hj0
  · omega
  · -- the byte after `p`'s: the low `p % 8` bits of the mask
    rw [UInt8.toNat_or, Nat.testBit_or, mask_low_testBit _ hk _ hi]
    congr 1
    apply decide_eq_decide.mpr
    omega
  · -- `p`'s byte: the high `8 - p % 8` bits of the mask
    rw [UInt8.toNat_or, Nat.testBit_or, mask_high_testBit _ hk _ hi]
    congr 1
    apply decide_eq_decide.mpr
    omega
  · have : ¬ (p ≤ pos ∧ pos < p + 8) := by omega
    simp [this]

theorem length_set {bits bits' : List UInt8} {p : Nat} (h : set bits p = some bits') :
    bits'.length = bits.length := by
  unfold set at h
  split_ifs at h
  cases h
  exact List.length_modify ..

theorem length_set8 {bits bits' : List UInt8} {p : Nat} (h : set8 bits p = some bits') :
    bits'.length = bits.length := by
  unfold set8 at h
  split_ifs at h
  cases h
  rw [List.length_modify, List.length_modify]

/-! ## The two inner loops -/

/-- Room for the writes from `pc` on, in bits. -/
theorem set_isSome {bits : List UInt8} {p : Nat} (h : p < 8 * bits.length) : ∃ bits', set bits p = some bits' := by
  unfold set
  rw [if_pos (by omega)]
  exact ⟨_, rfl⟩

theorem set8_isSome {bits : List UInt8} {p : Nat} (h : p + 8 < 8 * bits.length) :
    ∃ bits', set8 bits p = some bits' := by
  unfold set8
  rw [if_pos (by omega)]
  exact ⟨_, rfl⟩

/-- **The bit-by-bit loop** marks `numbits` positions from `pc`. -/
theorem setLoop_spec : ∀ (numbits pc : Nat) (bits : List UInt8), pc + numbits ≤ 8 * bits.length →
    ∃ bits', setLoop numbits pc bits = some (pc + numbits, bits') ∧ bits'.length = bits.length ∧
      ∀ pos, bitAt bits' pos = (bitAt bits pos || decide (pc ≤ pos ∧ pos < pc + numbits))
  | 0, pc, bits, _ => ⟨bits, rfl, rfl, fun pos => by simp⟩
  | numbits + 1, pc, bits, h => by
    obtain ⟨bits1, h1⟩ := set_isSome (show pc < 8 * bits.length by omega)
    have hl1 := length_set h1
    obtain ⟨bits', h2, hl, hb⟩ := setLoop_spec numbits (pc + 1) bits1 (by omega)
    refine ⟨bits', ?_, hl.trans hl1, fun pos => ?_⟩
    · rw [setLoop, h1, Option.bind_some, h2, Nat.add_assoc, Nat.add_comm 1]
    · rw [hb, bitAt_set h1, Bool.or_assoc]
      congr 1
      rw [← Bool.decide_or]
      apply decide_eq_decide.mpr
      omega

/-- **The eight-at-a-time loop** marks `8 * (numbits / 8)` positions from
`pc` and leaves `numbits % 8` to the other. -/
theorem set8Loop_spec (numbits pc : Nat) (bits : List UInt8) : pc + numbits < 8 * bits.length →
    ∃ bits', set8Loop numbits pc bits = some (numbits % 8, pc + 8 * (numbits / 8), bits') ∧
      bits'.length = bits.length ∧
      ∀ pos, bitAt bits' pos = (bitAt bits pos || decide (pc ≤ pos ∧ pos < pc + 8 * (numbits / 8))) := by
  induction numbits, pc, bits using set8Loop.induct with
  | case1 numbits pc bits ih =>
    intro h
    obtain ⟨bits1, h1⟩ := set8_isSome (show pc + 8 < 8 * bits.length by omega)
    have hl1 := length_set8 h1
    obtain ⟨bits', h2, hl, hb⟩ := ih bits1 (by omega)
    refine ⟨bits', ?_, hl.trans hl1, fun pos => ?_⟩
    · have hmod : (numbits + 8) % 8 = numbits % 8 := by omega
      have hpc : pc + 8 * ((numbits + 8) / 8) = pc + 8 + 8 * (numbits / 8) := by omega
      rw [set8Loop, h1, Option.bind_some, h2, hmod, hpc]
    · rw [hb, bitAt_set8 h1, Bool.or_assoc]
      congr 1
      rw [← Bool.decide_or]
      apply decide_eq_decide.mpr
      omega
  | case2 numbits pc bits hlt =>
    -- fewer than eight left: the loop does not run
    intro _
    have h8 : numbits < 8 := by
      by_contra hge
      exact hlt (numbits - 8) (by omega)
    refine ⟨bits, ?_, rfl, fun pos => ?_⟩
    · rw [Nat.mod_eq_of_lt h8, Nat.div_eq_of_lt h8]
      unfold set8Loop
      split
      · omega
      · rfl
    · rw [Nat.div_eq_of_lt h8]
      simp

/-! ## The main loop -/

theorem numbits_of_push {op : UInt8} (h : PUSH1 ≤ op ∧ op ≤ PUSH32) :
    (op - PUSH1 + 1).toNat = pushSize op ∧ pushSize op ≤ 32 := by
  have h1 : 0x60 ≤ op.toNat := (UInt8.le_iff_toNat_le ..).mp h.1
  have h2 : op.toNat ≤ 0x7f := (UInt8.le_iff_toNat_le ..).mp h.2
  have hsub : (op - PUSH1).toNat = op.toNat - 0x60 := UInt8.toNat_sub_of_le _ _ h.1
  rw [UInt8.toNat_add, hsub, pushSize, if_pos ⟨h1, h2⟩]
  exact ⟨by simp only [UInt8.toNat_one]; omega, by omega⟩

theorem pushSize_of_not_push {op : UInt8} (h : ¬ (PUSH1 ≤ op ∧ op ≤ PUSH32)) : pushSize op = 0 := by
  rw [pushSize, if_neg]
  rintro ⟨h1, h2⟩
  exact h ⟨(UInt8.le_iff_toNat_le ..).mpr h1, (UInt8.le_iff_toNat_le ..).mpr h2⟩

/-- **One round** at a boundary inside the code moves `pc` to the next
boundary and marks exactly the immediates of the opcode there. -/
theorem codeBitmapLoop_step {code : List UInt8} {pc : Nat} {bits : List UInt8} (hpc : pc < code.length)
    (hroom : pc + 33 < 8 * bits.length) (fuel : Nat) :
    ∃ bits', codeBitmapLoop code (fuel + 1) pc bits = codeBitmapLoop code fuel (nextBoundary code pc) bits' ∧
      bits'.length = bits.length ∧
      ∀ pos, bitAt bits' pos = true ↔ bitAt bits pos = true ∨ Covers code pc pos := by
  rw [codeBitmapLoop.eq_2, if_pos hpc]
  dsimp only
  split_ifs with hpush
  · -- a `PUSHn`: `n / 8` rounds of `set8`, then `n % 8` of `set`
    obtain ⟨hn, h32⟩ := numbits_of_push hpush
    rw [hn]
    obtain ⟨bits1, h1, hl1, hb1⟩ := set8Loop_spec (pushSize (code.getD pc 0)) (pc + 1) bits (by omega)
    rw [h1]
    dsimp only
    obtain ⟨bits2, h2, hl2, hb2⟩ := setLoop_spec (pushSize (code.getD pc 0) % 8)
      (pc + 1 + 8 * (pushSize (code.getD pc 0) / 8)) bits1 (by omega)
    rw [h2]
    dsimp only
    refine ⟨bits2, ?_, hl2.trans hl1, fun pos => ?_⟩
    · congr 1
      unfold nextBoundary
      omega
    · rw [hb2, hb1, Bool.or_assoc, Bool.or_eq_true, ← Bool.decide_or, decide_eq_true_iff, Covers]
      exact or_congr_right (by omega)
  · refine ⟨bits, ?_, rfl, fun pos => ?_⟩
    · rw [nextBoundary, pushSize_of_not_push hpush]
    · rw [Covers, pushSize_of_not_push hpush]
      exact (or_iff_left (by omega)).symm

/-- **The main loop marks the immediates of every boundary it passes**, by
induction on the fuel: from the `k`-th boundary, with the bits of the first
`k` marked, it ends past the code at some `K`-th boundary with the bits of
the first `K` marked. -/
theorem codeBitmapLoop_spec (code : List UInt8) : ∀ (fuel k : Nat) (bits : List UInt8),
    (∀ i < k, (nextBoundary code)^[i] 0 < code.length) →
    code.length - (nextBoundary code)^[k] 0 < fuel →
    code.length + 32 < 8 * bits.length →
    (∀ pos, bitAt bits pos = true ↔ ∃ i < k, Covers code ((nextBoundary code)^[i] 0) pos) →
    ∃ K bits', codeBitmapLoop code fuel ((nextBoundary code)^[k] 0) bits = some bits' ∧
      bits'.length = bits.length ∧ (∀ i < K, (nextBoundary code)^[i] 0 < code.length) ∧
      code.length ≤ (nextBoundary code)^[K] 0 ∧
      ∀ pos, bitAt bits' pos = true ↔ ∃ i < K, Covers code ((nextBoundary code)^[i] 0) pos
  | 0, _, _, _, hfuel, _, _ => absurd hfuel (Nat.not_lt_zero _)
  | fuel + 1, k, bits, hk, hfuel, hroom, hbits => by
    by_cases hpc : (nextBoundary code)^[k] 0 < code.length
    · obtain ⟨bits', hstep, hl, hb⟩ := codeBitmapLoop_step hpc (show _ + 33 < 8 * bits.length by omega) fuel
      have hnext : nextBoundary code ((nextBoundary code)^[k] 0) = (nextBoundary code)^[k + 1] 0 :=
        (Function.iterate_succ_apply' _ _ _).symm
      have hgrow : (nextBoundary code)^[k] 0 < (nextBoundary code)^[k + 1] 0 := by
        rw [← hnext, nextBoundary]
        omega
      rw [hstep, hnext]
      obtain ⟨K, bits'', h, hl', hK⟩ := codeBitmapLoop_spec code fuel (k + 1) bits'
        (fun i hi => by
          rcases Nat.lt_succ_iff_lt_or_eq.mp hi with hi | rfl
          · exact hk i hi
          · exact hpc)
        (by omega) (by omega)
        (fun pos => by
          rw [hb, hbits]
          constructor
          · rintro (⟨i, hi, hc⟩ | hc)
            · exact ⟨i, by omega, hc⟩
            · exact ⟨k, by omega, hc⟩
          · rintro ⟨i, hi, hc⟩
            rcases Nat.lt_succ_iff_lt_or_eq.mp hi with hi | rfl
            · exact .inl ⟨i, hi, hc⟩
            · exact .inr hc)
      exact ⟨K, bits'', h, hl'.trans hl, hK⟩
    · refine ⟨k, bits, ?_, rfl, hk, by omega, hbits⟩
      rw [codeBitmapLoop.eq_2, if_neg hpc]

theorem bitAt_replicate (n pos : Nat) : bitAt (List.replicate n 0) pos = false := by
  simp only [bitAt, List.getD_eq_getElem?_getD, List.getElem?_replicate]
  split <;> simp

/-- **The bitmap agrees with the plain scan.** `codeBitmap` never writes
past the `len(code)/8 + 1 + 4` bytes it allocates, and a position of the
code is a code segment exactly when it is not an immediate of a `PUSHn` at
an instruction boundary, a `PUSHn` near the end covering only the bytes
that exist. -/
theorem codeBitmap_agrees_with_scan (code : List UInt8) :
    ∃ bits, codeBitmap code = some bits ∧ bits.length = code.length / 8 + 1 + 4 ∧
      ∀ pos < code.length, codeSegment bits pos = true ↔ ¬ IsData code pos := by
  obtain ⟨K, bits, h, hl, hK, hend, hb⟩ := codeBitmapLoop_spec code (code.length + 1) 0
    (List.replicate (code.length / 8 + 1 + 4) 0) (fun _ hi => absurd hi (Nat.not_lt_zero _))
    (by simp) (by simp; omega) (fun pos => by simp [bitAt_replicate])
  refine ⟨bits, h, by rw [hl, List.length_replicate], fun pos _ => ?_⟩
  rw [codeSegment_eq, Bool.not_eq_true', ← Bool.not_eq_true, not_iff_not, hb]
  constructor
  · rintro ⟨i, hi, hc⟩
    exact ⟨i, fun j hj => hK j (by omega), hc⟩
  · -- a boundary inside the code comes before the one the loop stopped at
    rintro ⟨j, hj, hc⟩
    refine ⟨j, ?_, hc⟩
    by_contra hKj
    have := hj K (by omega)
    omega

/-- `PUSH1 0x5b; JUMPDEST`: the theorem at the immediate. -/
theorem codeBitmap_agrees_with_scan_at_push1 :
    ∃ bits, codeBitmap [0x60, 0x5b, 0x5b] = some bits ∧
      (codeSegment bits 1 = true ↔ ¬ IsData [0x60, 0x5b, 0x5b] 1) := by
  obtain ⟨bits, h, -, hs⟩ := codeBitmap_agrees_with_scan [0x60, 0x5b, 0x5b]
  exact ⟨bits, h, hs 1 (by decide)⟩

example : (codeBitmap [0x60, 0x5b, 0x5b]).map (fun bits => [codeSegment bits 1, codeSegment bits 2]) =
    some [false, true] := by
  decide

end Xdchain.Vm.Analysis
