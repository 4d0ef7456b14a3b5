import Xdchain.Lib.BigEndian
import Xdchain.Vm.Memory

/-! # The MODEXP precompile

`bigModExp` of `core/vm/contracts.go` with `getData` of `common.go` and the
padding helpers of `common/bytes.go`. The three lengths are `big.Int`s read
from 32-byte words; `RequiredGas` prices with them as integers, while `Run`
takes them through `Uint64()`, the low 64 bits. Every `uint64` argument is
a `Nat` below `2 ^ 64`, `int(size)` is `toInt64`, and a slice expression
that panics in Go is `none`; an allocation that fails is not modelled.

`requiredGas_eq_spec`: on every input (of a Go slice's length) the price is
the EIP-198 / EIP-2565 one, saturated at `2 ^ 64 - 1`. `Run` agrees with the
exponentiation of the lengths as written only while they survive `Uint64()`:
with an exponent length of `2 ^ 64 + 32` and a price that fits in 64 bits,
it reads the modulus `2 ^ 64` bytes too early
(`modexp_run_truncates_exponent_length`). -/

namespace Xdchain.Vm.Modexp

open Xdchain.Lib.BigEndian

/-! ## Byte slices -/

/-- `common.RightPadBytes(slice, l)`: zeros after `slice` up to `l` bytes. -/
def rightPadBytes (slice : List UInt8) (l : Int) : List UInt8 :=
  if l ≤ slice.length then slice else slice ++ List.replicate (l.toNat - slice.length) 0

/-- `common.LeftPadBytes(slice, l)`: zeros before `slice` up to `l` bytes. -/
def leftPadBytes (slice : List UInt8) (l : Int) : List UInt8 :=
  if l ≤ slice.length then slice else List.replicate (l.toNat - slice.length) 0 ++ slice

/-- `getData(data, start, size)`: `size` bytes from `start`, zeros past the
end. `end := start + size` wraps modulo `2 ^ 64`, and `data[start:end]`
panics when it wraps below `start`. -/
def getData (data : List UInt8) (start size : Nat) : Option (List UInt8) :=
  let length := data.length
  let start := if start > length then length else start
  let stop := (start + size) % 2 ^ 64
  let stop := if stop > length then length else stop
  if stop < start then none
  else some (rightPadBytes ((data.drop start).take (stop - start)) (toInt64 size))

/-- `big.Int.BitLen` of a non-negative integer. -/
def bitLen (n : Nat) : Nat := if n = 0 then 0 else n.log2 + 1

/-! ## The price -/

/-- `modexpMultComplexity`: EIP-198's `mult_complexity`. -/
def modexpMultComplexity (x : Nat) : Nat :=
  if x ≤ 64 then x * x
  else if x ≤ 1024 then x * x / 4 + (96 * x - 3072)
  else x * x / 16 + (480 * x - 199680)

/-- The head of the exponent in `RequiredGas`, from the input after the
header: skipped when the input ends within the base. -/
def readExpHead (input : List UInt8) (baseLen expLen : Nat) : Option Nat :=
  if input.length ≤ baseLen then pure 0
  else if expLen > 32 then beValue <$> getData input (toUint64 baseLen) 32
  else beValue <$> getData input (toUint64 baseLen) (toUint64 expLen)

/-- The rest of `RequiredGas`: the adjusted exponent length, then the price
of `eip2565` or of EIP-198, saturated by the `BitLen() > 64` check. -/
def price (eip2565 : Bool) (baseLen expLen modLen expHead : Nat) : Nat :=
  let msb := if bitLen expHead > 0 then bitLen expHead - 1 else 0
  let adjExpLen := (if expLen > 32 then 8 * (expLen - 32) else 0) + msb
  let gas := max modLen baseLen
  if eip2565 then
    let gas := (gas + 7) / 8
    let gas := gas * gas * max adjExpLen 1 / 3
    if bitLen gas > 64 then maxUint64
    else if gas < 200 then 200
    else gas
  else
    let gas := modexpMultComplexity gas * max adjExpLen 1 / 20
    if bitLen gas > 64 then maxUint64 else gas

/-- `bigModExp.RequiredGas`, with `eip2565` the contract's flag. -/
def requiredGas (eip2565 : Bool) (input : List UInt8) : Option Nat := do
  let baseLen := beValue (← getData input 0 32)
  let expLen := beValue (← getData input 32 32)
  let modLen := beValue (← getData input 64 32)
  let input := if input.length > 96 then input.drop 96 else []
  let expHead ← readExpHead input baseLen expLen
  pure (price eip2565 baseLen expLen modLen expHead)

/-! ## The run -/

/-- `bigModExp.Run`. `big.Int.Exp` with a modulus of `1` or more is the
power modulo it. -/
def run (input : List UInt8) : Option (List UInt8) := do
  let baseLen := toUint64 (beValue (← getData input 0 32))
  let expLen := toUint64 (beValue (← getData input 32 32))
  let modLen := toUint64 (beValue (← getData input 64 32))
  let input := if input.length > 96 then input.drop 96 else []
  if baseLen = 0 ∧ modLen = 0 then pure []
  else
    let base := beValue (← getData input 0 baseLen)
    let exp := beValue (← getData input baseLen expLen)
    let mod := beValue (← getData input (toUint64 (baseLen + expLen)) modLen)
    if bitLen mod = 0 then pure (leftPadBytes [] (toInt64 modLen))
    else pure (leftPadBytes (beBytes (base ^ exp % mod)) (toInt64 modLen))

/-- `RunPrecompiledContract` for `bigModExp`: the output and the gas left. -/
def runPrecompiledContract (eip2565 : Bool) (input : List UInt8) (suppliedGas : Nat) :
    Option (Except VmError (List UInt8 × Nat)) := do
  let gasCost ← requiredGas eip2565 input
  if suppliedGas < gasCost then pure (.error .outOfGas)
  else
    let output ← run input
    pure (.ok (output, suppliedGas - gasCost))

/-! ## What the precompile is priced and meant to compute -/

/-- `size` bytes of `input` from `start`, missing bytes read as zero. -/
def bytesAt (input : List UInt8) (start size : Nat) : List UInt8 :=
  (List.range size).map fun i => input.getD (start + i) 0

/-- `B`, `E` and `M`: the three lengths of the header. -/
def baseLenOf (input : List UInt8) : Nat := beValue (bytesAt input 0 32)

def expLenOf (input : List UInt8) : Nat := beValue (bytesAt input 32 32)

def modLenOf (input : List UInt8) : Nat := beValue (bytesAt input 64 32)

/-- The first `min(E, 32)` bytes of the exponent, which starts at `96 + B`. -/
def expHeadOf (input : List UInt8) : Nat :=
  beValue (bytesAt input (96 + baseLenOf input) (min (expLenOf input) 32))

/-- The adjusted exponent length, with `log2 0 = 0`. -/
def adjExpLenOf (input : List UInt8) : Nat :=
  (if expLenOf input > 32 then 8 * (expLenOf input - 32) else 0) + (expHeadOf input).log2

/-- The EIP-198 price, or with `eip2565` the EIP-2565 one, saturated at `2 ^ 64 - 1`. -/
def requiredGasSpec (eip2565 : Bool) (input : List UInt8) : Nat :=
  let x := max (baseLenOf input) (modLenOf input)
  if eip2565 then min maxUint64 (max 200 (((x + 7) / 8) ^ 2 * max (adjExpLenOf input) 1 / 3))
  else min maxUint64 (modexpMultComplexity x * max (adjExpLenOf input) 1 / 20)

/-- `base ^ exp mod m` on the operands as written, left-padded to `M` bytes:
empty when `B = M = 0`, zeros when `m = 0`. -/
def runSpec (input : List UInt8) : List UInt8 :=
  let B := baseLenOf input
  let E := expLenOf input
  let M := modLenOf input
  if B = 0 ∧ M = 0 then []
  else
    let m := beValue (bytesAt input (96 + B + E) M)
    if m = 0 then List.replicate M 0
    else
      let r := beBytes (beValue (bytesAt input 96 B) ^ beValue (bytesAt input (96 + B) E) % m)
      List.replicate (M - r.length) 0 ++ r


/-! ## Bits -/

theorem bitLen_le_iff (n k : Nat) : bitLen n ≤ k ↔ n < 2 ^ k := by
  unfold bitLen
  split_ifs with h
  · subst h
    exact ⟨fun _ => Nat.two_pow_pos k, fun _ => Nat.zero_le _⟩
  · rw [Nat.add_one_le_iff, Nat.log2_lt h]

theorem msb_eq_log2 (n : Nat) : (if bitLen n > 0 then bitLen n - 1 else 0) = n.log2 := by
  unfold bitLen
  split_ifs with h0 h1
  · subst h0
    simp at h1
  · subst h0
    rfl
  · rfl
  · simp at *

theorem bitLen_gt_iff (g : Nat) : bitLen g > 64 ↔ 2 ^ 64 ≤ g := by
  rw [gt_iff_lt, ← not_le, bitLen_le_iff, not_lt]

/-- The `BitLen() > 64` check saturates at `2 ^ 64 - 1`. -/
theorem saturate_eq_min (g : Nat) : (if bitLen g > 64 then maxUint64 else g) = min maxUint64 g := by
  unfold maxUint64
  by_cases hg : 2 ^ 64 ≤ g
  · rw [if_pos ((bitLen_gt_iff g).mpr hg)]
    omega
  · rw [if_neg (fun h => hg ((bitLen_gt_iff g).mp h))]
    omega

/-- EIP-2565's floor of `200` inside the saturation. -/
theorem saturate_floor_eq (g : Nat) :
    (if bitLen g > 64 then maxUint64 else if g < 200 then 200 else g) = min maxUint64 (max 200 g) := by
  unfold maxUint64
  by_cases hg : 2 ^ 64 ≤ g
  · rw [if_pos ((bitLen_gt_iff g).mpr hg)]
    omega
  · rw [if_neg (fun h => hg ((bitLen_gt_iff g).mp h))]
    split_ifs <;> omega

/-! ## Bytes -/

@[simp] theorem length_bytesAt (data : List UInt8) (start size : Nat) : (bytesAt data start size).length = size := by
  simp [bytesAt]

theorem getElem_bytesAt (data : List UInt8) (start size i : Nat) (hi : i < (bytesAt data start size).length) :
    (bytesAt data start size)[i] = data.getD (start + i) 0 := by
  simp [bytesAt]

theorem bytesAt_of_le {data : List UInt8} {start : Nat} (h : data.length ≤ start) (size : Nat) :
    bytesAt data start size = List.replicate size 0 := by
  apply List.ext_getElem (by simp)
  intro i h1 h2
  rw [getElem_bytesAt, List.getElem_replicate, List.getD_eq_default _ _ (by omega)]

/-- The input after the header, as `RequiredGas` and `Run` cut it. -/
theorem bytesAt_tail (input : List UInt8) (start size : Nat) :
    bytesAt (if input.length > 96 then input.drop 96 else []) start size = bytesAt input (96 + start) size := by
  apply List.ext_getElem (by simp)
  intro i h1 h2
  rw [getElem_bytesAt, getElem_bytesAt]
  split_ifs with h
  · rw [List.getD_eq_getElem?_getD, List.getD_eq_getElem?_getD, List.getElem?_drop]
    congr 2
    omega
  · rw [List.getD_nil, List.getD_eq_default _ _ (by omega)]

theorem beValue_replicate_zero (n : Nat) : beValue (List.replicate n 0) = 0 := by
  induction n with
  | zero => rfl
  | succ n ih =>
    rw [List.replicate_succ', beValue_append_singleton, ih]
    rfl

/-- A slice of at most `size` bytes from `start`, padded to `size`. -/
theorem rightPadBytes_drop_take (data : List UInt8) (start size : Nat) :
    rightPadBytes ((data.drop start).take (min size (data.length - start))) size = bytesAt data start size := by
  have hlen : ((data.drop start).take (min size (data.length - start))).length = min size (data.length - start) := by
    simp only [List.length_take, List.length_drop]
    omega
  unfold rightPadBytes
  split_ifs with h
  · -- no padding: the slice is `size` bytes long
    apply List.ext_getElem (by simp only [length_bytesAt]; omega)
    intro i h1 h2
    rw [getElem_bytesAt, List.getElem_take, List.getElem_drop, List.getD_eq_getElem]
  · apply List.ext_getElem (by simp only [List.length_append, List.length_replicate, length_bytesAt]; omega)
    intro i h1 h2
    rw [getElem_bytesAt, List.getElem_append]
    split_ifs with hi
    · rw [List.getElem_take, List.getElem_drop, List.getD_eq_getElem]
    · rw [List.getElem_replicate, List.getD_eq_default]
      omega

/-- **`getData` reads the bytes as written** when `start + size` does not
wrap and `int(size)` is not negative. -/
theorem getData_eq_bytesAt (data : List UInt8) {start size : Nat} (hs : min start data.length + size < 2 ^ 64)
    (hsize : size < 2 ^ 63) : getData data start size = some (bytesAt data start size) := by
  unfold getData
  dsimp only
  rw [toInt64_of_lt hsize]
  by_cases hst : start > data.length
  · -- past the end: nothing is read, and every byte is a zero
    rw [if_pos hst, Nat.mod_eq_of_lt (by omega), if_neg (by split_ifs <;> omega),
      show (if data.length + size > data.length then data.length else data.length + size) - data.length =
        min size (data.length - data.length) by split_ifs <;> omega,
      rightPadBytes_drop_take, bytesAt_of_le (le_refl _), bytesAt_of_le (by omega)]
  · rw [if_neg hst, Nat.mod_eq_of_lt (by omega), if_neg (by split_ifs <;> omega),
      show (if start + size > data.length then data.length else start + size) - start =
        min size (data.length - start) by split_ifs <;> omega,
      rightPadBytes_drop_take]

/-! ## The price of every input -/

/-- The head of the exponent is its first `min(E, 32)` bytes after the base. -/
theorem readExpHead_eq {input : List UInt8} (hlen : input.length < 2 ^ 63) :
    readExpHead (if input.length > 96 then input.drop 96 else []) (baseLenOf input) (expLenOf input) =
      some (expHeadOf input) := by
  have htail : (if input.length > 96 then input.drop 96 else []).length = input.length - 96 := by
    split_ifs with h
    · rw [List.length_drop]
    · rw [List.length_nil]
      omega
  unfold readExpHead expHeadOf
  by_cases hB : (if input.length > 96 then input.drop 96 else []).length ≤ baseLenOf input
  · -- the input ends within the base, so the exponent reads as zeros
    rw [if_pos hB, bytesAt_of_le (by omega), beValue_replicate_zero]
    rfl
  rw [if_neg hB, toUint64_of_lt (by omega)]
  by_cases hE : expLenOf input > 32
  · -- a long exponent: its first 32 bytes
    rw [if_pos hE, getData_eq_bytesAt _ (by omega) (by norm_num), bytesAt_tail, min_eq_right (by omega)]
    rfl
  · rw [if_neg hE, toUint64_of_lt (by omega), getData_eq_bytesAt _ (by omega) (by omega), bytesAt_tail,
      min_eq_left (by omega)]
    rfl

/-- The price of the lengths and the head is the EIP's. -/
theorem price_eq_spec (eip2565 : Bool) (input : List UInt8) :
    price eip2565 (baseLenOf input) (expLenOf input) (modLenOf input) (expHeadOf input) =
      requiredGasSpec eip2565 input := by
  unfold price requiredGasSpec adjExpLenOf
  dsimp only
  rw [msb_eq_log2, max_comm (modLenOf input), ← pow_two]
  cases eip2565
  · exact saturate_eq_min _
  · exact saturate_floor_eq _

/-- **`RequiredGas` is the EIP-198 / EIP-2565 price** of every input, with
the lengths as integers and saturated at `2 ^ 64 - 1`. -/
theorem requiredGas_eq_spec (eip2565 : Bool) {input : List UInt8} (hlen : input.length < 2 ^ 63) :
    requiredGas eip2565 input = some (requiredGasSpec eip2565 input) := by
  have h0 : getData input 0 32 = some (bytesAt input 0 32) := getData_eq_bytesAt _ (by omega) (by norm_num)
  have h1 : getData input 32 32 = some (bytesAt input 32 32) := getData_eq_bytesAt _ (by omega) (by norm_num)
  have h2 : getData input 64 32 = some (bytesAt input 64 32) := getData_eq_bytesAt _ (by omega) (by norm_num)
  have hhead := readExpHead_eq hlen
  unfold baseLenOf expLenOf at hhead
  simp only [requiredGas, h0, h1, h2, hhead, Option.bind_eq_bind, Option.bind_some, Option.pure_def]
  exact congrArg some (price_eq_spec eip2565 input)

/-! ## The run while the lengths fit in 64 bits -/

theorem leftPadBytes_eq (slice : List UInt8) {M : Nat} (hM : M < 2 ^ 63) :
    leftPadBytes slice (toInt64 M) = List.replicate (M - slice.length) 0 ++ slice := by
  rw [toInt64_of_lt hM]
  unfold leftPadBytes
  split_ifs with h
  · rw [show M - slice.length = 0 by omega, List.replicate_zero, List.nil_append]
  · rw [Int.toNat_natCast]

theorem length_tail_lt {input : List UInt8} (hlen : input.length < 2 ^ 63) :
    (if input.length > 96 then input.drop 96 else []).length < 2 ^ 63 := by
  split_ifs
  · rw [List.length_drop]
    omega
  · rw [List.length_nil]
    omega

/-- **`Run` computes `base ^ exp mod m`** on the operands as written while
the lengths survive `Uint64()` and `int(...)` and `B + E` does not wrap. -/
theorem run_eq_spec {input : List UInt8} (hlen : input.length < 2 ^ 63) (hB : baseLenOf input < 2 ^ 63)
    (hE : expLenOf input < 2 ^ 63) (hM : modLenOf input < 2 ^ 63)
    (hBE : baseLenOf input + expLenOf input < 2 ^ 64) :
    run input = some (runSpec input) := by
  have h0 : getData input 0 32 = some (bytesAt input 0 32) := getData_eq_bytesAt _ (by omega) (by norm_num)
  have h1 : getData input 32 32 = some (bytesAt input 32 32) := getData_eq_bytesAt _ (by omega) (by norm_num)
  have h2 : getData input 64 32 = some (bytesAt input 64 32) := getData_eq_bytesAt _ (by omega) (by norm_num)
  have htl := length_tail_lt hlen
  have hb : getData (if input.length > 96 then input.drop 96 else []) 0 (baseLenOf input) =
      some (bytesAt input 96 (baseLenOf input)) := by
    rw [getData_eq_bytesAt _ (by omega) hB, bytesAt_tail]
  have he : getData (if input.length > 96 then input.drop 96 else []) (baseLenOf input) (expLenOf input) =
      some (bytesAt input (96 + baseLenOf input) (expLenOf input)) := by
    rw [getData_eq_bytesAt _ (by omega) hE, bytesAt_tail]
  have hm : getData (if input.length > 96 then input.drop 96 else []) (baseLenOf input + expLenOf input)
      (modLenOf input) = some (bytesAt input (96 + baseLenOf input + expLenOf input) (modLenOf input)) := by
    rw [getData_eq_bytesAt _ (by omega) hM, bytesAt_tail, Nat.add_assoc]
  simp only [run, h0, h1, h2, Option.bind_eq_bind, Option.bind_some]
  rw [show beValue (bytesAt input 0 32) = baseLenOf input from rfl,
    show beValue (bytesAt input 32 32) = expLenOf input from rfl,
    show beValue (bytesAt input 64 32) = modLenOf input from rfl,
    toUint64_of_lt (show baseLenOf input < 2 ^ 64 by omega), toUint64_of_lt (show expLenOf input < 2 ^ 64 by omega),
    toUint64_of_lt (show modLenOf input < 2 ^ 64 by omega), toUint64_of_lt hBE]
  unfold runSpec
  dsimp only
  by_cases h00 : baseLenOf input = 0 ∧ modLenOf input = 0
  · rw [if_pos h00, if_pos h00]
    rfl
  rw [if_neg h00, if_neg h00, hb, Option.bind_some, he, Option.bind_some, hm, Option.bind_some]
  by_cases hm0 : beValue (bytesAt input (96 + baseLenOf input + expLenOf input) (modLenOf input)) = 0
  · -- modulo zero: zeros
    rw [if_pos (by rw [hm0]; rfl), if_pos hm0, leftPadBytes_eq _ hM, List.length_nil, Nat.sub_zero,
      List.append_nil]
    rfl
  · rw [if_neg (by unfold bitLen; rw [if_neg hm0]; omega), if_neg hm0, leftPadBytes_eq _ hM]
    rfl

/-! ## A run past the truncated exponent length -/

/-- `B = 1`, `E = 2 ^ 64 + 32` and `M = 1`, then the base `2`, 32 bytes of
exponent reading `1`, and a `5`. -/
def truncatedExpInput : List UInt8 :=
  fixedBytes 32 1 ++ fixedBytes 32 (2 ^ 64 + 32) ++ fixedBytes 32 1 ++ [2] ++ fixedBytes 32 1 ++ [5]

set_option maxRecDepth 20000 in
/-- **`Run` reads the modulus at the truncated exponent length.** The price
is the EIP-198 one, `2 ^ 67 / 20`, which fits in 64 bits; with that much gas
`Run` takes `E` as `32`, reads the `5` as the modulus and returns `2 ^ 1 mod 5`,
while the modulus as written starts `2 ^ 64 + 32` bytes after the base, past
the input, so it is zero and the result a zero byte. -/
theorem modexp_run_truncates_exponent_length :
    requiredGas false truncatedExpInput = some (requiredGasSpec false truncatedExpInput) ∧
      requiredGasSpec false truncatedExpInput = 7378697629483820646 ∧
      runPrecompiledContract false truncatedExpInput 7378697629483820646 = some (.ok ([2], 0)) ∧
      runSpec truncatedExpInput = [0] :=
  ⟨requiredGas_eq_spec false (by decide), by decide, by decide, by decide⟩

end Xdchain.Vm.Modexp
