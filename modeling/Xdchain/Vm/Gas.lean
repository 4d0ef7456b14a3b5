import Xdchain.Vm.Memory
import Xdchain.Lib.ErrState

/-! # Dynamic gas of the memory opcodes

The gas functions of `core/vm/gas_table.go` that charge memory, as the
Istanbul jump table assigns them, and `callGas` of `gas.go`. Each charges
`memoryGasCost` and adds its own part through the `math.SafeAdd` and
`math.SafeMul` checks. On a memory whose `lastGasCost` is the fee of all its
words (`Memory.Priced`), each returns `ErrGasUintOverflow` or the exact sum
(`MemOp.exactGas`), with one exception: under EIP-150 `callGas` subtracts
the gas charged so far from `contract.Gas` in `uint64`, and that wraps when
the contract holds less. What the call then charges is not the exact sum,
but it is still more than the contract holds. -/

namespace Xdchain.Vm
open Xdchain.Lib.ErrState (bind_eq_ok ok_bind error_bind)

def copyGas : Nat := 3

def sha3WordGas : Nat := 6

def logGas : Nat := 375

def logTopicGas : Nat := 375

def logDataGas : Nat := 8

def callValueTransferGas : Nat := 9000

def callNewAccountGas : Nat := 25000

def safeAdd (x y : Nat) : Nat × Bool := ((x + y) % 2 ^ 64, decide (2 ^ 64 ≤ x + y))

def uint64WithOverflow (v : Nat) : Nat × Bool := (toUint64 v, decide (2 ^ 64 ≤ v))

/-- The idiom `if x, overflow = f(...); overflow { return 0, ErrGasUintOverflow }`. -/
def checked (r : Nat × Bool) : Except VmError Nat :=
  if r.2 then .error .gasUintOverflow else .ok r.1

/-! ## The gas functions -/

/-- What the gas functions read besides the stack and the memory: the chain
rules, the gas left to the contract after the constant gas, and whether an
address is empty or exists in the state `getDualState` picks for it. -/
structure GasEnv where
  isEIP150 : Bool
  isEIP158 : Bool
  contractGas : Nat
  contractGas_lt : contractGas < 2 ^ 64
  empty : Nat → Bool
  exist : Nat → Bool

/-- `memoryCopierGas`, `gasSha3` and `gasCreate2`: the memory expansion and
`perWord` for each word of the size at `Back(stackpos)`. -/
def memoryWordGas (stackpos perWord : Nat) (stack : List Nat) (mem : Memory) (memorySize : Nat) :
    Except VmError (Nat × Memory) := do
  let (gas, mem) ← memoryGasCost mem memorySize
  let words ← checked (uint64WithOverflow (back stack stackpos))
  let words ← checked (safeMul (toWordSize words) perWord)
  let gas ← checked (safeAdd gas words)
  pure (gas, mem)

def memoryCopierGas (stackpos : Nat) : List Nat → Memory → Nat → Except VmError (Nat × Memory) :=
  memoryWordGas stackpos copyGas

def gasCallDataCopy := memoryCopierGas 2
def gasCodeCopy := memoryCopierGas 2
def gasExtCodeCopy := memoryCopierGas 3
def gasReturnDataCopy := memoryCopierGas 2

def gasSha3 : List Nat → Memory → Nat → Except VmError (Nat × Memory) := memoryWordGas 1 sha3WordGas

def gasCreate2 : List Nat → Memory → Nat → Except VmError (Nat × Memory) := memoryWordGas 2 sha3WordGas

def makeGasLog (n : Nat) (stack : List Nat) (mem : Memory) (memorySize : Nat) : Except VmError (Nat × Memory) := do
  let requestedSize ← checked (uint64WithOverflow (back stack 1))
  let (gas, mem) ← memoryGasCost mem memorySize
  let gas ← checked (safeAdd gas logGas)
  let gas ← checked (safeAdd gas (n * logTopicGas))
  let memorySizeGas ← checked (safeMul requestedSize logDataGas)
  let gas ← checked (safeAdd gas memorySizeGas)
  pure (gas, mem)

/-- `pureMemoryGascost`, the dynamic gas of `RETURN`, `REVERT`, `MLOAD`,
`MSTORE8`, `MSTORE` and `CREATE`. -/
def pureMemoryGascost (_stack : List Nat) (mem : Memory) (memorySize : Nat) : Except VmError (Nat × Memory) :=
  memoryGasCost mem memorySize

/-- `callGas`: the gas a call passes on, under EIP-150 no more than all but
one 64th of what the contract has left after `base`. -/
def callGas (isEip150 : Bool) (availableGas base callCost : Nat) : Except VmError Nat :=
  -- `availableGas - base` in `uint64`
  let availableGas' := (availableGas + (2 ^ 64 - base)) % 2 ^ 64
  let gas := availableGas' - availableGas' / 64
  if isEip150 = true ∧ (2 ^ 64 ≤ callCost ∨ gas < toUint64 callCost) then .ok gas
  else if 2 ^ 64 ≤ callCost then .error .gasUintOverflow
  else .ok (toUint64 callCost)

/-- The common tail of the call gas functions: `callGas` over the gas
charged so far, which it adds to it. -/
def callGasTail (env : GasEnv) (stack : List Nat) (gas : Nat) (mem : Memory) : Except VmError (Nat × Memory) := do
  let callGasTemp ← callGas env.isEIP150 env.contractGas gas (back stack 0)
  let gas ← checked (safeAdd gas callGasTemp)
  pure (gas, mem)

/-- What `gasCall` charges before the memory: a new account, where the call
may create one, and a value transfer. -/
def gasCallAccount (env : GasEnv) (stack : List Nat) : Nat :=
  let transfersValue := back stack 2 ≠ 0
  let address := back stack 1 % 2 ^ 160
  let gas :=
    if env.isEIP158 then (if transfersValue ∧ env.empty address = true then callNewAccountGas else 0)
    else if env.exist address = false then callNewAccountGas else 0
  if transfersValue then gas + callValueTransferGas else gas

def gasCall (env : GasEnv) (stack : List Nat) (mem : Memory) (memorySize : Nat) : Except VmError (Nat × Memory) := do
  let gas := gasCallAccount env stack
  let (memoryGas, mem) ← memoryGasCost mem memorySize
  let gas ← checked (safeAdd gas memoryGas)
  callGasTail env stack gas mem

def gasCallCode (env : GasEnv) (stack : List Nat) (mem : Memory) (memorySize : Nat) :
    Except VmError (Nat × Memory) := do
  let (memoryGas, mem) ← memoryGasCost mem memorySize
  let gas := if back stack 2 ≠ 0 then callValueTransferGas else 0
  let gas ← checked (safeAdd gas memoryGas)
  callGasTail env stack gas mem

def gasDelegateCall (env : GasEnv) (stack : List Nat) (mem : Memory) (memorySize : Nat) :
    Except VmError (Nat × Memory) := do
  let (gas, mem) ← memoryGasCost mem memorySize
  callGasTail env stack gas mem

def gasStaticCall (env : GasEnv) (stack : List Nat) (mem : Memory) (memorySize : Nat) :
    Except VmError (Nat × Memory) := do
  let (gas, mem) ← memoryGasCost mem memorySize
  callGasTail env stack gas mem

/-- The `dynamicGas` entry of the Istanbul jump table. -/
def MemOp.dynamicGas (op : MemOp) (env : GasEnv) : List Nat → Memory → Nat → Except VmError (Nat × Memory) :=
  match op with
  | .sha3 => gasSha3
  | .callDataCopy => gasCallDataCopy
  | .returnDataCopy => gasReturnDataCopy
  | .codeCopy => gasCodeCopy
  | .extCodeCopy => gasExtCodeCopy
  | .mload | .mstore | .mstore8 | .create | .return | .revert => pureMemoryGascost
  | .create2 => gasCreate2
  | .call => gasCall env
  | .callCode => gasCallCode env
  | .delegateCall => gasDelegateCall env
  | .staticCall => gasStaticCall env
  | .log n => makeGasLog n.val

/-! ## The gas each opcode is to charge -/

/-- All but one 64th of `gas`. -/
def allButOne64th (gas : Nat) : Nat := gas - gas / 64

/-- The gas a call passes on in exact arithmetic, for a contract holding at
least `base`. -/
def callGasSpec (isEip150 : Bool) (availableGas base callCost : Nat) : Nat :=
  if isEip150 then min callCost (allButOne64th (availableGas - base)) else callCost

/-- The gas a call opcode charges before `callGas`, for a memory fee `fee`. -/
def MemOp.callBase (op : MemOp) (env : GasEnv) (stack : List Nat) (fee : Nat) : Option Nat :=
  match op with
  | .call => some (gasCallAccount env stack + fee)
  | .callCode => some ((if back stack 2 ≠ 0 then callValueTransferGas else 0) + fee)
  | .delegateCall | .staticCall => some fee
  | _ => none

/-- The dynamic gas of each memory opcode in exact arithmetic, for a memory
fee `fee`: sizes in words rounded up, and for a call what it charges before
`callGas` and what it passes on. -/
def MemOp.exactGas (op : MemOp) (env : GasEnv) (stack : List Nat) (fee : Nat) : Nat :=
  let words (n perWord : Nat) := (back stack n + 31) / 32 * perWord
  match op.callBase env stack fee with
  | some base => base + callGasSpec env.isEIP150 env.contractGas base (back stack 0)
  | none =>
    match op with
    | .sha3 => fee + words 1 sha3WordGas
    | .callDataCopy | .returnDataCopy | .codeCopy => fee + words 2 copyGas
    | .extCodeCopy => fee + words 3 copyGas
    | .create2 => fee + words 2 sha3WordGas
    | .log n => fee + logGas + n.val * logTopicGas + back stack 1 * logDataGas
    | _ => fee

/-! ## The checks are exact -/

/-- Each overflow flag is the wrap of one exact value: the check passes that
value on exactly when it stays below `2 ^ 64`. -/
theorem checked_wrapped (v : Nat) :
    checked (v % 2 ^ 64, decide (2 ^ 64 ≤ v)) = if 2 ^ 64 ≤ v then .error .gasUintOverflow else .ok v := by
  unfold checked
  by_cases h : 2 ^ 64 ≤ v
  · rw [if_pos h, if_pos (decide_eq_true h)]
  · rw [if_neg h, if_neg (fun hd => h (of_decide_eq_true hd)), Nat.mod_eq_of_lt (Nat.lt_of_not_le h)]

theorem checked_safeAdd (x y : Nat) :
    checked (safeAdd x y) = if 2 ^ 64 ≤ x + y then .error .gasUintOverflow else .ok (x + y) :=
  checked_wrapped (x + y)

theorem checked_safeMul (x y : Nat) :
    checked (safeMul x y) = if 2 ^ 64 ≤ x * y then .error .gasUintOverflow else .ok (x * y) :=
  checked_wrapped (x * y)

theorem checked_uint64WithOverflow (v : Nat) :
    checked (uint64WithOverflow v) = if 2 ^ 64 ≤ v then .error .gasUintOverflow else .ok v :=
  checked_wrapped v

/-- A block that binds a check fails with `ErrGasUintOverflow` there, or goes
on with the exact value: it overflows or returns `b` if its rest does for
every value below `2 ^ 64`. -/
theorem overflow_or_bind_checked {β : Type} {v : Nat} {f : Nat → Except VmError β} {b : β}
    (hf : v < 2 ^ 64 → f v = .error .gasUintOverflow ∨ f v = .ok b) :
    checked (v % 2 ^ 64, decide (2 ^ 64 ≤ v)) >>= f = .error .gasUintOverflow ∨
      checked (v % 2 ^ 64, decide (2 ^ 64 ≤ v)) >>= f = .ok b := by
  rw [checked_wrapped]
  by_cases h : 2 ^ 64 ≤ v
  · rw [if_pos h, error_bind]
    exact .inl rfl
  · rw [if_neg h, ok_bind]
    exact hf (Nat.lt_of_not_le h)

/-! ## `memoryGasCost` on a priced memory -/

/-- The price invariant of a memory: it holds whole words, and its
`lastGasCost` is the fee of all of them. -/
structure Memory.Priced (m : Memory) : Prop where
  aligned : m.store.length % 32 = 0
  lastGasCost_eq : m.lastGasCost = memoryFee (m.store.length / 32)

theorem newMemory_priced : newMemory.Priced := ⟨rfl, rfl⟩

theorem memoryFee_mono {a b : Nat} (h : a ≤ b) : memoryFee a ≤ memoryFee b := by
  unfold memoryFee
  have := Nat.div_le_div_right (c := quadCoeffDiv) (Nat.mul_le_mul h h)
  have := Nat.mul_le_mul_right memoryGas h
  omega

/-- For at most `0xFFFFFFFF` words, the `uint64` fee arithmetic of
`memoryGasCost` does not wrap. -/
theorem totalFee_eq_memoryFee {w : Nat} (hw : w ≤ 0xFFFFFFFF) :
    (w * memoryGas % 2 ^ 64 + w * w % 2 ^ 64 / quadCoeffDiv) % 2 ^ 64 = memoryFee w := by
  have hsq : w * w ≤ 0xFFFFFFFF * 0xFFFFFFFF := Nat.mul_le_mul hw hw
  unfold memoryFee memoryGas quadCoeffDiv
  rw [Nat.mod_eq_of_lt (a := w * w) (by omega), Nat.mod_eq_of_lt (a := w * 3) (by omega)]
  exact Nat.mod_eq_of_lt (by omega)

/-- **`memoryGasCost` is exact on a priced memory.** It charges the fee of
the words the memory grows to less the fee of those it holds, and records
the new fee. -/
theorem memoryGasCost_of_priced {mem : Memory} (hp : mem.Priced) (n : Nat) :
    memoryGasCost mem n =
      if n = 0 then .ok (0, mem)
      else if n > 0x1FFFFFFFE0 then .error .gasUintOverflow
      else if (n + 31) / 32 * 32 > mem.store.length then
        .ok (memoryFee ((n + 31) / 32) - mem.lastGasCost, { mem with lastGasCost := memoryFee ((n + 31) / 32) })
      else .ok (0, mem) := by
  rw [memoryGasCost]
  by_cases h0 : n = 0
  · rw [if_pos h0, if_pos h0]
  rw [if_neg h0, if_neg h0]
  by_cases hbig : n > 0x1FFFFFFFE0
  · rw [if_pos hbig, if_pos hbig]
  rw [if_neg hbig, if_neg hbig]
  dsimp only
  have hw : toWordSize n = (n + 31) / 32 := toWordSize_eq (by omega)
  rw [hw, Nat.mod_eq_of_lt (a := (n + 31) / 32 * 32) (by omega)]
  split_ifs with hgrow
  · -- the memory grows: the old fee is the fee of fewer words
    have hle : mem.lastGasCost ≤ memoryFee ((n + 31) / 32) := by
      rw [hp.lastGasCost_eq]
      exact memoryFee_mono (by omega)
    have hlt : memoryFee ((n + 31) / 32) < 2 ^ 64 := by
      rw [← totalFee_eq_memoryFee (by omega)]
      exact Nat.mod_lt _ (by decide)
    rw [totalFee_eq_memoryFee (by omega)]
    congr 2
    omega
  · rfl

/-! ## Each gas function is exact or reports an overflow -/

section Exact

variable {stack : List Nat} {mem mem' : Memory} {n fee : Nat}

theorem memoryWordGas_exact {stackpos perWord : Nat} (hgc : memoryGasCost mem n = .ok (fee, mem')) :
    memoryWordGas stackpos perWord stack mem n = .error .gasUintOverflow ∨
      memoryWordGas stackpos perWord stack mem n = .ok (fee + (back stack stackpos + 31) / 32 * perWord, mem') := by
  simp only [memoryWordGas, hgc, ok_bind]
  -- each of the three checks overflows or passes its exact value on
  refine overflow_or_bind_checked fun hv => ?_
  rw [toWordSize_eq hv]
  refine overflow_or_bind_checked fun _ => ?_
  exact overflow_or_bind_checked fun _ => .inr rfl

theorem makeGasLog_exact {k : Nat} (hgc : memoryGasCost mem n = .ok (fee, mem')) :
    makeGasLog k stack mem n = .error .gasUintOverflow ∨
      makeGasLog k stack mem n = .ok (fee + logGas + k * logTopicGas + back stack 1 * logDataGas, mem') := by
  unfold makeGasLog
  refine overflow_or_bind_checked fun _ => ?_
  simp only [hgc, ok_bind]
  refine overflow_or_bind_checked fun _ => ?_
  refine overflow_or_bind_checked fun _ => ?_
  refine overflow_or_bind_checked fun _ => ?_
  exact overflow_or_bind_checked fun _ => .inr rfl

/-- For a contract holding `base`, `callGas` is exact. -/
theorem callGas_exact {isEip150 : Bool} {availableGas base callCost : Nat} (ha : availableGas < 2 ^ 64)
    (hbase : isEip150 = true → base ≤ availableGas) :
    callGas isEip150 availableGas base callCost = .error .gasUintOverflow ∨
      callGas isEip150 availableGas base callCost = .ok (callGasSpec isEip150 availableGas base callCost) := by
  unfold callGas callGasSpec allButOne64th
  cases isEip150
  case false =>
    simp only [Bool.false_eq_true, false_and, if_false]
    split_ifs with hc
    · exact .inl rfl
    · exact .inr (by rw [toUint64_of_lt (Nat.lt_of_not_le hc)])
  case true =>
    -- with the contract holding `base`, the `uint64` subtraction is exact
    have hsub : (availableGas + (2 ^ 64 - base)) % 2 ^ 64 = availableGas - base := by
      have := hbase rfl
      omega
    simp only [hsub, true_and, if_true]
    unfold toUint64
    right
    split_ifs with hcap hc
    · congr 1
      omega
    · omega
    · congr 1
      rw [Nat.mod_eq_of_lt (Nat.lt_of_not_le hc)]
      omega

theorem callGasTail_exact {env : GasEnv} {gas : Nat} (hbase : env.isEIP150 = true → gas ≤ env.contractGas) :
    callGasTail env stack gas mem = .error .gasUintOverflow ∨
      callGasTail env stack gas mem = .ok (gas + callGasSpec env.isEIP150 env.contractGas gas (back stack 0), mem) := by
  unfold callGasTail
  rcases @callGas_exact _ _ _ (back stack 0) env.contractGas_lt hbase with h | h
  · simp [h, bind, Except.bind]
  · simp only [h, bind, Except.bind, checked_safeAdd]
    split_ifs
    · exact .inl rfl
    · exact .inr rfl

/-- What the call gas functions do after the memory: add what they charge
to the memory fee and pass the sum to the tail. -/
theorem safeAdd_callGasTail_exact {env : GasEnv} {extra : Nat}
    (hbase : env.isEIP150 = true → extra + fee ≤ env.contractGas) :
    (checked (safeAdd extra fee) >>= fun gas => callGasTail env stack gas mem') = .error .gasUintOverflow ∨
      (checked (safeAdd extra fee) >>= fun gas => callGasTail env stack gas mem') =
        .ok (extra + fee + callGasSpec env.isEIP150 env.contractGas (extra + fee) (back stack 0), mem') := by
  rw [checked_safeAdd]
  split_ifs
  · exact .inl rfl
  · exact callGasTail_exact hbase

/-- **Every dynamic gas function of a memory opcode is exact**, for a
contract that holds what a call charges before `callGas`: it reports an
overflow or charges `exactGas`, with the memory `memoryGasCost` returns. -/
theorem dynamicGas_exact (op : MemOp) (env : GasEnv) (hgc : memoryGasCost mem n = .ok (fee, mem'))
    (hbase : env.isEIP150 = true → ∀ base, op.callBase env stack fee = some base → base ≤ env.contractGas) :
    op.dynamicGas env stack mem n = .error .gasUintOverflow ∨
      op.dynamicGas env stack mem n = .ok (op.exactGas env stack fee, mem') := by
  cases op
  case call =>
    simp only [MemOp.dynamicGas, gasCall, hgc, bind, Except.bind]
    exact safeAdd_callGasTail_exact fun h => hbase h _ rfl
  case callCode =>
    simp only [MemOp.dynamicGas, gasCallCode, hgc, bind, Except.bind]
    exact safeAdd_callGasTail_exact fun h => hbase h _ rfl
  case delegateCall =>
    simp only [MemOp.dynamicGas, gasDelegateCall, hgc, bind, Except.bind]
    exact callGasTail_exact fun h => hbase h _ rfl
  case staticCall =>
    simp only [MemOp.dynamicGas, gasStaticCall, hgc, bind, Except.bind]
    exact callGasTail_exact fun h => hbase h _ rfl
  case log k => exact makeGasLog_exact hgc
  all_goals first
    | exact memoryWordGas_exact hgc
    | exact .inr hgc

/-! ## What a gas function charges, exact or not -/

theorem error_of_memoryGasCost {e : VmError} (h : memoryGasCost mem n = .error e) : e = .gasUintOverflow := by
  unfold memoryGasCost at h
  dsimp only at h
  split_ifs at h
  cases h
  rfl

/-- A gas function fails where `memoryGasCost` does, with its error. -/
theorem dynamicGas_of_memoryGasCost_error (op : MemOp) (env : GasEnv) {e : VmError}
    (h : memoryGasCost mem n = .error e) : op.dynamicGas env stack mem n = .error .gasUintOverflow := by
  obtain rfl := error_of_memoryGasCost h
  cases op
  case log k =>
    simp only [MemOp.dynamicGas, makeGasLog, checked_uint64WithOverflow]
    split_ifs <;> simp [h]
  all_goals
    simp [MemOp.dynamicGas, gasSha3, gasCallDataCopy, gasReturnDataCopy, gasCodeCopy, gasExtCodeCopy,
      memoryCopierGas, gasCreate2, memoryWordGas, pureMemoryGascost, gasCall, gasCallCode, gasDelegateCall,
      gasStaticCall, h]

/-- Whatever `callGas` passes on, the tail charges at least what was charged
before it, and keeps the memory. -/
theorem le_of_callGasTail {env : GasEnv} {gas total : Nat} {m : Memory}
    (h : callGasTail env stack gas mem' = .ok (total, m)) : gas ≤ total ∧ m = mem' := by
  unfold callGasTail at h
  obtain ⟨g, -, h⟩ := bind_eq_ok.1 h
  obtain ⟨t, ht, h⟩ := bind_eq_ok.1 h
  rw [checked_safeAdd] at ht
  split_ifs at ht
  cases ht
  cases h
  exact ⟨Nat.le_add_right _ _, rfl⟩

theorem le_of_safeAdd_callGasTail {env : GasEnv} {extra total : Nat} {m : Memory}
    (h : (checked (safeAdd extra fee) >>= fun gas => callGasTail env stack gas mem') = .ok (total, m)) :
    extra + fee ≤ total ∧ m = mem' := by
  obtain ⟨gas, hgas, h⟩ := bind_eq_ok.1 h
  rw [checked_safeAdd] at hgas
  split_ifs at hgas
  cases hgas
  exact le_of_callGasTail h

/-- What a call charges is at least what it charges before `callGas`, and
the memory is the one `memoryGasCost` returns. -/
theorem callBase_le_of_dynamicGas {op : MemOp} {env : GasEnv} {base total : Nat} {m : Memory}
    (hgc : memoryGasCost mem n = .ok (fee, mem')) (hb : op.callBase env stack fee = some base)
    (h : op.dynamicGas env stack mem n = .ok (total, m)) : base ≤ total ∧ m = mem' := by
  cases op <;> simp only [MemOp.callBase, reduceCtorEq, Option.some.injEq] at hb <;> subst hb
  case call =>
    simp only [MemOp.dynamicGas, gasCall, hgc, ok_bind] at h
    exact le_of_safeAdd_callGasTail h
  case callCode =>
    simp only [MemOp.dynamicGas, gasCallCode, hgc, ok_bind] at h
    exact le_of_safeAdd_callGasTail h
  case delegateCall =>
    simp only [MemOp.dynamicGas, gasDelegateCall, hgc, ok_bind] at h
    exact le_of_callGasTail h
  case staticCall =>
    simp only [MemOp.dynamicGas, gasStaticCall, hgc, ok_bind] at h
    exact le_of_callGasTail h

/-- **The one inexact charge is unaffordable, as the exact one is.** Under
EIP-150 `callGas` wraps when a call's charge before it is more than the
contract holds; what the call then charges is more than the contract holds,
and so is `exactGas`. -/
theorem dynamicGas_of_lt_callBase (op : MemOp) (env : GasEnv) {base total : Nat} {m : Memory}
    (hgc : memoryGasCost mem n = .ok (fee, mem')) (hb : op.callBase env stack fee = some base)
    (hlt : env.contractGas < base) (h : op.dynamicGas env stack mem n = .ok (total, m)) :
    env.contractGas < total ∧ env.contractGas < op.exactGas env stack fee := by
  have hexact : base ≤ op.exactGas env stack fee := by
    simp only [MemOp.exactGas, hb]
    exact Nat.le_add_right _ _
  exact ⟨Nat.lt_of_lt_of_le hlt (callBase_le_of_dynamicGas hgc hb h).1, Nat.lt_of_lt_of_le hlt hexact⟩

/-- **Every gas function charges the memory expansion**: it succeeds only
where `memoryGasCost` does, with the memory that one returns. -/
theorem memoryGasCost_of_dynamicGas (op : MemOp) (env : GasEnv) {cost : Nat}
    (h : op.dynamicGas env stack mem n = .ok (cost, mem')) : ∃ fee, memoryGasCost mem n = .ok (fee, mem') := by
  cases hgc : memoryGasCost mem n with
  | error e =>
    rw [dynamicGas_of_memoryGasCost_error op env hgc] at h
    cases h
  | ok p =>
    obtain ⟨fee, m⟩ := p
    refine ⟨fee, ?_⟩
    by_cases hcall : ∃ base, op.callBase env stack fee = some base
    · obtain ⟨base, hb⟩ := hcall
      rw [(callBase_le_of_dynamicGas hgc hb h).2]
    · -- not a call: exact with no condition on the contract's gas
      rcases dynamicGas_exact op env hgc (fun _ base hb => absurd ⟨base, hb⟩ hcall) with h' | h' <;>
        rw [h'] at h <;> cases h
      rfl

end Exact

end Xdchain.Vm
