import Xdchain.Vm.Gas

/-! # The memory steps of `Run`

The memory part of `EVMInterpreter.Run` in `core/vm/interpreter.go`: the
opcode's `memorySize`, rounded to words with `SafeMul`, its dynamic gas and
`UseGas`, the resize, and the execute function. A step that gets past its
gas never panics, and every range the opcode touches lies inside the
resized memory. Over a run of such steps from `NewMemory` the memory stays
priced, so that every `memoryGasCost` is exact. -/

namespace Xdchain.Vm

/-- A step of `Run` for a memory opcode, from the memory sizing to the
execute function, for a contract holding `env.contractGas` after the
constant gas; any error of the gas function is `ErrOutOfGas`, as `Run`
returns it. The result is the gas left and the memory after the opcode,
`none` for a panic. -/
def runMemoryOp (op : MemOp) (env : GasEnv) (stack : List Nat) (mem : Memory) (value : List UInt8) :
    Except VmError (Nat × Option Memory) :=
  let (memSize, overflow) := op.memorySize stack
  if overflow then .error .gasUintOverflow
  else
    -- memory is expanded in words of 32 bytes
    let (memorySize, overflow) := safeMul (toWordSize memSize) 32
    if overflow then .error .gasUintOverflow
    else
      match op.dynamicGas env stack mem memorySize with
      | .ok (dynamicCost, mem) =>
        -- `contract.UseGas(dynamicCost)`
        if env.contractGas < dynamicCost then .error .outOfGas
        else
          let mem := if memorySize > 0 then mem.resize memorySize else mem
          .ok (env.contractGas - dynamicCost, op.execute stack value mem)
      | .error _ => .error .outOfGas

/-- What a step that gets past its gas did: sized the opcode without an
overflow, charged its dynamic gas, and ran the execute function on the
resized memory. -/
theorem runMemoryOp_eq_ok {op : MemOp} {env : GasEnv} {stack : List Nat} {mem : Memory} {value : List UInt8}
    {gas : Nat} {r : Option Memory} (h : runMemoryOp op env stack mem value = .ok (gas, r)) :
    ∃ memorySize cost mem', (op.memorySize stack).2 = false ∧
      memorySize = toWordSize (op.memorySize stack).1 * 32 ∧
      op.dynamicGas env stack mem memorySize = .ok (cost, mem') ∧ cost ≤ env.contractGas ∧
      gas = env.contractGas - cost ∧ r = op.execute stack value (mem'.resize memorySize) := by
  unfold runMemoryOp at h
  generalize hms : op.memorySize stack = ms at h
  obtain ⟨memSize, overflow⟩ := ms
  cases overflow
  case true => simp at h
  simp only [Bool.false_eq_true, ↓reduceIte] at h
  have hmul := safeMul_sizesExactly (toWordSize memSize) 32
  generalize safeMul (toWordSize memSize) 32 = mm at h hmul
  obtain ⟨memorySize, ov⟩ := mm
  cases ov
  case true => simp at h
  simp only [Bool.false_eq_true, ↓reduceIte] at h
  cases hdg : op.dynamicGas env stack mem memorySize with
  | error e => rw [hdg] at h; cases h
  | ok p =>
    obtain ⟨cost, mem'⟩ := p
    rw [hdg] at h
    dsimp only at h
    by_cases hgas : env.contractGas < cost
    · rw [if_pos hgas] at h
      cases h
    rw [if_neg hgas] at h
    cases h
    -- resizing to nothing leaves the memory as it is
    have hresize : (if memorySize > 0 then mem'.resize memorySize else mem') = mem'.resize memorySize := by
      split_ifs with hpos
      · rfl
      · exact (Memory.resize_of_le (by omega)).symm
    exact ⟨memorySize, cost, mem', rfl, hmul.2 rfl, hdg, by omega, rfl, by rw [hresize]⟩

/-- **A memory opcode stays in bounds.** A step that gets past its gas never
panics, and every range the opcode touches lies inside the word-rounded
size it was charged for, which the resize establishes. -/
theorem runMemoryOp_in_bounds {op : MemOp} {env : GasEnv} {stack : List Nat} {mem : Memory}
    {value : List UInt8} {gas : Nat} {r : Option Memory} (h : runMemoryOp op env stack mem value = .ok (gas, r)) :
    r.isSome ∧ ∀ acc ∈ op.accesses stack, acc.2 ≠ 0 → acc.1 + acc.2 ≤ toWordSize (op.memorySize stack).1 * 32 := by
  obtain ⟨memorySize, cost, mem', hov, rfl, hdg, -, -, rfl⟩ := runMemoryOp_eq_ok h
  obtain ⟨fee, hgc⟩ := memoryGasCost_of_dynamicGas op env hdg
  -- `memoryGasCost` bounds the size, so every range ends below `2 ^ 63`
  have hbound := le_of_memoryGasCost hgc
  have hround : (op.memorySize stack).1 ≤ toWordSize (op.memorySize stack).1 * 32 := by
    rw [toWordSize_eq (memorySize_fst_lt op stack)]
    omega
  have hin : ∀ acc ∈ op.accesses stack, acc.2 ≠ 0 → acc.1 + acc.2 ≤ toWordSize (op.memorySize stack).1 * 32 :=
    fun acc hacc h0 => Nat.le_trans (memorySize_covers hov acc hacc h0) hround
  refine ⟨execute_isSome value fun acc hacc h0 => ⟨?_, ?_⟩, hin⟩
  · exact Nat.le_trans (hin acc hacc h0) (Memory.length_resize _ _)
  · have := hin acc hacc h0
    omega

/-! ## The price invariant over a step -/

/-- The resize after `memoryGasCost` leaves a priced memory priced. -/
theorem priced_resize {mem mem' : Memory} {memorySize fee : Nat} (hp : mem.Priced) (hal : memorySize % 32 = 0)
    (hgc : memoryGasCost mem memorySize = .ok (fee, mem')) : (mem'.resize memorySize).Priced := by
  rw [memoryGasCost_of_priced hp] at hgc
  split_ifs at hgc with h0 hbig hgrow
  · cases hgc
    rw [Memory.resize_of_le (by omega)]
    exact hp
  · -- the memory grows to `memorySize`, whose fee `memoryGasCost` records
    cases hgc
    have hlen : ({ mem with lastGasCost := memoryFee ((memorySize + 31) / 32) }.resize memorySize).store.length =
        memorySize := Memory.length_resize_of_lt (by dsimp only; omega)
    refine ⟨by rw [hlen]; exact hal, ?_⟩
    rw [Memory.lastGasCost_resize, hlen]
    show memoryFee ((memorySize + 31) / 32) = memoryFee (memorySize / 32)
    congr 1
    omega
  · cases hgc
    rw [Memory.resize_of_le (by omega)]
    exact hp

/-- A step keeps the memory priced. -/
theorem priced_of_runMemoryOp {op : MemOp} {env : GasEnv} {stack : List Nat} {mem mem'' : Memory}
    {value : List UInt8} {gas : Nat} (hp : mem.Priced)
    (h : runMemoryOp op env stack mem value = .ok (gas, some mem'')) : mem''.Priced := by
  obtain ⟨memorySize, cost, mem', -, hms, hdg, -, -, hr⟩ := runMemoryOp_eq_ok h
  obtain ⟨fee, hgc⟩ := memoryGasCost_of_dynamicGas op env hdg
  have hresized := priced_resize hp (by rw [hms]; omega) hgc
  obtain ⟨hlen, hcost⟩ := frame_of_execute hr.symm
  exact ⟨hlen ▸ hresized.aligned, by rw [hcost, hlen]; exact hresized.lastGasCost_eq⟩

/-! ## Runs of memory steps -/

/-- One memory opcode of a run: the opcode, what its gas function reads, the
stack it finds and the bytes it writes. -/
structure MemStep where
  op : MemOp
  env : GasEnv
  stack : List Nat
  value : List UInt8

/-- A contract's memory through memory opcodes one after another, up to the
first that fails; `none` for a panic. The opcodes between them do not touch
memory. -/
def runMemoryOps : List MemStep → Memory → Except VmError (Option Memory)
  | [], mem => .ok (some mem)
  | st :: sts, mem =>
    match runMemoryOp st.op st.env st.stack mem st.value with
    | .ok (_, some mem) => runMemoryOps sts mem
    | .ok (_, none) => .ok none
    | .error e => .error e

/-- No run of memory steps panics. -/
theorem runMemoryOps_ne_none (sts : List MemStep) (mem : Memory) : runMemoryOps sts mem ≠ .ok none := by
  induction sts generalizing mem with
  | nil => simp [runMemoryOps]
  | cons st sts ih =>
    unfold runMemoryOps
    cases hstep : runMemoryOp st.op st.env st.stack mem st.value with
    | error e => simp
    | ok p =>
      obtain ⟨gas, r⟩ := p
      cases r with
      | none => exact absurd (runMemoryOp_in_bounds hstep).1 (by simp)
      | some mem' => exact ih mem'

/-- Every run of memory steps keeps the memory priced. -/
theorem runMemoryOps_priced {sts : List MemStep} {mem mem' : Memory} (hp : mem.Priced)
    (h : runMemoryOps sts mem = .ok (some mem')) : mem'.Priced := by
  induction sts generalizing mem with
  | nil =>
    simp only [runMemoryOps, Except.ok.injEq, Option.some.injEq] at h
    exact h ▸ hp
  | cons st sts ih =>
    unfold runMemoryOps at h
    cases hstep : runMemoryOp st.op st.env st.stack mem st.value with
    | error e => rw [hstep] at h; cases h
    | ok p =>
      obtain ⟨gas, r⟩ := p
      rw [hstep] at h
      cases r with
      | none => cases h
      | some m => exact ih (priced_of_runMemoryOp hp hstep) h

/-! ## Memory accesses and gas arithmetic -/

/-- **Memory accesses stay in bounds, and the gas arithmetic of the memory
opcodes is exact, up to calls the contract cannot pay for.** A step that
gets past its gas never panics, every range it touches lies below the size
given to `Resize`, and no run panics. Every `memorySize`, `toWordSize` and
`SafeMul` is exact or reports an overflow; along every run from
`NewMemory` the memory stays priced, so that `memoryGasCost` charges the
exact difference of fees. Every dynamic gas function reports an overflow or
charges `exactGas` for a contract that holds what a call charges before
`callGas`; for one that does not, a call's charge is not exact, but it is,
like the exact one, more than the contract holds. -/
theorem memory_in_bounds_and_gas_exact_or_unaffordable :
    (∀ (op : MemOp) (env : GasEnv) stack mem value gas (r : Option Memory),
      runMemoryOp op env stack mem value = .ok (gas, r) →
        r.isSome ∧ ∀ acc ∈ op.accesses stack, acc.2 ≠ 0 → acc.1 + acc.2 ≤ toWordSize (op.memorySize stack).1 * 32) ∧
    (∀ (m : Memory) size, size ≤ (m.resize size).store.length) ∧
    (∀ sts mem, runMemoryOps sts mem ≠ .ok none) ∧
    (∀ (op : MemOp) stack, SizesExactly (op.memorySize stack) (op.requiredSize stack)) ∧
    (∀ size, size < 2 ^ 64 → toWordSize size = (size + 31) / 32) ∧
    (∀ x y, SizesExactly (safeMul x y) (x * y)) ∧
    (∀ sts mem, runMemoryOps sts newMemory = .ok (some mem) → mem.Priced) ∧
    (∀ mem : Memory, mem.Priced → ∀ n, memoryGasCost mem n =
      if n = 0 then .ok (0, mem)
      else if n > 0x1FFFFFFFE0 then .error .gasUintOverflow
      else if (n + 31) / 32 * 32 > mem.store.length then
        .ok (memoryFee ((n + 31) / 32) - mem.lastGasCost, { mem with lastGasCost := memoryFee ((n + 31) / 32) })
      else .ok (0, mem)) ∧
    (∀ a b, a ≤ b → memoryFee a ≤ memoryFee b) ∧
    (∀ (op : MemOp) (env : GasEnv) stack mem n fee mem', memoryGasCost mem n = .ok (fee, mem') →
      (env.isEIP150 = true → ∀ base, op.callBase env stack fee = some base → base ≤ env.contractGas) →
      op.dynamicGas env stack mem n = .error .gasUintOverflow ∨
        op.dynamicGas env stack mem n = .ok (op.exactGas env stack fee, mem')) ∧
    (∀ (op : MemOp) (env : GasEnv) stack mem n fee mem' base total m, memoryGasCost mem n = .ok (fee, mem') →
      op.callBase env stack fee = some base → env.contractGas < base →
      op.dynamicGas env stack mem n = .ok (total, m) →
        env.contractGas < total ∧ env.contractGas < op.exactGas env stack fee) :=
  ⟨fun _ _ _ _ _ _ _ h => runMemoryOp_in_bounds h, Memory.length_resize, runMemoryOps_ne_none,
    memorySize_sizesExactly, fun _ h => toWordSize_eq h, safeMul_sizesExactly,
    fun _ _ h => runMemoryOps_priced newMemory_priced h, fun _ hp => memoryGasCost_of_priced hp,
    fun _ _ h => memoryFee_mono h,
    fun op env _ _ _ _ _ hgc hbase => dynamicGas_exact op env hgc hbase,
    fun op env _ _ _ _ _ _ _ _ hgc hb hlt h => dynamicGas_of_lt_callBase op env hgc hb hlt h⟩

/-- A contract with no gas left, under EIP-150 and EIP-158, for which every
address exists and none is empty. -/
def noGasEnv : GasEnv where
  isEIP150 := true
  isEIP158 := true
  contractGas := 0
  contractGas_lt := by decide
  empty := fun _ => false
  exist := fun _ => true

/-- A `CALL` of value `1` from a contract with no gas left: `callGas` takes
all but one 64th of `0 - 9000` in `uint64`, and `gasCall` charges
`2 ^ 64 - 2 ^ 58 + 141` with no error, where the exact charge is `9000`.
The step fails with `ErrOutOfGas`, as it does in exact arithmetic. -/
theorem gasCall_wraps_for_contract_without_gas :
    gasCall noGasEnv [2 ^ 64, 0, 1] newMemory 0 = .ok (2 ^ 64 - 2 ^ 58 + 141, newMemory) ∧
      MemOp.exactGas .call noGasEnv [2 ^ 64, 0, 1] 0 = 9000 ∧
      runMemoryOp .call noGasEnv [2 ^ 64, 0, 1] newMemory [] = .error .outOfGas := by
  decide

/-! ## Memory expansion gas telescopes -/

/-- `memoryGasCost` and the `Resize` to the word-rounded size after it, size
after size, as `Run` charges and grows a contract's memory; the fees are
added up. -/
def expandMemory : List Nat → Memory → Except VmError (Nat × Memory)
  | [], mem => .ok (0, mem)
  | size :: sizes, mem =>
    match memoryGasCost mem size with
    | .ok (fee, mem) => (expandMemory sizes (mem.resize (toWordSize size * 32))).map fun r => (fee + r.1, r.2)
    | .error e => .error e

/-- `memoryGasCost` rounds the size to words first, and the bound is a whole
number of words. -/
theorem memoryGasCost_round (mem : Memory) {size : Nat} (hs : size ≤ 0x1FFFFFFFE0) :
    memoryGasCost mem size = memoryGasCost mem (toWordSize size * 32) := by
  have hw : toWordSize size = (size + 31) / 32 := toWordSize_eq (by omega)
  have hr : toWordSize (toWordSize size * 32) = toWordSize size := by
    rw [toWordSize_eq (by omega), hw]
    omega
  unfold memoryGasCost
  by_cases h0 : size = 0
  · subst h0
    rfl
  · rw [if_neg h0, if_neg (show ¬ toWordSize size * 32 = 0 by omega), if_neg (show ¬ size > 0x1FFFFFFFE0 by omega),
      if_neg (show ¬ toWordSize size * 32 > 0x1FFFFFFFE0 by omega), hr]

/-- On a priced memory `lastGasCost` grows by the fee charged: the new total
is never below the old one. -/
theorem lastGasCost_add_fee {mem mem' : Memory} {n fee : Nat} (hp : mem.Priced)
    (h : memoryGasCost mem n = .ok (fee, mem')) : mem.lastGasCost + fee = mem'.lastGasCost := by
  rw [memoryGasCost_of_priced hp] at h
  split_ifs at h with h0 hbig hgrow
  · cases h
    rfl
  · cases h
    have hle : mem.lastGasCost ≤ memoryFee ((n + 31) / 32) := by
      rw [hp.lastGasCost_eq]
      exact memoryFee_mono (by omega)
    dsimp only
    omega
  · cases h
    rfl

/-- One size: the fee is charged without an error, and the resized memory is
priced, its `lastGasCost` grown by the fee. -/
theorem expandMemory_step {mem : Memory} (hp : mem.Priced) {size : Nat} (hs : size ≤ 0x1FFFFFFFE0) :
    ∃ fee mem', memoryGasCost mem size = .ok (fee, mem') ∧ (mem'.resize (toWordSize size * 32)).Priced ∧
      mem.lastGasCost + fee = (mem'.resize (toWordSize size * 32)).lastGasCost := by
  have hok : ∃ fee mem', memoryGasCost mem size = .ok (fee, mem') := by
    rw [memoryGasCost_of_priced hp]
    split_ifs <;> first | omega | exact ⟨_, _, rfl⟩
  obtain ⟨fee, mem', h⟩ := hok
  refine ⟨fee, mem', h, priced_resize hp (by omega) ((memoryGasCost_round mem hs).symm.trans h), ?_⟩
  rw [Memory.lastGasCost_resize]
  exact lastGasCost_add_fee hp h

/-- **The fees of a run add up to the change of `lastGasCost`**, by
induction on the sizes, the memory priced throughout. -/
theorem expandMemory_priced :
    ∀ (sizes : List Nat) {mem : Memory}, mem.Priced → (∀ s ∈ sizes, s ≤ 0x1FFFFFFFE0) →
      ∃ total mem', expandMemory sizes mem = .ok (total, mem') ∧ mem'.Priced ∧
        mem.lastGasCost + total = mem'.lastGasCost
  | [], mem, hp, _ => ⟨0, mem, rfl, hp, rfl⟩
  | size :: sizes, mem, hp, hs => by
    obtain ⟨fee, mem1, h1, hp1, hl1⟩ := expandMemory_step hp (hs size (by simp))
    obtain ⟨total, mem', h2, hp', hl2⟩ :=
      expandMemory_priced sizes hp1 fun s hs' => hs s (List.mem_cons_of_mem size hs')
    refine ⟨fee + total, mem', ?_, hp', by omega⟩
    rw [expandMemory, h1]
    dsimp only
    rw [h2]
    rfl

/-- For at most `0x1FFFFFFFE0` bytes the words, their square, the linear
coefficient and the total fee all fit in a `uint64`. -/
theorem memoryFee_fits {size : Nat} (hs : size ≤ 0x1FFFFFFFE0) :
    toWordSize size * 32 < 2 ^ 64 ∧ toWordSize size * toWordSize size < 2 ^ 64 ∧
      toWordSize size * memoryGas < 2 ^ 64 ∧ memoryFee (toWordSize size) < 2 ^ 64 := by
  have hw : toWordSize size ≤ 0xFFFFFFFF := by
    rw [toWordSize_eq (by omega)]
    omega
  have hsq : toWordSize size * toWordSize size ≤ 0xFFFFFFFF * 0xFFFFFFFF := Nat.mul_le_mul hw hw
  unfold memoryFee memoryGas quadCoeffDiv
  omega

/-- **Memory expansion gas telescopes.** From `NewMemory`, any sizes within
the bound are charged without an error, and the fees add up to
`3 w + w² / 512` for the `w` words the memory ends with, a whole number of
them; no product or sum of `memoryGasCost` leaves 64 bits; whenever the
memory grows its recorded fee is at most the new total, so no fee wraps
below zero; a size above the bound is `ErrGasUintOverflow`. -/
theorem memoryGasCost_telescopes :
    (∀ sizes : List Nat, (∀ s ∈ sizes, s ≤ 0x1FFFFFFFE0) →
      ∃ total mem, expandMemory sizes newMemory = .ok (total, mem) ∧ mem.store.length % 32 = 0 ∧
        total = memoryFee (mem.store.length / 32)) ∧
    memoryFee 0 = 0 ∧
    (∀ size, size ≤ 0x1FFFFFFFE0 →
      toWordSize size * 32 < 2 ^ 64 ∧ toWordSize size * toWordSize size < 2 ^ 64 ∧
        toWordSize size * memoryGas < 2 ^ 64 ∧ memoryFee (toWordSize size) < 2 ^ 64) ∧
    (∀ mem : Memory, mem.Priced → ∀ size, size ≤ 0x1FFFFFFFE0 → mem.store.length < toWordSize size * 32 →
      mem.lastGasCost ≤ memoryFee (toWordSize size)) ∧
    (∀ mem : Memory, ∀ size, 0x1FFFFFFFE0 < size → memoryGasCost mem size = .error .gasUintOverflow) := by
  refine ⟨fun sizes hs => ?run, rfl, fun _ hs => memoryFee_fits hs, fun mem hp size hs hgrow => ?grow,
    fun mem size hs => ?big⟩
  case run =>
    obtain ⟨total, mem, h, hp, hl⟩ := expandMemory_priced sizes newMemory_priced hs
    refine ⟨total, mem, h, hp.aligned, ?_⟩
    rw [← hp.lastGasCost_eq, ← hl]
    simp [newMemory]
  case grow =>
    rw [hp.lastGasCost_eq]
    exact memoryFee_mono (by omega)
  case big =>
    rw [memoryGasCost, if_neg (by omega), if_pos hs]

/-- Three sizes from `NewMemory`, a growth checked against the recorded fee,
and a size one byte above the bound. -/
theorem memoryGasCost_telescopes_at_samples :
    (∃ total mem, expandMemory [64, 1, 100] newMemory = .ok (total, mem) ∧ mem.store.length % 32 = 0 ∧
        total = memoryFee (mem.store.length / 32)) ∧
      newMemory.lastGasCost ≤ memoryFee (toWordSize 64) ∧
      memoryGasCost newMemory 0x1FFFFFFFE1 = .error .gasUintOverflow :=
  ⟨memoryGasCost_telescopes.1 [64, 1, 100] (by decide),
    memoryGasCost_telescopes.2.2.2.1 newMemory newMemory_priced 64 (by decide) (by decide),
    memoryGasCost_telescopes.2.2.2.2 newMemory 0x1FFFFFFFE1 (by decide)⟩

end Xdchain.Vm
