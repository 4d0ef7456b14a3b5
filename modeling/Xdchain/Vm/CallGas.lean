import Xdchain.Vm.Interpreter

/-! # The gas of the call opcodes

Under EIP-150 a call opcode charges in `Run` its constant gas, under
EIP-2929 the surcharge of a cold callee (`makeCallVariantGasCallEIP2929`
takes it from `contract.Gas` before the old calculator reads it), and then
its dynamic gas: a new account, a value transfer and the memory expansion,
the `base`, plus what `callGas` lets it pass on. The gas function leaves
that amount in `evm.callGasTemp`, and `opCall` and its variants hand it to
`evm.Call`, with the stipend for a value transfer.

`callGas` subtracts `base` from the contract's gas in `uint64`, so for a
contract holding less than `base` it takes all but one 64th of a wrapped
value. Such a call never proceeds: what the gas function charges is then
more than the contract holds, and `UseGas` fails. A call that proceeds pays
exactly `base` and the forwarded gas, keeps at least one 64th of what was
left after `base`, and forwards no more than the caller had
(`call_charges_base_and_forwards`). -/

namespace Xdchain.Vm

def callStipend : Nat := 2300

def coldAccountAccessCostEIP2929 : Nat := 2600

def warmStorageReadCostEIP2929 : Nat := 100

/-- The first half of `makeCallVariantGasCallEIP2929`: a cold callee costs
`ColdAccountAccessCostEIP2929 - WarmStorageReadCostEIP2929` more, taken by
`contract.UseGas`; `none` for `ErrOutOfGas`. -/
def coldCharge (env : GasEnv) (cold : Bool) : Option GasEnv :=
  if cold then
    if env.contractGas < coldAccountAccessCostEIP2929 - warmStorageReadCostEIP2929 then none
    else
      some
        { env with
          contractGas := env.contractGas - (coldAccountAccessCostEIP2929 - warmStorageReadCostEIP2929)
          contractGas_lt := Nat.lt_of_le_of_lt (Nat.sub_le _ _) env.contractGas_lt }
  else some env

/-- The `evm.callGasTemp` a call's gas function stores: `callGas` over what
it charged before, once that sum passed `SafeAdd`. -/
def MemOp.callGasTemp (op : MemOp) (env : GasEnv) (stack : List Nat) (mem : Memory) (memorySize : Nat) :
    Except VmError Nat := do
  let (fee, _) ← memoryGasCost mem memorySize
  match op.callBase env stack fee with
  | some gas => if 2 ^ 64 ≤ gas then .error .gasUintOverflow else callGas env.isEIP150 env.contractGas gas (back stack 0)
  | none => .error .gasUintOverflow

/-- Whether the opcode transfers value: `CALL` and `CALLCODE` with a
non-zero `Back(2)`. -/
def MemOp.transfersValue (op : MemOp) (stack : List Nat) : Bool :=
  match op with
  | .call | .callCode => back stack 2 ≠ 0
  | _ => false

/-- The gas `opCall` and its variants hand to `evm.Call`: `callGasTemp`, and
`gas += params.CallStipend` in `uint64` for a value transfer. -/
def MemOp.calleeGas (op : MemOp) (stack : List Nat) (callGasTemp : Nat) : Nat :=
  if op.transfersValue stack then (callGasTemp + callStipend) % 2 ^ 64 else callGasTemp

/-- A call opcode's gas in `Run` after its constant gas: the cold surcharge,
the dynamic gas and `UseGas`; the gas left to the caller and the gas handed
to the callee. Any error before the call is `ErrOutOfGas`, as `Run` returns
it. -/
def callStep (op : MemOp) (env : GasEnv) (cold : Bool) (stack : List Nat) (mem : Memory) (memorySize : Nat) :
    Except VmError (Nat × Nat) :=
  match coldCharge env cold with
  | none => .error .outOfGas
  | some env =>
    match op.dynamicGas env stack mem memorySize, op.callGasTemp env stack mem memorySize with
    | .ok (dynamicCost, _), .ok callGasTemp =>
      if env.contractGas < dynamicCost then .error .outOfGas
      else .ok (env.contractGas - dynamicCost, op.calleeGas stack callGasTemp)
    | _, _ => .error .outOfGas

/-! ## `callGas` and `callGasTemp` for a contract holding `base` -/

/-- A call opcode, the only ones with a `callBase`. -/
def MemOp.IsCall (op : MemOp) : Prop :=
  op = .call ∨ op = .callCode ∨ op = .delegateCall ∨ op = .staticCall

theorem MemOp.callBase_isSome {op : MemOp} (hop : op.IsCall) (env : GasEnv) (stack : List Nat) (fee : Nat) :
    (op.callBase env stack fee).isSome := by
  rcases hop with rfl | rfl | rfl | rfl <;> rfl

theorem allButOne64th_le (gas : Nat) : allButOne64th gas ≤ gas := Nat.sub_le _ _

/-- Under EIP-150, for a contract holding `base`, `callGas` passes on the
request capped at all but one 64th of what is left, and never fails. -/
theorem callGas_of_le {availableGas base callCost : Nat} (ha : availableGas < 2 ^ 64)
    (hbase : base ≤ availableGas) :
    callGas true availableGas base callCost = .ok (min callCost (allButOne64th (availableGas - base))) := by
  -- with the contract holding `base`, the `uint64` subtraction is exact
  have hsub : (availableGas + (2 ^ 64 - base)) % 2 ^ 64 = availableGas - base := by omega
  unfold callGas allButOne64th toUint64
  simp only [hsub, true_and]
  split_ifs with hcap hbig
  · congr 1
    omega
  · exact absurd (Or.inl hbig) hcap
  · congr 1
    rw [Nat.mod_eq_of_lt (Nat.lt_of_not_le hbig)] at hcap ⊢
    omega

theorem callGasTemp_of_le {op : MemOp} {env : GasEnv} {stack : List Nat} {mem mem' : Memory}
    {memorySize fee base : Nat} (h150 : env.isEIP150 = true)
    (hgc : memoryGasCost mem memorySize = .ok (fee, mem')) (hb : op.callBase env stack fee = some base)
    (hbase : base ≤ env.contractGas) :
    op.callGasTemp env stack mem memorySize =
      .ok (min (back stack 0) (allButOne64th (env.contractGas - base))) := by
  have hlt : ¬ 2 ^ 64 ≤ base := by
    have := env.contractGas_lt
    omega
  simp only [MemOp.callGasTemp, hgc, bind, Except.bind, hb, if_neg hlt, h150]
  exact callGas_of_le env.contractGas_lt hbase

/-- The forwarded gas is at most all but one 64th of a `uint64`, so the
stipend does not wrap. -/
theorem calleeGas_of_le (op : MemOp) (stack : List Nat) {c gas : Nat} (hgas : gas < 2 ^ 64)
    (hc : c ≤ allButOne64th gas) :
    op.calleeGas stack c = c + if op.transfersValue stack then callStipend else 0 := by
  unfold MemOp.calleeGas
  split_ifs
  · unfold allButOne64th at hc
    unfold callStipend
    exact Nat.mod_eq_of_lt (by omega)
  · rfl

/-- The charge and the request together leave the caller one 64th of what
`base` left. -/
theorem one64th_le_remaining {G base r : Nat} (hbase : base ≤ G) :
    (G - base) / 64 ≤ G - (base + min r (allButOne64th (G - base))) := by
  have := Nat.min_le_right r (allButOne64th (G - base))
  unfold allButOne64th at this ⊢
  omega

/-! ## The step -/

/-- **Under EIP-150 a call either fails before the call or pays exactly
`base` and what it forwards.** Let `G` be the caller's gas after the cold
surcharge and `base` its charge for a new account, a value transfer and the
memory: either the step fails, or `base ≤ G`, the caller pays
`base + min(r, G - base - (G - base) / 64)` for the requested `r`, keeps at
least `(G - base) / 64`, and the callee gets the forwarded gas, with the
stipend for a value transfer. -/
theorem call_charges_base_and_forwards {op : MemOp} (hop : op.IsCall) (env : GasEnv) (h150 : env.isEIP150 = true)
    (cold : Bool) (stack : List Nat) (mem : Memory) (memorySize : Nat) :
    (∃ e, callStep op env cold stack mem memorySize = .error e) ∨
      ∃ env' fee mem' base, coldCharge env cold = some env' ∧
        env'.contractGas + (if cold then coldAccountAccessCostEIP2929 - warmStorageReadCostEIP2929 else 0) =
          env.contractGas ∧
        memoryGasCost mem memorySize = .ok (fee, mem') ∧ op.callBase env' stack fee = some base ∧
        base ≤ env'.contractGas ∧
        callStep op env cold stack mem memorySize =
          .ok (env'.contractGas - (base + min (back stack 0) (allButOne64th (env'.contractGas - base))),
            min (back stack 0) (allButOne64th (env'.contractGas - base)) +
              if op.transfersValue stack then callStipend else 0) ∧
        (env'.contractGas - base) / 64 ≤
          env'.contractGas - (base + min (back stack 0) (allButOne64th (env'.contractGas - base))) := by
  unfold callStep
  cases hcold : coldCharge env cold with
  | none => exact .inl ⟨_, rfl⟩
  | some env' =>
    have hG : env'.contractGas + (if cold then coldAccountAccessCostEIP2929 - warmStorageReadCostEIP2929 else 0) =
        env.contractGas := by
      unfold coldCharge at hcold
      split_ifs at hcold with hc hlt <;> cases hcold
      · rw [if_pos hc]
        dsimp only
        omega
      · rw [if_neg hc]
        rfl
    have h150' : env'.isEIP150 = true := by
      unfold coldCharge at hcold
      split_ifs at hcold <;> cases hcold <;> exact h150
    dsimp only
    cases hgc : memoryGasCost mem memorySize with
    | error e =>
      rw [dynamicGas_of_memoryGasCost_error op env' hgc]
      exact .inl ⟨_, rfl⟩
    | ok p =>
      obtain ⟨fee, mem'⟩ := p
      obtain ⟨base, hb⟩ := Option.isSome_iff_exists.mp (MemOp.callBase_isSome hop env' stack fee)
      by_cases hbase : base ≤ env'.contractGas
      · -- the contract holds `base`: the charge is exact and affordable
        have hexact : op.exactGas env' stack fee =
            base + min (back stack 0) (allButOne64th (env'.contractGas - base)) := by
          simp only [MemOp.exactGas, hb, callGasSpec, h150', if_true]
        rcases dynamicGas_exact op env' hgc (fun _ b hb' => by rw [hb] at hb'; cases hb'; exact hbase) with
          h | h
        · rw [h]
          exact .inl ⟨_, rfl⟩
        · right
          have hmin := Nat.min_le_right (back stack 0) (allButOne64th (env'.contractGas - base))
          have hle := allButOne64th_le (env'.contractGas - base)
          refine ⟨env', fee, mem', base, rfl, hG, rfl, hb, hbase, ?_, one64th_le_remaining hbase⟩
          rw [h, callGasTemp_of_le h150' hgc hb hbase]
          dsimp only
          rw [hexact, if_neg (by omega),
            calleeGas_of_le op stack (Nat.lt_of_le_of_lt (Nat.sub_le _ _) env'.contractGas_lt) hmin]
      · -- `callGas` wrapped: whatever is charged is more than the contract holds
        left
        cases hdg : op.dynamicGas env' stack mem memorySize with
        | error e => exact ⟨_, rfl⟩
        | ok q =>
          obtain ⟨total, m⟩ := q
          have hlt := (dynamicGas_of_lt_callBase op env' hgc hb (by omega) hdg).1
          cases op.callGasTemp env' stack mem memorySize with
          | error e => exact ⟨_, rfl⟩
          | ok c =>
            dsimp only
            rw [if_pos hlt]
            exact ⟨_, rfl⟩

/-- The `CALL` of value `1` from a contract with no gas left, where
`callGas` wraps: the theorem at it. -/
theorem call_charges_base_and_forwards_at_no_gas :
    MemOp.IsCall .call ∧ noGasEnv.isEIP150 = true ∧
      ((∃ e, callStep .call noGasEnv false [2 ^ 64, 0, 1] newMemory 0 = .error e) ∨
        ∃ env' fee mem' base, coldCharge noGasEnv false = some env' ∧
          env'.contractGas + (if false then coldAccountAccessCostEIP2929 - warmStorageReadCostEIP2929 else 0) =
            noGasEnv.contractGas ∧
          memoryGasCost newMemory 0 = .ok (fee, mem') ∧ MemOp.callBase .call env' [2 ^ 64, 0, 1] fee = some base ∧
          base ≤ env'.contractGas ∧
          callStep .call noGasEnv false [2 ^ 64, 0, 1] newMemory 0 =
            .ok (env'.contractGas - (base + min (back [2 ^ 64, 0, 1] 0) (allButOne64th (env'.contractGas - base))),
              min (back [2 ^ 64, 0, 1] 0) (allButOne64th (env'.contractGas - base)) +
                if MemOp.transfersValue .call [2 ^ 64, 0, 1] then callStipend else 0) ∧
          (env'.contractGas - base) / 64 ≤
            env'.contractGas - (base + min (back [2 ^ 64, 0, 1] 0) (allButOne64th (env'.contractGas - base)))) :=
  ⟨.inl rfl, rfl, call_charges_base_and_forwards (.inl rfl) noGasEnv rfl false [2 ^ 64, 0, 1] newMemory 0⟩

end Xdchain.Vm
