import Mathlib.Logic.Function.Basic
import Xdchain.Vm.CallGas
import Xdchain.Vm.DualState

/-! # SSTORE's gas and the refund counter

The dynamic gas of `SSTORE`: `gasSStore` and `gasSStoreEIP2200` of
`core/vm/gas_table.go` and `gasSStoreEIP2929` of `core/vm/operations_acl.go`,
run on the EVM of `Vm.DualState` with what they read and write besides: the
storage a slot held when the transaction began (`GetCommittedState`), the
refund counter of each `StateDB` with `AddRefund` and `SubRefund`, the
slots of the access list, and the gas of each frame.

`gasSStore` reads the slot's current value from the state `getDualState`
picks for the contract, the other two from `evm.StateDB`; all three read
the original value from `evm.StateDB` and charge refunds to it, and
`opSstore` writes to the state `getDualState` picks. `SubRefund` panics
below zero: a gas function, and the run it is in, return `none` then.

Code is a list of the opcodes that reach the storage or the gas a frame
hands on: `SSTORE`, the four calls with the gas their callee gets, `STOP`,
`REVERT`, and every other opcode as the gas it uses. A call charges the
caller the gas it hands on and gives back what the callee leaves, as
`opCall` adds `returnGas`; `gasCall`'s base charge and the stipend are an
`other` opcode and a part of that gas. A `StateDB` is its accounts, refund
and access list; `Snapshot` copies them and `RevertToSnapshot` restores
them, as the journal reverts them together. There are no precompiles,
`CREATE` or `SELFDESTRUCT`, and `SlotInAccessList` reports only the slot:
the address of a running contract is always in the list. -/

namespace Xdchain.Vm.Refund

open Xdchain.Vm.DualState (Address StateKind callCreateDepth)

/-! ## Parameters -/

def sstoreSetGas : Nat := 20000
def sstoreResetGas : Nat := 5000
def sstoreClearGas : Nat := 5000
def sstoreRefundGas : Nat := 15000
def netSstoreNoopGas : Nat := 200
def netSstoreInitGas : Nat := 20000
def netSstoreCleanGas : Nat := 5000
def netSstoreDirtyGas : Nat := 200
def netSstoreClearRefund : Nat := 15000
def netSstoreResetRefund : Nat := 4800
def netSstoreResetClearRefund : Nat := 19800
def sstoreSentryGasEIP2200 : Nat := 2300
def sstoreSetGasEIP2200 : Nat := 20000
def sstoreResetGasEIP2200 : Nat := 5000
def sstoreClearsScheduleRefundEIP2200 : Nat := 15000
def sloadGasEIP2200 : Nat := 800
def coldSloadCostEIP2929 : Nat := 2100

/-! ## Code and state -/

/-- The opcodes of contract code that reach the storage or hand on gas,
with their operands; `other` is any other opcode, by the gas it uses. -/
inductive Instr where
  | sstore (key val : Nat)
  | call (addr value gas : Nat)
  | callCode (addr value gas : Nat)
  | delegateCall (addr gas : Nat)
  | staticCall (addr gas : Nat)
  | other (gas : Nat)
  | stop
  | revert
deriving DecidableEq, Repr

def Instr.writes : Instr → Bool
  | .sstore _ _ => true
  | _ => false

def Instr.transfersValue : Instr → Bool
  | .call _ value _ => value != 0
  | _ => false

structure Account where
  nonce : Nat
  balance : Nat
  code : List Instr
  /-- `GetState`: the dirty storage over the committed one. -/
  storage : Nat → Nat
  /-- `GetCommittedState`: the storage the transaction began with. -/
  committed : Nat → Nat

/-- The object `createObject` makes, with nothing stored and nothing
committed, and the balance `CreateAccount` keeps. -/
def Account.empty (balance : Nat) : Account :=
  { nonce := 0, balance, code := [], storage := fun _ => 0, committed := fun _ => 0 }

structure StateDB where
  accounts : Address → Option Account
  refund : Nat
  /-- The storage slots of the access list. -/
  slots : Address → Nat → Bool

namespace StateDB

def Exist (db : StateDB) (addr : Address) : Bool := (db.accounts addr).isSome

def GetBalance (db : StateDB) (addr : Address) : Nat :=
  match db.accounts addr with
  | some acc => acc.balance
  | none => 0

def GetCode (db : StateDB) (addr : Address) : List Instr :=
  match db.accounts addr with
  | some acc => acc.code
  | none => []

def GetState (db : StateDB) (addr : Address) (key : Nat) : Nat :=
  match db.accounts addr with
  | some acc => acc.storage key
  | none => 0

def GetCommittedState (db : StateDB) (addr : Address) (key : Nat) : Nat :=
  match db.accounts addr with
  | some acc => acc.committed key
  | none => 0

/-- `GetOrNewStateObject`, without the write of the new object. -/
def getOrNewAccount (db : StateDB) (addr : Address) : Account := (db.accounts addr).getD (Account.empty 0)

def setAccount (db : StateDB) (addr : Address) (acc : Account) : StateDB :=
  { db with accounts := Function.update db.accounts addr (some acc) }

def CreateAccount (db : StateDB) (addr : Address) : StateDB := db.setAccount addr (Account.empty (db.GetBalance addr))

def AddBalance (db : StateDB) (addr : Address) (amount : Nat) : StateDB :=
  let acc := db.getOrNewAccount addr
  db.setAccount addr { acc with balance := acc.balance + amount }

def SubBalance (db : StateDB) (addr : Address) (amount : Nat) : StateDB :=
  let acc := db.getOrNewAccount addr
  db.setAccount addr { acc with balance := acc.balance - amount }

def SetState (db : StateDB) (addr : Address) (key val : Nat) : StateDB :=
  let acc := db.getOrNewAccount addr
  db.setAccount addr { acc with storage := Function.update acc.storage key val }

/-- `s.refund += gas` on a `uint64`. -/
def AddRefund (db : StateDB) (gas : Nat) : StateDB := { db with refund := (db.refund + gas) % 2 ^ 64 }

/-- `none` where `SubRefund` panics: "Refund counter below zero". -/
def SubRefund (db : StateDB) (gas : Nat) : Option StateDB :=
  if gas > db.refund then none else some { db with refund := db.refund - gas }

def SlotInAccessList (db : StateDB) (addr : Address) (slot : Nat) : Bool := db.slots addr slot

def AddSlotToAccessList (db : StateDB) (addr : Address) (slot : Nat) : StateDB :=
  { db with slots := Function.update db.slots addr (Function.update (db.slots addr) slot true) }

end StateDB

def CanTransfer (db : StateDB) (addr : Address) (amount : Nat) : Bool := decide (amount ≤ db.GetBalance addr)

def Transfer (db : StateDB) (sender recipient : Address) (amount : Nat) : StateDB :=
  (db.SubBalance sender amount).AddBalance recipient amount

/-! ## The EVM and its stack of states -/

structure Evm where
  publicState : StateDB
  privateState : StateDB
  /-- `evm.StateDB`. -/
  stateDB : StateKind
  /-- `evm.states[0:evm.currentStateDepth]`, the last pushed first. -/
  states : List StateKind
  quorumReadOnly : Bool
  readOnlyDepth : Nat
  depth : Nat

namespace Evm

def db (evm : Evm) : StateKind → StateDB
  | .publicState => evm.publicState
  | .privateState => evm.privateState

def setDb (evm : Evm) : StateKind → StateDB → Evm
  | .publicState, db => { evm with publicState := db }
  | .privateState, db => { evm with privateState := db }

def modifyDb (evm : Evm) (k : StateKind) (f : StateDB → StateDB) : Evm := evm.setDb k (f (evm.db k))

def AddRefund (evm : Evm) (gas : Nat) : Evm := evm.modifyDb evm.stateDB (·.AddRefund gas)

/-- `evm.StateDB.SubRefund(gas)`; `none` where it panics. -/
def SubRefund (evm : Evm) (gas : Nat) : Option Evm := ((evm.db evm.stateDB).SubRefund gas).map (evm.setDb evm.stateDB)

def Push (evm : Evm) (statedb : StateKind) : Evm :=
  let evm :=
    if !evm.quorumReadOnly && statedb != .privateState then
      { evm with quorumReadOnly := true, readOnlyDepth := evm.states.length }
    else evm
  { evm with states := statedb :: evm.states, stateDB := statedb }

def Pop (evm : Evm) : Evm :=
  let states := evm.states.tail
  let evm := if evm.quorumReadOnly && states.length == evm.readOnlyDepth then { evm with quorumReadOnly := false } else evm
  { evm with states, stateDB := states.headD .privateState }

end Evm

/-- `getDualState`: the private state if it holds `addr`, else the public
state if that does, else the current one. -/
def getDualState (evm : Evm) (addr : Address) : StateKind :=
  if evm.privateState.Exist addr then .privateState
  else if evm.publicState.Exist addr then .publicState
  else evm.stateDB

/-- `NewEVM`: the public state is the `StateDB` it is given, and the private
one is pushed on it. A public transaction gives one state for both. -/
def NewEVM (statedb privateState : StateDB) : Evm :=
  Evm.Push
    { publicState := statedb, privateState, stateDB := .publicState, states := [], quorumReadOnly := false,
      readOnlyDepth := 0, depth := 0 }
    .privateState

/-! ## The gas of SSTORE -/

/-- The contract a frame runs as, with the gas it has left. -/
structure Contract where
  caller : Address
  address : Address
  value : Nat
  gas : Nat

/-- The costs and refunds of net-metered `SSTORE`: a no-op, a new slot, a
write to a clean slot and to a dirty one; clearing a slot, and resetting one
to its original zero or non-zero value. -/
structure NetGas where
  noop : Nat
  init : Nat
  clean : Nat
  dirty : Nat
  clearRefund : Nat
  resetClearRefund : Nat
  resetRefund : Nat

/-- Net metering of a write of `val` over `current` (EIP-1283, EIP-2200):
the original value is read from `evm.StateDB` and the refunds go to it. -/
def netSStore (p : NetGas) (evm : Evm) (addr key val current : Nat) : Option (Evm × Nat) :=
  if current = val then some (evm, p.noop)
  else
    let original := (evm.db evm.stateDB).GetCommittedState addr key
    if original = current then
      if original = 0 then some (evm, p.init)
      else some (if val = 0 then evm.AddRefund p.clearRefund else evm, p.clean)
    else
      -- a dirty slot: both clauses apply
      let cleared : Option Evm :=
        if original ≠ 0 then
          if current = 0 then evm.SubRefund p.clearRefund
          else if val = 0 then some (evm.AddRefund p.clearRefund)
          else some evm
        else some evm
      cleared.map fun evm =>
        (if original = val then
          if original = 0 then evm.AddRefund p.resetClearRefund else evm.AddRefund p.resetRefund
        else evm, p.dirty)

def eip1283 : NetGas :=
  ⟨netSstoreNoopGas, netSstoreInitGas, netSstoreCleanGas, netSstoreDirtyGas, netSstoreClearRefund,
    netSstoreResetClearRefund, netSstoreResetRefund⟩

def eip2200 : NetGas :=
  ⟨sloadGasEIP2200, sstoreSetGasEIP2200, sstoreResetGasEIP2200, sloadGasEIP2200,
    sstoreClearsScheduleRefundEIP2200, sstoreSetGasEIP2200 - sloadGasEIP2200, sstoreResetGasEIP2200 - sloadGasEIP2200⟩

/-- EIP-2200 with `SLOAD_GAS` the warm read and `SSTORE_RESET_GAS` less the
cold load. -/
def eip2929 : NetGas :=
  ⟨warmStorageReadCostEIP2929, sstoreSetGasEIP2200, sstoreResetGasEIP2200 - coldSloadCostEIP2929,
    warmStorageReadCostEIP2929, sstoreClearsScheduleRefundEIP2200,
    sstoreSetGasEIP2200 - warmStorageReadCostEIP2929,
    (sstoreResetGasEIP2200 - coldSloadCostEIP2929) - warmStorageReadCostEIP2929⟩

/-- The gas functions the jump tables give `SSTORE`. -/
inductive SStoreGas where
  | gasSStore
  | gasSStoreEIP2200
  | gasSStoreEIP2929
deriving DecidableEq, Repr

/-- The chain rules the gas of `SSTORE` and the calls read. -/
structure Rules where
  isEIP158 : Bool
  isByzantium : Bool
  isConstantinople : Bool
  isPetersburg : Bool
  /-- The jump table's `dynamicGas` for `SSTORE`. -/
  dynamicGas : SStoreGas

/-- `gasSStore`: the legacy metering on Petersburg or before
Constantinople, EIP-1283 otherwise; the current value is read from the
state `getDualState` picks. -/
def gasSStore (rules : Rules) (evm : Evm) (contract : Contract) (key val : Nat) :
    Option (Evm × Except String Nat) :=
  let current := (evm.db (getDualState evm contract.address)).GetState contract.address key
  if rules.isPetersburg || !rules.isConstantinople then
    if current = 0 ∧ val ≠ 0 then some (evm, .ok sstoreSetGas)
    else if current ≠ 0 ∧ val = 0 then some (evm.AddRefund sstoreRefundGas, .ok sstoreClearGas)
    else some (evm, .ok sstoreResetGas)
  else (netSStore eip1283 evm contract.address key val current).map fun r => (r.1, .ok r.2)

def gasSStoreEIP2200 (evm : Evm) (contract : Contract) (key val : Nat) : Option (Evm × Except String Nat) :=
  if contract.gas ≤ sstoreSentryGasEIP2200 then some (evm, .error "not enough gas for reentrancy sentry")
  else
    let current := (evm.db evm.stateDB).GetState contract.address key
    (netSStore eip2200 evm contract.address key val current).map fun r => (r.1, .ok r.2)

/-- A cold slot costs the cold load more and joins the access list. -/
def gasSStoreEIP2929 (evm : Evm) (contract : Contract) (key val : Nat) : Option (Evm × Except String Nat) :=
  if contract.gas ≤ sstoreSentryGasEIP2200 then some (evm, .error "not enough gas for reentrancy sentry")
  else
    let current := (evm.db evm.stateDB).GetState contract.address key
    let (cost, evm) :=
      if (evm.db evm.stateDB).SlotInAccessList contract.address key then (0, evm)
      else (coldSloadCostEIP2929, evm.modifyDb evm.stateDB (·.AddSlotToAccessList contract.address key))
    (netSStore eip2929 evm contract.address key val current).map fun r => (r.1, .ok (cost + r.2))

def Rules.sstoreGas (rules : Rules) : Evm → Contract → Nat → Nat → Option (Evm × Except String Nat) :=
  match rules.dynamicGas with
  | .gasSStore => gasSStore rules
  | .gasSStoreEIP2200 => gasSStoreEIP2200
  | .gasSStoreEIP2929 => gasSStoreEIP2929

/-! ## Calls and the interpreter -/

inductive EvmError where
  | depth
  | insufficientBalance
  | readOnlyValueTransfer
  | executionReverted
  | writeProtection
  /-- "VM in read-only mode. Mutating opcode prohibited" -/
  | readOnlyMode
  | outOfGas
  /-- `STATICCALL` before Byzantium. -/
  | invalidOpCode
deriving DecidableEq, Repr

/-- An interpreter: it runs code as a contract, in static mode or not, and
returns the gas left; `none` for a panic. -/
abbrev Interp := Evm → Contract → List Instr → Bool → Option (Evm × Nat × Option EvmError)

/-- What the calls do after running the code: on an error, `RevertToSnapshot`
of the state `k`, and no gas back unless the code reverted. -/
def revertOnError (k : StateKind) (snapshot : StateDB) : Evm × Nat × Option EvmError → Evm × Nat × Option EvmError
  | (evm, gas, some e) => (evm.setDb k snapshot, if e = .executionReverted then gas else 0, some e)
  | (evm, gas, none) => (evm, gas, none)

/-- The frame of `EVM.Call` on a chain with `IsQuorum`, between its `Push`
and its `Pop`. -/
def callFrame (rules : Rules) (run : Interp) (readOnly : Bool) (evm : Evm) (caller addr value gas : Nat) :
    Option (Evm × Nat × Option EvmError) :=
  if evm.depth > callCreateDepth then some (evm, gas, some .depth)
  else if value != 0 && !CanTransfer (evm.db evm.stateDB) caller value then some (evm, gas, some .insufficientBalance)
  else
    let snapshot := evm.db evm.stateDB
    if !(evm.db evm.stateDB).Exist addr && rules.isEIP158 && value == 0 then some (evm, gas, none)
    else
      let evm := if !(evm.db evm.stateDB).Exist addr then evm.modifyDb evm.stateDB (·.CreateAccount addr) else evm
      if value != 0 && evm.quorumReadOnly then some (evm, gas, some .readOnlyValueTransfer)
      else
        let evm := if value != 0 then evm.modifyDb evm.stateDB (Transfer · caller addr value) else evm
        (run evm ⟨caller, addr, value, gas⟩ ((evm.db evm.stateDB).GetCode addr) readOnly).map
          (revertOnError evm.stateDB snapshot)

def Call (rules : Rules) (run : Interp) (readOnly : Bool) (evm : Evm) (caller addr value gas : Nat) :
    Option (Evm × Nat × Option EvmError) :=
  (callFrame rules run readOnly (evm.Push (getDualState evm addr)) caller addr value gas).map
    fun r => (r.1.Pop, r.2)

/-- The frame of `EVM.CallCode`: the code of `addr` run as the caller. -/
def callCodeFrame (run : Interp) (readOnly : Bool) (evm : Evm) (caller addr value gas : Nat) :
    Option (Evm × Nat × Option EvmError) :=
  if evm.depth > callCreateDepth then some (evm, gas, some .depth)
  else if !CanTransfer (evm.db evm.stateDB) caller value then some (evm, gas, some .insufficientBalance)
  else
    let snapshot := evm.db evm.stateDB
    (run evm ⟨caller, caller, value, gas⟩ ((evm.db evm.stateDB).GetCode addr) readOnly).map
      (revertOnError evm.stateDB snapshot)

def CallCode (run : Interp) (readOnly : Bool) (evm : Evm) (caller addr value gas : Nat) :
    Option (Evm × Nat × Option EvmError) :=
  (callCodeFrame run readOnly (evm.Push (getDualState evm addr)) caller addr value gas).map
    fun r => (r.1.Pop, r.2)

/-- The frame of `EVM.DelegateCall`: the code of `addr` run as the calling
contract, with its caller and value. -/
def delegateCallFrame (run : Interp) (readOnly : Bool) (evm : Evm) (caller : Contract) (addr gas : Nat) :
    Option (Evm × Nat × Option EvmError) :=
  if evm.depth > callCreateDepth then some (evm, gas, some .depth)
  else
    let snapshot := evm.db evm.stateDB
    (run evm { caller with gas } ((evm.db evm.stateDB).GetCode addr) readOnly).map
      (revertOnError evm.stateDB snapshot)

def DelegateCall (run : Interp) (readOnly : Bool) (evm : Evm) (caller : Contract) (addr gas : Nat) :
    Option (Evm × Nat × Option EvmError) :=
  (delegateCallFrame run readOnly (evm.Push (getDualState evm addr)) caller addr gas).map
    fun r => (r.1.Pop, r.2)

/-- `EVM.StaticCall`: no `Push`; an `AddBalance` of zero touches `addr` in
the state `getDualState` picks, and the code runs in static mode. -/
def StaticCall (run : Interp) (evm : Evm) (caller addr gas : Nat) : Option (Evm × Nat × Option EvmError) :=
  if evm.depth > callCreateDepth then some (evm, gas, some .depth)
  else
    let stateDb := getDualState evm addr
    let snapshot := evm.db stateDb
    let evm := evm.modifyDb stateDb (·.AddBalance addr 0)
    (run evm ⟨caller, addr, 0, gas⟩ ((evm.db stateDb).GetCode addr) true).map (revertOnError stateDb snapshot)

section Interpreter

variable (rules : Rules)

/-- A call opcode: the caller pays the gas it hands on, and gets back what
the callee leaves whether it failed or not. -/
def callOp (contract : Contract) (gas : Nat) (call : Option (Evm × Nat × Option EvmError))
    (next : Evm → Contract → Option (Evm × Nat × Option EvmError)) (evm : Evm) :
    Option (Evm × Nat × Option EvmError) :=
  if contract.gas < gas then some (evm, contract.gas, some .outOfGas)
  else
    match call with
    | none => none
    | some (evm, returnGas, _) => next evm { contract with gas := contract.gas - gas + returnGas }

/-- The loop of `EVMInterpreter.Run` over the code, `run` running the
nested calls: the read-only checks, the gas, then the opcode. -/
def execCode (run : Interp) : Evm → Contract → List Instr → Bool → Option (Evm × Nat × Option EvmError)
  | evm, contract, [], _ => some (evm, contract.gas, none)
  | evm, contract, op :: code, readOnly =>
    if evm.quorumReadOnly && op.writes then some (evm, contract.gas, some .readOnlyMode)
    else if readOnly && rules.isByzantium && (op.writes || op.transfersValue) then
      some (evm, contract.gas, some .writeProtection)
    else
      match op with
      | .stop => some (evm, contract.gas, none)
      | .revert => some (evm, contract.gas, some .executionReverted)
      | .other gas =>
        if contract.gas < gas then some (evm, contract.gas, some .outOfGas)
        else execCode run evm { contract with gas := contract.gas - gas } code readOnly
      | .sstore key val =>
        match rules.sstoreGas evm contract key val with
        | none => none
        | some (evm, .error _) => some (evm, contract.gas, some .outOfGas)
        | some (evm, .ok cost) =>
          if contract.gas < cost then some (evm, contract.gas, some .outOfGas)
          else
            -- `opSstore` writes to the state `getDualState` picks
            let evm := evm.modifyDb (getDualState evm contract.address) (·.SetState contract.address key val)
            execCode run evm { contract with gas := contract.gas - cost } code readOnly
      | .call addr value gas =>
        callOp contract gas (Call rules run readOnly evm contract.address addr value gas)
          (fun evm contract => execCode run evm contract code readOnly) evm
      | .callCode addr value gas =>
        callOp contract gas (CallCode run readOnly evm contract.address addr value gas)
          (fun evm contract => execCode run evm contract code readOnly) evm
      | .delegateCall addr gas =>
        callOp contract gas (DelegateCall run readOnly evm contract addr gas)
          (fun evm contract => execCode run evm contract code readOnly) evm
      | .staticCall addr gas =>
        if !rules.isByzantium then some (evm, contract.gas, some .invalidOpCode)
        else
          callOp contract gas (StaticCall run evm contract.address addr gas)
            (fun evm contract => execCode run evm contract code readOnly) evm

/-- `EVMInterpreter.Run`, for at most `fuel` nested runs: the depth is one
more while the code runs. -/
def run : Nat → Interp
  | 0 => fun evm contract _ _ => some (evm, contract.gas, some .outOfGas)
  | fuel + 1 => fun evm contract code readOnly =>
    (execCode rules (run fuel) { evm with depth := evm.depth + 1 } contract code readOnly).map
      fun r => ({ r.1 with depth := r.1.depth - 1 }, r.2)

end Interpreter

end Xdchain.Vm.Refund
