import Mathlib.Logic.Function.Basic
import Mathlib.Tactic.SplitIfs

/-! # The public and the private state of the EVM

Quorum's dual state in `core/vm/evm.go`. The EVM of a private transaction
holds the public and the private `StateDB`, and `evm.StateDB` is one of
them. `Call`, `CallCode` and `DelegateCall` `Push` the state `getDualState`
picks for the called address and `Pop` it on return; `StaticCall` reads and
touches that state without pushing it. `Push` turns `quorumReadOnly` on at
the first entry into a state other than the private one, and `Pop` turns it
off on leaving that depth. In read-only mode the interpreter refuses the
opcodes flagged `writes`, and `Call` refuses a value transfer.

Contract code is a list of the opcodes that reach the state, `SSTORE`, the
four calls, `STOP` and `REVERT`, with the stack operands they pop written
into them. Gas is left out; `fuel` bounds the nesting of runs. A `StateDB`
is its accounts, `Snapshot` a copy of them and `RevertToSnapshot` its
restoration. There are no precompiles, and `NoRecursion` is off. -/

namespace Xdchain.Vm.DualState

abbrev Address := Nat

def callCreateDepth : Nat := 1024

/-- The opcodes of contract code that reach the state, with their operands. -/
inductive Instr where
  | sstore (key val : Nat)
  | call (addr value : Nat)
  | callCode (addr value : Nat)
  | delegateCall (addr : Nat)
  | staticCall (addr : Nat)
  | stop
  | revert
deriving DecidableEq, Repr

/-- `operation.writes` of the jump table. -/
def Instr.writes : Instr → Bool
  | .sstore _ _ => true
  | _ => false

/-- A `CALL` with a value, which static mode refuses besides the writes. -/
def Instr.transfersValue : Instr → Bool
  | .call _ value => value != 0
  | _ => false

structure Account where
  nonce : Nat
  balance : Nat
  code : List Instr
  storage : Nat → Nat

/-- The account `createObject` makes, with the balance `CreateAccount` keeps. -/
def Account.empty (balance : Nat) : Account := { nonce := 0, balance, code := [], storage := fun _ => 0 }

structure StateDB where
  accounts : Address → Option Account

namespace StateDB

def Exist (db : StateDB) (addr : Address) : Bool := (db.accounts addr).isSome

def GetBalance (db : StateDB) (addr : Address) : Nat :=
  match db.accounts addr with
  | some acc => acc.balance
  | none => 0

def GetCode (db : StateDB) (addr : Address) : List Instr :=
  match db.accounts addr with
  | some acc => acc.code
  | none => []

/-- `GetOrNewStateObject`, without the write of the new object. -/
def getOrNewAccount (db : StateDB) (addr : Address) : Account := (db.accounts addr).getD (Account.empty 0)

def setAccount (db : StateDB) (addr : Address) (acc : Account) : StateDB :=
  { accounts := Function.update db.accounts addr (some acc) }

def CreateAccount (db : StateDB) (addr : Address) : StateDB := db.setAccount addr (Account.empty (db.GetBalance addr))

def AddBalance (db : StateDB) (addr : Address) (amount : Nat) : StateDB :=
  let acc := db.getOrNewAccount addr
  db.setAccount addr { acc with balance := acc.balance + amount }

/-- `SubBalance`; `CanTransfer` is checked before every use. -/
def SubBalance (db : StateDB) (addr : Address) (amount : Nat) : StateDB :=
  let acc := db.getOrNewAccount addr
  db.setAccount addr { acc with balance := acc.balance - amount }

def SetState (db : StateDB) (addr : Address) (key val : Nat) : StateDB :=
  let acc := db.getOrNewAccount addr
  db.setAccount addr { acc with storage := Function.update acc.storage key val }

end StateDB

def CanTransfer (db : StateDB) (addr : Address) (amount : Nat) : Bool := decide (amount ≤ db.GetBalance addr)

def Transfer (db : StateDB) (sender recipient : Address) (amount : Nat) : StateDB :=
  (db.SubBalance sender amount).AddBalance recipient amount

/-! ## The EVM and its stack of states -/

/-- Which of the two states `evm.StateDB` is. -/
inductive StateKind where
  | publicState
  | privateState
deriving DecidableEq, Repr

structure Evm where
  publicState : StateDB
  privateState : StateDB
  /-- `evm.StateDB`. -/
  stateDB : StateKind
  /-- `evm.states[0:evm.currentStateDepth]`, the last pushed first. -/
  states : List StateKind
  quorumReadOnly : Bool
  readOnlyDepth : Nat
  depth : Nat

namespace Evm

def db (evm : Evm) : StateKind → StateDB
  | .publicState => evm.publicState
  | .privateState => evm.privateState

def setDb (evm : Evm) : StateKind → StateDB → Evm
  | .publicState, db => { evm with publicState := db }
  | .privateState, db => { evm with privateState := db }

def modifyDb (evm : Evm) (k : StateKind) (f : StateDB → StateDB) : Evm := evm.setDb k (f (evm.db k))

def Push (evm : Evm) (statedb : StateKind) : Evm :=
  let evm :=
    if !evm.quorumReadOnly && statedb != .privateState then
      { evm with quorumReadOnly := true, readOnlyDepth := evm.states.length }
    else evm
  { evm with states := statedb :: evm.states, stateDB := statedb }

def Pop (evm : Evm) : Evm :=
  let states := evm.states.tail
  let evm := if evm.quorumReadOnly && states.length == evm.readOnlyDepth then { evm with quorumReadOnly := false } else evm
  { evm with states, stateDB := states.headD .privateState }

end Evm

/-- `getDualState`: the private state if it holds `addr`, else the public
state if that does, else the current one. -/
def getDualState (evm : Evm) (addr : Address) : StateKind :=
  if evm.privateState.Exist addr then .privateState
  else if evm.publicState.Exist addr then .publicState
  else evm.stateDB

/-- `NewEVM`: the public state is the `StateDB` it is given, and the private
one is pushed on it. -/
def NewEVM (statedb privateState : StateDB) : Evm :=
  Evm.Push
    { publicState := statedb, privateState, stateDB := .publicState, states := [], quorumReadOnly := false,
      readOnlyDepth := 0, depth := 0 }
    .privateState

/-! ## Calls and the interpreter -/

inductive EvmError where
  | depth
  | insufficientBalance
  | readOnlyValueTransfer
  | executionReverted
  | writeProtection
  /-- "VM in read-only mode. Mutating opcode prohibited" -/
  | readOnlyMode
  /-- The fuel ran out, standing for the gas. -/
  | outOfGas
deriving DecidableEq, Repr

/-- The contract a frame runs as: `Caller()`, `Address()` and the value. -/
structure Contract where
  caller : Address
  address : Address
  value : Nat

/-- The chain rules the calls and the interpreter read. -/
structure Rules where
  isEIP158 : Bool
  isByzantium : Bool

/-- An interpreter: it runs code as a contract, in static mode or not. -/
abbrev Interp := Evm → Contract → List Instr → Bool → Evm × Option EvmError

/-- What the calls do after running the code: `RevertToSnapshot` of the
state `k` on an error. -/
def revertOnError (k : StateKind) (snapshot : StateDB) : Evm × Option EvmError → Evm × Option EvmError
  | (evm, some e) => (evm.setDb k snapshot, some e)
  | (evm, none) => (evm, none)

/-- The frame of `EVM.Call` on a chain with `IsQuorum`, between its `Push`
and its `Pop`. -/
def callFrame (rules : Rules) (run : Interp) (readOnly : Bool) (evm : Evm) (caller addr value : Address) :
    Evm × Option EvmError :=
  if evm.depth > callCreateDepth then (evm, some .depth)
  else if value != 0 && !CanTransfer (evm.db evm.stateDB) caller value then (evm, some .insufficientBalance)
  else
    let snapshot := evm.db evm.stateDB
    if !(evm.db evm.stateDB).Exist addr && rules.isEIP158 && value == 0 then (evm, none)
    else
      let evm := if !(evm.db evm.stateDB).Exist addr then evm.modifyDb evm.stateDB (·.CreateAccount addr) else evm
      if value != 0 && evm.quorumReadOnly then (evm, some .readOnlyValueTransfer)
      else
        let evm := if value != 0 then evm.modifyDb evm.stateDB (Transfer · caller addr value) else evm
        revertOnError evm.stateDB snapshot
          (run evm ⟨caller, addr, value⟩ ((evm.db evm.stateDB).GetCode addr) readOnly)

def Call (rules : Rules) (run : Interp) (readOnly : Bool) (evm : Evm) (caller addr value : Address) :
    Evm × Option EvmError :=
  let (evm, err) := callFrame rules run readOnly (evm.Push (getDualState evm addr)) caller addr value
  (evm.Pop, err)

/-- The frame of `EVM.CallCode`: the code of `addr` run as the caller. -/
def callCodeFrame (run : Interp) (readOnly : Bool) (evm : Evm) (caller addr value : Address) :
    Evm × Option EvmError :=
  if evm.depth > callCreateDepth then (evm, some .depth)
  else if !CanTransfer (evm.db evm.stateDB) caller value then (evm, some .insufficientBalance)
  else
    let snapshot := evm.db evm.stateDB
    revertOnError evm.stateDB snapshot
      (run evm ⟨caller, caller, value⟩ ((evm.db evm.stateDB).GetCode addr) readOnly)

def CallCode (run : Interp) (readOnly : Bool) (evm : Evm) (caller addr value : Address) : Evm × Option EvmError :=
  let (evm, err) := callCodeFrame run readOnly (evm.Push (getDualState evm addr)) caller addr value
  (evm.Pop, err)

/-- The frame of `EVM.DelegateCall`: the code of `addr` run as the calling
contract, with its caller and value. -/
def delegateCallFrame (run : Interp) (readOnly : Bool) (evm : Evm) (caller : Contract) (addr : Address) :
    Evm × Option EvmError :=
  if evm.depth > callCreateDepth then (evm, some .depth)
  else
    let snapshot := evm.db evm.stateDB
    revertOnError evm.stateDB snapshot (run evm caller ((evm.db evm.stateDB).GetCode addr) readOnly)

def DelegateCall (run : Interp) (readOnly : Bool) (evm : Evm) (caller : Contract) (addr : Address) :
    Evm × Option EvmError :=
  let (evm, err) := delegateCallFrame run readOnly (evm.Push (getDualState evm addr)) caller addr
  (evm.Pop, err)

/-- `EVM.StaticCall`: no `Push`; an `AddBalance` of zero touches `addr` in
the state `getDualState` picks, and the code runs in static mode. -/
def StaticCall (run : Interp) (evm : Evm) (caller addr : Address) : Evm × Option EvmError :=
  if evm.depth > callCreateDepth then (evm, some .depth)
  else
    let stateDb := getDualState evm addr
    let snapshot := evm.db stateDb
    let evm := evm.modifyDb stateDb (·.AddBalance addr 0)
    revertOnError stateDb snapshot (run evm ⟨caller, addr, 0⟩ ((evm.db stateDb).GetCode addr) true)

section Interpreter

variable (rules : Rules)

/-- The loop of `EVMInterpreter.Run` over the code, `run` running the
nested calls. A failed call only pushes zero, and the loop goes on. -/
def execCode (run : Interp) : Evm → Contract → List Instr → Bool → Evm × Option EvmError
  | evm, _, [], _ => (evm, none)
  | evm, contract, op :: code, readOnly =>
    if evm.quorumReadOnly && op.writes then (evm, some .readOnlyMode)
    else if readOnly && rules.isByzantium && (op.writes || op.transfersValue) then (evm, some .writeProtection)
    else
      match op with
      | .stop => (evm, none)
      | .revert => (evm, some .executionReverted)
      | .sstore key val =>
        let evm := evm.modifyDb (getDualState evm contract.address) (·.SetState contract.address key val)
        execCode run evm contract code readOnly
      | .call addr value =>
        execCode run (Call rules run readOnly evm contract.address addr value).1 contract code readOnly
      | .callCode addr value =>
        execCode run (CallCode run readOnly evm contract.address addr value).1 contract code readOnly
      | .delegateCall addr => execCode run (DelegateCall run readOnly evm contract addr).1 contract code readOnly
      | .staticCall addr => execCode run (StaticCall run evm contract.address addr).1 contract code readOnly

/-- `EVMInterpreter.Run`, for at most `fuel` nested runs: the depth is one
more while the code runs. -/
def run : Nat → Interp
  | 0 => fun evm _ _ _ => (evm, some .outOfGas)
  | fuel + 1 => fun evm contract code readOnly =>
    let (evm, err) := execCode rules (run fuel) { evm with depth := evm.depth + 1 } contract code readOnly
    ({ evm with depth := evm.depth - 1 }, err)

end Interpreter

/-! ## What a run in read-only mode changes -/

namespace StateDB

/-- `db'` holds every account of `db` as it was, and besides them only empty
new ones. -/
def Grows (db db' : StateDB) : Prop :=
  ∀ addr, db'.accounts addr = db.accounts addr ∨ (db.accounts addr = none ∧ db'.accounts addr = some (Account.empty 0))

theorem Grows.refl (db : StateDB) : db.Grows db := fun _ => .inl rfl

theorem Grows.trans {db₁ db₂ db₃ : StateDB} (h₁ : db₁.Grows db₂) (h₂ : db₂.Grows db₃) : db₁.Grows db₃ := by
  intro addr
  rcases h₂ addr with h | ⟨hn, h⟩
  · rw [h]
    exact h₁ addr
  · rcases h₁ addr with h' | ⟨_, h'⟩
    · exact .inr ⟨h' ▸ hn, h⟩
    · rw [h'] at hn
      cases hn

theorem grows_CreateAccount {db : StateDB} {addr : Address} (h : db.Exist addr = false) :
    db.Grows (db.CreateAccount addr) := by
  have hnone : db.accounts addr = none := Option.not_isSome_iff_eq_none.1 (by simpa [Exist] using h)
  intro a
  by_cases ha : a = addr
  · subst ha
    exact .inr ⟨hnone, by simp [CreateAccount, setAccount, GetBalance, hnone]⟩
  · exact .inl (by simp [CreateAccount, setAccount, Function.update_of_ne ha])

theorem grows_AddBalance_zero (db : StateDB) (addr : Address) : db.Grows (db.AddBalance addr 0) := by
  intro a
  by_cases ha : a = addr
  · subst ha
    cases hacc : db.accounts a with
    | none => exact .inr ⟨rfl, by simp [AddBalance, setAccount, getOrNewAccount, hacc]⟩
    | some acc => exact .inl (by simp [AddBalance, setAccount, getOrNewAccount, hacc])
  · exact .inl (by simp [AddBalance, setAccount, Function.update_of_ne ha])

end StateDB

namespace Evm

/-- Inside the read-only window: `quorumReadOnly` is on, and was turned on
below the current depth of states. -/
structure ReadOnly (evm : Evm) : Prop where
  quorumReadOnly : evm.quorumReadOnly = true
  readOnlyDepth_lt : evm.readOnlyDepth < evm.states.length

/-- `evm'` is `evm` after a run in the read-only window: still read-only from
the same depth, on the same stack of states, with states that only grew. -/
structure Keeps (evm evm' : Evm) : Prop where
  quorumReadOnly : evm'.quorumReadOnly = true
  readOnlyDepth : evm'.readOnlyDepth = evm.readOnlyDepth
  states : evm'.states = evm.states
  publicState : evm.publicState.Grows evm'.publicState
  privateState : evm.privateState.Grows evm'.privateState

theorem Keeps.refl {evm : Evm} (h : evm.ReadOnly) : Keeps evm evm :=
  ⟨h.quorumReadOnly, rfl, rfl, .refl _, .refl _⟩

theorem Keeps.trans {e₁ e₂ e₃ : Evm} (h₁ : Keeps e₁ e₂) (h₂ : Keeps e₂ e₃) : Keeps e₁ e₃ :=
  ⟨h₂.quorumReadOnly, h₂.readOnlyDepth.trans h₁.readOnlyDepth, h₂.states.trans h₁.states,
    h₁.publicState.trans h₂.publicState, h₁.privateState.trans h₂.privateState⟩

theorem ReadOnly.of_keeps {evm evm' : Evm} (hr : evm.ReadOnly) (h : Keeps evm evm') : evm'.ReadOnly :=
  ⟨h.quorumReadOnly, by rw [h.readOnlyDepth, h.states]; exact hr.readOnlyDepth_lt⟩

@[simp] theorem db_setDb_self (evm : Evm) (k : StateKind) (db : StateDB) : (evm.setDb k db).db k = db := by
  cases k <;> rfl

theorem keeps_setDb {evm : Evm} {k : StateKind} {db : StateDB} (hr : evm.ReadOnly) (h : (evm.db k).Grows db) :
    Keeps evm (evm.setDb k db) := by
  cases k
  · exact ⟨hr.quorumReadOnly, rfl, rfl, h, .refl _⟩
  · exact ⟨hr.quorumReadOnly, rfl, rfl, .refl _, h⟩

theorem keeps_modifyDb {evm : Evm} {k : StateKind} {f : StateDB → StateDB} (hr : evm.ReadOnly)
    (h : (evm.db k).Grows (f (evm.db k))) : Keeps evm (evm.modifyDb k f) :=
  keeps_setDb hr h

@[simp] theorem stateDB_setDb (evm : Evm) (k : StateKind) (db : StateDB) : (evm.setDb k db).stateDB = evm.stateDB := by
  cases k <;> rfl

@[simp] theorem stateDB_modifyDb (evm : Evm) (k : StateKind) (f : StateDB → StateDB) :
    (evm.modifyDb k f).stateDB = evm.stateDB :=
  stateDB_setDb _ _ _

@[simp] theorem quorumReadOnly_modifyDb (evm : Evm) (k : StateKind) (f : StateDB → StateDB) :
    (evm.modifyDb k f).quorumReadOnly = evm.quorumReadOnly := by
  cases k <;> rfl

@[simp] theorem depth_modifyDb (evm : Evm) (k : StateKind) (f : StateDB → StateDB) :
    (evm.modifyDb k f).depth = evm.depth := by
  cases k <;> rfl

/-- In the read-only window `Push` only stacks the state. -/
theorem push_of_readOnly {evm : Evm} (hr : evm.ReadOnly) (k : StateKind) :
    evm.Push k = { evm with states := k :: evm.states, stateDB := k } := by
  simp [Push, hr.quorumReadOnly]

theorem readOnly_push {evm : Evm} (hr : evm.ReadOnly) (k : StateKind) : (evm.Push k).ReadOnly := by
  rw [push_of_readOnly hr]
  exact ⟨hr.quorumReadOnly, Nat.lt_succ_of_lt hr.readOnlyDepth_lt⟩

/-- A `Pop` after a frame that kept the window opened by a `Push` returns to
the states before it, still read-only: the window was opened below. -/
theorem keeps_pop {evm evm' : Evm} {k : StateKind} (hr : evm.ReadOnly) (h : Keeps (evm.Push k) evm') :
    Keeps evm evm'.Pop := by
  rw [push_of_readOnly hr] at h
  have hlen : evm'.states.tail.length ≠ evm'.readOnlyDepth := by
    rw [h.states, h.readOnlyDepth]
    exact Nat.ne_of_gt hr.readOnlyDepth_lt
  have hcond : ¬ (evm'.quorumReadOnly && evm'.states.tail.length == evm'.readOnlyDepth) = true := by
    rw [Bool.and_eq_true, beq_iff_eq]
    exact fun hc => hlen hc.2
  unfold Pop
  dsimp only
  rw [if_neg hcond]
  exact ⟨h.quorumReadOnly, h.readOnlyDepth, by rw [h.states]; rfl, h.publicState, h.privateState⟩

theorem keeps_revertOnError {evm : Evm} {k : StateKind} {r : Evm × Option EvmError} (h : Keeps evm r.1) :
    Keeps evm (revertOnError k (evm.db k) r).1 := by
  obtain ⟨evm', err⟩ := r
  cases err with
  | none => exact h
  | some e =>
    -- the reverted state is the one the frame started with
    cases k
    · exact ⟨h.quorumReadOnly, h.readOnlyDepth, h.states, .refl _, h.privateState⟩
    · exact ⟨h.quorumReadOnly, h.readOnlyDepth, h.states, h.publicState, .refl _⟩

end Evm

/-- An interpreter that, run in the read-only window, keeps it and only
grows the states. -/
def Isolates (run : Interp) : Prop :=
  ∀ evm contract code readOnly, Evm.ReadOnly evm → Evm.Keeps evm (run evm contract code readOnly).1

section Isolation

variable {interp : Interp} {evm : Evm}

theorem keeps_callFrame (rules : Rules) (hrun : Isolates interp) (readOnly : Bool) (hr : evm.ReadOnly)
    (caller addr value : Address) :
    Evm.Keeps evm (callFrame rules interp readOnly evm caller addr value).1 := by
  unfold callFrame
  by_cases hd : evm.depth > callCreateDepth
  · rw [if_pos hd]
    exact .refl hr
  rw [if_neg hd]
  by_cases hb : (value != 0 && !CanTransfer (evm.db evm.stateDB) caller value) = true
  · rw [if_pos hb]
    exact .refl hr
  rw [if_neg hb]
  by_cases hskip : (!(evm.db evm.stateDB).Exist addr && rules.isEIP158 && value == 0) = true
  · rw [if_pos hskip]
    exact .refl hr
  rw [if_neg hskip]
  generalize hevm₁ : (if (!(evm.db evm.stateDB).Exist addr) = true then
    evm.modifyDb evm.stateDB (·.CreateAccount addr) else evm) = evm₁
  -- a missing account is created before the read-only check
  have hcreate : Evm.Keeps evm evm₁ := by
    rw [← hevm₁]
    split_ifs with hex
    · exact Evm.keeps_modifyDb hr (StateDB.grows_CreateAccount (by simpa using hex))
    · exact .refl hr
  have hr₁ := hr.of_keeps hcreate
  have hk : evm₁.stateDB = evm.stateDB := by
    rw [← hevm₁]
    split_ifs <;> simp
  dsimp only
  by_cases hv : value = 0
  · simp only [hv, bne_self_eq_false, Bool.false_and, Bool.false_eq_true, if_false, hk]
    exact Evm.keeps_revertOnError (hcreate.trans (hrun _ _ _ _ hr₁))
  · rw [if_pos (by simp [hv, hr₁.quorumReadOnly])]
    exact hcreate

theorem keeps_Call (rules : Rules) (hrun : Isolates interp) (readOnly : Bool) (hr : evm.ReadOnly)
    (caller addr value : Address) : Evm.Keeps evm (Call rules interp readOnly evm caller addr value).1 :=
  Evm.keeps_pop hr (keeps_callFrame rules hrun readOnly (Evm.readOnly_push hr _) caller addr value)

theorem keeps_CallCode (hrun : Isolates interp) (readOnly : Bool) (hr : evm.ReadOnly) (caller addr value : Address) :
    Evm.Keeps evm (CallCode interp readOnly evm caller addr value).1 := by
  have hr' := Evm.readOnly_push hr (getDualState evm addr)
  have hframe : Evm.Keeps (evm.Push (getDualState evm addr))
      (callCodeFrame interp readOnly (evm.Push (getDualState evm addr)) caller addr value).1 := by
    unfold callCodeFrame
    split_ifs
    · exact .refl hr'
    · exact .refl hr'
    · exact Evm.keeps_revertOnError (hrun _ _ _ _ hr')
  exact Evm.keeps_pop hr hframe

theorem keeps_DelegateCall (hrun : Isolates interp) (readOnly : Bool) (hr : evm.ReadOnly) (caller : Contract)
    (addr : Address) : Evm.Keeps evm (DelegateCall interp readOnly evm caller addr).1 := by
  have hr' := Evm.readOnly_push hr (getDualState evm addr)
  have hframe : Evm.Keeps (evm.Push (getDualState evm addr))
      (delegateCallFrame interp readOnly (evm.Push (getDualState evm addr)) caller addr).1 := by
    unfold delegateCallFrame
    split_ifs
    · exact .refl hr'
    · exact Evm.keeps_revertOnError (hrun _ _ _ _ hr')
  exact Evm.keeps_pop hr hframe

theorem keeps_StaticCall (hrun : Isolates interp) (hr : evm.ReadOnly) (caller addr : Address) :
    Evm.Keeps evm (StaticCall interp evm caller addr).1 := by
  unfold StaticCall
  split_ifs
  · exact .refl hr
  · -- the touch adds at most an empty account
    have htouch : Evm.Keeps evm (evm.modifyDb (getDualState evm addr) (·.AddBalance addr 0)) :=
      Evm.keeps_modifyDb hr (StateDB.grows_AddBalance_zero _ _)
    exact Evm.keeps_revertOnError (htouch.trans (hrun _ _ _ _ (hr.of_keeps htouch)))

/-- The interpreter loop keeps the window, opcode by opcode: in read-only
mode `SSTORE` is refused, and every call keeps it. -/
theorem keeps_execCode (rules : Rules) (hrun : Isolates interp) (contract : Contract) (readOnly : Bool)
    (code : List Instr) (hr : evm.ReadOnly) : Evm.Keeps evm (execCode rules interp evm contract code readOnly).1 := by
  induction code generalizing evm with
  | nil => exact .refl hr
  | cons op code ih =>
    unfold execCode
    split_ifs with hw hs
    · exact .refl hr
    · exact .refl hr
    · cases op with
      | sstore key val => simp [Instr.writes, hr.quorumReadOnly] at hw
      | stop => exact .refl hr
      | revert => exact .refl hr
      | call addr value =>
        have h := keeps_Call rules hrun readOnly hr contract.address addr value
        exact h.trans (ih (hr.of_keeps h))
      | callCode addr value =>
        have h := keeps_CallCode hrun readOnly hr contract.address addr value
        exact h.trans (ih (hr.of_keeps h))
      | delegateCall addr =>
        have h := keeps_DelegateCall hrun readOnly hr contract addr
        exact h.trans (ih (hr.of_keeps h))
      | staticCall addr =>
        have h := keeps_StaticCall hrun hr contract.address addr
        exact h.trans (ih (hr.of_keeps h))

/-- Runs of every fuel keep the window: by induction on the fuel, each run's
nested calls being runs of less. -/
theorem isolates_run (rules : Rules) : ∀ fuel, Isolates (run rules fuel)
  | 0 => fun _ _ _ _ hr => .refl hr
  | fuel + 1 => by
    intro evm contract code readOnly hr
    have hr' : Evm.ReadOnly { evm with depth := evm.depth + 1 } := ⟨hr.quorumReadOnly, hr.readOnlyDepth_lt⟩
    have h := keeps_execCode rules (isolates_run rules fuel) contract readOnly code hr'
    exact ⟨h.quorumReadOnly, h.readOnlyDepth, h.states, h.publicState, h.privateState⟩

end Isolation

/-- **A call into the public state keeps every account.** From a frame that
is not read-only, a `Call` to an address that the public state holds and
the private one does not opens the read-only window for the callee.
Whatever code runs there, to any depth and with any mix of calls, reverts
and failures, every account of either state is left as it was and only
empty accounts are added; on return the window is closed again, on the
states the call started with. -/
theorem call_into_public_state_keeps_accounts (rules : Rules) (fuel : Nat) (readOnly : Bool) {evm : Evm}
    {caller addr value : Address} (hro : evm.quorumReadOnly = false) (hpub : getDualState evm addr = .publicState) :
    evm.publicState.Grows (Call rules (run rules fuel) readOnly evm caller addr value).1.publicState ∧
      evm.privateState.Grows (Call rules (run rules fuel) readOnly evm caller addr value).1.privateState ∧
      (Call rules (run rules fuel) readOnly evm caller addr value).1.quorumReadOnly = false ∧
      (Call rules (run rules fuel) readOnly evm caller addr value).1.states = evm.states := by
  have hpush : evm.Push .publicState =
      { evm with
        quorumReadOnly := true
        readOnlyDepth := evm.states.length
        states := .publicState :: evm.states
        stateDB := .publicState } := by
    simp [Evm.Push, hro]
  have hr : (evm.Push .publicState).ReadOnly := by
    rw [hpush]
    exact ⟨rfl, Nat.lt_succ_self _⟩
  have h := keeps_callFrame rules (isolates_run rules fuel) readOnly hr caller addr value
  unfold Call
  rw [hpub]
  generalize callFrame rules (run rules fuel) readOnly (evm.Push .publicState) caller addr value = r at h ⊢
  obtain ⟨evm', err⟩ := r
  rw [hpush] at h
  dsimp only at h
  -- `Pop` closes the window, leaving the depth where `Push` opened it
  have hcond : (evm'.quorumReadOnly && evm'.states.tail.length == evm'.readOnlyDepth) = true := by
    simp [h.quorumReadOnly, h.states, h.readOnlyDepth]
  unfold Evm.Pop
  dsimp only
  rw [if_pos hcond]
  exact ⟨h.publicState, h.privateState, rfl, by rw [h.states]; rfl⟩

/-! ## A public account from a private transaction -/

section PublicAccount

/-! The private transaction of sender `1` calls the private contract `4`,
which calls the public contract `2` with no value. Contract `2`, holding a
balance of one, sends one to the address `3`, or static-calls it; neither
state holds `3`. -/

def istanbulRules : Rules := { isEIP158 := true, isByzantium := true }

def publicWith (code : List Instr) : StateDB where
  accounts := Function.update (Function.update (fun _ => none) 1 (some (Account.empty 10))) 2
    (some { Account.empty 1 with code })

def privateCaller : StateDB where
  accounts := Function.update (fun _ => none) 4 (some { Account.empty 0 with code := [.call 2 0] })

/-- The sender's private transaction calls the public contract `2` itself. -/
theorem call_into_public_state_keeps_accounts_at_publicWith :
    (NewEVM (publicWith [.call 3 1]) privateCaller).quorumReadOnly = false ∧
      getDualState (NewEVM (publicWith [.call 3 1]) privateCaller) 2 = .publicState ∧
      (publicWith [.call 3 1]).Grows
        (Call istanbulRules (run istanbulRules 4) false (NewEVM (publicWith [.call 3 1]) privateCaller) 1 2 0).1.publicState :=
  ⟨by decide, by decide, (call_into_public_state_keeps_accounts istanbulRules 4 false (by decide) (by decide)).1⟩

def privateTx (code : List Instr) : Evm × Option EvmError :=
  Call istanbulRules (run istanbulRules 4) false (NewEVM (publicWith code) privateCaller) 1 4 0

/-- The private transaction succeeds, and the public state holds an account
at `3` that it did not hold: `Call` creates it on `evm.StateDB`, the public
state, before refusing the value transfer in read-only mode, and returns
without reverting; `StaticCall` creates it with its `AddBalance` of zero. -/
theorem private_tx_adds_public_account :
    (publicWith [.call 3 1]).Exist 3 = false ∧
      (privateTx [.call 3 1]).2 = none ∧ (privateTx [.call 3 1]).1.publicState.Exist 3 = true ∧
      (privateTx [.staticCall 3]).2 = none ∧ (privateTx [.staticCall 3]).1.publicState.Exist 3 = true := by
  decide

end PublicAccount

end Xdchain.Vm.DualState
