import Xdchain.Core.TxPool
import Xdchain.Vm.Refund

/-! # Applying a message: `TransitionDb`

`core/state_transition.go`, with Quorum's private messages and the privacy
handler of `core/state_transition_pmh.go`:

* `preCheck` checks the nonce, and `buyGas` takes `gas × gasPrice` from the
  sender and the gas from the block's `GasPool`;
* the intrinsic gas is paid, the value is checked, and the EVM runs the
  creation or the call;
* `refundGas` adds the refund counter, capped at half the gas used, to the
  gas left, pays the sender for it and gives it back to the pool; the
  coinbase is paid for the gas used.

A private message takes its data from the private transaction manager,
`private.P.Receive`, given here by its answer: a node that is no party gets
no data. Its public nonce is bumped for a call, or when the manager fails;
the handler checks the privacy metadata before the run (`prepare`) and the
contracts the run touched after it (`verify`). A private message pays its
intrinsic gas only: the gas the EVM leaves is not read back.

The state is the EVM of `Vm.Refund`, whose public `StateDB` is
`evm.PublicState()`, the `st.state` of the code. What `TransitionDb` asks
of the EVM besides (`Create`, `Call` and what `verify` reads) is an `EVM`
record. Gas is `uint64`; balances are `big.Int`s, here `Nat`. -/

namespace Xdchain.Vm.Refund.StateDB

open Xdchain.Vm.DualState (Address)

def GetNonce (db : StateDB) (addr : Address) : Nat :=
  match db.accounts addr with
  | some acc => acc.nonce
  | none => 0

/-- `SetNonce`, on the object `GetOrNewStateObject` returns. -/
def SetNonce (db : StateDB) (addr : Address) (nonce : Nat) : StateDB :=
  let acc := db.getOrNewAccount addr
  db.setAccount addr { acc with nonce }

def GetRefund (db : StateDB) : Nat := db.refund

end Xdchain.Vm.Refund.StateDB

namespace Xdchain.Core

open Xdchain.Vm.DualState (StateKind)
open Xdchain.Vm.Refund (Evm StateDB EvmError CanTransfer)

/-! ## Messages, errors and the EVM -/

/-- `Message`, with `IsPrivate` of a `PrivateMessage`, false for any other
message. A nil `To` is a contract creation. -/
structure Message where
  From : Address
  To : Option Address
  GasPrice : Nat
  Gas : UInt64
  Value : Nat
  Nonce : Nat
  CheckNonce : Bool
  Data : List UInt8
  IsPrivate : Bool

/-- What `TransitionDb` reads of the chain config at the block's number, and
the block's coinbase. -/
structure Env where
  IsQuorum : Bool
  IsHomestead : Bool
  IsIstanbul : Bool
  IsPrivacyEnhancementsEnabled : Bool
  Coinbase : Address

abbrev PrivacyFlagType := Nat

def PrivacyFlagStandardPrivate : PrivacyFlagType := 0

def PrivacyFlagStateValidation : PrivacyFlagType := 3

/-- `engine.ExtraMetadata`, the fields the handler reads: the hashes of the
affected contracts' creations and the Merkle root over them (zero for
`common.Hash{}`). -/
structure ExtraMetadata where
  ACHashes : List Nat
  ACMerkleRoot : Nat
  PrivacyFlag : PrivacyFlagType

/-- `state.PrivacyMetadata` of a contract. -/
structure PrivacyMetadata where
  CreationTxHash : Nat
  PrivacyFlag : PrivacyFlagType

/-- What the EVM returns as `vmerr`, and the errors the handler puts in a
result in its place. -/
inductive VmError where
  | evm (e : EvmError)
  /-- `multitenancy.ErrNotAuthorized`. -/
  | notAuthorized
  | privacyEnhancedReceivedWhenDisabled
  | privacyMetadataInvalidMerkleRoot
  | privateContractInteractionVerificationFailed
deriving DecidableEq, Repr

/-- The errors `TransitionDb` returns. `vm` is a `vmerr` returned as one;
`privacyEnhancementsDisabled` is the error `prepare` formats for a node that
has not enabled the enhancements, `verify` the one `verify` wraps when the
Merkle root cannot be computed. -/
inductive TransitionError where
  | nonceTooHigh
  | nonceTooLow
  | insufficientFunds
  | gasLimitReached
  | gasUintOverflow
  | intrinsicGas
  | insufficientFundsForTransfer
  | vm (e : VmError)
  | privacyEnhancementsDisabled
  | verify
deriving DecidableEq, Repr

/-- `ExecutionResult`; nil return data is the empty list. -/
structure ExecutionResult where
  UsedGas : UInt64
  Err : Option VmError
  ReturnData : List UInt8

/-- What `TransitionDb` does with the EVM: `Create` and `Call`, run after
`SetTxPrivacyMetadata` with the flag `prepare` set (`none` where it set
nothing), and what `verify` reads after the run. `Create` and `Call` return
the EVM after the run, the return data, the gas left and `vmerr`; `none`
where they panic. -/
structure EVM where
  Create : Option PrivacyFlagType → Evm → Address → List UInt8 → UInt64 → Nat →
    Option (Evm × List UInt8 × UInt64 × Option VmError)
  Call : Option PrivacyFlagType → Evm → Address → Address → List UInt8 → UInt64 → Nat →
    Option (Evm × List UInt8 × UInt64 × Option VmError)
  AffectedContracts : Evm → List Address
  GetStatePrivacyMetadata : Evm → Address → Except Unit (Option PrivacyMetadata)
  CalculateMerkleRoot : Evm → Except Unit Nat

/-! ## The gas pool -/

/-- `GasPool.AddGas`; `none` where it panics, "gas pool pushed above
uint64". -/
def GasPool.AddGas (gp amount : UInt64) : Option UInt64 :=
  if gp.toNat > 2 ^ 64 - 1 - amount.toNat then none else some (gp + amount)

def GasPool.SubGas (gp amount : UInt64) : Except TransitionError UInt64 :=
  if gp < amount then .error .gasLimitReached else .ok (gp - amount)

/-! ## The transition -/

/-- The fields of `StateTransition` that change: the block's pool, the gas
left and bought, and the EVM with the public state. -/
structure StateTransition where
  gp : UInt64
  gas : UInt64
  initialGas : UInt64
  evm : Evm

namespace StateTransition

def NewStateTransition (evm : Evm) (gp : UInt64) : StateTransition := { gp, gas := 0, initialGas := 0, evm }

/-- `st.state`, the public state. -/
def state (st : StateTransition) : StateDB := st.evm.publicState

/-- A write to `st.state`. -/
def modifyState (st : StateTransition) (f : StateDB → StateDB) : StateTransition :=
  { st with evm := st.evm.modifyDb .publicState f }

/-- `gasUsed`: in `uint64`. -/
def gasUsed (st : StateTransition) : UInt64 := st.initialGas - st.gas

def buyGas (msg : Message) (st : StateTransition) : Except TransitionError StateTransition :=
  let mgval := msg.Gas.toNat * msg.GasPrice
  if st.state.GetBalance msg.From < mgval then .error .insufficientFunds
  else
    match GasPool.SubGas st.gp msg.Gas with
    | .error e => .error e
    | .ok gp =>
      .ok ({ st with gp, gas := st.gas + msg.Gas, initialGas := msg.Gas }.modifyState (·.SubBalance msg.From mgval))

def preCheck (msg : Message) (st : StateTransition) : Except TransitionError StateTransition :=
  if msg.CheckNonce then
    let stNonce := st.state.GetNonce msg.From
    if stNonce < msg.Nonce then .error .nonceTooHigh
    else if stNonce > msg.Nonce then .error .nonceTooLow
    else buyGas msg st
  else buyGas msg st

/-- `refundGas`; `none` where `AddGas` panics. -/
def refundGas (msg : Message) (st : StateTransition) : Option StateTransition :=
  let refund := min (st.gasUsed / 2) (UInt64.ofNat st.state.GetRefund)
  let gas := st.gas + refund
  let st := { st with gas }.modifyState (·.AddBalance msg.From (gas.toNat * msg.GasPrice))
  (GasPool.AddGas st.gp gas).map fun gp => { st with gp }

/-- The coinbase paid for the gas used. -/
def payCoinbase (env : Env) (msg : Message) (st : StateTransition) : StateTransition :=
  st.modifyState (·.AddBalance env.Coinbase (st.gasUsed.toNat * msg.GasPrice))

/-- The public nonce of the sender, one up. -/
def bumpNonce (msg : Message) (st : StateTransition) : StateTransition :=
  st.modifyState fun db => db.SetNonce msg.From (db.GetNonce msg.From + 1)

end StateTransition

/-! ## The privacy handler -/

/-- The fields of `privateMessageHandler` that the private branch sets: its
`snapshot` is a copy of `evm.StateDB`, which `RevertToSnapshot` restores. -/
structure PrivateMessageHandler where
  hasPrivatePayload : Bool
  snapshot : StateDB
  receivedPrivacyMetadata : Option ExtraMetadata

def PrivateMessageHandler.mustVerify (pmh : PrivateMessageHandler) (env : Env) : Bool :=
  pmh.hasPrivatePayload && pmh.receivedPrivacyMetadata.isSome && env.IsPrivacyEnhancementsEnabled

/-- `prepare`: the flag it sets on the EVM, or the `vmError` and the
consensus error it returns. -/
def prepare (env : Env) : Option ExtraMetadata → Except (VmError × Option TransitionError) (Option PrivacyFlagType)
  | none => .ok none
  | some md =>
    if !env.IsPrivacyEnhancementsEnabled && md.PrivacyFlag != PrivacyFlagStandardPrivate then
      .error (.privacyEnhancedReceivedWhenDisabled, some .privacyEnhancementsDisabled)
    else if md.PrivacyFlag = PrivacyFlagStateValidation && md.ACMerkleRoot = 0 then
      .error (.privacyMetadataInvalidMerkleRoot, none)
    else .ok (some md.PrivacyFlag)

/-- The loop of `verify` over the affected contracts: whether it exits
early. A contract whose metadata cannot be read counts as a public one for
a standard private message. -/
def verifyAffected (md : ExtraMetadata) (get : Address → Except Unit (Option PrivacyMetadata)) :
    List Address → Bool
  | [] => false
  | addr :: rest =>
    match get addr with
    | .error _ => md.PrivacyFlag != PrivacyFlagStandardPrivate || verifyAffected md get rest
    | .ok none => verifyAffected md get rest
    | .ok (some actual) =>
      actual.PrivacyFlag != md.PrivacyFlag || !md.ACHashes.contains actual.CreationTxHash ||
        verifyAffected md get rest

/-- `verify`: `none` to go on, `some err` to exit early, with the wrapped
error where the Merkle root could not be computed. -/
def verify (vm : EVM) (md : ExtraMetadata) (evm : Evm) : Option (Option TransitionError) :=
  if verifyAffected md (vm.GetStatePrivacyMetadata evm) (vm.AffectedContracts evm) then some none
  else if md.ACMerkleRoot != 0 then
    match vm.CalculateMerkleRoot evm with
    | .error _ => some (some .verify)
    | .ok root => if root != md.ACMerkleRoot then some none else none
  else none

/-! ## `TransitionDb` -/

/-- What `TransitionDb` ends with: the transition's state, the result and
the error it returns. -/
abbrev Outcome := StateTransition × Option ExecutionResult × Option TransitionError

namespace StateTransition

variable (env : Env) (vm : EVM) (msg : Message)

/-- The end of `TransitionDb` after a run that left `leftoverGas` and
returned `ret` and `vmerr`: a public message's gas is what the run left, a
private one keeps what it had before the run; the refund and the coinbase
are paid. -/
def settle (isPrivate : Bool) (ret : List UInt8) (leftoverGas : UInt64) (vmerr : Option VmError)
    (st : StateTransition) : Option Outcome :=
  let st := if !isPrivate then { st with gas := leftoverGas } else st
  (refundGas msg st).map fun st =>
    let st := payCoinbase env msg st
    if isPrivate then (st, some ⟨0, vmerr, ret⟩, none) else (st, some ⟨st.gasUsed, vmerr, ret⟩, none)

/-- What follows the run of the EVM: the two `vmerr`s that are consensus
errors, the handler's `verify`, then `settle`. -/
def afterRun (isPrivate : Bool) (pmh : PrivateMessageHandler) (st : StateTransition) :
    Evm × List UInt8 × UInt64 × Option VmError → Option Outcome
  | (evm, ret, leftoverGas, vmerr) =>
    let st := { st with evm }
    if vmerr = some (.evm .insufficientBalance) ∨ vmerr = some .notAuthorized then
      some (st, none, vmerr.map .vm)
    else
      match pmh.receivedPrivacyMetadata, pmh.mustVerify env with
      | some md, true =>
        match verify vm md st.evm with
        | some err =>
          -- `RevertToSnapshot(pmh.snapshot)` on `evm.StateDB`
          some ({ st with evm := st.evm.setDb st.evm.stateDB pmh.snapshot },
            some ⟨0, some .privateContractInteractionVerificationFailed, []⟩, err)
        | none => settle env msg isPrivate ret leftoverGas vmerr st
      | _, _ => settle env msg isPrivate ret leftoverGas vmerr st

/-- `TransitionDb` from the intrinsic gas on, with the data the EVM runs,
the handler and the flag `prepare` set. -/
def execute (isPrivate : Bool) (data : List UInt8) (pmh : PrivateMessageHandler) (flag : Option PrivacyFlagType)
    (st : StateTransition) : Option Outcome :=
  let contractCreation := msg.To.isNone
  -- the intrinsic gas of the public data: a private message's is its payload's hash
  match IntrinsicGas msg.Data contractCreation env.IsHomestead env.IsIstanbul with
  | .error _ => some (st, none, some .gasUintOverflow)
  | .ok gas =>
    if st.gas < gas then some (st, none, some .intrinsicGas)
    else
      let st := { st with gas := st.gas - gas }
      if msg.Value > 0 && !CanTransfer st.state msg.From msg.Value then
        some (st, none, some .insufficientFundsForTransfer)
      else if contractCreation then
        (vm.Create flag st.evm msg.From data st.gas msg.Value).bind (afterRun env vm msg isPrivate pmh st)
      else
        let st := if !isPrivate then bumpNonce msg st else st
        -- `*st.msg.To()` on Quorum, `st.to()` elsewhere: the same for a call
        let toAddr := msg.To.getD 0
        if data.isEmpty && isPrivate then
          (refundGas msg st).map fun st => (payCoinbase env msg st, some ⟨0, none, []⟩, none)
        else (vm.Call flag st.evm msg.From toAddr data st.gas msg.Value).bind (afterRun env vm msg isPrivate pmh st)

/-- The private branch of `TransitionDb`, on the manager's answer: the data
and the metadata, or a failure. -/
def receivePrivate (receive : Except Unit (Option (List UInt8) × Option ExtraMetadata)) (snapshot : StateDB)
    (st : StateTransition) : Option Outcome :=
  -- the public nonce is bumped for a call, and for any message the manager failed on
  match receive with
  | .error _ => some (bumpNonce msg st, some ⟨0, none, []⟩, none)
  | .ok (data, md) =>
    let st := if msg.To.isSome then bumpNonce msg st else st
    let pmh : PrivateMessageHandler := ⟨data.isSome, snapshot, md⟩
    match prepare env md with
    | .error (vmErr, consensusErr) => some (st, some ⟨0, some vmErr, []⟩, consensusErr)
    | .ok flag => execute env vm msg true (data.getD []) pmh flag st

/-- `TransitionDb`; `none` where it panics. -/
def TransitionDb (receive : Except Unit (Option (List UInt8) × Option ExtraMetadata)) (st : StateTransition) :
    Option Outcome :=
  match preCheck msg st with
  | .error e => some (st, none, some e)
  | .ok st =>
    let snapshot := st.evm.db st.evm.stateDB
    if msg.IsPrivate && env.IsQuorum then receivePrivate env vm msg receive snapshot st
    else execute env vm msg false msg.Data ⟨false, snapshot, none⟩ none st

end StateTransition

def ApplyMessage (env : Env) (vm : EVM) (receive : Except Unit (Option (List UInt8) × Option ExtraMetadata))
    (evm : Evm) (msg : Message) (gp : UInt64) : Option Outcome :=
  StateTransition.TransitionDb env vm msg receive (StateTransition.NewStateTransition evm gp)

end Xdchain.Core
