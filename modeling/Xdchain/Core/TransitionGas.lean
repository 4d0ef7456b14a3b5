import Mathlib.Algebra.BigOperators.Group.Finset.Basic
import Xdchain.Core.StateTransition

/-! # Gas and ether through `TransitionDb`

What a run of `TransitionDb` does to the block's gas pool and to the public
balances, for every message and every EVM:

* a public message that completes has used at most its gas, takes exactly
  the gas it used from the pool, and that gas is read off the EVM's run:
  the gas limit less what the run left, less the refund, capped at half;
* a completed run pays all its gas money back into any set of accounts
  holding the sender and the coinbase: `buyGas`, `refundGas` and the
  coinbase's pay move it between those two only, so the set's ether changes
  by what the EVM's run did and nothing else;
* a private message that completes pays for its intrinsic gas alone,
  whatever the EVM did;
* a private message that passes `preCheck` and that the private
  transaction manager fails on gets a result that reports no gas used and no
  error, yet keeps the gas it bought: the pool is short of all of it and the
  sender has paid for it, but nobody is paid.

The stages are read off one by one (`buyGas_ok`, `refundGas_some`,
`settle_some`, ...), and each theorem below follows a run through them. -/

namespace Xdchain.Core

open Xdchain.Vm.DualState (StateKind)
open Xdchain.Vm.Refund (Evm StateDB CanTransfer)

/-! ## Balances of the public state -/

namespace StateDB

variable (db : StateDB) (x a : Address) (v n : Nat)

theorem GetBalance_AddBalance :
    (db.AddBalance x v).GetBalance a = db.GetBalance a + if a = x then v else 0 := by
  by_cases h : a = x
  · subst h
    cases hx : db.accounts a <;>
      simp [StateDB.AddBalance, StateDB.GetBalance, StateDB.setAccount, StateDB.getOrNewAccount, hx,
        Xdchain.Vm.Refund.Account.empty]
  · simp [StateDB.AddBalance, StateDB.GetBalance, StateDB.setAccount, h]

/-- A debit the balance covers: `buyGas` checks it first. -/
theorem GetBalance_SubBalance {db : StateDB} {x : Address} {v : Nat} (hv : v ≤ db.GetBalance x) (a : Address) :
    (db.SubBalance x v).GetBalance a + (if a = x then v else 0) = db.GetBalance a := by
  by_cases h : a = x
  · subst h
    cases hx : db.accounts a <;>
      simp_all [StateDB.SubBalance, StateDB.GetBalance, StateDB.setAccount, StateDB.getOrNewAccount,
        Xdchain.Vm.Refund.Account.empty]
  · simp [StateDB.SubBalance, StateDB.GetBalance, StateDB.setAccount, h]

@[simp] theorem GetBalance_SetNonce : (db.SetNonce x n).GetBalance a = db.GetBalance a := by
  by_cases h : a = x
  · subst h
    cases hx : db.accounts a <;>
      simp [StateDB.SetNonce, StateDB.GetBalance, StateDB.setAccount, StateDB.getOrNewAccount, hx,
        Xdchain.Vm.Refund.Account.empty]
  · simp [StateDB.SetNonce, StateDB.GetBalance, StateDB.setAccount, h]

@[simp] theorem GetRefund_AddBalance : (db.AddBalance x v).GetRefund = db.GetRefund := rfl

@[simp] theorem GetRefund_SubBalance : (db.SubBalance x v).GetRefund = db.GetRefund := rfl

@[simp] theorem GetRefund_SetNonce : (db.SetNonce x n).GetRefund = db.GetRefund := rfl

@[simp] theorem GetNonce_SubBalance : (db.SubBalance x v).GetNonce a = db.GetNonce a := by
  by_cases h : a = x
  · subst h
    cases hx : db.accounts a <;>
      simp [StateDB.SubBalance, StateDB.GetNonce, StateDB.setAccount, StateDB.getOrNewAccount, hx,
        Xdchain.Vm.Refund.Account.empty]
  · simp [StateDB.SubBalance, StateDB.GetNonce, StateDB.setAccount, h]

@[simp] theorem GetNonce_SetNonce_self : (db.SetNonce x n).GetNonce x = n := by
  simp [StateDB.SetNonce, StateDB.GetNonce, StateDB.setAccount]

end StateDB

/-- The ether the accounts of `A` hold in a state. -/
def total (db : StateDB) (A : Finset Address) : Nat := ∑ a ∈ A, db.GetBalance a

section Total

variable {A : Finset Address} {x : Address}

theorem total_AddBalance (db : StateDB) (hx : x ∈ A) (v : Nat) : total (db.AddBalance x v) A = total db A + v := by
  simp only [total, StateDB.GetBalance_AddBalance, Finset.sum_add_distrib, Finset.sum_ite_eq', if_pos hx]

theorem total_SubBalance {db : StateDB} (hx : x ∈ A) {v : Nat} (hv : v ≤ db.GetBalance x) :
    total (db.SubBalance x v) A + v = total db A := by
  have h := Finset.sum_congr rfl fun a (_ : a ∈ A) => StateDB.GetBalance_SubBalance hv a
  rwa [Finset.sum_add_distrib, Finset.sum_ite_eq', if_pos hx] at h

@[simp] theorem total_SetNonce (db : StateDB) (n : Nat) : total (db.SetNonce x n) A = total db A := by
  simp [total]

end Total

/-! ## The gas pool -/

theorem GasPool.SubGas_eq_ok {gp amount gp' : UInt64} (h : GasPool.SubGas gp amount = .ok gp') :
    amount ≤ gp ∧ gp' = gp - amount := by
  unfold GasPool.SubGas at h
  split_ifs at h with hlt
  cases h
  exact ⟨UInt64.not_lt.mp hlt, rfl⟩

/-- What `SubGas` took comes back by adding it. -/
theorem GasPool.toNat_sub_add {gp amount : UInt64} (h : amount ≤ gp) : (gp - amount).toNat + amount.toNat = gp.toNat := by
  rw [UInt64.toNat_sub_of_le _ _ h]
  have := UInt64.le_iff_toNat_le.mp h
  omega

/-- `AddGas` does not wrap: where it would, it panics. -/
theorem GasPool.AddGas_eq_some {gp amount gp' : UInt64} (h : GasPool.AddGas gp amount = some gp') :
    gp'.toNat = gp.toNat + amount.toNat := by
  unfold GasPool.AddGas at h
  split_ifs at h with hgt
  cases h
  have hlt := amount.toNat_lt
  rw [UInt64.toNat_add]
  omega

/-! ## The stages of a run -/

namespace StateTransition

variable {env : Env} {vm : EVM} {msg : Message}

@[simp] theorem state_modifyState (st : StateTransition) (f : StateDB → StateDB) :
    (st.modifyState f).state = f st.state := rfl

@[simp] theorem gp_modifyState (st : StateTransition) (f : StateDB → StateDB) : (st.modifyState f).gp = st.gp := rfl

@[simp] theorem gas_modifyState (st : StateTransition) (f : StateDB → StateDB) : (st.modifyState f).gas = st.gas := rfl

@[simp] theorem initialGas_modifyState (st : StateTransition) (f : StateDB → StateDB) :
    (st.modifyState f).initialGas = st.initialGas := rfl

/-- `buyGas` succeeds when the sender can pay for the gas and the pool holds
it; it moves the gas from the pool to the transition and its price from the
sender. -/
theorem buyGas_ok {st st' : StateTransition} (h : buyGas msg st = .ok st') :
    msg.Gas.toNat * msg.GasPrice ≤ st.state.GetBalance msg.From ∧ msg.Gas ≤ st.gp ∧
      st' = { st with gp := st.gp - msg.Gas, gas := st.gas + msg.Gas, initialGas := msg.Gas }.modifyState
        (·.SubBalance msg.From (msg.Gas.toNat * msg.GasPrice)) := by
  unfold buyGas at h
  dsimp only at h
  split_ifs at h with hbal
  cases hs : GasPool.SubGas st.gp msg.Gas with
  | error e => simp [hs] at h
  | ok gp =>
    obtain ⟨hle, rfl⟩ := GasPool.SubGas_eq_ok hs
    simp only [hs, Except.ok.injEq] at h
    exact ⟨Nat.not_lt.mp hbal, hle, h.symm⟩

/-- `preCheck` is `buyGas` behind the nonce check. -/
theorem preCheck_ok {st st' : StateTransition} (h : preCheck msg st = .ok st') :
    (msg.CheckNonce = true → st.state.GetNonce msg.From = msg.Nonce) ∧ buyGas msg st = .ok st' := by
  unfold preCheck at h
  by_cases hc : msg.CheckNonce = true
  · simp only [hc, if_true] at h
    split_ifs at h with hlo hhi
    exact ⟨fun _ => by omega, h⟩
  · simp only [hc, Bool.false_eq_true, if_false] at h
    exact ⟨fun h' => absurd h' hc, h⟩

/-- `buyGas` goes through when the sender can pay for the gas and the pool
has it. -/
theorem buyGas_of_le {st : StateTransition} (hbal : msg.Gas.toNat * msg.GasPrice ≤ st.state.GetBalance msg.From)
    (hgp : msg.Gas ≤ st.gp) :
    buyGas msg st = .ok ({ st with gp := st.gp - msg.Gas, gas := st.gas + msg.Gas, initialGas := msg.Gas }.modifyState
      (·.SubBalance msg.From (msg.Gas.toNat * msg.GasPrice))) := by
  have hs : GasPool.SubGas st.gp msg.Gas = .ok (st.gp - msg.Gas) := by
    unfold GasPool.SubGas
    exact if_neg (UInt64.not_lt.mpr hgp)
  unfold buyGas
  rw [if_neg (Nat.not_lt.mpr hbal), hs]

/-- With the right nonce, `preCheck` is `buyGas`. -/
theorem preCheck_of_nonce {st : StateTransition}
    (hnonce : msg.CheckNonce = true → st.state.GetNonce msg.From = msg.Nonce) : preCheck msg st = buyGas msg st := by
  unfold preCheck
  cases hc : msg.CheckNonce with
  | false => rfl
  | true =>
    have hn := hnonce hc
    simp [hn]

/-- The refund rule of `refundGas` in numbers: for `used` gas and the
refund counter at `counter`, the counter read as a `uint64`, capped at half
the gas used. -/
def cappedRefund (used counter : Nat) : Nat := min (used / 2) (counter % 2 ^ 64)

theorem cappedRefund_le (used counter : Nat) : cappedRefund used counter ≤ used / 2 := Nat.min_le_left _ _

/-- The refund `refundGas` adds to the gas left. -/
def refundOf (st : StateTransition) : UInt64 := min (st.gasUsed / 2) (UInt64.ofNat st.state.GetRefund)

/-- `refundGas` adds the refund to the gas left, pays the sender for the
gas left and gives it back to the pool. -/
theorem refundGas_some {st st' : StateTransition} (h : refundGas msg st = some st') :
    st'.gas = st.gas + st.refundOf ∧ st'.initialGas = st.initialGas ∧
      st'.gp.toNat = st.gp.toNat + (st.gas + st.refundOf).toNat ∧
      st'.state = st.state.AddBalance msg.From ((st.gas + st.refundOf).toNat * msg.GasPrice) := by
  unfold refundGas at h
  dsimp only at h
  obtain ⟨gp, ha, rfl⟩ := Option.map_eq_some_iff.mp h
  exact ⟨rfl, rfl, GasPool.AddGas_eq_some ha, rfl⟩

@[simp] theorem payCoinbase_gp (st : StateTransition) : (payCoinbase env msg st).gp = st.gp := rfl

@[simp] theorem payCoinbase_gasUsed (st : StateTransition) : (payCoinbase env msg st).gasUsed = st.gasUsed := rfl

@[simp] theorem payCoinbase_state (st : StateTransition) :
    (payCoinbase env msg st).state = st.state.AddBalance env.Coinbase (st.gasUsed.toNat * msg.GasPrice) := rfl

@[simp] theorem bumpNonce_gp (st : StateTransition) : (bumpNonce msg st).gp = st.gp := rfl

@[simp] theorem bumpNonce_gas (st : StateTransition) : (bumpNonce msg st).gas = st.gas := rfl

@[simp] theorem bumpNonce_initialGas (st : StateTransition) : (bumpNonce msg st).initialGas = st.initialGas := rfl

@[simp] theorem total_bumpNonce (st : StateTransition) (A : Finset Address) :
    total (bumpNonce msg st).state A = total st.state A := by
  simp [bumpNonce]

/-- `refundGas` in numbers, for a transition that has not used more gas
than it bought: the refund is the refund counter, capped at half the gas
used; the pool gets back the gas left and the refund, and the sender is paid
for them. -/
theorem refundGas_toNat {st st' : StateTransition} (hle : st.gas ≤ st.initialGas) (h : refundGas msg st = some st') :
    st'.gasUsed.toNat = st.initialGas.toNat - st.gas.toNat -
        cappedRefund (st.initialGas.toNat - st.gas.toNat) st.state.GetRefund ∧
      st'.gp.toNat = st.gp.toNat + st.gas.toNat + cappedRefund (st.initialGas.toNat - st.gas.toNat) st.state.GetRefund ∧
      st'.initialGas = st.initialGas ∧
      st'.state = st.state.AddBalance msg.From
        ((st.gas.toNat + cappedRefund (st.initialGas.toNat - st.gas.toNat) st.state.GetRefund) * msg.GasPrice) := by
  obtain ⟨hgas, hinit, hgp, hstate⟩ := refundGas_some h
  have hle' := UInt64.le_iff_toNat_le.mp hle
  have hused : st.gasUsed.toNat = st.initialGas.toNat - st.gas.toNat := UInt64.toNat_sub_of_le _ _ hle
  have hrefund : st.refundOf.toNat = cappedRefund (st.initialGas.toNat - st.gas.toNat) st.state.GetRefund := by
    simp only [refundOf]
    rw [show min (st.gasUsed / 2) (UInt64.ofNat st.state.GetRefund) = st.gasUsed / 2 ⊓ UInt64.ofNat st.state.GetRefund
      from rfl, UInt64.toNat_min, UInt64.toNat_div, UInt64.toNat_ofNat', hused, show (2 : UInt64).toNat = 2 from rfl]
    rfl
  have hcap := cappedRefund_le (st.initialGas.toNat - st.gas.toNat) st.state.GetRefund
  -- the gas left and the refund stay below what was bought, so nothing wraps
  have hsum : (st.gas + st.refundOf).toNat =
      st.gas.toNat + cappedRefund (st.initialGas.toNat - st.gas.toNat) st.state.GetRefund := by
    have hlt := st.initialGas.toNat_lt
    rw [UInt64.toNat_add, hrefund]
    omega
  have hle₂ : st.gas + st.refundOf ≤ st.initialGas := by
    rw [UInt64.le_iff_toNat_le, hsum]
    omega
  refine ⟨?_, by rw [hgp, hsum]; omega, hinit, by rw [hstate, hsum]⟩
  rw [gasUsed, hgas, hinit, UInt64.toNat_sub_of_le _ _ hle₂, hsum]
  omega

end StateTransition

/-! ## What the EVM is asked -/

namespace EVM

/-- `r` is what the EVM returned for the message's creation or call, run
on `evm` with `gas`. -/
def Ran (vm : EVM) (flag : Option PrivacyFlagType) (msg : Message) (data : List UInt8) (evm : Evm) (gas : UInt64)
    (r : Evm × List UInt8 × UInt64 × Option VmError) : Prop :=
  (msg.To = none ∧ vm.Create flag evm msg.From data gas msg.Value = some r) ∨
    ∃ dst, msg.To = some dst ∧ vm.Call flag evm msg.From dst data gas msg.Value = some r

/-- The EVM leaves at most the gas it was given. -/
def Metered (vm : EVM) : Prop :=
  ∀ flag msg data evm gas r, vm.Ran flag msg data evm gas r → r.2.2.1 ≤ gas

end EVM

/-! ## Runs of `TransitionDb` -/

namespace StateTransition

variable {env : Env} {vm : EVM} {msg : Message}

/-- `settle` refunds and pays the coinbase; a public message reports the
gas used. -/
theorem settle_some {isPrivate : Bool} {ret : List UInt8} {leftoverGas : UInt64} {vmerr : Option VmError}
    {st : StateTransition} {o : Outcome} (h : settle env msg isPrivate ret leftoverGas vmerr st = some o) :
    ∃ st₁, refundGas msg (if isPrivate then st else { st with gas := leftoverGas }) = some st₁ ∧
      o = (payCoinbase env msg st₁, some ⟨if isPrivate then 0 else st₁.gasUsed, vmerr, ret⟩, none) := by
  unfold settle at h
  obtain ⟨st₁, hr, rfl⟩ := Option.map_eq_some_iff.mp h
  cases isPrivate <;> exact ⟨st₁, hr, rfl⟩

/-- A run that ends with a result and no error, and in which the handler
has nothing to verify, was settled. -/
theorem afterRun_settle {isPrivate : Bool} {pmh : PrivateMessageHandler} {st st' : StateTransition}
    {res : ExecutionResult} {r : Evm × List UInt8 × UInt64 × Option VmError} (hv : pmh.mustVerify env = false)
    (h : afterRun env vm msg isPrivate pmh st r = some (st', some res, none)) :
    settle env msg isPrivate r.2.1 r.2.2.1 r.2.2.2 { st with evm := r.1 } = some (st', some res, none) := by
  obtain ⟨evm, ret, leftoverGas, vmerr⟩ := r
  unfold afterRun at h
  dsimp only at h
  split_ifs at h with herr
  · cases h
  · rw [hv] at h
    cases hmd : pmh.receivedPrivacyMetadata <;> simpa [hmd] using h

/-- `execute` after the intrinsic gas and the value checks: the EVM's run,
or, for a private call without data, the refund alone. -/
theorem execute_some {isPrivate : Bool} {data : List UInt8} {pmh : PrivateMessageHandler}
    {flag : Option PrivacyFlagType} {st st' : StateTransition} {res : ExecutionResult}
    (h : execute env vm msg isPrivate data pmh flag st = some (st', some res, none)) :
    ∃ g, IntrinsicGas msg.Data msg.To.isNone env.IsHomestead env.IsIstanbul = .ok g ∧ g ≤ st.gas ∧
      (0 < msg.Value → CanTransfer st.state msg.From msg.Value = true) ∧
      ((∃ r, vm.Ran flag msg data (if isPrivate = false ∧ msg.To.isSome then bumpNonce msg { st with gas := st.gas - g }
            else { st with gas := st.gas - g }).evm (st.gas - g) r ∧
          afterRun env vm msg isPrivate pmh
            (if isPrivate = false ∧ msg.To.isSome then bumpNonce msg { st with gas := st.gas - g }
              else { st with gas := st.gas - g }) r = some (st', some res, none)) ∨
        (isPrivate = true ∧ msg.To.isSome ∧ data = [] ∧
          ∃ st₁, refundGas msg { st with gas := st.gas - g } = some st₁ ∧ st' = payCoinbase env msg st₁ ∧
            res = ⟨0, none, []⟩)) := by
  unfold execute at h
  dsimp only at h
  cases hI : IntrinsicGas msg.Data msg.To.isNone env.IsHomestead env.IsIstanbul with
  | error e => simp [hI] at h
  | ok g =>
    simp only [hI] at h
    -- the two checks before the run
    split_ifs at h with hlt hval hcreate hnd
    · simp at h
    · simp at h
    all_goals refine ⟨g, rfl, UInt64.not_lt.mp hlt, fun hv => by simp [hv] at hval; exact hval, ?_⟩
    -- a creation
    · obtain ⟨r, hr, hrun⟩ := Option.bind_eq_some_iff.mp h
      have hto : msg.To = none := Option.isNone_iff_eq_none.mp hcreate
      exact .inl ⟨r, .inl ⟨hto, by simpa [hto] using hr⟩, by simpa [hto] using hrun⟩
    -- a call, with the nonce bumped for a public message
    all_goals obtain ⟨dst, hto⟩ := Option.ne_none_iff_exists'.mp fun hn : msg.To = none => hcreate (by simp [hn])
    all_goals rename_i hbump
    · -- no data is only looked at for a private message
      simp only [Bool.not_eq_eq_eq_not, Bool.not_true] at hbump
      simp [hbump] at hnd
    · -- a private call without data is only refunded
      obtain ⟨st₁, hr, hst⟩ := Option.map_eq_some_iff.mp h
      obtain ⟨hd, rfl⟩ : data.isEmpty = true ∧ isPrivate = true := by simpa using hnd
      simp only [Prod.mk.injEq, Option.some.injEq] at hst
      obtain ⟨rfl, rfl, -⟩ := hst
      exact .inr ⟨rfl, by simp [hto], List.isEmpty_iff.mp hd, st₁, hr, rfl, rfl⟩
    all_goals
      obtain ⟨r, hr, hrun⟩ := Option.bind_eq_some_iff.mp h
      cases isPrivate <;> simp at hbump
      exact .inl ⟨r, .inr ⟨dst, hto, by simpa [hto] using hr⟩, by simpa [hto] using hrun⟩

end StateTransition

/-! ## Public messages -/

namespace StateTransition

variable {env : Env} {vm : EVM} {msg : Message}

theorem ite_bumpNonce_gp (c : Prop) [Decidable c] (s : StateTransition) :
    (if c then bumpNonce msg s else s).gp = s.gp := by
  split <;> rfl

theorem ite_bumpNonce_gas (c : Prop) [Decidable c] (s : StateTransition) :
    (if c then bumpNonce msg s else s).gas = s.gas := by
  split <;> rfl

theorem ite_bumpNonce_initialGas (c : Prop) [Decidable c] (s : StateTransition) :
    (if c then bumpNonce msg s else s).initialGas = s.initialGas := by
  split <;> rfl

/-- A public message's run that ends with a result and no error passed
`preCheck` and was executed with its own data and an empty handler. -/
theorem TransitionDb_public {receive : Except Unit (Option (List UInt8) × Option ExtraMetadata)}
    {st st' : StateTransition} {res : ExecutionResult} (hpub : (msg.IsPrivate && env.IsQuorum) = false)
    (h : TransitionDb env vm msg receive st = some (st', some res, none)) :
    ∃ st₁, preCheck msg st = .ok st₁ ∧
      execute env vm msg false msg.Data ⟨false, st₁.evm.db st₁.evm.stateDB, none⟩ none st₁ = some (st', some res, none) := by
  unfold TransitionDb at h
  cases hp : preCheck msg st with
  | error e => simp [hp] at h
  | ok st₁ => exact ⟨st₁, rfl, by simpa [hp, hpub] using h⟩

/-- The EVM a public message runs on: the gas bought from the sender and,
for a call, the sender's nonce one up; a creation bumps it inside the EVM. -/
def runEvm (msg : Message) (evm : Evm) : Evm :=
  let bought := evm.modifyDb .publicState (·.SubBalance msg.From (msg.Gas.toNat * msg.GasPrice))
  if msg.To.isSome then bought.modifyDb .publicState fun db => db.SetNonce msg.From (db.GetNonce msg.From + 1)
  else bought

theorem total_runEvm (msg : Message) (evm : Evm) (A : Finset Address) :
    total (runEvm msg evm).publicState A =
      total (evm.publicState.SubBalance msg.From (msg.Gas.toNat * msg.GasPrice)) A := by
  unfold runEvm
  split
  · exact total_SetNonce _ _
  · rfl

/-- What a public message's completed run did, in numbers: it bought
`msg.Gas`, paid the intrinsic gas `g` of it, ran the EVM on `runEvm msg evm`
with the rest, the EVM's run `r` left `r.2.2.1`, and `refundGas` added the
refund. The two theorems after it read the gas pool and the ether off it. -/
theorem public_run {receive : Except Unit (Option (List UInt8) × Option ExtraMetadata)} {evm : Evm}
    {gp : UInt64} {st' : StateTransition} {res : ExecutionResult} (hpub : (msg.IsPrivate && env.IsQuorum) = false)
    (hvm : vm.Metered) (h : ApplyMessage env vm receive evm msg gp = some (st', some res, none)) :
    ∃ (g : UInt64) (r : Evm × List UInt8 × UInt64 × Option VmError) (st₅ : StateTransition),
      msg.Gas.toNat * msg.GasPrice ≤ evm.publicState.GetBalance msg.From ∧ msg.Gas ≤ gp ∧
      IntrinsicGas msg.Data msg.To.isNone env.IsHomestead env.IsIstanbul = .ok g ∧
      vm.Ran none msg msg.Data (runEvm msg evm) (msg.Gas - g) r ∧ r.2.2.1.toNat ≤ msg.Gas.toNat ∧
      st₅.gasUsed.toNat = msg.Gas.toNat - r.2.2.1.toNat -
        cappedRefund (msg.Gas.toNat - r.2.2.1.toNat) r.1.publicState.GetRefund ∧
      st₅.gp.toNat = gp.toNat - msg.Gas.toNat + r.2.2.1.toNat +
        cappedRefund (msg.Gas.toNat - r.2.2.1.toNat) r.1.publicState.GetRefund ∧
      st₅.state = r.1.publicState.AddBalance msg.From
        ((r.2.2.1.toNat + cappedRefund (msg.Gas.toNat - r.2.2.1.toNat) r.1.publicState.GetRefund) * msg.GasPrice) ∧
      st' = payCoinbase env msg st₅ ∧ res.UsedGas = st₅.gasUsed := by
  obtain ⟨st₁, hpre, hex⟩ := TransitionDb_public hpub h
  obtain ⟨-, hbuy⟩ := preCheck_ok hpre
  obtain ⟨hbal, hgp, hst₁⟩ := buyGas_ok hbuy
  -- what `buyGas` leaves of the fresh transition
  have hgas₁ : st₁.gas = msg.Gas := by rw [hst₁]; exact UInt64.zero_add _
  have hinit₁ : st₁.initialGas = msg.Gas := by rw [hst₁]; rfl
  have hgp₁ : st₁.gp = gp - msg.Gas := by rw [hst₁]; rfl
  have hstate₁ : st₁.state = evm.publicState.SubBalance msg.From (msg.Gas.toNat * msg.GasPrice) := by rw [hst₁]; rfl
  -- the EVM runs on the bought state, with the sender's nonce bumped for a call
  have hevm : ∀ g, (if false = false ∧ msg.To.isSome = true then bumpNonce msg { st₁ with gas := st₁.gas - g }
      else { st₁ with gas := st₁.gas - g }).evm = runEvm msg evm := by
    intro g
    rw [hst₁]
    by_cases hto : msg.To.isSome = true <;> simp [hto, runEvm, bumpNonce, modifyState, NewStateTransition]
  obtain ⟨g, hI, hg, -, ⟨r, hran, hafter⟩ | ⟨hp, -⟩⟩ := execute_some hex
  · obtain ⟨st₅, hrefund, hout⟩ := settle_some (afterRun_settle rfl hafter)
    simp only [Prod.mk.injEq, Option.some.injEq] at hout
    obtain ⟨rfl, rfl, -⟩ := hout
    rw [hevm g, hgas₁] at hran
    -- the EVM leaves at most the gas it was given, itself at most the gas bought
    have hleft : r.2.2.1 ≤ msg.Gas - g := hvm _ _ _ _ _ _ hran
    have hleft' : r.2.2.1.toNat ≤ msg.Gas.toNat := by
      rw [UInt64.le_iff_toNat_le, UInt64.toNat_sub_of_le _ _ (hgas₁ ▸ hg)] at hleft
      omega
    have hle : r.2.2.1 ≤ msg.Gas := UInt64.le_iff_toNat_le.mpr hleft'
    obtain ⟨hused, hgp₅, -, hstate⟩ := refundGas_toNat (by simpa [ite_bumpNonce_initialGas, hinit₁] using hle) hrefund
    refine ⟨g, r, st₅, by simpa [NewStateTransition, state] using hbal, hgp, hI, hran, hleft', ?_, ?_, ?_, rfl, rfl⟩
    · simpa [ite_bumpNonce_initialGas, hinit₁, state] using hused
    · have hgp' : (gp - msg.Gas).toNat = gp.toNat - msg.Gas.toNat := UInt64.toNat_sub_of_le _ _ hgp
      simpa [ite_bumpNonce_initialGas, ite_bumpNonce_gp, hinit₁, hgp₁, hgp', state] using hgp₅
    · simpa [ite_bumpNonce_initialGas, hinit₁, state] using hstate
  · cases hp

end StateTransition

/-! ### A call to run them on

An EVM that moves a call's value to the callee and burns half the gas it is
given, and a call of 5 wei from account 1, which holds 100000 wei, to
account 2 with 30000 gas at price 1. -/

/-- An EVM whose calls move the value from the caller to the callee, and
whose calls and creations burn half the gas they are given. -/
def transferEVM : EVM where
  Create _ evm _ _ gas _ := some (evm, [], gas / 2, none)
  Call _ evm src dst _ gas value :=
    some (evm.modifyDb .publicState (fun db => (db.SubBalance src value).AddBalance dst value), [], gas / 2, none)
  AffectedContracts _ := []
  GetStatePrivacyMetadata _ _ := .ok none
  CalculateMerkleRoot _ := .ok 0

theorem transferEVM_metered : transferEVM.Metered := by
  rintro flag msg data evm gas r (⟨-, h⟩ | ⟨dst, -, h⟩) <;> cases h <;>
    exact UInt64.le_iff_toNat_le.mpr (by rw [UInt64.toNat_div]; exact Nat.div_le_self _ _)

def fundedDb : StateDB where
  accounts a := if a = 1 then some (Xdchain.Vm.Refund.Account.empty 100000) else none
  refund := 0
  slots _ _ := false

def callEnv : Env :=
  { IsQuorum := true, IsHomestead := true, IsIstanbul := true, IsPrivacyEnhancementsEnabled := false, Coinbase := 7 }

def callMsg (isPrivate : Bool) : Message :=
  { From := 1, To := some 2, GasPrice := 1, Gas := 30000, Value := 5, Nonce := 0, CheckNonce := true, Data := [],
    IsPrivate := isPrivate }

/-- **A public message takes from the block's pool exactly the gas it
reports used, at most its gas limit: the gas limit less what the EVM's run
left, less the refund, which is capped at half of that.** For every message
that is not a private one on a Quorum chain, every state and pool, and every
EVM that leaves at most the gas it is given: a run of `ApplyMessage` that
ends with a result and no error paid the intrinsic gas `g` and ran the EVM
on `runEvm msg evm` with the rest, and the gas it used is read off that
run `r`: the gas `r` left and the refund counter `r` ended with. -/
theorem ApplyMessage_public_gas {env : Env} {vm : EVM} {msg : Message}
    {receive : Except Unit (Option (List UInt8) × Option ExtraMetadata)} {evm : Evm} {gp : UInt64}
    {st' : StateTransition} {res : ExecutionResult} (hpub : (msg.IsPrivate && env.IsQuorum) = false)
    (hvm : vm.Metered) (h : ApplyMessage env vm receive evm msg gp = some (st', some res, none)) :
    ∃ g r, IntrinsicGas msg.Data msg.To.isNone env.IsHomestead env.IsIstanbul = .ok g ∧
      vm.Ran none msg msg.Data (StateTransition.runEvm msg evm) (msg.Gas - g) r ∧
      res.UsedGas ≤ msg.Gas ∧ st'.gp.toNat + res.UsedGas.toNat = gp.toNat ∧
      res.UsedGas.toNat = msg.Gas.toNat - r.2.2.1.toNat -
        StateTransition.cappedRefund (msg.Gas.toNat - r.2.2.1.toNat) r.1.publicState.GetRefund := by
  obtain ⟨g, r, st₅, -, hgp, hI, hran, hleft, hused, hgp₅, -, rfl, hres⟩ := StateTransition.public_run hpub hvm h
  have hgp' := UInt64.le_iff_toNat_le.mp hgp
  have hcap := StateTransition.cappedRefund_le (msg.Gas.toNat - r.2.2.1.toNat) r.1.publicState.GetRefund
  refine ⟨g, r, hI, hran, ?_, ?_, by rw [hres, hused]⟩
  · rw [hres, UInt64.le_iff_toNat_le, hused]
    omega
  · rw [hres, StateTransition.payCoinbase_gp, hgp₅, hused]
    omega

theorem ApplyMessage_public_gas_at_call :
    ∃ st' res, ApplyMessage callEnv transferEVM (.ok (none, none)) (Xdchain.Vm.Refund.NewEVM fundedDb fundedDb)
        (callMsg false) 30000 = some (st', some res, none) ∧
      ∃ g r, IntrinsicGas (callMsg false).Data (callMsg false).To.isNone callEnv.IsHomestead callEnv.IsIstanbul =
          .ok g ∧
        transferEVM.Ran none (callMsg false) (callMsg false).Data
          (StateTransition.runEvm (callMsg false) (Xdchain.Vm.Refund.NewEVM fundedDb fundedDb)) ((callMsg false).Gas - g) r ∧
        res.UsedGas ≤ (callMsg false).Gas ∧ st'.gp.toNat + res.UsedGas.toNat = (30000 : UInt64).toNat ∧
        res.UsedGas.toNat = (callMsg false).Gas.toNat - r.2.2.1.toNat -
          StateTransition.cappedRefund ((callMsg false).Gas.toNat - r.2.2.1.toNat) r.1.publicState.GetRefund := by
  obtain ⟨st', res, h⟩ : ∃ st' res, ApplyMessage callEnv transferEVM (.ok (none, none))
      (Xdchain.Vm.Refund.NewEVM fundedDb fundedDb) (callMsg false) 30000 = some (st', some res, none) := ⟨_, _, rfl⟩
  exact ⟨st', res, h, ApplyMessage_public_gas rfl transferEVM_metered h⟩

/-- **A public message's completed run pays all its gas money back into any
set of accounts that holds the sender and the coinbase.** The sender pays
for the gas it buys before the EVM runs; after the run it is paid back for
the gas left and the refund, and the coinbase is paid for the rest. So the
set's ether is what the EVM's own run `r` left in it, and that run started
from the set's ether less the gas money. -/
theorem ApplyMessage_public_total {env : Env} {vm : EVM} {msg : Message}
    {receive : Except Unit (Option (List UInt8) × Option ExtraMetadata)} {evm : Evm} {gp : UInt64}
    {st' : StateTransition} {res : ExecutionResult} {A : Finset Address} (hpub : (msg.IsPrivate && env.IsQuorum) = false)
    (hfrom : msg.From ∈ A) (hcoinbase : env.Coinbase ∈ A) (hvm : vm.Metered)
    (h : ApplyMessage env vm receive evm msg gp = some (st', some res, none)) :
    ∃ g r, IntrinsicGas msg.Data msg.To.isNone env.IsHomestead env.IsIstanbul = .ok g ∧
      vm.Ran none msg msg.Data (StateTransition.runEvm msg evm) (msg.Gas - g) r ∧
      total (StateTransition.runEvm msg evm).publicState A + msg.Gas.toNat * msg.GasPrice = total evm.publicState A ∧
      total st'.state A = total r.1.publicState A + msg.Gas.toNat * msg.GasPrice := by
  obtain ⟨g, r, st₅, hbal, -, hI, hran, hleft, hused, -, hstate, rfl, -⟩ := StateTransition.public_run hpub hvm h
  have hcap := StateTransition.cappedRefund_le (msg.Gas.toNat - r.2.2.1.toNat) r.1.publicState.GetRefund
  refine ⟨g, r, hI, hran, by rw [StateTransition.total_runEvm, total_SubBalance hfrom hbal], ?_⟩
  -- the gas money: paid back for the gas left and the refund, paid to the coinbase for the rest
  calc total (StateTransition.payCoinbase env msg st₅).state A
      = total r.1.publicState A +
          (r.2.2.1.toNat + StateTransition.cappedRefund (msg.Gas.toNat - r.2.2.1.toNat) r.1.publicState.GetRefund) *
            msg.GasPrice +
          (msg.Gas.toNat - r.2.2.1.toNat -
            StateTransition.cappedRefund (msg.Gas.toNat - r.2.2.1.toNat) r.1.publicState.GetRefund) * msg.GasPrice := by
        rw [StateTransition.payCoinbase_state, total_AddBalance _ hcoinbase, hstate, total_AddBalance _ hfrom, hused]
    _ = total r.1.publicState A + msg.Gas.toNat * msg.GasPrice := by
        rw [Nat.add_assoc, ← Nat.add_mul]
        congr 2
        omega

theorem ApplyMessage_public_total_at_call :
    ∃ st' res, ApplyMessage callEnv transferEVM (.ok (none, none)) (Xdchain.Vm.Refund.NewEVM fundedDb fundedDb)
        (callMsg false) 30000 = some (st', some res, none) ∧
      ∃ g r, IntrinsicGas (callMsg false).Data (callMsg false).To.isNone callEnv.IsHomestead callEnv.IsIstanbul =
          .ok g ∧
        transferEVM.Ran none (callMsg false) (callMsg false).Data
          (StateTransition.runEvm (callMsg false) (Xdchain.Vm.Refund.NewEVM fundedDb fundedDb)) ((callMsg false).Gas - g) r ∧
        total (StateTransition.runEvm (callMsg false) (Xdchain.Vm.Refund.NewEVM fundedDb fundedDb)).publicState {1, 7} +
            (callMsg false).Gas.toNat * (callMsg false).GasPrice = total fundedDb {1, 7} ∧
        total st'.state {1, 7} = total r.1.publicState {1, 7} + (callMsg false).Gas.toNat * (callMsg false).GasPrice := by
  obtain ⟨st', res, h⟩ : ∃ st' res, ApplyMessage callEnv transferEVM (.ok (none, none))
      (Xdchain.Vm.Refund.NewEVM fundedDb fundedDb) (callMsg false) 30000 = some (st', some res, none) := ⟨_, _, rfl⟩
  exact ⟨st', res, h, ApplyMessage_public_total rfl (by simp [callMsg]) (by simp [callEnv]) transferEVM_metered h⟩

/-! ## Private messages -/

namespace StateTransition

variable {env : Env} {vm : EVM} {msg : Message}

/-- A private message's run that ends with a result and no error passed
`preCheck` and went through the private branch. -/
theorem TransitionDb_private {receive : Except Unit (Option (List UInt8) × Option ExtraMetadata)}
    {st st' : StateTransition} {res : ExecutionResult} (hpriv : (msg.IsPrivate && env.IsQuorum) = true)
    (h : TransitionDb env vm msg receive st = some (st', some res, none)) :
    ∃ st₁, preCheck msg st = .ok st₁ ∧
      receivePrivate env vm msg receive (st₁.evm.db st₁.evm.stateDB) st₁ = some (st', some res, none) := by
  unfold TransitionDb at h
  cases hp : preCheck msg st with
  | error e => simp [hp] at h
  | ok st₁ => exact ⟨st₁, rfl, by simpa [hp, hpriv] using h⟩

/-- The private branch: the manager failed, `prepare` refused the metadata,
or the message was executed with the data the manager returned. -/
theorem receivePrivate_some {receive : Except Unit (Option (List UInt8) × Option ExtraMetadata)}
    {snapshot : StateDB} {st st' : StateTransition} {res : ExecutionResult}
    (h : receivePrivate env vm msg receive snapshot st = some (st', some res, none)) :
    (∃ e, receive = .error e ∧ st' = bumpNonce msg st ∧ res = ⟨0, none, []⟩) ∨
      ∃ data md, receive = .ok (data, md) ∧
        ((∃ vmErr, prepare env md = .error (vmErr, none) ∧
            st' = (if msg.To.isSome then bumpNonce msg st else st) ∧ res = ⟨0, some vmErr, []⟩) ∨
          ∃ flag, prepare env md = .ok flag ∧
            execute env vm msg true (data.getD []) ⟨data.isSome, snapshot, md⟩ flag
              (if msg.To.isSome then bumpNonce msg st else st) = some (st', some res, none)) := by
  unfold receivePrivate at h
  cases receive with
  | error e =>
    simp only [Option.some.injEq, Prod.mk.injEq] at h
    obtain ⟨rfl, rfl, -⟩ := h
    exact .inl ⟨e, rfl, rfl, rfl⟩
  | ok dm =>
    obtain ⟨data, md⟩ := dm
    refine .inr ⟨data, md, rfl, ?_⟩
    dsimp only at h
    cases hp : prepare env md with
    | error em =>
      obtain ⟨vmErr, consensusErr⟩ := em
      simp only [hp, Option.some.injEq, Prod.mk.injEq] at h
      obtain ⟨rfl, rfl, rfl⟩ := h
      exact .inl ⟨vmErr, rfl, rfl, rfl⟩
    | ok flag => exact .inr ⟨flag, rfl, by simpa [hp] using h⟩

/-- After the EVM's run, a result without an error is settled, or comes
from `verify` stopping the run, which leaves the pool as it was before the
run and reports no gas used. -/
theorem afterRun_some {isPrivate : Bool} {pmh : PrivateMessageHandler} {st st' : StateTransition}
    {res : ExecutionResult} {r : Evm × List UInt8 × UInt64 × Option VmError}
    (h : afterRun env vm msg isPrivate pmh st r = some (st', some res, none)) :
    settle env msg isPrivate r.2.1 r.2.2.1 r.2.2.2 { st with evm := r.1 } = some (st', some res, none) ∨
      st'.gp = st.gp ∧ res.UsedGas = 0 := by
  obtain ⟨evm, ret, leftoverGas, vmerr⟩ := r
  unfold afterRun at h
  dsimp only at h
  split_ifs at h with herr
  · cases h
  · cases hmd : pmh.receivedPrivacyMetadata with
    | none => exact .inl (by simpa [hmd] using h)
    | some md =>
      cases hv : pmh.mustVerify env with
      | false => exact .inl (by simpa [hmd, hv] using h)
      | true =>
        cases hver : verify vm md evm with
        | none => exact .inl (by simpa [hmd, hv, hver] using h)
        | some err =>
          simp only [hmd, hv, hver, Option.some.injEq, Prod.mk.injEq] at h
          obtain ⟨rfl, rfl, -⟩ := h
          exact .inr ⟨rfl, rfl⟩

/-- What `buyGas` leaves of a fresh transition. -/
theorem buyGas_fresh {evm : Evm} {gp : UInt64} {st₁ : StateTransition}
    (h : buyGas msg (NewStateTransition evm gp) = .ok st₁) :
    msg.Gas.toNat * msg.GasPrice ≤ evm.publicState.GetBalance msg.From ∧ msg.Gas ≤ gp ∧
      st₁.gp = gp - msg.Gas ∧ st₁.gas = msg.Gas ∧ st₁.initialGas = msg.Gas ∧
      st₁.state = evm.publicState.SubBalance msg.From (msg.Gas.toNat * msg.GasPrice) := by
  obtain ⟨hbal, hgp, rfl⟩ := buyGas_ok h
  exact ⟨hbal, hgp, rfl, UInt64.zero_add _, rfl, rfl⟩

/-- A private message refunded after paying the intrinsic gas `g` of the
`msg.Gas` it bought: the pool is short of `g` less the refund, which the
refund counter caps. -/
theorem private_settled {st st₁ : StateTransition} {g : UInt64} (hgas : st.gas = msg.Gas) (hinit : st.initialGas = msg.Gas)
    (hg : g ≤ msg.Gas) (h : refundGas msg { st with gas := st.gas - g } = some st₁) :
    st₁.gp.toNat + (g.toNat - cappedRefund g.toNat st₁.state.GetRefund) = st.gp.toNat + msg.Gas.toNat := by
  have hsub : (msg.Gas - g).toNat = msg.Gas.toNat - g.toNat := UInt64.toNat_sub_of_le _ _ hg
  have hg' := UInt64.le_iff_toNat_le.mp hg
  have hle : msg.Gas - g ≤ msg.Gas := UInt64.le_iff_toNat_le.mpr (by omega)
  have hle₁ : ({ st with gas := st.gas - g } : StateTransition).gas ≤ st.initialGas := by
    simpa [hgas, hinit] using hle
  obtain ⟨-, hgp, -, hstate⟩ := refundGas_toNat hle₁ h
  have hused : msg.Gas.toNat - (msg.Gas.toNat - g.toNat) = g.toNat := by omega
  have hrefund : st₁.state.GetRefund = st.state.GetRefund := by rw [hstate]; rfl
  have hcap := cappedRefund_le g.toNat st.state.GetRefund
  simp only [hgas, hinit, hsub, hused] at hgp
  rw [hgp, hrefund]
  change st.gp.toNat + (msg.Gas.toNat - g.toNat) + cappedRefund g.toNat st.state.GetRefund +
    (g.toNat - cappedRefund g.toNat st.state.GetRefund) = st.gp.toNat + msg.Gas.toNat
  omega

end StateTransition

/-- **A private message pays for its intrinsic gas alone, whatever the EVM
did with it.** For every private message on a Quorum chain, every state,
pool, EVM and answer of the private transaction manager: a run of
`ApplyMessage` that ends with a result and no error reports no gas used,
and either takes from the pool the intrinsic gas `g` of the message's
public data less the refund, or, where the run stopped early, all the gas
it bought. -/
theorem ApplyMessage_private_gas {env : Env} {vm : EVM} {msg : Message}
    {receive : Except Unit (Option (List UInt8) × Option ExtraMetadata)} {evm : Evm} {gp : UInt64}
    {st' : StateTransition} {res : ExecutionResult} (hpriv : (msg.IsPrivate && env.IsQuorum) = true)
    (h : ApplyMessage env vm receive evm msg gp = some (st', some res, none)) :
    res.UsedGas = 0 ∧
      (st'.gp.toNat + msg.Gas.toNat = gp.toNat ∨
        ∃ g, IntrinsicGas msg.Data msg.To.isNone env.IsHomestead env.IsIstanbul = .ok g ∧
          st'.gp.toNat + (g.toNat - StateTransition.cappedRefund g.toNat st'.state.GetRefund) = gp.toNat) := by
  open Xdchain.Core.StateTransition in
  obtain ⟨st₁, hpre, hrecv⟩ := TransitionDb_private hpriv h
  obtain ⟨-, hgp, hgp₁, hgas₁, hinit₁, -⟩ := buyGas_fresh (preCheck_ok hpre).2
  have hgp' := GasPool.toNat_sub_add hgp
  -- the state the private branch executes on: the nonce bumped for a call
  set st₂ := if msg.To.isSome then bumpNonce msg st₁ else st₁ with hst₂
  have hgas₂ : st₂.gas = msg.Gas := by rw [hst₂, ite_bumpNonce_gas, hgas₁]
  have hinit₂ : st₂.initialGas = msg.Gas := by rw [hst₂, ite_bumpNonce_initialGas, hinit₁]
  have hgp₂ : st₂.gp = gp - msg.Gas := by rw [hst₂, ite_bumpNonce_gp, hgp₁]
  rcases receivePrivate_some hrecv with ⟨e, -, rfl, rfl⟩ | ⟨data, md, -, ⟨vmErr, -, rfl, rfl⟩ | ⟨flag, -, hex⟩⟩
  · exact ⟨rfl, .inl (by rw [bumpNonce_gp, hgp₁, hgp'])⟩
  · exact ⟨rfl, .inl (by rw [← hst₂, hgp₂, hgp'])⟩
  obtain ⟨g, hI, hg, -, ⟨r, -, hafter⟩ | ⟨-, -, -, st₅, hrefund, rfl, rfl⟩⟩ := execute_some hex
  · rcases afterRun_some hafter with hsettle | ⟨hgpv, hres⟩
    · obtain ⟨st₅, hrefund, hout⟩ := settle_some hsettle
      simp only [Prod.mk.injEq, Option.some.injEq, if_true] at hout
      obtain ⟨rfl, rfl, -⟩ := hout
      refine ⟨rfl, .inr ⟨g, hI, ?_⟩⟩
      -- the run's state carries the bought gas through unchanged
      have hgasr : ({ st₂ with evm := r.1 } : StateTransition).gas = msg.Gas := hgas₂
      have hinitr : ({ st₂ with evm := r.1 } : StateTransition).initialGas = msg.Gas := hinit₂
      have := private_settled hgasr hinitr (hgas₂ ▸ hg) (by simpa using hrefund)
      simpa [hgp₂, hgp'] using this
    · -- `verify` stopped the run
      refine ⟨hres, .inl ?_⟩
      simp only [Bool.true_eq_false, false_and, if_false] at hgpv
      rw [hgpv, hgp₂, hgp']
  · refine ⟨rfl, .inr ⟨g, hI, ?_⟩⟩
    have := private_settled hgas₂ hinit₂ (hgas₂ ▸ hg) hrefund
    simpa [hgp₂, hgp'] using this

theorem ApplyMessage_private_gas_at_call :
    ∃ st' res, ApplyMessage callEnv transferEVM (.ok (some [0x60], none)) (Xdchain.Vm.Refund.NewEVM fundedDb fundedDb)
        (callMsg true) 30000 = some (st', some res, none) ∧
      res.UsedGas = 0 ∧
      (st'.gp.toNat + (callMsg true).Gas.toNat = (30000 : UInt64).toNat ∨
        ∃ g, IntrinsicGas (callMsg true).Data (callMsg true).To.isNone callEnv.IsHomestead callEnv.IsIstanbul = .ok g ∧
          st'.gp.toNat + (g.toNat - StateTransition.cappedRefund g.toNat st'.state.GetRefund) =
            (30000 : UInt64).toNat) := by
  obtain ⟨st', res, h⟩ : ∃ st' res, ApplyMessage callEnv transferEVM (.ok (some [0x60], none))
      (Xdchain.Vm.Refund.NewEVM fundedDb fundedDb) (callMsg true) 30000 = some (st', some res, none) := ⟨_, _, rfl⟩
  exact ⟨st', res, h, ApplyMessage_private_gas rfl h⟩

/-- **A private message the private transaction manager fails on keeps all
the gas it bought.** For every private message on a Quorum chain that
passes `preCheck` (its nonce is right, the sender can pay for its gas and
the pool has it) and every set of accounts holding the sender:
`ApplyMessage` returns a result that reports no gas used, no error and no
data, yet the pool is short of the whole gas limit, the sender has paid for
it and nobody has been paid, so the set's ether falls by `gas × gasPrice`.
The sender's public nonce is used up. -/
theorem ApplyMessage_receive_error {env : Env} {vm : EVM} {msg : Message} {evm : Evm} {gp : UInt64}
    {A : Finset Address} (hpriv : (msg.IsPrivate && env.IsQuorum) = true) (hfrom : msg.From ∈ A)
    (hnonce : msg.CheckNonce = true → evm.publicState.GetNonce msg.From = msg.Nonce)
    (hbal : msg.Gas.toNat * msg.GasPrice ≤ evm.publicState.GetBalance msg.From) (hgp : msg.Gas ≤ gp) :
    ∃ st', ApplyMessage env vm (.error ()) evm msg gp = some (st', some ⟨0, none, []⟩, none) ∧
      st'.gp.toNat + msg.Gas.toNat = gp.toNat ∧
      total st'.state A + msg.Gas.toNat * msg.GasPrice = total evm.publicState A ∧
      st'.state.GetNonce msg.From = evm.publicState.GetNonce msg.From + 1 := by
  open Xdchain.Core.StateTransition in
  -- `preCheck` buys the gas
  have hnonce' : msg.CheckNonce = true → (NewStateTransition evm gp).state.GetNonce msg.From = msg.Nonce := hnonce
  obtain ⟨st₁, hpre⟩ : ∃ st₁, preCheck msg (NewStateTransition evm gp) = .ok st₁ :=
    ⟨_, (preCheck_of_nonce hnonce').trans (buyGas_of_le hbal hgp)⟩
  obtain ⟨-, -, hgp₁, -, -, hstate₁⟩ := buyGas_fresh (preCheck_ok hpre).2
  refine ⟨bumpNonce msg st₁, ?_, ?_, ?_, ?_⟩
  · -- the manager's failure ends the run with the nonce bumped
    unfold ApplyMessage TransitionDb
    rw [hpre]
    simp only [hpriv, if_true]
    rfl
  · rw [bumpNonce_gp, hgp₁]
    exact GasPool.toNat_sub_add hgp
  · rw [total_bumpNonce, hstate₁]
    exact total_SubBalance hfrom hbal
  · simp [bumpNonce, hstate₁]

theorem ApplyMessage_receive_error_at_call :
    ∃ st', ApplyMessage callEnv transferEVM (.error ()) (Xdchain.Vm.Refund.NewEVM fundedDb fundedDb)
        (callMsg true) 30000 = some (st', some ⟨0, none, []⟩, none) ∧
      st'.gp.toNat + (callMsg true).Gas.toNat = (30000 : UInt64).toNat ∧
      total st'.state {1} + (callMsg true).Gas.toNat * (callMsg true).GasPrice = total fundedDb {1} ∧
      st'.state.GetNonce 1 = fundedDb.GetNonce 1 + 1 :=
  ApplyMessage_receive_error rfl (by simp [callMsg]) (fun _ => rfl) (by decide) (by decide)

end Xdchain.Core
