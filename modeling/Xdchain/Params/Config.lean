import Mathlib.Data.UInt

/-! # Chain configuration upgrades

`params/config.go`. A node that restarts with a new genesis configuration
compares it with the stored one (`CheckCompatible`): first the Quorum
`maxCodeSizeConfig` table (`isMaxCodeSizeConfigCompatible`), then, in a loop
that rewinds to the lowest conflict, the fork blocks (`checkCompatible`). A fork
check asks whether a fork block moved while the head is already past one of its
two positions (`isForkIncompatible`).

A fork block that passes its check is active at the same blocks up to the head
in both configurations. The checks leave out the deprecated `MaxCodeSize` and a
`maxCodeSizeConfig` table added to a config without one, the EIP-155 block when
the stored config has no chain ID, and the Istanbul engine's fork blocks when
either config lacks an Istanbul section. -/

namespace Xdchain.Params

/-- params.MaxCodeSize, the code size limit of protocol_params.go. -/
def MaxCodeSize : Int64 := 24576

end Xdchain.Params

namespace Xdchain.Params.Config

/-- An entry of maxCodeSizeConfig: from Block on, code may be Size KiB. -/
structure MaxCodeConfigStruct where
  Block : Option Int
  Size : UInt64
  deriving DecidableEq, Repr

/-- The fork blocks of the Istanbul engine section (its epoch and proposer
policy are read by no function here). -/
structure IstanbulConfig where
  Ceil2Nby3Block : Option Int := none
  TestQBFTBlock : Option Int := none
  deriving DecidableEq, Repr

/-- The fields of params.ChainConfig that the fork predicates and the
compatibility checks read; a `*big.Int` is an `Option Int`, nil being none. -/
structure ChainConfig where
  ChainID : Option Int := none
  HomesteadBlock : Option Int := none
  DAOForkBlock : Option Int := none
  DAOForkSupport : Bool := false
  EIP150Block : Option Int := none
  EIP155Block : Option Int := none
  EIP158Block : Option Int := none
  ByzantiumBlock : Option Int := none
  ConstantinopleBlock : Option Int := none
  PetersburgBlock : Option Int := none
  IstanbulBlock : Option Int := none
  MuirGlacierBlock : Option Int := none
  YoloV2Block : Option Int := none
  EWASMBlock : Option Int := none
  Istanbul : Option IstanbulConfig := none
  MaxCodeSize : UInt64 := 0
  QIP714Block : Option Int := none
  MaxCodeSizeChangeBlock : Option Int := none
  MaxCodeSizeConfig : List MaxCodeConfigStruct := []
  PrivacyEnhancementsBlock : Option Int := none
  PrivacyPrecompileBlock : Option Int := none

/-- isForked: a fork scheduled at block s is active from s on, and a nil s
never is (Go also answers false for a nil head, which no caller passes). -/
def isForked (s : Option Int) (head : Int) : Bool :=
  match s with
  | none => false
  | some s => decide (s ≤ head)

/-- configNumEqual: nil equals only nil. -/
def configNumEqual (x y : Option Int) : Bool :=
  match x, y with
  | none, y => y.isNone
  | some _, none => false
  | some x, some y => decide (x = y)

/-- isForkIncompatible: a fork scheduled at s1 cannot be rescheduled to s2
because head is already past one of them. -/
def isForkIncompatible (s1 s2 : Option Int) (head : Int) : Bool :=
  (isForked s1 head || isForked s2 head) && !configNumEqual s1 s2

namespace ChainConfig

variable (c : ChainConfig) (num : Int)

def IsHomestead : Bool := isForked c.HomesteadBlock num
def IsDAOFork : Bool := isForked c.DAOForkBlock num
def IsEIP150 : Bool := isForked c.EIP150Block num
def IsEIP155 : Bool := isForked c.EIP155Block num
def IsEIP158 : Bool := isForked c.EIP158Block num
def IsByzantium : Bool := isForked c.ByzantiumBlock num
def IsConstantinople : Bool := isForked c.ConstantinopleBlock num
def IsMuirGlacier : Bool := isForked c.MuirGlacierBlock num

/-- Petersburg is active from its own block, or with Constantinople when it
has none. -/
def IsPetersburg : Bool :=
  isForked c.PetersburgBlock num || c.PetersburgBlock.isNone && isForked c.ConstantinopleBlock num

def IsIstanbul : Bool := isForked c.IstanbulBlock num
def IsYoloV2 : Bool := isForked c.YoloV2Block num
def IsEWASM : Bool := isForked c.EWASMBlock num
def IsQIP714 : Bool := isForked c.QIP714Block num
def IsMaxCodeSizeChangeBlock : Bool := isForked c.MaxCodeSizeChangeBlock num
def IsPrivacyEnhancementsEnabled : Bool := isForked c.PrivacyEnhancementsBlock num
def IsPrivacyPrecompile : Bool := isForked c.PrivacyPrecompileBlock num

/-- A fork block of the Istanbul engine, active as the engine reads it:
CreateConsensusEngine copies Ceil2Nby3Block and TestQBFTBlock from the
Istanbul section, and a config without one runs no Istanbul engine. -/
def isIstanbulForked (field : IstanbulConfig → Option Int) : Bool :=
  isForked (c.Istanbul.bind field) num

end ChainConfig

/-- The loop of GetMaxCodeSize over maxCodeSizeConfig: an entry at or below
num sets the size, and the first entry above num ends the walk. A nil Block
panics at its comparison (none). -/
def maxCodeSizeAt (num : Int) : Int64 → List MaxCodeConfigStruct → Option Int64
  | maxCodeSize, [] => some maxCodeSize
  | maxCodeSize, data :: rest =>
    match data.Block with
    | none => none
    | some b => if b > num then some maxCodeSize else maxCodeSizeAt num (data.Size.toInt64 * 1024) rest

/-- GetMaxCodeSize: the table when there is one, else the deprecated
MaxCodeSize from MaxCodeSizeChangeBlock on (from genesis when that block is
nil or negative). Go's int is 64 bits wide. -/
def ChainConfig.GetMaxCodeSize (c : ChainConfig) (num : Int) : Option Int64 :=
  if c.MaxCodeSizeConfig.length > 0 then maxCodeSizeAt num Params.MaxCodeSize c.MaxCodeSizeConfig
  else if c.MaxCodeSize > 0 then
    if c.MaxCodeSizeChangeBlock.any (fun b => decide (0 ≤ b)) then
      if c.IsMaxCodeSizeChangeBlock num then some (c.MaxCodeSize.toInt64 * 1024)
      else some Params.MaxCodeSize
    else some (c.MaxCodeSize.toInt64 * 1024)
  else some Params.MaxCodeSize

/-- The counting loops of isMaxCodeSizeConfigCompatible: the entries before
the first one above head; a nil Block panics at its comparison (none). -/
def recsBelowHead (head : Int) : List MaxCodeConfigStruct → Option Nat
  | [] => some 0
  | data :: rest =>
    match data.Block with
    | none => none
    | some b => if b ≤ head then (recsBelowHead head rest).map (· + 1) else some 0

/-- isMaxCodeSizeConfigCompatible: the error text, if any, and the two blocks
CheckCompatible reports with it; none when a nil Block panics. The past entries
are compared by block and size, which is equality since their blocks are set. -/
def isMaxCodeSizeConfigCompatible (c1 c2 : ChainConfig) (head : Int) :
    Option (Option String × Option Int × Option Int) :=
  if c1.MaxCodeSizeConfig.length = 0 ∧ c2.MaxCodeSizeConfig.length = 0 then
    some (none, some 0, some 0)
  else if c1.MaxCodeSizeConfig.length > 0 ∧ c2.MaxCodeSizeConfig.length = 0 then
    some (some "genesis file missing max code size information", some head, some head)
  else if c2.MaxCodeSizeConfig.length > 0 ∧ c1.MaxCodeSizeConfig.length = 0 then
    some (none, some 0, some 0)
  else
    match recsBelowHead head c1.MaxCodeSizeConfig, recsBelowHead head c2.MaxCodeSizeConfig with
    | some c1RecsBelowHead, some c2RecsBelowHead =>
      if c1RecsBelowHead ≠ c2RecsBelowHead then
        some (some "maxCodeSizeConfig data incompatible. updating maxCodeSize for past",
          some head, some head)
      else if c1.MaxCodeSizeConfig.take c1RecsBelowHead ≠ c2.MaxCodeSizeConfig.take c1RecsBelowHead then
        some (some "maxCodeSizeConfig data incompatible. maxCodeSize historical data does not match",
          some head, some head)
      else some (none, some 0, some 0)
    | _, _ => none

/-- ConfigCompatError: the stored config would alter the past; RewindTo is the
block the local chain must be rewound to. -/
structure ConfigCompatError where
  What : String
  StoredConfig : Option Int
  NewConfig : Option Int
  RewindTo : UInt64
  deriving DecidableEq, Repr

/-- newCompatError: rewind to just below the lower of the two blocks (Go's
`rew.Uint64() - 1` wraps on 64 bits). -/
def newCompatError (what : String) (storedblock newblock : Option Int) : ConfigCompatError :=
  let rew : Option Int :=
    match storedblock, newblock with
    | none, _ => newblock
    | some s, none => some s
    | some s, some n => if s < n then some s else some n
  { What := what, StoredConfig := storedblock, NewConfig := newblock
    RewindTo := match rew with
      | some r => if r > 0 then UInt64.ofNat r.toNat - 1 else 0
      | none => 0 }

/-- The fork-block check that checkCompatible makes for most forks. -/
def forkCheck (what : String) (s1 s2 : Option Int) (head : Int) : Option ConfigCompatError :=
  if isForkIncompatible s1 s2 head then some (newCompatError what s1 s2) else none

/-- The check of an Istanbul engine fork block, made only when both configs
have an Istanbul section. -/
def istanbulForkCheck (what : String) (field : IstanbulConfig → Option Int)
    (c newcfg : ChainConfig) (head : Int) : Option ConfigCompatError :=
  match c.Istanbul, newcfg.Istanbul with
  | some i1, some i2 => forkCheck what (field i1) (field i2) head
  | _, _ => none

/-- The guarded returns of checkCompatible in source order, each as the error
it returns when its condition holds. -/
def compatChecks (c newcfg : ChainConfig) (head : Int) (isQuorumEIP155Activated : Bool) :
    List (Option ConfigCompatError) :=
  [forkCheck "Homestead fork block" c.HomesteadBlock newcfg.HomesteadBlock head,
   forkCheck "DAO fork block" c.DAOForkBlock newcfg.DAOForkBlock head,
   if c.IsDAOFork head && c.DAOForkSupport != newcfg.DAOForkSupport then
     some (newCompatError "DAO fork support flag" c.DAOForkBlock newcfg.DAOForkBlock) else none,
   forkCheck "EIP150 fork block" c.EIP150Block newcfg.EIP150Block head,
   if isQuorumEIP155Activated && c.ChainID.isSome &&
       isForkIncompatible c.EIP155Block newcfg.EIP155Block head then
     some (newCompatError "EIP155 fork block" c.EIP155Block newcfg.EIP155Block) else none,
   if isQuorumEIP155Activated && c.ChainID.isSome && c.IsEIP155 head &&
       !configNumEqual c.ChainID newcfg.ChainID then
     some (newCompatError "EIP155 chain ID" c.ChainID newcfg.ChainID) else none,
   forkCheck "EIP158 fork block" c.EIP158Block newcfg.EIP158Block head,
   if c.IsEIP158 head && !configNumEqual c.ChainID newcfg.ChainID then
     some (newCompatError "EIP158 chain ID" c.EIP158Block newcfg.EIP158Block) else none,
   forkCheck "Byzantium fork block" c.ByzantiumBlock newcfg.ByzantiumBlock head,
   forkCheck "Constantinople fork block" c.ConstantinopleBlock newcfg.ConstantinopleBlock head,
   -- Petersburg may be moved into the past only onto the stored Constantinople block
   if isForkIncompatible c.PetersburgBlock newcfg.PetersburgBlock head then
     (if isForkIncompatible c.ConstantinopleBlock newcfg.PetersburgBlock head then
       some (newCompatError "Petersburg fork block" c.PetersburgBlock newcfg.PetersburgBlock) else none)
   else none,
   forkCheck "Istanbul fork block" c.IstanbulBlock newcfg.IstanbulBlock head,
   forkCheck "Muir Glacier fork block" c.MuirGlacierBlock newcfg.MuirGlacierBlock head,
   forkCheck "YOLOv2 fork block" c.YoloV2Block newcfg.YoloV2Block head,
   forkCheck "ewasm fork block" c.EWASMBlock newcfg.EWASMBlock head,
   istanbulForkCheck "Ceil 2N/3 fork block" IstanbulConfig.Ceil2Nby3Block c newcfg head,
   istanbulForkCheck "Test QBFT fork block" IstanbulConfig.TestQBFTBlock c newcfg head,
   forkCheck "permissions fork block" c.QIP714Block newcfg.QIP714Block head,
   if newcfg.MaxCodeSizeChangeBlock.isSome &&
       isForkIncompatible c.MaxCodeSizeChangeBlock newcfg.MaxCodeSizeChangeBlock head then
     some (newCompatError "max code size change fork block" c.MaxCodeSizeChangeBlock
       newcfg.MaxCodeSizeChangeBlock) else none,
   forkCheck "Privacy Enhancements fork block" c.PrivacyEnhancementsBlock
     newcfg.PrivacyEnhancementsBlock head,
   forkCheck "Privacy Precompile fork block" c.PrivacyPrecompileBlock
     newcfg.PrivacyPrecompileBlock head]

/-- checkCompatible: the error of the first check that fails, nil if none does. -/
def ChainConfig.checkCompatible (c newcfg : ChainConfig) (head : Int)
    (isQuorumEIP155Activated : Bool) : Option ConfigCompatError :=
  (compatChecks c newcfg head isQuorumEIP155Activated).findSome? id

/-- The loop of CheckCompatible: check again at the rewind target until no
error is found or an error with the same target comes back, then return the
last error. The loop need not stop; fuel counts its turns (none when spent). -/
def compatLoop (c newcfg : ChainConfig) (isQuorumEIP155Activated : Bool) :
    Nat → UInt64 → Option ConfigCompatError → Option (Option ConfigCompatError)
  | 0, _, _ => none
  | fuel + 1, bhead, lasterr =>
    match c.checkCompatible newcfg bhead.toNat isQuorumEIP155Activated with
    | none => some lasterr
    | some err =>
      if lasterr.any (fun l => err.RewindTo == l.RewindTo) then some lasterr
      else compatLoop c newcfg isQuorumEIP155Activated fuel err.RewindTo (some err)

/-- CheckCompatible: the maxCodeSizeConfig check first, then the rewind loop
from the height. none when a nil Block panics or the loop is out of fuel. -/
def ChainConfig.CheckCompatible (c newcfg : ChainConfig) (height : UInt64)
    (isQuorumEIP155Activated : Bool) (fuel : Nat) : Option (Option ConfigCompatError) :=
  match isMaxCodeSizeConfigCompatible c newcfg height.toNat with
  | none => none
  | some (some err, cBlock, newCfgBlock) => some (some (newCompatError err cBlock newCfgBlock))
  | some (none, _, _) => compatLoop c newcfg isQuorumEIP155Activated fuel height none

section Forks

variable {s s1 s2 : Option Int} {head n m : Int}

theorem isForked_mono (h : isForked s n = true) (hnm : n ≤ m) : isForked s m = true := by
  cases s with
  | none => simp [isForked] at h
  | some b =>
    simp only [isForked, decide_eq_true_eq] at h ⊢
    omega

theorem isForked_eq_false_of_le (h : isForked s head = false) (hn : n ≤ head) :
    isForked s n = false :=
  Bool.eq_false_iff.2 fun hf => by simp [isForked_mono hf hn] at h

@[simp] theorem configNumEqual_iff : configNumEqual s1 s2 = true ↔ s1 = s2 := by
  cases s1 <;> cases s2 <;> simp [configNumEqual]

@[simp] theorem configNumEqual_self : configNumEqual s s = true := configNumEqual_iff.2 rfl

@[simp] theorem isForkIncompatible_self : isForkIncompatible s s head = false := by
  simp [isForkIncompatible]

/-- A fork that passes isForkIncompatible at head is active at the same blocks
up to head: either it did not move, or neither position is reached yet. -/
theorem isForked_eq_of_compatible (h : isForkIncompatible s1 s2 head = false) (hn : n ≤ head) :
    isForked s1 n = isForked s2 n := by
  by_cases heq : s1 = s2
  · rw [heq]
  · have hne : configNumEqual s1 s2 = false := Bool.eq_false_iff.2 fun h => heq (configNumEqual_iff.1 h)
    simp only [isForkIncompatible, hne, Bool.not_false, Bool.and_true, Bool.or_eq_false_iff] at h
    rw [isForked_eq_false_of_le h.1 hn, isForked_eq_false_of_le h.2 hn]

theorem forkCheck_eq_none_iff {what : String} :
    forkCheck what s1 s2 head = none ↔ isForkIncompatible s1 s2 head = false := by
  unfold forkCheck
  cases isForkIncompatible s1 s2 head <;> simp

@[simp] theorem forkCheck_self {what : String} : forkCheck what s s head = none := by
  simp [forkCheck_eq_none_iff]

theorem guard_eq_none {b : Bool} {e : ConfigCompatError} :
    (if b = true then some e else none) = none ↔ b = false := by
  cases b <;> simp

theorem istanbulForkCheck_of_eq {what : String} {field : IstanbulConfig → Option Int}
    {c newcfg : ChainConfig} (h : newcfg.Istanbul = c.Istanbul) :
    istanbulForkCheck what field c newcfg head = none := by
  unfold istanbulForkCheck
  rw [h]
  cases c.Istanbul <;> simp

end Forks

section Loop

variable {c newcfg : ChainConfig} {q : Bool}

theorem checkCompatible_eq_none_iff {head : Int} :
    c.checkCompatible newcfg head q = none ↔ ∀ x ∈ compatChecks c newcfg head q, x = none := by
  simp [ChainConfig.checkCompatible, List.findSome?_eq_none_iff]

/-- Only the code size fields differ: every fork check passes. -/
theorem checkCompatible_withMaxCodeSize {size : UInt64} {cfg : List MaxCodeConfigStruct}
    {head : Int} :
    c.checkCompatible { c with MaxCodeSize := size, MaxCodeSizeConfig := cfg } head q = none := by
  rw [checkCompatible_eq_none_iff]
  simp [compatChecks, istanbulForkCheck_of_eq]

/-- Once an error is found the loop returns one. -/
theorem compatLoop_ne_some_none {fuel : Nat} {bhead : UInt64} {e : ConfigCompatError} :
    compatLoop c newcfg q fuel bhead (some e) ≠ some none := by
  induction fuel generalizing bhead e with
  | zero => simp [compatLoop]
  | succ fuel ih =>
    simp only [compatLoop]
    split
    · simp
    · split
      · simp
      · exact ih

/-- The loop returns nil only when the check at the height itself passes. -/
theorem compatLoop_eq_some_none {fuel : Nat} {bhead : UInt64}
    (h : compatLoop c newcfg q fuel bhead none = some none) :
    c.checkCompatible newcfg bhead.toNat q = none := by
  cases fuel with
  | zero => simp [compatLoop] at h
  | succ fuel =>
    simp only [compatLoop] at h
    split at h
    · assumption
    · simp only [Option.any_none, Bool.false_eq_true, if_false] at h
      exact absurd h compatLoop_ne_some_none

theorem CheckCompatible_eq_some_none {height : UInt64} {fuel : Nat}
    (h : c.CheckCompatible newcfg height q fuel = some none) :
    (∃ b1 b2, isMaxCodeSizeConfigCompatible c newcfg height.toNat = some (none, b1, b2)) ∧
      c.checkCompatible newcfg height.toNat q = none := by
  unfold ChainConfig.CheckCompatible at h
  split at h
  · cases h
  · cases h
  · rename_i b1 b2 hmax
    exact ⟨⟨b1, b2, hmax⟩, compatLoop_eq_some_none h⟩

/-- A config without a maxCodeSizeConfig table accepts any change of its code
size fields, at every height: any table, any deprecated MaxCodeSize. -/
theorem CheckCompatible_of_new_maxCodeSize {size : UInt64} {cfg : List MaxCodeConfigStruct}
    {height : UInt64} {fuel : Nat} (hc : c.MaxCodeSizeConfig = []) :
    c.CheckCompatible { c with MaxCodeSize := size, MaxCodeSizeConfig := cfg } height q (fuel + 1) =
      some none := by
  have hmax : isMaxCodeSizeConfigCompatible c { c with MaxCodeSize := size, MaxCodeSizeConfig := cfg }
      height.toNat = some (none, some 0, some 0) := by
    cases cfg <;> simp [isMaxCodeSizeConfigCompatible, hc]
  simp [ChainConfig.CheckCompatible, hmax, compatLoop, checkCompatible_withMaxCodeSize]

/-- Two heads whose checks rewind to each other keep the loop turning: the
error found at either head names the other, never the last error's target. -/
theorem compatLoop_of_cycle {a b : UInt64} {ea eb : ConfigCompatError}
    (ha : c.checkCompatible newcfg a.toNat q = some eb)
    (hb : c.checkCompatible newcfg b.toNat q = some ea)
    (hea : ea.RewindTo = a) (heb : eb.RewindTo = b) (hab : a ≠ b) (fuel : Nat) :
    compatLoop c newcfg q fuel a (some ea) = none ∧ compatLoop c newcfg q fuel b (some eb) = none := by
  induction fuel with
  | zero => exact ⟨rfl, rfl⟩
  | succ fuel ih =>
    constructor
    · simpa [compatLoop, ha, hea, heb, hab.symm] using ih.2
    · simpa [compatLoop, hb, hea, heb, hab] using ih.1

/-- CheckCompatible never returns once its first error leads into a cycle. -/
theorem CheckCompatible_eq_none_of_cycle {height a b : UInt64} {ea eb : ConfigCompatError}
    (hmax : isMaxCodeSizeConfigCompatible c newcfg height.toNat = some (none, some 0, some 0))
    (h0 : c.checkCompatible newcfg height.toNat q = some ea)
    (ha : c.checkCompatible newcfg a.toNat q = some eb)
    (hb : c.checkCompatible newcfg b.toNat q = some ea)
    (hea : ea.RewindTo = a) (heb : eb.RewindTo = b) (hab : a ≠ b) (fuel : Nat) :
    c.CheckCompatible newcfg height q fuel = none := by
  cases fuel with
  | zero => simp [ChainConfig.CheckCompatible, hmax, compatLoop]
  | succ fuel =>
    simpa [ChainConfig.CheckCompatible, hmax, compatLoop, h0, hea] using
      (compatLoop_of_cycle ha hb hea heb hab fuel).1

/-- The rewind loop need not stop. With the chain ID changed from 1337 to 1338
and the Homestead block moved from 1000 to 2000, the check at 10 rewinds to 1336
(the lower chain ID, less one), the one at 1336 to 999 (Homestead) and the one
at 999 to 1336 again: a thousand rounds of the loop find no end. -/
theorem CheckCompatible_loops_at_chainId_change :
    ChainConfig.CheckCompatible
      { HomesteadBlock := some 1000, EIP155Block := some 0, ChainID := some 1337 }
      { HomesteadBlock := some 2000, EIP155Block := some 0, ChainID := some 1338 } 10 true 1000 =
      none :=
  CheckCompatible_eq_none_of_cycle (a := 1336) (b := 999) rfl rfl rfl rfl rfl rfl (by decide) 1000

end Loop

section MaxCodeSize

variable {head n : Int}

theorem maxCodeSizeAt_of_recsBelowHead_zero {l : List MaxCodeConfigStruct} {m : Int64}
    (h : recsBelowHead head l = some 0) (hn : n ≤ head) : maxCodeSizeAt n m l = some m := by
  cases l with
  | nil => rfl
  | cons d rest =>
    simp only [recsBelowHead] at h
    simp only [maxCodeSizeAt]
    split at h
    · cases h
    · rename_i b hb
      split_ifs at h with hbh
      · cases hr : recsBelowHead head rest <;> simp [hr] at h
      · simp only [if_pos (show b > n by omega)]

theorem recsBelowHead_eq_succ {l : List MaxCodeConfigStruct} {k : Nat}
    (h : recsBelowHead head l = some (k + 1)) :
    ∃ d rest b, l = d :: rest ∧ d.Block = some b ∧ b ≤ head ∧ recsBelowHead head rest = some k := by
  cases l with
  | nil => cases h
  | cons d rest =>
    simp only [recsBelowHead] at h
    split at h
    · cases h
    · rename_i b hb
      split_ifs at h with hbh
      · cases hr : recsBelowHead head rest with
        | none => simp [hr] at h
        | some j => exact ⟨d, rest, b, rfl, hb, hbh, by simpa [hr] using h⟩
      · cases h

/-- Two tables that count the same entries at or below head and agree on them
give the same limit at every block up to head: the walk stops at the first
entry above the block, which is inside the shared part or the entry after it. -/
theorem maxCodeSizeAt_congr {k : Nat} {l1 l2 : List MaxCodeConfigStruct}
    (h1 : recsBelowHead head l1 = some k) (h2 : recsBelowHead head l2 = some k)
    (htake : l1.take k = l2.take k) (hn : n ≤ head) (m : Int64) :
    maxCodeSizeAt n m l1 = maxCodeSizeAt n m l2 := by
  induction k generalizing l1 l2 m with
  | zero =>
    rw [maxCodeSizeAt_of_recsBelowHead_zero h1 hn, maxCodeSizeAt_of_recsBelowHead_zero h2 hn]
  | succ k ih =>
    obtain ⟨d1, r1, b1, rfl, hb1, -, hr1⟩ := recsBelowHead_eq_succ h1
    obtain ⟨d2, r2, b2, rfl, -, -, hr2⟩ := recsBelowHead_eq_succ h2
    obtain ⟨rfl, hrest⟩ := List.cons.inj htake
    simp only [maxCodeSizeAt, hb1]
    split_ifs
    · rfl
    · exact ih hr1 hr2 hrest _

theorem GetMaxCodeSize_of_ne_nil {c : ChainConfig} (h : c.MaxCodeSizeConfig ≠ []) :
    c.GetMaxCodeSize n = maxCodeSizeAt n Params.MaxCodeSize c.MaxCodeSizeConfig := by
  simp [ChainConfig.GetMaxCodeSize, List.length_pos_iff.2 h]

/-- Between two configs with a table, a passed table check leaves the limit of
every block up to head unchanged. -/
theorem GetMaxCodeSize_eq_of_compatible {c c2 : ChainConfig} {b1 b2 : Option Int}
    (hc : c.MaxCodeSizeConfig ≠ []) (hc2 : c2.MaxCodeSizeConfig ≠ [])
    (h : isMaxCodeSizeConfigCompatible c c2 head = some (none, b1, b2)) (hn : n ≤ head) :
    c.GetMaxCodeSize n = c2.GetMaxCodeSize n := by
  have hl : c.MaxCodeSizeConfig.length ≠ 0 := by simpa using hc
  have hl2 : c2.MaxCodeSizeConfig.length ≠ 0 := by simpa using hc2
  simp only [isMaxCodeSizeConfigCompatible, hl, hl2, and_false, if_false] at h
  rw [GetMaxCodeSize_of_ne_nil hc, GetMaxCodeSize_of_ne_nil hc2]
  split at h
  · rename_i k1 k2 hr1 hr2
    by_cases hk : k1 = k2
    · subst hk
      by_cases htake : c.MaxCodeSizeConfig.take k1 = c2.MaxCodeSizeConfig.take k1
      · exact maxCodeSizeAt_congr hr1 hr2 htake hn _
      · simp [htake] at h
    · simp [hk] at h
  · cases h

end MaxCodeSize

section Soundness

/-- What an upgrade must keep at block n: every fork rule the node evaluates
(Petersburg apart where it is moved onto the stored Constantinople block). -/
structure ForksAgree (c c2 : ChainConfig) (n : Int) : Prop where
  homestead : c.IsHomestead n = c2.IsHomestead n
  daoFork : c.IsDAOFork n = c2.IsDAOFork n
  daoForkSupport : c.IsDAOFork n = true → c.DAOForkSupport = c2.DAOForkSupport
  eip150 : c.IsEIP150 n = c2.IsEIP150 n
  eip155 : c.IsEIP155 n = c2.IsEIP155 n
  chainID : c.IsEIP155 n = true → c.ChainID = c2.ChainID
  eip158 : c.IsEIP158 n = c2.IsEIP158 n
  byzantium : c.IsByzantium n = c2.IsByzantium n
  constantinople : c.IsConstantinople n = c2.IsConstantinople n
  petersburg : c2.PetersburgBlock ≠ c.ConstantinopleBlock → c.IsPetersburg n = c2.IsPetersburg n
  istanbul : c.IsIstanbul n = c2.IsIstanbul n
  muirGlacier : c.IsMuirGlacier n = c2.IsMuirGlacier n
  yoloV2 : c.IsYoloV2 n = c2.IsYoloV2 n
  ewasm : c.IsEWASM n = c2.IsEWASM n
  qip714 : c.IsQIP714 n = c2.IsQIP714 n
  privacyEnhancements : c.IsPrivacyEnhancementsEnabled n = c2.IsPrivacyEnhancementsEnabled n
  privacyPrecompile : c.IsPrivacyPrecompile n = c2.IsPrivacyPrecompile n
  ceil2Nby3 : c.isIstanbulForked n IstanbulConfig.Ceil2Nby3Block =
    c2.isIstanbulForked n IstanbulConfig.Ceil2Nby3Block
  testQBFT : c.isIstanbulForked n IstanbulConfig.TestQBFTBlock =
    c2.isIstanbulForked n IstanbulConfig.TestQBFTBlock

/-- The fork rules and the code size limit agree at block n. -/
structure RulesAgree (c c2 : ChainConfig) (n : Int) : Prop extends ForksAgree c c2 n where
  maxCodeSize : c.GetMaxCodeSize n = c2.GetMaxCodeSize n

/-- The upgrades whose every rule the checks of CheckCompatible reach: a
stored chain ID (the EIP-155 checks need one), an Istanbul section in both or
in neither, a Petersburg block in both or in neither with the stored one not
before the stored Constantinople block, and a maxCodeSizeConfig table in both. -/
structure Covered (c c2 : ChainConfig) : Prop where
  chainID : c.ChainID ≠ none
  istanbul : c.Istanbul.isSome = c2.Istanbul.isSome
  petersburg : c.PetersburgBlock.isSome = c2.PetersburgBlock.isSome
  ordered : ∀ p ∈ c.PetersburgBlock, ∃ k ∈ c.ConstantinopleBlock, k ≤ p
  maxCodeSizeConfig : c.MaxCodeSizeConfig ≠ [] ∧ c2.MaxCodeSizeConfig ≠ []

variable {c c2 : ChainConfig} {head n : Int}

theorem isIstanbulForked_eq_of_check {what : String} {field : IstanbulConfig → Option Int}
    (hsome : c.Istanbul.isSome = c2.Istanbul.isSome)
    (h : istanbulForkCheck what field c c2 head = none) (hn : n ≤ head) :
    c.isIstanbulForked n field = c2.isIstanbulForked n field := by
  unfold istanbulForkCheck at h
  unfold ChainConfig.isIstanbulForked
  cases h1 : c.Istanbul with
  | none =>
    cases h2 : c2.Istanbul with
    | none => rfl
    | some i2 => simp [h1, h2] at hsome
  | some i1 =>
    cases h2 : c2.Istanbul with
    | none => simp [h1, h2] at hsome
    | some i2 =>
      rw [h1, h2] at h
      exact isForked_eq_of_compatible (forkCheck_eq_none_iff.1 h) hn

/-- Petersburg passes its check either by staying put or by moving onto the
stored Constantinople block; short of the latter, and with the stored blocks
in order, it is active at the same blocks up to head. -/
theorem IsPetersburg_eq_of_check (hcov : Covered c c2)
    (hconst : isForkIncompatible c.ConstantinopleBlock c2.ConstantinopleBlock head = false)
    (hpeter : isForkIncompatible c.PetersburgBlock c2.PetersburgBlock head = false ∨
      isForkIncompatible c.ConstantinopleBlock c2.PetersburgBlock head = false)
    (hmoved : c2.PetersburgBlock ≠ c.ConstantinopleBlock) (hn : n ≤ head) :
    c.IsPetersburg n = c2.IsPetersburg n := by
  have hC := isForked_eq_of_compatible hconst hn
  rcases hpeter with hp | hp
  · have hnone : c.PetersburgBlock.isNone = c2.PetersburgBlock.isNone := by
      rw [← Option.not_isSome, ← Option.not_isSome, hcov.petersburg]
    simp only [ChainConfig.IsPetersburg, isForked_eq_of_compatible hp hn, hC, hnone]
  · -- neither the stored Constantinople block nor the new Petersburg block is reached,
    -- so neither is the stored Petersburg block, which is not before the former
    have hne : configNumEqual c.ConstantinopleBlock c2.PetersburgBlock = false :=
      Bool.eq_false_iff.2 fun h => hmoved (configNumEqual_iff.1 h).symm
    simp only [isForkIncompatible, hne, Bool.not_false, Bool.and_true, Bool.or_eq_false_iff] at hp
    have hP : isForked c.PetersburgBlock head = false := by
      cases hpb : c.PetersburgBlock with
      | none => rfl
      | some p =>
        obtain ⟨k, hk, hkp⟩ := hcov.ordered p hpb
        rw [hk] at hp
        simp only [isForked, decide_eq_false_iff_not, not_le] at hp ⊢
        omega
    simp only [ChainConfig.IsPetersburg, isForked_eq_false_of_le hP hn,
      isForked_eq_false_of_le hp.2 hn, ← hC, isForked_eq_false_of_le hp.1 hn, Bool.and_false]

/-- A passed checkCompatible at head keeps every fork rule of a covered
upgrade at every block up to head. -/
theorem checkCompatible_forksAgree (hcov : Covered c c2)
    (h : c.checkCompatible c2 head true = none) (hn : n ≤ head) : ForksAgree c c2 n := by
  rw [checkCompatible_eq_none_iff] at h
  simp only [compatChecks, List.mem_cons, List.not_mem_nil, or_false, forall_eq_or_imp,
    forall_eq] at h
  obtain ⟨hHome, hDao, hSupport, h150, h155, hId155, h158, -, hByz, hConst, hPeter, hIst, hMuir,
    hYolo, hEwasm, hCeil, hQbft, hQip, -, hEnh, hPre⟩ := h
  have hid : c.ChainID.isSome = true := Option.isSome_iff_ne_none.2 hcov.chainID
  have hConst' := forkCheck_eq_none_iff.1 hConst
  refine
    { homestead := isForked_eq_of_compatible (forkCheck_eq_none_iff.1 hHome) hn
      daoFork := isForked_eq_of_compatible (forkCheck_eq_none_iff.1 hDao) hn
      daoForkSupport := fun hd => ?_
      eip150 := isForked_eq_of_compatible (forkCheck_eq_none_iff.1 h150) hn
      eip155 := ?_
      chainID := fun he => ?_
      eip158 := isForked_eq_of_compatible (forkCheck_eq_none_iff.1 h158) hn
      byzantium := isForked_eq_of_compatible (forkCheck_eq_none_iff.1 hByz) hn
      constantinople := isForked_eq_of_compatible hConst' hn
      petersburg := fun hm => IsPetersburg_eq_of_check hcov hConst' ?_ hm hn
      istanbul := isForked_eq_of_compatible (forkCheck_eq_none_iff.1 hIst) hn
      muirGlacier := isForked_eq_of_compatible (forkCheck_eq_none_iff.1 hMuir) hn
      yoloV2 := isForked_eq_of_compatible (forkCheck_eq_none_iff.1 hYolo) hn
      ewasm := isForked_eq_of_compatible (forkCheck_eq_none_iff.1 hEwasm) hn
      qip714 := isForked_eq_of_compatible (forkCheck_eq_none_iff.1 hQip) hn
      privacyEnhancements := isForked_eq_of_compatible (forkCheck_eq_none_iff.1 hEnh) hn
      privacyPrecompile := isForked_eq_of_compatible (forkCheck_eq_none_iff.1 hPre) hn
      ceil2Nby3 := isIstanbulForked_eq_of_check hcov.istanbul hCeil hn
      testQBFT := isIstanbulForked_eq_of_check hcov.istanbul hQbft hn }
  · -- the support flag is checked once the stored DAO fork is reached
    have hdh : c.IsDAOFork head = true := isForked_mono hd hn
    simpa [guard_eq_none, hdh] using hSupport
  · simp only [guard_eq_none, Bool.true_and, hid] at h155
    exact isForked_eq_of_compatible h155 hn
  · have heh : c.IsEIP155 head = true := isForked_mono he hn
    simpa [guard_eq_none, hid, heh] using hId155
  · by_cases hp : isForkIncompatible c.PetersburgBlock c2.PetersburgBlock head = true
    · simp only [hp, if_true, guard_eq_none] at hPeter
      exact Or.inr hPeter
    · exact Or.inl (Bool.eq_false_iff.2 hp)

/-- A nil answer of CheckCompatible keeps every rule of a covered upgrade, the
code size limit included, at every block up to the height. -/
theorem CheckCompatible_sound {height : UInt64} {fuel : Nat} (hcov : Covered c c2)
    (h : c.CheckCompatible c2 height true fuel = some none) (hn : n ≤ height.toNat) :
    RulesAgree c c2 n := by
  obtain ⟨⟨b1, b2, hmax⟩, hcheck⟩ := CheckCompatible_eq_some_none h
  exact { checkCompatible_forksAgree hcov hcheck hn with
    maxCodeSize := GetMaxCodeSize_eq_of_compatible hcov.maxCodeSizeConfig.1
      hcov.maxCodeSizeConfig.2 hmax hn }

/-- A covered upgrade that moves a Homestead block not yet reached is accepted
at height 50 and keeps every rule up to it. -/
theorem CheckCompatible_sound_at_future_homestead :
    ∃ c c2 : ChainConfig, Covered c c2 ∧ c.HomesteadBlock ≠ c2.HomesteadBlock ∧
      c.CheckCompatible c2 50 true 1 = some none ∧ RulesAgree c c2 50 := by
  let c : ChainConfig :=
    { ChainID := some 1, HomesteadBlock := some 100, MaxCodeSizeConfig := [⟨some 0, 24⟩] }
  let c2 : ChainConfig := { c with HomesteadBlock := some 200 }
  have hcov : Covered c c2 :=
    { chainID := by simp [c]
      istanbul := rfl
      petersburg := rfl
      ordered := by simp [c]
      maxCodeSizeConfig := ⟨by simp [c], by simp [c2, c]⟩ }
  have hok : c.CheckCompatible c2 50 true 1 = some none := rfl
  exact ⟨c, c2, hcov, by simp [c, c2], hok, CheckCompatible_sound hcov hok (by decide)⟩

/-- Upgrades the checks let through or misreport. A maxCodeSizeConfig table
added to a config whose deprecated MaxCodeSize is 32 KiB is accepted at genesis,
where it lowers the limit to 24 KiB. A chain ID changed from 1337 to 1338 under
EIP-155 is reported with the rewind target 1336, above the head 10, though the
chain IDs differ from block 0 on. -/
theorem CheckCompatible_alters_past_rules :
    (∃ c c2 : ChainConfig, c.CheckCompatible c2 0 true 1 = some none ∧ ¬ RulesAgree c c2 0) ∧
    (∃ c c2 : ChainConfig, ∃ err : ConfigCompatError,
      c.CheckCompatible c2 10 true 2 = some (some err) ∧ err.RewindTo = 1336 ∧
        ¬ RulesAgree c c2 0) := by
  refine ⟨⟨{ MaxCodeSize := 32 }, { MaxCodeSizeConfig := [⟨some 0, 24⟩] }, ?_, ?_⟩,
    ⟨{ EIP155Block := some 0, ChainID := some 1337 }, { EIP155Block := some 0, ChainID := some 1338 },
      newCompatError "EIP155 chain ID" (some 1337) (some 1338), ?_, rfl, ?_⟩⟩
  · exact CheckCompatible_of_new_maxCodeSize rfl
  · -- 32 * 1024 from the deprecated field against 24 * 1024 from the table
    exact fun h => absurd h.maxCodeSize (by decide)
  · -- the check at 1336 finds the same error again, so the loop stops there
    rfl
  · exact fun h => absurd (h.chainID rfl) (by decide)

end Soundness

end Xdchain.Params.Config
