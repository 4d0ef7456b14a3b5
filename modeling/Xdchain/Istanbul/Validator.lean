import Mathlib.Order.Basic
import Xdchain.Lib.InsertionSort

/-! # Views and validator sets

`istanbul.View` with its order, and the validator set of
`istanbul/validator/default.go`: the validators in their sorted order, the
proposer of the current round and the policy that picks it. An address is
a number, `0` the empty address; a validator set is never empty where the
engines use it, and `F()` is stated for such sets. -/

namespace Xdchain.Istanbul.Validator

abbrev Address := Nat

/-- `emptyAddress`: the zero address. -/
def emptyAddress (addr : Address) : Bool := addr == 0

structure View where
  round : Nat
  sequence : Nat
deriving DecidableEq, Repr

/-- `View.Cmp`: by sequence first, then by round. -/
def View.cmp (v y : View) : Ordering :=
  if v.sequence ≠ y.sequence then compare v.sequence y.sequence
  else compare v.round y.round

/-- `istanbul.ProposerPolicy`'s two selectors. -/
inductive ProposerPolicy where
  | roundRobin
  | sticky
deriving DecidableEq, Repr

structure ValidatorSet where
  validators : List Address
  policy : ProposerPolicy
  proposer : Option Address
deriving DecidableEq, Repr

namespace ValidatorSet

def size (valSet : ValidatorSet) : Nat := valSet.validators.length

/-- `GetByIndex`, `nil` past the end. -/
def getByIndex (valSet : ValidatorSet) (i : Nat) : Option Address := valSet.validators[i]?

/-- `GetByAddress`: the index of a validator, `none` for `(-1, nil)`. -/
def getByAddress (valSet : ValidatorSet) (addr : Address) : Option Nat :=
  valSet.validators.idxOf? addr

/-- `IsProposer`: `reflect.DeepEqual(GetProposer(), val)` with `val` the
validator of `addr`, nil when `addr` is not one. -/
def isProposer (valSet : ValidatorSet) (addr : Address) : Bool :=
  valSet.proposer == (valSet.getByAddress addr).map fun _ => addr

/-- `F()`: `ceil(N/3) - 1`. -/
def f (valSet : ValidatorSet) : Nat := (valSet.size + 2) / 3 - 1

def calcSeed (valSet : ValidatorSet) (proposer : Address) (round : Nat) : Nat :=
  (valSet.getByAddress proposer).getD 0 + round

def roundRobinProposer (valSet : ValidatorSet) (proposer : Address) (round : Nat) :
    Option Address :=
  if valSet.size = 0 then none
  else
    let seed := if emptyAddress proposer then round else calcSeed valSet proposer round + 1
    valSet.getByIndex (seed % valSet.size)

def stickyProposer (valSet : ValidatorSet) (proposer : Address) (round : Nat) :
    Option Address :=
  if valSet.size = 0 then none
  else
    let seed := if emptyAddress proposer then round else calcSeed valSet proposer round
    valSet.getByIndex (seed % valSet.size)

/-- `CalcProposer`: the proposer of `round` after `lastProposer`'s block. -/
def calcProposer (valSet : ValidatorSet) (lastProposer : Address) (round : Nat) :
    ValidatorSet :=
  { valSet with
    proposer := match valSet.policy with
      | .roundRobin => roundRobinProposer valSet lastProposer round
      | .sticky => stickyProposer valSet lastProposer round }

@[simp] theorem validators_calcProposer (valSet : ValidatorSet) (lastProposer : Address)
    (round : Nat) : (valSet.calcProposer lastProposer round).validators = valSet.validators :=
  rfl

@[simp] theorem size_calcProposer (valSet : ValidatorSet) (lastProposer : Address)
    (round : Nat) : (valSet.calcProposer lastProposer round).size = valSet.size :=
  rfl

@[simp] theorem f_calcProposer (valSet : ValidatorSet) (lastProposer : Address)
    (round : Nat) : (valSet.calcProposer lastProposer round).f = valSet.f :=
  rfl

/-! ## Changing a validator set

A set's `policy` pointer is shared with its `ProposerPolicy`, whose `By`
orders the validators; the operations that sort are given it as `sortBy`.
`sort.Sort` is modelled by Go's `insertionSort`, which is what it runs on
fewer than seven validators, and which gives the one strictly sorted order
for any strict total order (`Lib.InsertionSort.eq_insertionSort`). -/

/-- `SortValidators`: `sort.Sort` by the policy's `By`. -/
def sortValidators (valSet : ValidatorSet) (sortBy : Address → Address → Bool) : ValidatorSet :=
  { valSet with validators := Lib.InsertionSort.insertionSort sortBy valSet.validators }

/-- `newDefaultSet`: the addresses sorted, the first of them the proposer. -/
def newSet (addrs : List Address) (policy : ProposerPolicy) (sortBy : Address → Address → Bool) :
    ValidatorSet :=
  let valSet := ({ validators := addrs, policy, proposer := none } : ValidatorSet).sortValidators sortBy
  { valSet with proposer := valSet.getByIndex 0 }

/-- `AddValidator`: `false` for an address that is a validator already;
otherwise it is appended and the set sorted again. -/
def addValidator (valSet : ValidatorSet) (sortBy : Address → Address → Bool) (address : Address) :
    ValidatorSet × Bool :=
  if address ∈ valSet.validators then (valSet, false)
  else (({ valSet with validators := valSet.validators ++ [address] } : ValidatorSet).sortValidators
    sortBy, true)

/-- `RemoveValidator`: the first validator of the address is spliced out. -/
def removeValidator (valSet : ValidatorSet) (address : Address) : ValidatorSet × Bool :=
  if address ∈ valSet.validators then ({ valSet with validators := valSet.validators.erase address }, true)
  else (valSet, false)

/-- `Copy`: `NewSet` of the same addresses and policy. -/
def copy (valSet : ValidatorSet) (sortBy : Address → Address → Bool) : ValidatorSet :=
  newSet valSet.validators valSet.policy sortBy

theorem validators_sortValidators_perm (valSet : ValidatorSet) (sortBy : Address → Address → Bool) :
    (valSet.sortValidators sortBy).validators.Perm valSet.validators :=
  Lib.InsertionSort.insertionSort_perm sortBy valSet.validators

theorem validators_newSet_perm (addrs : List Address) (policy : ProposerPolicy)
    (sortBy : Address → Address → Bool) : (newSet addrs policy sortBy).validators.Perm addrs :=
  Lib.InsertionSort.insertionSort_perm sortBy addrs

theorem validators_copy_perm (valSet : ValidatorSet) (sortBy : Address → Address → Bool) :
    (valSet.copy sortBy).validators.Perm valSet.validators :=
  validators_newSet_perm _ _ _

/-- **`AddValidator` returns true exactly for an absent address.** -/
theorem addValidator_snd_eq_true_iff (valSet : ValidatorSet) (sortBy : Address → Address → Bool)
    (address : Address) : (valSet.addValidator sortBy address).2 = true ↔ address ∉ valSet.validators := by
  unfold addValidator
  by_cases h : address ∈ valSet.validators <;> simp [h]

/-- `AddValidator` leaves the old validators, and the address if it was absent. -/
theorem validators_addValidator_perm (valSet : ValidatorSet) (sortBy : Address → Address → Bool)
    (address : Address) :
    (valSet.addValidator sortBy address).1.validators.Perm
      (if address ∈ valSet.validators then valSet.validators else valSet.validators ++ [address]) := by
  unfold addValidator
  by_cases h : address ∈ valSet.validators
  · simp only [h, if_true]
    exact List.Perm.refl _
  · simp only [h, if_false]
    exact validators_sortValidators_perm _ sortBy

/-- **`RemoveValidator` returns true exactly for a present address.** -/
theorem removeValidator_snd_eq_true_iff (valSet : ValidatorSet) (address : Address) :
    (valSet.removeValidator address).2 = true ↔ address ∈ valSet.validators := by
  unfold removeValidator
  by_cases h : address ∈ valSet.validators <;> simp [h]

/-- `RemoveValidator` leaves the validators without the address's first entry. -/
theorem validators_removeValidator (valSet : ValidatorSet) (address : Address) :
    (valSet.removeValidator address).1.validators = valSet.validators.erase address := by
  unfold removeValidator
  by_cases h : address ∈ valSet.validators
  · simp only [h, if_true]
  · simp only [h, if_false]
    exact (List.erase_of_not_mem h).symm

/-- **`GetByAddress` of distinct validators**: the index of the address in `List()`. -/
theorem getByAddress_eq_some_iff {valSet : ValidatorSet} (h : valSet.validators.Nodup)
    (addr : Address) (i : Nat) :
    valSet.getByAddress addr = some i ↔ valSet.validators[i]? = some addr := by
  unfold getByAddress
  rw [List.idxOf?_eq_some_iff, List.getElem?_eq_some_iff]
  constructor
  · rintro ⟨hi, heq, -⟩
    exact ⟨hi, heq⟩
  · rintro ⟨hi, heq⟩
    refine ⟨hi, heq, fun j hj hjeq => ?_⟩
    have hji : j = i := (List.getElem_inj h).1 (hjeq.trans heq.symm)
    omega

/-- `GetByAddress` is `(-1, nil)` exactly for an address that is no validator. -/
theorem getByAddress_eq_none_iff (valSet : ValidatorSet) (addr : Address) :
    valSet.getByAddress addr = none ↔ addr ∉ valSet.validators :=
  List.idxOf?_eq_none_iff

/-- `AddValidator` keeps the validators distinct. -/
theorem addValidator_nodup {valSet : ValidatorSet} (h : valSet.validators.Nodup)
    (sortBy : Address → Address → Bool) (address : Address) :
    (valSet.addValidator sortBy address).1.validators.Nodup := by
  unfold addValidator
  by_cases ha : address ∈ valSet.validators
  · simp only [ha, if_true]
    exact h
  · simp only [ha, if_false]
    exact (validators_sortValidators_perm _ sortBy).nodup_iff.2
      ((List.perm_append_singleton address valSet.validators).nodup_iff.2 (List.nodup_cons.2 ⟨ha, h⟩))

/-- `RemoveValidator` keeps the validators distinct. -/
theorem removeValidator_nodup {valSet : ValidatorSet} (h : valSet.validators.Nodup)
    (address : Address) : (valSet.removeValidator address).1.validators.Nodup := by
  rw [validators_removeValidator]
  exact h.erase address

/-- `RemoveValidator` keeps the validators in their order. -/
theorem removeValidator_pairwise {valSet : ValidatorSet} {r : Address → Address → Prop}
    (hs : valSet.validators.Pairwise r) (address : Address) :
    (valSet.removeValidator address).1.validators.Pairwise r := by
  rw [validators_removeValidator]
  exact hs.sublist List.erase_sublist

section StrictTotal

variable (sortBy : Address → Address → Bool) [IsStrictTotalOrder Address (fun a b => sortBy a b = true)]

theorem pairwise_sortValidators {valSet : ValidatorSet} (h : valSet.validators.Nodup) :
    (valSet.sortValidators sortBy).validators.Pairwise (fun a b => sortBy a b = true) :=
  Lib.InsertionSort.insertionSort_pairwise sortBy h

/-- `AddValidator` keeps distinct validators sorted. -/
theorem addValidator_pairwise {valSet : ValidatorSet} (h : valSet.validators.Nodup)
    (hs : valSet.validators.Pairwise (fun a b => sortBy a b = true)) (address : Address) :
    (valSet.addValidator sortBy address).1.validators.Pairwise (fun a b => sortBy a b = true) := by
  unfold addValidator
  by_cases ha : address ∈ valSet.validators
  · simp only [ha, if_true]
    exact hs
  · simp only [ha, if_false]
    exact pairwise_sortValidators sortBy
      ((List.perm_append_singleton address valSet.validators).nodup_iff.2 (List.nodup_cons.2 ⟨ha, h⟩))

end StrictTotal

end ValidatorSet

end Xdchain.Istanbul.Validator
