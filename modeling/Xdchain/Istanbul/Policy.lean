import Xdchain.Istanbul.Validator

/-! # Validator sets and their proposer policy

A node's validator sets share one `ProposerPolicy` (`config.go`): its `By`
sorts them, and every set `NewSet`, and so `Copy`, makes is registered with
it, so that `Use` sorts them all again. A set is its index among the sets
made so far, as a Go pointer; a call on an index with no set is left out.
`ClearRegistry`, which the backend calls after each committed block, forgets
the registered sets, and a later `Use` leaves them as they are.

Over a run whose orders are strict total orders and whose new sets are of
distinct addresses, the sets stay duplicate-free and every registered one is
strictly sorted by the current `By` (`Sorted.run`). For a `By` that is no
strict total order, `NewSet` of two addresses is not sorted by it. -/

namespace Xdchain.Istanbul.Policy
open Xdchain.Istanbul.Validator Xdchain.Istanbul.Validator.ValidatorSet

/-- A node's validator sets and the policy they share: its `By`, and the
indices of the sets in its registry. -/
structure World where
  sortBy : Address → Address → Bool
  sets : List ValidatorSet
  registry : List Nat

/-- The calls on the sets and on their policy. -/
inductive Call where
  | newSet (addrs : List Address) (policy : ProposerPolicy)
  | addValidator (i : Nat) (address : Address)
  | removeValidator (i : Nat) (address : Address)
  | copy (i : Nat)
  | use (sortBy : Address → Address → Bool)
  | clearRegistry

namespace World

def empty (sortBy : Address → Address → Bool) : World := ⟨sortBy, [], []⟩

/-- A new set, registered with the policy. -/
def register (w : World) (valSet : ValidatorSet) : World :=
  { w with sets := w.sets ++ [valSet], registry := w.registry ++ [w.sets.length] }

def apply (w : World) : Call → World
  | .newSet addrs policy => w.register (newSet addrs policy w.sortBy)
  | .addValidator i address =>
    { w with sets := w.sets.modify i fun s => (s.addValidator w.sortBy address).1 }
  | .removeValidator i address =>
    { w with sets := w.sets.modify i fun s => (s.removeValidator address).1 }
  | .copy i =>
    match w.sets[i]? with
    | some s => w.register (s.copy w.sortBy)
    | none => w
  | .use sortBy =>
    { w with
      sortBy
      sets := w.sets.mapIdx fun j s => if j ∈ w.registry then s.sortValidators sortBy else s }
  | .clearRegistry => { w with registry := [] }

/-- The world after a sequence of calls. -/
def run (w : World) (calls : List Call) : World := calls.foldl apply w

end World

/-- What the calls are given: distinct addresses for a new set, and a strict
total order for `Use`, as `ValidatorSortByString` and `ValidatorSortByByte`
are. -/
def Call.Lawful : Call → Prop
  | .newSet addrs _ => addrs.Nodup
  | .use sortBy => IsStrictTotalOrder Address (fun a b => sortBy a b = true)
  | _ => True

/-- The law of the sets: every set is duplicate-free, and every registered
one is strictly sorted by the current `By`, a strict total order. -/
structure Sorted (w : World) : Prop where
  order : IsStrictTotalOrder Address (fun a b => w.sortBy a b = true)
  registry_lt : ∀ j ∈ w.registry, j < w.sets.length
  nodup : ∀ (j : Nat) (s : ValidatorSet), w.sets[j]? = some s → s.validators.Nodup
  sorted : ∀ j ∈ w.registry, ∀ s : ValidatorSet, w.sets[j]? = some s →
    s.validators.Pairwise (fun a b => w.sortBy a b = true)

theorem sorted_empty (sortBy : Address → Address → Bool)
    [IsStrictTotalOrder Address (fun a b => sortBy a b = true)] : Sorted (World.empty sortBy) where
  order := inferInstanceAs (IsStrictTotalOrder Address (fun a b => sortBy a b = true))
  registry_lt := fun _ h => by cases h
  nodup := fun _ _ h => by simp [World.empty] at h
  sorted := fun _ h => by cases h

/-- Registering a set sorted by the current `By` keeps the law. -/
theorem Sorted.register {w : World} (h : Sorted w) {valSet : ValidatorSet}
    (hnd : valSet.validators.Nodup)
    (hs : valSet.validators.Pairwise (fun a b => w.sortBy a b = true)) :
    Sorted (w.register valSet) := by
  -- the old indices read the old sets, the new one the new set
  have hget : ∀ j s, (w.sets ++ [valSet])[j]? = some s →
      w.sets[j]? = some s ∨ (j = w.sets.length ∧ s = valSet) := by
    intro j s hj
    by_cases hlt : j < w.sets.length
    · rw [List.getElem?_append_left hlt] at hj
      exact .inl hj
    · rw [List.getElem?_append_right (by omega)] at hj
      have hzero : j - w.sets.length = 0 := by
        cases hk : j - w.sets.length with
        | zero => rfl
        | succ k => rw [hk] at hj; simp at hj
      rw [hzero] at hj
      exact .inr ⟨by omega, (Option.some.inj hj).symm⟩
  refine ⟨h.order, fun j hj => ?_, fun j s hj => ?_, fun j hj s hs' => ?_⟩
  · simp only [World.register, List.mem_append, List.mem_singleton, List.length_append,
      List.length_singleton] at hj ⊢
    rcases hj with hj | rfl
    · exact Nat.lt_succ_of_lt (h.registry_lt j hj)
    · exact Nat.lt_succ_self _
  · rcases hget j s hj with hj | ⟨-, rfl⟩
    · exact h.nodup j s hj
    · exact hnd
  · simp only [World.register, List.mem_append, List.mem_singleton] at hj
    rcases hget j s hs' with hj' | ⟨-, rfl⟩
    · rcases hj with hj | rfl
      · exact h.sorted j hj s hj'
      · simp at hj'
    · exact hs

/-- Changing one set by a function that keeps it duplicate-free, and sorted
if it was, keeps the law. -/
theorem Sorted.modify {w : World} (h : Sorted w) (i : Nat) (f : ValidatorSet → ValidatorSet)
    (hnd : ∀ s : ValidatorSet, s.validators.Nodup → (f s).validators.Nodup)
    (hs : ∀ s : ValidatorSet, s.validators.Nodup →
      s.validators.Pairwise (fun a b => w.sortBy a b = true) →
      (f s).validators.Pairwise (fun a b => w.sortBy a b = true)) :
    Sorted { w with sets := w.sets.modify i f } := by
  -- index `j` reads `f` of the old set at `i`, the old set elsewhere
  have hget : ∀ (j : Nat) (s : ValidatorSet), (w.sets.modify i f)[j]? = some s →
      ∃ t, w.sets[j]? = some t ∧ (s = f t ∨ s = t) := by
    intro j s hj
    rw [List.getElem?_modify] at hj
    cases ht : w.sets[j]? with
    | none => rw [ht] at hj; cases hj
    | some t =>
      rw [ht, Option.map_eq_map, Option.map_some, Option.some.injEq] at hj
      refine ⟨t, rfl, ?_⟩
      by_cases hij : i = j
      · rw [if_pos hij] at hj
        exact .inl hj.symm
      · rw [if_neg hij] at hj
        exact .inr hj.symm
  refine ⟨h.order, fun j hj => by simpa using h.registry_lt j hj, fun j s hj => ?_,
    fun j hj s hs' => ?_⟩
  · obtain ⟨t, ht, hst | hst⟩ := hget j s hj
    · rw [hst]
      exact hnd t (h.nodup j t ht)
    · rw [hst]
      exact h.nodup j t ht
  · obtain ⟨t, ht, hst | hst⟩ := hget j s hs'
    · rw [hst]
      exact hs t (h.nodup j t ht) (h.sorted j hj t ht)
    · rw [hst]
      exact h.sorted j hj t ht

/-- `Use` with a strict total order keeps the law: the registered sets are
sorted by it, the others kept as they are. -/
theorem Sorted.use {w : World} (h : Sorted w) (sortBy : Address → Address → Bool)
    [hord : IsStrictTotalOrder Address (fun a b => sortBy a b = true)] :
    Sorted (w.apply (.use sortBy)) := by
  have hget : ∀ (j : Nat) (s : ValidatorSet), (w.sets.mapIdx fun j s =>
      if j ∈ w.registry then s.sortValidators sortBy else s)[j]? = some s →
      ∃ t, w.sets[j]? = some t ∧ s = if j ∈ w.registry then t.sortValidators sortBy else t := by
    intro j s hj
    rw [List.getElem?_mapIdx] at hj
    cases ht : w.sets[j]? with
    | none => rw [ht] at hj; cases hj
    | some t =>
      rw [ht, Option.map_some, Option.some.injEq] at hj
      exact ⟨t, rfl, hj.symm⟩
  refine ⟨hord, fun j hj => by simpa [World.apply] using h.registry_lt j hj, fun j s hj => ?_,
    fun j hj s hs => ?_⟩
  · obtain ⟨t, ht, rfl⟩ := hget j s hj
    split
    · exact (validators_sortValidators_perm t sortBy).nodup_iff.2 (h.nodup j t ht)
    · exact h.nodup j t ht
  · obtain ⟨t, ht, rfl⟩ := hget j s hs
    have hj' : j ∈ w.registry := hj
    rw [if_pos hj']
    exact pairwise_sortValidators sortBy (h.nodup j t ht)

/-- **Every call keeps the law.** -/
theorem Sorted.apply {w : World} (h : Sorted w) {call : Call} (hcall : call.Lawful) :
    Sorted (w.apply call) := by
  have := h.order
  cases call with
  | newSet addrs policy =>
    exact h.register ((validators_newSet_perm addrs policy w.sortBy).nodup_iff.2 hcall)
      (Lib.InsertionSort.insertionSort_pairwise w.sortBy hcall)
  | addValidator i address =>
    exact h.modify i _ (fun s hs => addValidator_nodup hs w.sortBy address)
      (fun s hs hp => addValidator_pairwise w.sortBy hs hp address)
  | removeValidator i address =>
    exact h.modify i _ (fun s hs => removeValidator_nodup hs address)
      (fun s _ hp => removeValidator_pairwise hp address)
  | copy i =>
    cases hs : w.sets[i]? with
    | none => simpa [World.apply, hs] using h
    | some s =>
      simp only [World.apply, hs]
      have hnd := h.nodup i s hs
      exact h.register ((validators_copy_perm s w.sortBy).nodup_iff.2 hnd)
        (Lib.InsertionSort.insertionSort_pairwise w.sortBy hnd)
  | use sortBy =>
    have : IsStrictTotalOrder Address (fun a b => sortBy a b = true) := hcall
    exact h.use sortBy
  | clearRegistry =>
    exact ⟨h.order, (fun _ hj => by cases hj), h.nodup, (fun _ hj => by cases hj)⟩

/-- **Every run of lawful calls keeps the law.** -/
theorem Sorted.run (calls : List Call) :
    ∀ {w : World}, Sorted w → (∀ call ∈ calls, call.Lawful) → Sorted (w.run calls) := by
  induction calls with
  | nil => exact fun h _ => h
  | cons call calls ih =>
    intro w h hcalls
    rw [List.forall_mem_cons] at hcalls
    exact ih (h.apply hcalls.1) hcalls.2

/-- Without `ClearRegistry`, every set made is registered. -/
theorem registry_run (calls : List Call) (hclear : Call.clearRegistry ∉ calls) :
    ∀ w : World, w.registry = List.range w.sets.length →
      (w.run calls).registry = List.range (w.run calls).sets.length := by
  induction calls with
  | nil => exact fun _ h => h
  | cons call calls ih =>
    intro w hw
    have hrest : Call.clearRegistry ∉ calls := fun hc => hclear (List.mem_cons_of_mem _ hc)
    refine ih hrest (w.apply call) ?_
    have hregister : ∀ valSet, (w.register valSet).registry =
        List.range (w.register valSet).sets.length := by
      intro valSet
      simp [World.register, hw, List.range_succ]
    cases call with
    | newSet addrs policy => exact hregister _
    | addValidator i address => simpa [World.apply] using hw
    | removeValidator i address => simpa [World.apply] using hw
    | copy i =>
      cases hs : w.sets[i]? with
      | none => simpa [World.apply, hs] using hw
      | some s =>
        simp only [World.apply, hs]
        exact hregister _
    | use sortBy => simpa [World.apply] using hw
    | clearRegistry => exact absurd List.mem_cons_self hclear

/-- **The validator sets over every run**: from no sets, with a strict total
order as `By` and lawful calls, every set stays duplicate-free, and, with no
`ClearRegistry` among the calls, strictly sorted by the current `By`; on
each set, `AddValidator(a)` returns true exactly for an absent `a` and
leaves the old validators and `a`, `RemoveValidator(a)` returns true
exactly for a present `a` and leaves the old validators but `a`, and
`GetByAddress(a)` is the index of `a` in `List()`, or `(-1, nil)`. -/
theorem run_sorted (sortBy : Address → Address → Bool)
    [IsStrictTotalOrder Address (fun a b => sortBy a b = true)] (calls : List Call)
    (hcalls : ∀ call ∈ calls, call.Lawful) :
    (∀ (j : Nat) (s : ValidatorSet), ((World.empty sortBy).run calls).sets[j]? = some s →
      s.validators.Nodup ∧
      (Call.clearRegistry ∉ calls →
        s.validators.Pairwise (fun a b => ((World.empty sortBy).run calls).sortBy a b = true)) ∧
      ∀ address : Address,
        ((s.addValidator ((World.empty sortBy).run calls).sortBy address).2 = true ↔
          address ∉ s.validators) ∧
        (∀ b, b ∈ (s.addValidator ((World.empty sortBy).run calls).sortBy address).1.validators ↔
          b = address ∨ b ∈ s.validators) ∧
        ((s.removeValidator address).2 = true ↔ address ∈ s.validators) ∧
        (∀ b, b ∈ (s.removeValidator address).1.validators ↔ b ≠ address ∧ b ∈ s.validators) ∧
        (∀ i, s.getByAddress address = some i ↔ s.validators[i]? = some address) ∧
        (s.getByAddress address = none ↔ address ∉ s.validators)) := by
  have hw := Sorted.run calls (sorted_empty sortBy) hcalls
  intro j s hj
  have hnd := hw.nodup j s hj
  refine ⟨hnd, fun hclear => ?_, fun address => ⟨addValidator_snd_eq_true_iff _ _ _, fun b => ?_,
    removeValidator_snd_eq_true_iff _ _, fun b => ?_, getByAddress_eq_some_iff hnd address,
    getByAddress_eq_none_iff _ _⟩⟩
  · -- with the registry holding every set, `j` is registered
    have hreg := registry_run calls hclear (World.empty sortBy) rfl
    have hlt : j < ((World.empty sortBy).run calls).sets.length :=
      (List.getElem?_eq_some_iff.1 hj).1
    exact hw.sorted j (by rw [hreg]; exact List.mem_range.2 hlt) s hj
  · rw [(validators_addValidator_perm s _ address).mem_iff]
    by_cases ha : address ∈ s.validators
    · rw [if_pos ha]
      constructor
      · exact .inr
      · rintro (rfl | hb)
        · exact ha
        · exact hb
    · rw [if_neg ha, List.mem_append, List.mem_singleton, or_comm]
  · rw [validators_removeValidator]
    exact hnd.mem_erase_iff

/-- `By` on addresses as numbers. -/
def byNumber (a b : Address) : Bool := decide (a < b)

instance : IsStrictTotalOrder Address (fun a b => byNumber a b = true) where
  trichotomous a b hab hba := by
    simp only [byNumber, decide_eq_true_eq] at hab hba
    exact Nat.le_antisymm (Nat.not_lt.1 hba) (Nat.not_lt.1 hab)
  irrefl a h := by simp [byNumber] at h
  trans a b c hab hbc := by
    simp only [byNumber, decide_eq_true_eq] at hab hbc ⊢
    exact Nat.lt_trans hab hbc

/-- A set of 2 and 1, then 3 added to it. -/
def numberCalls : List Call := [.newSet [2, 1] .roundRobin, .addValidator 0 3]

theorem run_sorted_at_numberCalls :
    IsStrictTotalOrder Address (fun a b => byNumber a b = true) ∧
      (∀ call ∈ numberCalls, call.Lawful) ∧
      (∀ (j : Nat) (s : ValidatorSet), ((World.empty byNumber).run numberCalls).sets[j]? = some s →
        s.validators.Nodup ∧
        (Call.clearRegistry ∉ numberCalls →
          s.validators.Pairwise
            (fun a b => ((World.empty byNumber).run numberCalls).sortBy a b = true)) ∧
        ∀ address : Address,
          ((s.addValidator ((World.empty byNumber).run numberCalls).sortBy address).2 = true ↔
            address ∉ s.validators) ∧
          (∀ b, b ∈ (s.addValidator ((World.empty byNumber).run numberCalls).sortBy
            address).1.validators ↔ b = address ∨ b ∈ s.validators) ∧
          ((s.removeValidator address).2 = true ↔ address ∈ s.validators) ∧
          (∀ b, b ∈ (s.removeValidator address).1.validators ↔ b ≠ address ∧ b ∈ s.validators) ∧
          (∀ i, s.getByAddress address = some i ↔ s.validators[i]? = some address) ∧
          (s.getByAddress address = none ↔ address ∉ s.validators)) := by
  have hcalls : ∀ call ∈ numberCalls, call.Lawful := by
    intro call hcall
    simp only [numberCalls, List.mem_cons, List.not_mem_nil, or_false] at hcall
    rcases hcall with rfl | rfl
    · exact List.nodup_cons.2 ⟨by decide, List.nodup_cons.2 ⟨by decide, List.nodup_nil⟩⟩
    · trivial
  exact ⟨inferInstance, hcalls, run_sorted byNumber numberCalls hcalls⟩

/-- A `By` under which no address comes before another. -/
def neverLess (_ _ : Address) : Bool := false

/-- **For a `By` that is no strict total order, `NewSet` of distinct
addresses is not strictly sorted by it.** -/
theorem newSet_not_sorted_by_neverLess :
    [1, 2].Nodup ∧
      ¬ (newSet [1, 2] .roundRobin neverLess).validators.Pairwise (fun a b => neverLess a b = true) := by
  decide

end Xdchain.Istanbul.Policy
