import Mathlib.Data.List.InsertIdx
import Xdchain.Lib.Search

/-! # Lists sorted by a key

A Go slice kept strictly increasing by a key, as a map from keys to entries:
`upsert` puts an entry in its place, over the one with its key if there is
one, and `lookup` finds the entry of a key. Code over such a slice finds the
place of a key with `sort.Search` for the first entry whose key is not below
it; the index splits the slice into the entries below the key and those from
it on (`search_split`), and the three things code does there (overwrite the
entry, insert before it, append at the end) are `upsert` (`upsert_eq_set`,
`upsert_eq_insertIdx`, `upsert_eq_append`). The order on keys is any strict
total order. -/

namespace Xdchain.Lib.SortedKeys

variable {α κ : Type}

/-! ## Strict total orders -/

section Order

variable [LT κ]

theorem ne_of_lt' [Std.Irrefl (fun a b : κ => a < b)] {a b : κ} (h : a < b) : a ≠ b :=
  fun he => Std.Irrefl.irrefl (r := fun a b : κ => a < b) b (he ▸ h)

theorem lt_of_not_lt_of_ne [Std.Trichotomous (fun a b : κ => a < b)] {a b : κ} (h : ¬ a < b)
    (hne : a ≠ b) : b < a := by
  by_contra h'
  exact hne (Std.Trichotomous.trichotomous (r := fun a b : κ => a < b) a b h h')

end Order

/-! ## The map of a sorted list -/

section Lookup

variable [DecidableEq κ] (key : α → κ)

/-- The entry with key `k`. -/
def lookup (k : κ) (l : List α) : Option α := l.find? fun y => key y = k

variable {key}

@[simp] theorem lookup_nil (k : κ) : lookup key k ([] : List α) = none := rfl

theorem lookup_cons (k : κ) (y : α) (ys : List α) :
    lookup key k (y :: ys) = if key y = k then some y else lookup key k ys := by
  by_cases h : key y = k <;> simp [lookup, h]

theorem lookup_append (k : κ) (p l : List α) :
    lookup key k (p ++ l) = (lookup key k p).or (lookup key k l) :=
  List.find?_append

theorem lookup_eq_none {k : κ} {l : List α} (h : ∀ y ∈ l, key y ≠ k) : lookup key k l = none :=
  List.find?_eq_none.mpr fun y hy => by simpa using h y hy

end Lookup

section Sorted

variable [LT κ] [DecidableLT κ] [DecidableEq κ] (key : α → κ)

/-- Keys strictly increase along the list. -/
def StrictlySorted (l : List α) : Prop := l.Pairwise fun a b => key a < key b

/-- Put `x` in its place, replacing the entry with its key. -/
def upsert (x : α) : List α → List α
  | [] => [x]
  | y :: ys =>
    if key y < key x then y :: upsert x ys
    else if key y = key x then x :: ys
    else x :: y :: ys

variable {key}

theorem mem_upsert {x z : α} : ∀ {l : List α}, z ∈ upsert key x l → z = x ∨ z ∈ l
  | [], h => by simpa [upsert] using h
  | y :: ys, h => by
    simp only [upsert] at h
    split_ifs at h
    · rcases List.mem_cons.mp h with rfl | h
      · exact .inr List.mem_cons_self
      · exact (mem_upsert h).imp id (List.mem_cons_of_mem y)
    · rcases List.mem_cons.mp h with rfl | h
      · exact .inl rfl
      · exact .inr (List.mem_cons_of_mem y h)
    · rcases List.mem_cons.mp h with rfl | h
      · exact .inl rfl
      · exact .inr h

/-- Entries with smaller keys are passed over. -/
theorem upsert_append_of_lt {x : α} (l : List α) :
    ∀ {p : List α}, (∀ y ∈ p, key y < key x) → upsert key x (p ++ l) = p ++ upsert key x l
  | [], _ => rfl
  | y :: p, h => by
    rw [List.cons_append, upsert, if_pos (h y List.mem_cons_self),
      upsert_append_of_lt l fun z hz => h z (List.mem_cons_of_mem y hz), List.cons_append]

theorem upsert_cons_of_not_lt {x y : α} (ys : List α) (h : ¬ key y < key x) :
    upsert key x (y :: ys) = if key y = key x then x :: ys else x :: y :: ys := by
  simp only [upsert, if_neg h]

variable [Std.Irrefl (fun a b : κ => a < b)]

/-- **Looking up after an upsert** finds the new entry under its key and
the old ones under the others. -/
theorem lookup_upsert (x : α) (k : κ) :
    ∀ l : List α, lookup key k (upsert key x l) = if key x = k then some x else lookup key k l
  | [] => by simp [upsert, lookup_cons]
  | y :: ys => by
    by_cases hk : key x = k
    · rw [if_pos hk]
      simp only [upsert]
      split_ifs with hlt
      · -- `y` stays in front and is not the entry of `key x`
        rw [lookup_cons, if_neg (hk ▸ ne_of_lt' hlt), lookup_upsert x k ys, if_pos hk]
      · rw [lookup_cons, if_pos hk]
      · rw [lookup_cons, if_pos hk]
    · rw [if_neg hk]
      simp only [upsert]
      split_ifs with hlt heq
      · rw [lookup_cons, lookup_upsert x k ys, if_neg hk, lookup_cons]
      · -- the replaced entry had the key of `x`, which is not `k`
        rw [lookup_cons, if_neg hk, lookup_cons, if_neg (heq ▸ hk)]
      · rw [lookup_cons, if_neg hk]

omit [Std.Irrefl (fun a b : κ => a < b)] in
/-- **An upsert keeps the keys strictly increasing.** -/
theorem upsert_sorted [Trans (fun a b : κ => a < b) (fun a b : κ => a < b) (fun a b : κ => a < b)]
    [Std.Trichotomous (fun a b : κ => a < b)] (x : α) :
    ∀ {l : List α}, StrictlySorted key l → StrictlySorted key (upsert key x l)
  | [], _ => List.pairwise_singleton _ x
  | y :: ys, hs => by
    obtain ⟨hy, hys⟩ := List.pairwise_cons.mp hs
    simp only [upsert]
    split_ifs with hlt heq
    · refine List.pairwise_cons.mpr ⟨fun z hz => ?_, upsert_sorted x hys⟩
      rcases mem_upsert hz with rfl | hz
      · exact hlt
      · exact hy z hz
    · exact List.pairwise_cons.mpr ⟨fun z hz => heq ▸ hy z hz, hys⟩
    · -- `x` goes before `y`, and so before everything after it
      have hxy : key x < key y := lt_of_not_lt_of_ne hlt heq
      refine List.pairwise_cons.mpr ⟨fun z hz => ?_, hs⟩
      rcases List.mem_cons.mp hz with rfl | hz
      · exact hxy
      · exact Trans.trans hxy (hy z hz)

/-! ## Where `sort.Search` splits a sorted list -/

omit [Std.Irrefl (fun a b : κ => a < b)] in
theorem forall_mem_take {P : α → Prop} {l : List α} {i : Nat}
    (h : ∀ j (hj : j < l.length), j < i → P l[j]) : ∀ y ∈ l.take i, P y := by
  intro y hy
  obtain ⟨j, hj, rfl⟩ := List.mem_iff_getElem.mp hy
  rw [List.getElem_take]
  have hj' : j < i ∧ j < l.length := Nat.lt_min.mp (by simpa using hj)
  exact h j hj'.2 hj'.1

omit [DecidableEq κ] [Std.Irrefl (fun a b : κ => a < b)] in
/-- **`sort.Search` for the first key not below `k`** returns the index
where the keys below `k` end. -/
theorem search_split [Trans (fun a b : κ => a < b) (fun a b : κ => a < b) (fun a b : κ => a < b)]
    {l : List α} (hs : StrictlySorted key l) {k : κ} {f : Nat → Bool}
    (hf : ∀ j (hj : j < l.length), f j = true ↔ ¬ key l[j] < k) :
    search l.length f ≤ l.length ∧
      (∀ j (hj : j < l.length), j < search l.length f → key l[j] < k) ∧
      ∀ j (hj : j < l.length), search l.length f ≤ j → ¬ key l[j] < k := by
  -- past an entry not below `k`, the keys only grow
  have hmono : ∀ a b, a ≤ b → b < l.length → f a = true → f b = true := by
    intro a b hab hb hfa
    rw [hf b hb]
    rw [hf a (by omega)] at hfa
    rcases Nat.lt_or_eq_of_le hab with hlt | rfl
    · exact fun hbk => hfa (Trans.trans (List.pairwise_iff_getElem.mp hs a b (by omega) hb hlt) hbk)
    · exact hfa
  obtain ⟨h1, h2, h3⟩ := search_spec hmono
  refine ⟨h1, fun j hj hji => ?_, fun j hj hij => (hf j hj).mp (h3 j hij hj)⟩
  have hfj := h2 j hji
  by_contra hk
  rw [(hf j hj).mpr hk] at hfj
  cases hfj

omit [DecidableLT κ] in
/-- The entry at the split has the key, or the key is absent. -/
theorem lookup_of_split [Trans (fun a b : κ => a < b) (fun a b : κ => a < b) (fun a b : κ => a < b)]
    [Std.Trichotomous (fun a b : κ => a < b)] {l : List α} (hs : StrictlySorted key l) {k : κ}
    {i : Nat} (hlow : ∀ j (hj : j < l.length), j < i → key l[j] < k)
    (hhigh : ∀ j (hj : j < l.length), i ≤ j → ¬ key l[j] < k) :
    lookup key k l = if h : i < l.length then (if key l[i] = k then some l[i] else none) else none := by
  have htake : lookup key k (l.take i) = none :=
    lookup_eq_none (forall_mem_take fun j hj hji => ne_of_lt' (hlow j hj hji))
  rw [show lookup key k l = (lookup key k (l.take i)).or (lookup key k (l.drop i)) by
    rw [← lookup_append, List.take_append_drop], htake, Option.none_or]
  split
  · rename_i hi
    rw [List.drop_eq_getElem_cons hi, lookup_cons]
    split
    · rfl
    · -- every later key is above the one at the split, which is above `k`
      rename_i hne
      have hk : k < key l[i] := lt_of_not_lt_of_ne (hhigh i hi (Nat.le_refl i)) hne
      have hsd : StrictlySorted key (l[i] :: l.drop (i + 1)) := by
        rw [← List.drop_eq_getElem_cons hi]
        exact hs.sublist (List.drop_sublist i l)
      exact lookup_eq_none fun y hy =>
        (ne_of_lt' (Trans.trans hk ((List.pairwise_cons.mp hsd).1 y hy))).symm
  · rename_i hi
    rw [List.drop_eq_nil_of_le (by omega)]
    rfl

omit [LT κ] [DecidableLT κ] [DecidableEq κ] [Std.Irrefl (fun a b : κ => a < b)] in
theorem insertIdx_eq_take_drop (x : α) : ∀ {l : List α} {i : Nat}, i ≤ l.length →
    l.insertIdx i x = l.take i ++ x :: l.drop i
  | _, 0, _ => by simp
  | [], _ + 1, h => by simp at h
  | y :: ys, i + 1, h => by
    rw [List.insertIdx_succ_cons, insertIdx_eq_take_drop x (by simpa using h)]
    rfl

variable {l : List α} {x : α} {i : Nat}

omit [DecidableEq κ] [Std.Irrefl (fun a b : κ => a < b)] in
theorem eq_take_cons_drop (hi : i < l.length) : l = l.take i ++ l[i] :: l.drop (i + 1) := by
  rw [← List.drop_eq_getElem_cons hi, List.take_append_drop]

/-- Overwriting the entry at the split is the upsert. -/
theorem upsert_eq_set (hi : i < l.length) (hlow : ∀ j (hj : j < l.length), j < i → key l[j] < key x)
    (heq : key l[i] = key x) : upsert key x l = l.set i x := by
  have hnlt : ¬ key l[i] < key x := fun h => ne_of_lt' h heq
  rw [List.set_eq_take_append_cons_drop, if_pos hi]
  conv_lhs => rw [eq_take_cons_drop hi]
  rw [upsert_append_of_lt _ (forall_mem_take hlow), upsert_cons_of_not_lt _ hnlt, if_pos heq]

omit [Std.Irrefl (fun a b : κ => a < b)] in
/-- Inserting before the entry at the split, whose key is above, is the upsert. -/
theorem upsert_eq_insertIdx (hi : i < l.length) (hlow : ∀ j (hj : j < l.length), j < i → key l[j] < key x)
    (hnlt : ¬ key l[i] < key x) (hne : key l[i] ≠ key x) : upsert key x l = l.insertIdx i x := by
  rw [insertIdx_eq_take_drop x (Nat.le_of_lt hi)]
  conv_lhs => rw [eq_take_cons_drop hi]
  rw [upsert_append_of_lt _ (forall_mem_take hlow), upsert_cons_of_not_lt _ hnlt, if_neg hne,
    ← List.drop_eq_getElem_cons hi]

omit [Std.Irrefl (fun a b : κ => a < b)] in
/-- Appending after keys all below is the upsert. -/
theorem upsert_eq_append (hlow : ∀ j (hj : j < l.length), key l[j] < key x) : upsert key x l = l ++ [x] := by
  have hbelow : ∀ y ∈ l, key y < key x := fun y hy => by
    obtain ⟨j, hj, rfl⟩ := List.mem_iff_getElem.mp hy
    exact hlow j hj
  have h : upsert key x (l ++ []) = l ++ upsert key x [] := upsert_append_of_lt [] hbelow
  simpa [upsert] using h

end Sorted

end Xdchain.Lib.SortedKeys
