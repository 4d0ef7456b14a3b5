import Mathlib

/-! # Finite maps with distinct keys

A Go `map[K]V` as the list of its entries. The value carries the proof that
no key occurs twice, so the size of a map is the number of its keys: what a
quorum count reads off a message set keyed by sender. Entries keep the order
in which their keys were first inserted; Go iterates a map in no fixed order,
and nothing proved about a map here depends on the order. -/

namespace Xdchain.Lib

/-- A finite map: its entries, no key twice. -/
structure KeyMap (K V : Type) where
  entries : List (K × V)
  nodup : (entries.map Prod.fst).Nodup
deriving DecidableEq

namespace KeyMap

variable {K V : Type}

def empty : KeyMap K V := ⟨[], List.nodup_nil⟩

def keys (m : KeyMap K V) : List K := m.entries.map Prod.fst

def values (m : KeyMap K V) : List V := m.entries.map Prod.snd

def size (m : KeyMap K V) : Nat := m.entries.length

/-- The entries that pass `p`, the others deleted. -/
def filter (p : K → V → Bool) (m : KeyMap K V) : KeyMap K V :=
  ⟨m.entries.filter (fun e => p e.1 e.2),
    m.nodup.sublist ((List.filter_sublist (l := m.entries)).map Prod.fst)⟩

@[simp] theorem size_empty : (empty : KeyMap K V).size = 0 := rfl

@[simp] theorem values_empty : (empty : KeyMap K V).values = [] := rfl

theorem size_eq_length_keys (m : KeyMap K V) : m.size = m.keys.length := by
  simp [size, keys]

theorem keys_nodup (m : KeyMap K V) : m.keys.Nodup := m.nodup

theorem length_values (m : KeyMap K V) : m.values.length = m.size := by
  simp [values, size]

theorem ext {m m' : KeyMap K V} (h : m.entries = m'.entries) : m = m' := by
  cases m
  cases m'
  cases h
  rfl

theorem values_filter_snd (q : V → Bool) (m : KeyMap K V) :
    (m.filter fun _ v => q v).values = m.values.filter q := by
  simp only [values, filter, List.filter_map]
  rfl

theorem keys_filter_fst (q : K → Bool) (m : KeyMap K V) :
    (m.filter fun k _ => q k).keys = m.keys.filter q := by
  simp only [keys, filter, List.filter_map]
  rfl

theorem filter_filter (p q : K → V → Bool) (m : KeyMap K V) :
    (m.filter p).filter q = m.filter fun k v => p k v && q k v := by
  apply ext
  simp only [filter, List.filter_filter]
  exact List.filter_congr fun e _ => Bool.and_comm _ _

theorem filter_true (m : KeyMap K V) : m.filter (fun _ _ => true) = m :=
  ext (List.filter_true _)

theorem mem_values_filter {p : K → V → Bool} {m : KeyMap K V} {v : V} (hv : v ∈ (m.filter p).values) :
    v ∈ m.values := by
  obtain ⟨e, he, rfl⟩ := List.mem_map.1 hv
  exact List.mem_map_of_mem (List.mem_filter.1 he).1

variable [DecidableEq K]

/-- `m[k]`, `none` for a key that is not there. -/
def find? (m : KeyMap K V) (k : K) : Option V := m.entries.lookup k

/-- `m[k] = v`: the entry of `k` is replaced where it stands, or added last. -/
def insert (m : KeyMap K V) (k : K) (v : V) : KeyMap K V :=
  if h : k ∈ m.keys then
    ⟨m.entries.map (fun e => if e.1 = k then (k, v) else e), by
      have hfst : (m.entries.map (fun e => if e.1 = k then (k, v) else e)).map Prod.fst =
          m.entries.map Prod.fst := by
        rw [List.map_map]
        refine List.map_congr_left fun e _ => ?_
        by_cases he : e.1 = k <;> simp [he]
      rw [hfst]
      exact m.nodup⟩
  else
    ⟨m.entries ++ [(k, v)], by
      rw [List.map_append, List.nodup_append]
      refine ⟨m.nodup, List.nodup_singleton _, fun a ha b hb => ?_⟩
      rw [List.map_singleton, List.mem_singleton] at hb
      subst hb
      exact fun hab => h (hab ▸ ha)⟩

def erase (m : KeyMap K V) (k : K) : KeyMap K V := m.filter fun k' _ => k' ≠ k

@[simp] theorem find?_empty (k : K) : (empty : KeyMap K V).find? k = none := rfl

theorem lookup_cons_of_ne {k a : K} (b : V) (es : List (K × V)) (h : k ≠ a) :
    ((a, b) :: es).lookup k = es.lookup k := by
  simp [List.lookup_cons, beq_false_of_ne h]

theorem mem_keys_iff (m : KeyMap K V) (k : K) : k ∈ m.keys ↔ (m.find? k).isSome := by
  unfold keys find?
  induction m.entries with
  | nil => simp
  | cons e es ih =>
    obtain ⟨a, b⟩ := e
    by_cases he : k = a
    · subst he
      simp
    · simp [lookup_cons_of_ne b es he, he, ih]

/-- Replacing the entry of `k` where it stands. -/
theorem lookup_map_replace (l : List (K × V)) (k k' : K) (v : V) :
    (l.map fun e => if e.1 = k then (k, v) else e).lookup k' =
      if k' = k then (if k ∈ l.map Prod.fst then some v else none) else l.lookup k' := by
  induction l with
  | nil => split <;> rfl
  | cons e es ih =>
    obtain ⟨a, b⟩ := e
    by_cases ha : a = k
    · subst ha
      by_cases hk : k' = a
      · subst hk
        simp
      · simp [lookup_cons_of_ne _ _ hk, hk, ih]
    · have hmap : (if (a, b).1 = k then (k, v) else (a, b)) = (a, b) := if_neg ha
      rw [List.map_cons, hmap]
      by_cases hka : k' = a
      · subst hka
        simp [ha]
      · rw [lookup_cons_of_ne _ _ hka, lookup_cons_of_ne _ _ hka, ih]
        by_cases hk : k' = k
        · rw [if_pos hk, if_pos hk]
          simp only [List.map_cons, List.mem_cons, (Ne.symm ha : k ≠ a), false_or]
        · rw [if_neg hk, if_neg hk]

theorem lookup_eq_none_of_not_mem {l : List (K × V)} {k : K} (h : k ∉ l.map Prod.fst) :
    l.lookup k = none := by
  rw [List.lookup_eq_none_iff]
  intro e he
  have hne : e.1 ≠ k := fun hk => h (hk ▸ List.mem_map_of_mem (f := Prod.fst) he)
  exact bne_iff_ne.mpr (Ne.symm hne)

/-- Adding an entry for a new key at the end. -/
theorem lookup_append_singleton (l : List (K × V)) {k : K} (k' : K) (v : V)
    (h : k ∉ l.map Prod.fst) :
    (l ++ [(k, v)]).lookup k' = if k' = k then some v else l.lookup k' := by
  rw [List.lookup_append]
  by_cases hk : k' = k
  · subst hk
    simp [lookup_eq_none_of_not_mem h]
  · simp [hk, lookup_cons_of_ne _ _ hk]

theorem find?_insert (m : KeyMap K V) (k k' : K) (v : V) :
    (m.insert k v).find? k' = if k' = k then some v else m.find? k' := by
  unfold insert find?
  split
  · rename_i h
    rw [lookup_map_replace, if_pos (show k ∈ m.entries.map Prod.fst from h)]
  · rename_i h
    exact lookup_append_singleton _ _ _ h

@[simp] theorem find?_insert_self (m : KeyMap K V) (k : K) (v : V) :
    (m.insert k v).find? k = some v := by
  rw [find?_insert, if_pos rfl]

theorem find?_insert_of_ne (m : KeyMap K V) {k k' : K} (v : V) (h : k' ≠ k) :
    (m.insert k v).find? k' = m.find? k' := by
  rw [find?_insert, if_neg h]

theorem size_insert (m : KeyMap K V) (k : K) (v : V) :
    (m.insert k v).size = if k ∈ m.keys then m.size else m.size + 1 := by
  unfold insert size
  split <;> simp_all

/-- Filtering a list without repeated keys: a key's entry stays or goes with it. -/
theorem lookup_filter (p : K → V → Bool) (l : List (K × V)) (hl : (l.map Prod.fst).Nodup)
    (k : K) : (l.filter fun e => p e.1 e.2).lookup k = (l.lookup k).filter (p k) := by
  induction l with
  | nil => rfl
  | cons e es ih =>
    obtain ⟨a, b⟩ := e
    rw [List.map_cons, List.nodup_cons] at hl
    by_cases he : k = a
    · subst he
      by_cases hp : p k b
      · simp [Option.filter, hp]
      · simp [Option.filter, hp, ih hl.2, lookup_eq_none_of_not_mem hl.1]
    · by_cases hp : p a b <;> simp [hp, lookup_cons_of_ne _ _ he, ih hl.2]

theorem find?_filter (p : K → V → Bool) (m : KeyMap K V) (k : K) :
    (m.filter p).find? k = (m.find? k).filter (p k) :=
  lookup_filter p m.entries m.nodup k

theorem find?_filter_eq_some_iff (p : K → V → Bool) (m : KeyMap K V) (k : K) (v : V) :
    (m.filter p).find? k = some v ↔ m.find? k = some v ∧ p k v = true := by
  rw [find?_filter, Option.filter_eq_some_iff]

/-- Without repeated keys, an entry holds the value `lookup` finds for its key. -/
theorem snd_eq_of_lookup {l : List (K × V)} (hl : (l.map Prod.fst).Nodup) {e : K × V}
    (he : e ∈ l) {v : V} (hv : l.lookup e.1 = some v) : e.2 = v := by
  induction l with
  | nil => cases he
  | cons a es ih =>
    rw [List.map_cons, List.nodup_cons] at hl
    obtain ⟨k0, v0⟩ := a
    rcases List.mem_cons.1 he with rfl | he
    · simpa [List.lookup_cons] using hv
    · have hmem : e.1 ∈ es.map Prod.fst := List.mem_map_of_mem he
      have hne : e.1 ≠ k0 := fun h => hl.1 (h ▸ hmem)
      rw [lookup_cons_of_ne _ _ hne] at hv
      exact ih hl.2 he hv

theorem entries_insert (m : KeyMap K V) (k : K) (v : V) :
    (m.insert k v).entries = if k ∈ m.keys then m.entries.map (fun e => if e.1 = k then (k, v) else e)
      else m.entries ++ [(k, v)] := by
  unfold insert
  split <;> rfl

theorem mem_keys_insert_self (m : KeyMap K V) (k : K) (v : V) : k ∈ (m.insert k v).keys := by
  simp [mem_keys_iff]

/-- Writing back the value a key already has changes nothing. -/
theorem insert_of_find?_eq_some {m : KeyMap K V} {k : K} {v : V} (h : m.find? k = some v) :
    m.insert k v = m := by
  have hk : k ∈ m.keys := (mem_keys_iff m k).2 (by simp [h])
  apply ext
  rw [entries_insert, if_pos hk]
  conv_rhs => rw [← List.map_id m.entries]
  refine List.map_congr_left fun e he => ?_
  split
  · rename_i hek
    have hv := snd_eq_of_lookup m.nodup he (hek ▸ h)
    exact Prod.ext hek.symm hv.symm
  · rfl

/-- Entries of other keys stay where a map insertion leaves them. -/
private theorem map_replace_of_not_mem {l : List (K × V)} {k : K} (h : k ∉ l.map Prod.fst)
    (v : V) : (l.map fun e => if e.1 = k then (k, v) else e) = l := by
  conv_rhs => rw [← List.map_id l]
  exact List.map_congr_left fun e he =>
    if_neg fun hek : e.1 = k => h (hek ▸ List.mem_map_of_mem he)

theorem insert_insert (m : KeyMap K V) (k : K) (v w : V) :
    (m.insert k v).insert k w = m.insert k w := by
  apply ext
  rw [entries_insert, if_pos (mem_keys_insert_self m k v), entries_insert, entries_insert]
  by_cases hk : k ∈ m.keys
  · rw [if_pos hk, if_pos hk, List.map_map]
    refine List.map_congr_left fun e _ => ?_
    by_cases hek : e.1 = k <;> simp [hek]
  · rw [if_neg hk, if_neg hk, List.map_append, map_replace_of_not_mem hk]
    simp

/-- Deleting a key just added takes the map back. -/
theorem erase_insert_of_find?_eq_none {m : KeyMap K V} {k : K} (h : m.find? k = none) (v : V) :
    (m.insert k v).erase k = m := by
  have hk : k ∉ m.keys := by simp [mem_keys_iff, h]
  apply ext
  simp only [erase, filter, entries_insert, if_neg hk, List.filter_append]
  rw [List.filter_eq_self.2 fun e he => by
    simpa using fun hek : e.1 = k => hk (hek ▸ List.mem_map_of_mem he)]
  simp

theorem find?_erase (m : KeyMap K V) (k k' : K) :
    (m.erase k).find? k' = if k' = k then none else m.find? k' := by
  unfold erase
  rw [find?_filter]
  by_cases hk : k' = k
  · subst hk
    cases m.find? k' <;> simp [Option.filter]
  · rw [if_neg hk]
    cases m.find? k' <;> simp [Option.filter, hk]

theorem mem_of_lookup {l : List (K × V)} {k : K} {v : V} (h : l.lookup k = some v) : (k, v) ∈ l := by
  induction l with
  | nil => cases h
  | cons e es ih =>
    obtain ⟨a, b⟩ := e
    by_cases hka : k = a
    · subst hka
      have hb : b = v := by simpa [List.lookup_cons] using h
      simp [hb]
    · rw [lookup_cons_of_ne _ _ hka] at h
      exact List.mem_cons_of_mem _ (ih h)

theorem mem_values_iff (m : KeyMap K V) (v : V) : v ∈ m.values ↔ ∃ k, m.find? k = some v := by
  constructor
  · intro hv
    obtain ⟨e, he, rfl⟩ := List.mem_map.1 hv
    have hk : e.1 ∈ m.keys := List.mem_map_of_mem he
    obtain ⟨w, hw⟩ := Option.isSome_iff_exists.1 ((mem_keys_iff m e.1).1 hk)
    exact ⟨e.1, by rw [hw, snd_eq_of_lookup m.nodup he hw]⟩
  · rintro ⟨k, hk⟩
    exact List.mem_map_of_mem (f := Prod.snd) (mem_of_lookup hk)

/-- Without repeated keys, the entry of `k` stands once among the values,
beside the entries that deleting `k` keeps. -/
theorem values_perm_of_lookup {l : List (K × V)} (hl : (l.map Prod.fst).Nodup) {k : K} {v : V}
    (h : l.lookup k = some v) :
    (l.map Prod.snd).Perm (v :: ((l.filter fun e => decide (e.1 ≠ k)).map Prod.snd)) := by
  induction l with
  | nil => cases h
  | cons e es ih =>
    obtain ⟨a, b⟩ := e
    rw [List.map_cons, List.nodup_cons] at hl
    by_cases hka : k = a
    · subst hka
      have hb : b = v := by simpa [List.lookup_cons] using h
      have hk : k ∉ es.map Prod.fst := hl.1
      have hkeep : (es.filter fun e => decide (e.1 ≠ k)) = es :=
        List.filter_eq_self.2 fun e he => by
          have hne : e.1 ≠ k := fun hek => hk (by rw [← hek]; exact List.mem_map_of_mem he)
          simpa using hne
      rw [List.filter_cons_of_neg (by simp), hkeep, hb]
      exact List.Perm.refl _
    · rw [lookup_cons_of_ne _ _ hka] at h
      have hrest := ih hl.2 h
      rw [List.filter_cons_of_pos (by simpa using Ne.symm hka), List.map_cons, List.map_cons]
      exact (hrest.cons b).trans (List.Perm.swap v b _)

theorem values_perm_erase {m : KeyMap K V} {k : K} {v : V} (h : m.find? k = some v) :
    m.values.Perm (v :: (m.erase k).values) :=
  values_perm_of_lookup m.nodup h

theorem erase_insert (m : KeyMap K V) (k : K) (v : V) : (m.insert k v).erase k = m.erase k := by
  apply ext
  simp only [erase, filter, entries_insert]
  split
  · rw [List.filter_map]
    have hpf : ((fun e : K × V => decide (e.1 ≠ k)) ∘ fun e => if e.1 = k then (k, v) else e) =
        fun e => decide (e.1 ≠ k) := by
      funext e
      by_cases hek : e.1 = k <;> simp [hek]
    rw [hpf]
    conv_rhs => rw [← List.map_id (List.filter _ m.entries)]
    refine List.map_congr_left fun e he => ?_
    have hek : e.1 ≠ k := by simpa using (List.mem_filter.1 he).2
    simp [hek]
  · simp

theorem values_perm_insert (m : KeyMap K V) (k : K) (v : V) :
    (m.insert k v).values.Perm (v :: (m.erase k).values) := by
  have h := values_perm_erase (find?_insert_self m k v)
  rwa [erase_insert] at h

theorem sum_values_erase (g : V → Nat) {m : KeyMap K V} {k : K} {v : V} (h : m.find? k = some v) :
    ((m.erase k).values.map g).sum + g v = (m.values.map g).sum := by
  rw [((values_perm_erase h).map g).sum_nat, List.map_cons, List.sum_cons]
  omega

theorem sum_values_insert (g : V → Nat) (m : KeyMap K V) (k : K) (w : V) :
    ((m.insert k w).values.map g).sum = ((m.erase k).values.map g).sum + g w := by
  rw [((values_perm_insert m k w).map g).sum_nat, List.map_cons, List.sum_cons]
  omega

/-- Inserting the entries of a list with distinct keys one after the other:
a key of the list reads the list's value, any other key what it read before. -/
theorem find?_foldl_insert : ∀ (m : KeyMap K V) (l : List (K × V)), (l.map Prod.fst).Nodup → ∀ k : K,
    (l.foldl (fun m e => m.insert e.1 e.2) m).find? k = (l.lookup k).or (m.find? k)
  | m, [], _, k => by simp
  | m, (a, b) :: l, hl, k => by
    rw [List.map_cons, List.nodup_cons] at hl
    rw [List.foldl_cons, find?_foldl_insert (m.insert a b) l hl.2 k]
    by_cases hk : k = a
    · subst hk
      rw [lookup_eq_none_of_not_mem hl.1, find?_insert_self]
      simp
    · rw [lookup_cons_of_ne b l hk, find?_insert_of_ne m b hk]

/-- Erasing the keys of a list one after the other. -/
theorem find?_foldl_erase : ∀ (m : KeyMap K V) (ks : List K) (k : K),
    (ks.foldl erase m).find? k = if k ∈ ks then none else m.find? k
  | m, [], k => by simp
  | m, a :: ks, k => by
    rw [List.foldl_cons, find?_foldl_erase (m.erase a) ks k, find?_erase]
    by_cases hk : k = a <;> by_cases hks : k ∈ ks <;> simp [hk, hks]

/-- The map whose entries are `(a, b)` before those of another. -/
theorem find?_mk_cons (a : K) (b : V) (l : List (K × V)) (hl : (((a, b) :: l).map Prod.fst).Nodup) (k : K) :
    (⟨(a, b) :: l, hl⟩ : KeyMap K V).find? k =
      if k = a then some b else (⟨l, (List.nodup_cons.mp hl).2⟩ : KeyMap K V).find? k := by
  by_cases hk : k = a
  · subst hk
    simp [find?]
  · rw [if_neg hk]
    exact lookup_cons_of_ne b l hk

/-- `m[k].field = x` through the pointer a Go map holds: the entry of `k`
changed by `f`. A key that is not there is left out. -/
def update (m : KeyMap K V) (k : K) (f : V → V) : KeyMap K V :=
  match m.find? k with
  | some v => m.insert k (f v)
  | none => m

theorem find?_update (m : KeyMap K V) (k k' : K) (f : V → V) :
    (m.update k f).find? k' = if k' = k then (m.find? k).map f else m.find? k' := by
  unfold update
  split
  · rename_i v hv
    rw [find?_insert]
    split_ifs with h
    · rw [hv]
      rfl
    · rfl
  · rename_i hv
    split_ifs with h
    · rw [h, hv]
      rfl
    · rfl

theorem update_of_find?_eq_none {m : KeyMap K V} {k : K} (h : m.find? k = none) (f : V → V) :
    m.update k f = m := by
  simp [update, h]

/-- Updating an entry changes a sum over the values by what the entry's term changes. -/
theorem sum_values_update (g : V → Nat) {m : KeyMap K V} {k : K} {v : V} (h : m.find? k = some v)
    (f : V → V) : ((m.update k f).values.map g).sum + g v = (m.values.map g).sum + g (f v) := by
  have hu : m.update k f = m.insert k (f v) := by simp [update, h]
  rw [hu, sum_values_insert, ← sum_values_erase g h]
  omega

/-- An update that keeps an entry's term keeps the sum. -/
theorem sum_values_update_of_eq (g : V → Nat) (m : KeyMap K V) (k : K) {f : V → V}
    (hf : ∀ v, g (f v) = g v) : ((m.update k f).values.map g).sum = (m.values.map g).sum := by
  cases h : m.find? k with
  | none => rw [update_of_find?_eq_none h]
  | some v =>
    have := sum_values_update g h f
    rw [hf] at this
    omega

theorem find?_of_mem_entries {m : KeyMap K V} {e : K × V} (he : e ∈ m.entries) :
    m.find? e.1 = some e.2 := by
  have hk : e.1 ∈ m.keys := List.mem_map_of_mem he
  obtain ⟨w, hw⟩ := Option.isSome_iff_exists.1 ((mem_keys_iff m e.1).1 hk)
  rw [hw, snd_eq_of_lookup m.nodup he hw]

theorem keys_erase (m : KeyMap K V) (k : K) : (m.erase k).keys = m.keys.erase k := by
  rw [m.keys_nodup.erase_eq_filter]
  simp only [keys, erase, filter, List.filter_map]
  congr 1
  exact List.filter_congr fun e _ => by by_cases h : e.1 = k <;> simp [h]

theorem filter_congr {p q : K → V → Bool} {m : KeyMap K V}
    (h : ∀ k v, m.find? k = some v → p k v = q k v) : m.filter p = m.filter q :=
  ext (List.filter_congr fun e he => h e.1 e.2 (find?_of_mem_entries he))

theorem erase_filter (m : KeyMap K V) (k : K) (q : K → V → Bool) :
    (m.erase k).filter q = m.filter fun k' v => decide (k' ≠ k) && q k' v :=
  filter_filter _ _ _

/-- Deleting a key, then the keys of a list, deletes the keys of the longer list. -/
theorem erase_filter_not_mem (m : KeyMap K V) (k : K) (ks : List K) :
    (m.erase k).filter (fun k' _ => k' ∉ ks) = m.filter fun k' _ => k' ∉ k :: ks := by
  rw [erase, filter_filter]
  exact filter_congr fun k' _ _ => by
    by_cases hk : k' = k <;> simp [hk]

theorem keys_insert (m : KeyMap K V) (k : K) (v : V) :
    (m.insert k v).keys = if k ∈ m.keys then m.keys else m.keys ++ [k] := by
  by_cases hk : k ∈ m.keys
  · rw [if_pos hk, keys, entries_insert, if_pos hk, List.map_map]
    exact List.map_congr_left fun e _ => by by_cases h : e.1 = k <;> simp [h]
  · rw [if_neg hk, keys, entries_insert, if_neg hk, List.map_append]
    rfl

/-- Deleting a key whose value a test rejects keeps the values the test picks. -/
theorem values_filter_erase (q : V → Bool) {m : KeyMap K V} {k : K}
    (h : ∀ v, m.find? k = some v → q v = false) : (m.erase k).values.filter q = m.values.filter q := by
  simp only [values, erase, filter, List.filter_map, List.filter_filter]
  congr 1
  exact List.filter_congr fun e he => by
    by_cases hk : e.1 = k
    · have := h e.2 (hk ▸ find?_of_mem_entries he)
      simp [hk, this]
    · simp [hk]

end KeyMap

end Xdchain.Lib
