import Xdchain.Snapshot.DiffLayer

/-! # What the bloom filter and flattening keep of a lookup

Two facts about the diff layers of `Xdchain.Snapshot.DiffLayer`, over every
chain the code builds: by `newDiffLayer`, by `flatten`, and by `Tree.cap`
putting a layer over its flattened parent.

* The filter has no false negatives: the filtered lookups `AccountRLP` and
  `Storage` answer what the plain recursive ones answer
  (`AccountRLP_eq_accountRLP`, `Storage_eq_storage`). The invariant behind it
  is `Sound`: every layer's filter contains the digest of every key held in
  it or in a diff layer below it.
* `flatten` returns one layer over the disk layer that answers every lookup
  as the chain did (`flatten_diff`). Its proof rests on the three lookup
  equations of `absorb`, and on `absorb` holding no key that neither of the
  two layers held, so the top layer's filter still covers the result. -/

namespace Xdchain.Snapshot

open Xdchain.Lib

/-! ## The lookups of an absorbed layer -/

/-- Storage merged account by account: a slot the merged map holds wins,
any other slot reads what it read before. -/
theorem slot_foldl_mergeStorage (accountHash storageHash : Hash) :
    ∀ (l : List (Hash × KeyMap Hash (List UInt8))) (hl : (l.map Prod.fst).Nodup)
      (m : KeyMap Hash (KeyMap Hash (List UInt8))),
      ((l.foldl mergeStorage m).find? accountHash).bind (fun s => s.find? storageHash) =
        (((⟨l, hl⟩ : KeyMap Hash (KeyMap Hash (List UInt8))).find? accountHash).bind fun s => s.find? storageHash).or
          ((m.find? accountHash).bind fun s => s.find? storageHash)
  | [], _, m => by simp [KeyMap.find?]
  | (a, storage) :: l, hl, m => by
    rw [List.foldl_cons, slot_foldl_mergeStorage accountHash storageHash l _ _, KeyMap.find?_mk_cons]
    by_cases ha : accountHash = a
    · subst ha
      rw [if_pos rfl]
      have hnone : (⟨l, (List.nodup_cons.mp hl).2⟩ : KeyMap Hash (KeyMap Hash (List UInt8))).find? accountHash = none := by
        rw [← Option.not_isSome_iff_eq_none, ← KeyMap.mem_keys_iff]
        exact (List.nodup_cons.mp hl).1
      rw [hnone]
      -- the account's map is the child's, or the child's slots over the parent's
      unfold mergeStorage
      cases hm : m.find? accountHash with
      | none => simp
      | some comboData =>
        simp only [KeyMap.find?_insert_self, Option.bind_some, Option.bind_none, Option.none_or]
        exact KeyMap.find?_foldl_insert comboData storage.entries storage.nodup storageHash
    · have hmerge : (mergeStorage m (a, storage)).find? accountHash = m.find? accountHash := by
        unfold mergeStorage
        split <;> exact KeyMap.find?_insert_of_ne _ _ ha
      rw [if_neg ha, hmerge]

namespace DiffLayer

@[simp] theorem stale_absorb (p c : DiffLayer) : (p.absorb c).stale = false := rfl

@[simp] theorem diffed_absorb (p c : DiffLayer) : (p.absorb c).diffed = c.diffed := rfl

theorem mem_keys_destructSet (dl : DiffLayer) (h : Hash) : h ∈ dl.destructSet.keys ↔ dl.destructed h = true :=
  KeyMap.mem_keys_iff _ _

theorem destructed_foldl_insert (h : Hash) :
    ∀ (s : KeyMap Hash Unit) (ks : List Hash),
      ((ks.foldl (fun s hash => s.insert hash ()) s).find? h).isSome = (decide (h ∈ ks) || (s.find? h).isSome)
  | s, [] => by simp
  | s, k :: ks => by
    rw [List.foldl_cons, destructed_foldl_insert h _ ks, KeyMap.find?_insert]
    by_cases hk : h = k <;> simp [hk]

theorem destructed_absorb (p c : DiffLayer) (h : Hash) :
    (p.absorb c).destructed h = (c.destructed h || p.destructed h) := by
  unfold destructed absorb
  rw [destructed_foldl_insert]
  simp [KeyMap.mem_keys_iff]

/-- An account blob of the child wins; a destruct of the child hides the
parent's. -/
theorem find?_accountData_absorb (p c : DiffLayer) (h : Hash) :
    (p.absorb c).accountData.find? h =
      (c.accountData.find? h).or (if c.destructed h then none else p.accountData.find? h) := by
  unfold absorb
  rw [KeyMap.find?_foldl_insert _ _ c.accountData.nodup, KeyMap.find?_foldl_erase]
  simp only [mem_keys_destructSet]
  rfl

/-- A slot of the child wins; a destruct of the child hides the parent's
slots of the account. -/
theorem slot_absorb (p c : DiffLayer) (a k : Hash) :
    (p.absorb c).slot a k = (c.slot a k).or (if c.destructed a then none else p.slot a k) := by
  unfold absorb slot
  rw [slot_foldl_mergeStorage a k _ c.storageData.nodup, KeyMap.find?_foldl_erase]
  simp only [mem_keys_destructSet]
  split <;> rfl

end DiffLayer

/-! ## Lookups along a chain -/

namespace Layer

/-- Every diff layer of the chain is live. -/
def NonStale : Layer → Prop
  | disk _ => True
  | diff dl parent => dl.stale = false ∧ parent.NonStale

/-- Two chains answer every plain lookup alike. -/
structure Agree (s t : Layer) : Prop where
  account : ∀ h, s.accountRLP h = t.accountRLP h
  storage : ∀ a k, s.storage a k = t.storage a k

theorem Agree.refl (s : Layer) : Agree s s := ⟨fun _ => rfl, fun _ _ => rfl⟩

theorem Agree.trans {s t u : Layer} (hst : Agree s t) (htu : Agree t u) : Agree s u :=
  ⟨fun h => (hst.account h).trans (htu.account h), fun a k => (hst.storage a k).trans (htu.storage a k)⟩

/-- A layer over two agreeing chains answers alike. -/
theorem Agree.diff {s t : Layer} (hst : Agree s t) (dl : DiffLayer) : Agree (diff dl s) (diff dl t) where
  account h := by simp only [accountRLP, hst.account h]
  storage a k := by simp only [Layer.storage, hst.storage a k]

/-- The layer `flatten` builds answers as the child over its parent: the
case analysis over blob, destruct and slot of the two layers. -/
theorem agree_absorb {p c : DiffLayer} (hp : p.stale = false) (hc : c.stale = false) (g : Layer) :
    Agree (diff (p.absorb c) g) (diff c (diff p g)) where
  account h := by
    simp only [accountRLP, DiffLayer.stale_absorb, hp, hc, DiffLayer.find?_accountData_absorb,
      DiffLayer.destructed_absorb, Bool.false_eq_true, if_false]
    cases c.accountData.find? h with
    | some data => rfl
    | none =>
      cases c.destructed h with
      | true => rfl
      | false => cases p.accountData.find? h <;> simp
  storage a k := by
    simp only [storage, DiffLayer.stale_absorb, hp, hc, DiffLayer.slot_absorb,
      DiffLayer.destructed_absorb, Bool.false_eq_true, if_false]
    cases c.slot a k with
    | some data => rfl
    | none =>
      cases c.destructed a with
      | true => rfl
      | false => cases p.slot a k <;> simp

/-! ## The keys a chain holds -/

/-- Some diff layer of the chain holds a blob of the account. -/
def HoldsAccount : Layer → Hash → Prop
  | disk _, _ => False
  | diff dl parent, h => (dl.accountData.find? h).isSome ∨ parent.HoldsAccount h

/-- Some diff layer of the chain destructs the account. -/
def HoldsDestruct : Layer → Hash → Prop
  | disk _, _ => False
  | diff dl parent, h => dl.destructed h = true ∨ parent.HoldsDestruct h

/-- Some diff layer of the chain holds the slot. -/
def HoldsSlot : Layer → Hash → Hash → Prop
  | disk _, _, _ => False
  | diff dl parent, a, k => (dl.slot a k).isSome ∨ parent.HoldsSlot a k

/-- Every key `s` holds, `t` holds. -/
structure KeysWithin (s t : Layer) : Prop where
  account : ∀ h, s.HoldsAccount h → t.HoldsAccount h
  destruct : ∀ h, s.HoldsDestruct h → t.HoldsDestruct h
  slot : ∀ a k, s.HoldsSlot a k → t.HoldsSlot a k

theorem KeysWithin.refl (s : Layer) : KeysWithin s s := ⟨fun _ h => h, fun _ h => h, fun _ _ h => h⟩

theorem KeysWithin.diff {s t : Layer} (hst : KeysWithin s t) (dl : DiffLayer) :
    KeysWithin (diff dl s) (diff dl t) where
  account h := Or.imp_right (hst.account h)
  destruct h := Or.imp_right (hst.destruct h)
  slot a k := Or.imp_right (hst.slot a k)

theorem KeysWithin.trans {s t u : Layer} (hst : KeysWithin s t) (htu : KeysWithin t u) : KeysWithin s u :=
  ⟨fun h hs => htu.account h (hst.account h hs), fun h hs => htu.destruct h (hst.destruct h hs),
    fun a k hs => htu.slot a k (hst.slot a k hs)⟩

/-- `absorb` holds no key that neither of its layers held. -/
theorem keysWithin_absorb (p c : DiffLayer) (g : Layer) :
    KeysWithin (diff (p.absorb c) g) (diff c (diff p g)) where
  account h := by
    simp only [HoldsAccount, DiffLayer.find?_accountData_absorb]
    rintro (hs | hg)
    · cases hca : c.accountData.find? h with
      | some _ => exact .inl rfl
      | none =>
        rw [hca, Option.none_or] at hs
        split at hs
        · simp at hs
        · exact .inr (.inl hs)
    · exact .inr (.inr hg)
  destruct h := by
    simp only [HoldsDestruct, DiffLayer.destructed_absorb, Bool.or_eq_true]
    rintro ((hc | hp) | hg)
    · exact .inl hc
    · exact .inr (.inl hp)
    · exact .inr (.inr hg)
  slot a k := by
    simp only [HoldsSlot, DiffLayer.slot_absorb]
    rintro (hs | hg)
    · cases hca : c.slot a k with
      | some _ => exact .inl rfl
      | none =>
        rw [hca, Option.none_or] at hs
        split at hs
        · simp at hs
        · exact .inr (.inl hs)
    · exact .inr (.inr hg)

/-- A live chain that holds no blob and no destruct of an account answers
what the disk layer answers. -/
theorem accountRLP_of_not_holds (h : Hash) :
    ∀ s : Layer, s.NonStale → ¬ s.HoldsAccount h → ¬ s.HoldsDestruct h → s.accountRLP h = s.origin.AccountRLP h
  | disk _, _, _, _ => rfl
  | diff dl parent, hn, ha, hd => by
    simp only [HoldsAccount, not_or] at ha
    simp only [HoldsDestruct, not_or] at hd
    have hnone : dl.accountData.find? h = none := Option.not_isSome_iff_eq_none.mp ha.1
    simp only [accountRLP, hn.1, hnone, hd.1, Bool.false_eq_true, if_false]
    exact accountRLP_of_not_holds h parent hn.2 ha.2 hd.2

theorem storage_of_not_holds (a k : Hash) :
    ∀ s : Layer, s.NonStale → ¬ s.HoldsSlot a k → ¬ s.HoldsDestruct a → s.storage a k = s.origin.Storage a k
  | disk _, _, _, _ => rfl
  | diff dl parent, hn, hs, hd => by
    simp only [HoldsSlot, not_or] at hs
    simp only [HoldsDestruct, not_or] at hd
    have hnone : dl.slot a k = none := Option.not_isSome_iff_eq_none.mp hs.1
    simp only [storage, hn.1, hnone, hd.1, Bool.false_eq_true, if_false]
    exact storage_of_not_holds a k parent hn.2 hs.2 hd.2

/-! ## The filters -/

variable (o : BloomOffsets)

/-- The filter contains the digest of every key the chain holds. -/
structure Covers (f : Bloom.Filter UInt64) (s : Layer) : Prop where
  account : ∀ h, s.HoldsAccount h → f.Contains (accountBloomHasher o h) = true
  destruct : ∀ h, s.HoldsDestruct h → f.Contains (destructBloomHasher o h) = true
  slot : ∀ a k, s.HoldsSlot a k → f.Contains (storageBloomHasher o a k) = true

variable {o}

theorem Covers.mono {f : Bloom.Filter UInt64} {s t : Layer} (hc : Covers o f t) (hst : KeysWithin s t) :
    Covers o f s :=
  ⟨fun h hs => hc.account h (hst.account h hs), fun h hs => hc.destruct h (hst.destruct h hs),
    fun a k hs => hc.slot a k (hst.slot a k hs)⟩

variable (o)

/-- Every diff layer's filter covers its chain. -/
def Sound : Layer → Prop
  | disk _ => True
  | diff dl parent => Covers o dl.diffed (diff dl parent) ∧ parent.Sound

variable {o}

/-- **No false negatives for accounts.** -/
theorem AccountRLP_eq_accountRLP {s : Layer} (hs : s.Sound o) (hn : s.NonStale) (h : Hash) :
    s.AccountRLP o h = s.accountRLP h := by
  cases s with
  | disk d => rfl
  | diff dl parent =>
    simp only [AccountRLP]
    split
    · -- both filters missed, so no layer of the chain holds the account
      rename_i hmiss
      simp only [Bool.not_eq_true', Bool.or_eq_false_iff] at hmiss
      have ha : ¬ (diff dl parent).HoldsAccount h := fun hh => by
        simp [hs.1.account h hh] at hmiss
      have hd : ¬ (diff dl parent).HoldsDestruct h := fun hh => by
        simp [hs.1.destruct h hh] at hmiss
      exact (accountRLP_of_not_holds h _ hn ha hd).symm
    · rfl

/-- **No false negatives for storage.** -/
theorem Storage_eq_storage {s : Layer} (hs : s.Sound o) (hn : s.NonStale) (a k : Hash) :
    s.Storage o a k = s.storage a k := by
  cases s with
  | disk d => rfl
  | diff dl parent =>
    simp only [Storage]
    split
    · rename_i hmiss
      simp only [Bool.not_eq_true', Bool.or_eq_false_iff] at hmiss
      have hsl : ¬ (diff dl parent).HoldsSlot a k := fun hh => by
        simp [hs.1.slot a k hh] at hmiss
      have hd : ¬ (diff dl parent).HoldsDestruct a := fun hh => by
        simp [hs.1.destruct a hh] at hmiss
      exact (storage_of_not_holds a k _ hn hsl hd).symm
    · rfl

/-! ## New layers -/

section Rebloom

variable (o)
variable (fresh : Bloom.Filter UInt64) (parent : Layer) (destructs : KeyMap Hash Unit)
  (accounts : KeyMap Hash (List UInt8)) (storage : KeyMap Hash (KeyMap Hash (List UInt8)))

/-- The filter `rebloom` starts from. -/
def rebloomBase : Bloom.Filter UInt64 :=
  match parent with
  | diff pdl _ => pdl.diffed
  | disk _ => fresh

theorem rebloom_eq :
    rebloom o fresh parent destructs accounts storage =
      (((rebloomBase fresh parent).addAll (destructs.keys.map (destructBloomHasher o))).addAll
        (accounts.keys.map (accountBloomHasher o))).addAll
        (storage.entries.flatMap fun e => e.2.keys.map (storageBloomHasher o e.1)) := by
  unfold rebloom rebloomBase
  cases parent <;> rfl

variable {o fresh parent destructs accounts storage}

theorem rebloom_contains_of_base {x : UInt64} (hx : (rebloomBase fresh parent).Contains x = true) :
    (rebloom o fresh parent destructs accounts storage).Contains x = true := by
  rw [rebloom_eq]
  exact Bloom.Filter.contains_addAll_of_contains
    (Bloom.Filter.contains_addAll_of_contains (Bloom.Filter.contains_addAll_of_contains hx _) _) _

theorem rebloom_contains_destruct {h : Hash} (hh : (destructs.find? h).isSome) :
    (rebloom o fresh parent destructs accounts storage).Contains (destructBloomHasher o h) = true := by
  rw [rebloom_eq]
  have hmem : destructBloomHasher o h ∈ destructs.keys.map (destructBloomHasher o) :=
    List.mem_map_of_mem ((KeyMap.mem_keys_iff _ _).mpr hh)
  exact Bloom.Filter.contains_addAll_of_contains
    (Bloom.Filter.contains_addAll_of_contains (Bloom.Filter.contains_addAll_of_mem _ hmem) _) _

theorem rebloom_contains_account {h : Hash} (hh : (accounts.find? h).isSome) :
    (rebloom o fresh parent destructs accounts storage).Contains (accountBloomHasher o h) = true := by
  rw [rebloom_eq]
  have hmem : accountBloomHasher o h ∈ accounts.keys.map (accountBloomHasher o) :=
    List.mem_map_of_mem ((KeyMap.mem_keys_iff _ _).mpr hh)
  exact Bloom.Filter.contains_addAll_of_contains (Bloom.Filter.contains_addAll_of_mem _ hmem) _

theorem rebloom_contains_slot {a k : Hash}
    (hs : ((storage.find? a).bind fun slots => slots.find? k).isSome) :
    (rebloom o fresh parent destructs accounts storage).Contains (storageBloomHasher o a k) = true := by
  rw [rebloom_eq]
  cases hslots : storage.find? a with
  | none => simp [hslots] at hs
  | some slots =>
  have hk : (slots.find? k).isSome := by simpa [hslots] using hs
  have hmem : storageBloomHasher o a k ∈ storage.entries.flatMap fun e => e.2.keys.map (storageBloomHasher o e.1) :=
    List.mem_flatMap.mpr ⟨(a, slots), KeyMap.mem_of_lookup hslots,
      List.mem_map_of_mem ((KeyMap.mem_keys_iff _ _).mpr hk)⟩
  exact Bloom.Filter.contains_addAll_of_mem _ hmem

/-- The base filter covers what the parent holds. -/
theorem rebloomBase_covers (hp : parent.Sound o) : Covers o (rebloomBase fresh parent) parent := by
  cases parent with
  | disk d => exact ⟨fun _ h => h.elim, fun _ h => h.elim, fun _ _ h => h.elim⟩
  | diff pdl pp => exact hp.1

theorem newDiffLayer_sound (root : Hash) (hp : parent.Sound o) :
    (newDiffLayer o fresh parent root destructs accounts storage).Sound o := by
  have hbase : Covers o (rebloomBase fresh parent) parent := rebloomBase_covers hp
  refine ⟨⟨?_, ?_, ?_⟩, hp⟩
  · rintro h (hown | hbelow)
    · exact rebloom_contains_account hown
    · exact rebloom_contains_of_base (hbase.account h hbelow)
  · rintro h (hown | hbelow)
    · exact rebloom_contains_destruct hown
    · exact rebloom_contains_of_base (hbase.destruct h hbelow)
  · rintro a k (hown | hbelow)
    · exact rebloom_contains_slot hown
    · exact rebloom_contains_of_base (hbase.slot a k hbelow)

end Rebloom

/-! ## Flattening -/

/-- **`flatten` makes one layer over the disk layer** that keeps the top
layer's filter, answers every lookup as the chain did, and holds no key the
chain did not. By induction on the chain: the parent's chain flattens to one
layer, which the top layer is absorbed into. -/
theorem flatten_diff : ∀ (dl : DiffLayer) (parent : Layer), (diff dl parent).NonStale →
    ∃ flat : DiffLayer, (diff dl parent).flatten = some (diff flat (disk parent.origin)) ∧
      flat.stale = false ∧ flat.diffed = dl.diffed ∧
      Agree (diff flat (disk parent.origin)) (diff dl parent) ∧
      KeysWithin (diff flat (disk parent.origin)) (diff dl parent)
  | dl, disk d, hn => ⟨dl, rfl, hn.1, rfl, Agree.refl _, KeysWithin.refl _⟩
  | dl, diff pdl pp, hn => by
    obtain ⟨q, hq, hqs, -, hagree, hkeys⟩ := flatten_diff pdl pp hn.2
    refine ⟨q.absorb dl, ?_, rfl, rfl, ?_, ?_⟩
    · simp only [flatten, hq, hqs, Bool.false_eq_true, if_false]
      rfl
    · exact (agree_absorb hqs hn.1 _).trans (hagree.diff dl)
    · exact (keysWithin_absorb q dl _).trans (hkeys.diff dl)

theorem flatten_sound {dl : DiffLayer} {parent : Layer} {s' : Layer} (hs : (diff dl parent).Sound o)
    (hn : (diff dl parent).NonStale) (hf : (diff dl parent).flatten = some s') : s'.Sound o ∧ s'.NonStale := by
  obtain ⟨flat, hflat, hstale, hdiffed, -, hkeys⟩ := flatten_diff dl parent hn
  rw [hflat] at hf
  cases hf
  refine ⟨⟨?_, trivial⟩, hstale, trivial⟩
  rw [hdiffed]
  exact hs.1.mono hkeys

/-! ## The chains the code builds -/

variable (o)

/-- The chains `Update` and `flatten` build, and `Tree.cap`, which puts a
layer over its flattened parent. -/
inductive Built : Layer → Prop
  | disk (d : DiskLayer) : Built (disk d)
  | update {parent : Layer} (fresh : Bloom.Filter UInt64) (root : Hash) (destructs : KeyMap Hash Unit)
      (accounts : KeyMap Hash (List UInt8)) (storage : KeyMap Hash (KeyMap Hash (List UInt8))) :
      Built parent → Built (newDiffLayer o fresh parent root destructs accounts storage)
  | flatten {s s' : Layer} : Built s → s.flatten = some s' → Built s'
  | cap {dl : DiffLayer} {parent parent' : Layer} :
      Built (diff dl parent) → parent.flatten = some parent' → Built (diff dl parent')

variable {o}

/-- Over a flattened parent a layer answers as before and its filter still
covers its chain. -/
theorem cap_sound {dl : DiffLayer} {parent parent' : Layer} (hs : (diff dl parent).Sound o)
    (hn : (diff dl parent).NonStale) (hf : parent.flatten = some parent') :
    (diff dl parent').Sound o ∧ (diff dl parent').NonStale := by
  cases parent with
  | disk d =>
    cases hf
    exact ⟨hs, hn⟩
  | diff pdl pp =>
    obtain ⟨flat, hflat, hstale, -, -, hkeys⟩ := flatten_diff pdl pp hn.2
    rw [hflat] at hf
    cases hf
    have hpsound := flatten_sound hs.2 hn.2 hflat
    exact ⟨⟨hs.1.mono (hkeys.diff dl), hpsound.1⟩, hn.1, hpsound.2⟩

theorem Built.sound {s : Layer} (hb : Built o s) : s.Sound o ∧ s.NonStale := by
  induction hb with
  | disk d => exact ⟨trivial, trivial⟩
  | update fresh root destructs accounts storage _ ih =>
    exact ⟨newDiffLayer_sound root ih.1, rfl, ih.2⟩
  | @flatten s s' _ hf ih =>
    cases s with
    | disk d =>
      cases hf
      exact ih
    | diff dl parent => exact flatten_sound ih.1 ih.2 hf
  | cap _ hf ih => exact cap_sound ih.1 ih.2 hf

/-- **Lookups through the filter and through a flattened chain.** On every
chain the code builds, the filtered lookups answer what the plain recursive
ones answer, and the one layer `flatten` returns over the disk layer answers
every filtered lookup as the chain did. -/
theorem bloom_and_flatten_keep_lookups {dl : DiffLayer} {parent : Layer} (hb : Built o (diff dl parent)) :
    (∀ h, (diff dl parent).AccountRLP o h = (diff dl parent).accountRLP h) ∧
    (∀ a k, (diff dl parent).Storage o a k = (diff dl parent).storage a k) ∧
    ∃ flat : DiffLayer, (diff dl parent).flatten = some (diff flat (disk parent.origin)) ∧
      (∀ h, (diff flat (disk parent.origin)).AccountRLP o h = (diff dl parent).AccountRLP o h) ∧
      (∀ a k, (diff flat (disk parent.origin)).Storage o a k = (diff dl parent).Storage o a k) := by
  obtain ⟨hs, hn⟩ := hb.sound
  obtain ⟨flat, hflat, -, -, hagree, -⟩ := flatten_diff dl parent hn
  obtain ⟨hs', hn'⟩ := flatten_sound hs hn hflat
  refine ⟨AccountRLP_eq_accountRLP hs hn, Storage_eq_storage hs hn, flat, hflat, ?_, ?_⟩
  · intro h
    rw [AccountRLP_eq_accountRLP hs' hn', AccountRLP_eq_accountRLP hs hn]
    exact hagree.account h
  · intro a k
    rw [Storage_eq_storage hs' hn', Storage_eq_storage hs hn]
    exact hagree.storage a k

/-- Offsets within the range `init` draws them from. -/
def sampleOffsets : BloomOffsets := ⟨0, 8, 16⟩

/-- A disk layer that holds nothing. -/
def emptyDisk : DiskLayer := ⟨fun _ => .ok none, fun _ _ => .ok none⟩

/-- A filter of 2048 bits with one index per digest. -/
def sampleFilter : Bloom.Filter UInt64 := Bloom.Filter.New fun x => [x.toNat % 2048]

/-- A layer that writes account 1 and its slot 2, and one above it that
destructs account 1. -/
def twoLayers : Layer :=
  newDiffLayer sampleOffsets sampleFilter
    (newDiffLayer sampleOffsets sampleFilter (disk emptyDisk) (Vector.replicate 32 1) .empty
      (KeyMap.empty.insert (Vector.replicate 32 1) [1])
      (KeyMap.empty.insert (Vector.replicate 32 1) (KeyMap.empty.insert (Vector.replicate 32 2) [5])))
    (Vector.replicate 32 2) (KeyMap.empty.insert (Vector.replicate 32 1) ()) .empty .empty

theorem bloom_and_flatten_keep_lookups_over_two_layers :
    Built sampleOffsets twoLayers ∧
    (∀ h, twoLayers.AccountRLP sampleOffsets h = twoLayers.accountRLP h) ∧
    (∀ a k, twoLayers.Storage sampleOffsets a k = twoLayers.storage a k) ∧
    ∃ flat : DiffLayer, twoLayers.flatten = some (diff flat (disk emptyDisk)) ∧
      (∀ h, (diff flat (disk emptyDisk)).AccountRLP sampleOffsets h = twoLayers.AccountRLP sampleOffsets h) ∧
      (∀ a k, (diff flat (disk emptyDisk)).Storage sampleOffsets a k = twoLayers.Storage sampleOffsets a k) :=
  have hb : Built sampleOffsets twoLayers := .update _ _ _ _ _ (.update _ _ _ _ _ (.disk _))
  ⟨hb, bloom_and_flatten_keep_lookups hb⟩

end Layer

end Xdchain.Snapshot
