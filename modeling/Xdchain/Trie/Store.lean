import Xdchain.Trie.Canonical

/-! # The trie as a map

A good trie is fixed by what it reads: two nodes, each nil or good, that
answer alike under every hex key are the same node (`eq_of_tryGet`). The
keys a good short node holds all run through its key, and two of them part
right after it unless it is a leaf, so its key is their longest common
prefix; a full node's children are told apart by the first nibble. The root,
and the hash taken of it, thus depends on what the trie stores alone.

Over byte keys a `Trie` stores a map from keys to values, the empty value
standing for absence as the nil of `Get` does (`Trie.Stores`). `TryUpdate`
and `TryDelete` update that map at one key, and neither panics on a trie
that stores a map. -/

namespace Xdchain.Trie.Patricia

open Xdchain.Lib.Prefix Xdchain.Trie.Encoding

set_option linter.dupNamespace false

/-! ## What a node holds -/

/-- The hex keys under which a node holds a value. -/
def Holds (t : Node) (key : List UInt8) : Prop := HexKey key ∧ tryGet t key ≠ some []

theorem holds_congr {t₁ t₂ : Node} (h : ∀ key, HexKey key → tryGet t₁ key = tryGet t₂ key) :
    Holds t₁ = Holds t₂ := by
  funext key
  apply propext
  constructor
  · rintro ⟨hk, hv⟩
    exact ⟨hk, by rwa [← h key hk]⟩
  · rintro ⟨hk, hv⟩
    exact ⟨hk, by rwa [h key hk]⟩

theorem not_holds_nil (key : List UInt8) : ¬ Holds .nil key := fun h => h.2 rfl

/-- Whatever a short node holds runs through its key. -/
theorem Holds.prefix_of_short {k key : List UInt8} {c : Node} (h : Holds (.short k c) key) :
    k <+: key := by
  by_contra hk
  exact h.2 (tryGet_short_outside c hk)

theorem Holds.short_append {k r : List UInt8} {c : Node} (hn : Nibbles k) (h : Holds c r) :
    Holds (.short k c) (k ++ r) :=
  ⟨h.1.append hn, by rw [tryGet_short_append]; exact h.2⟩

theorem holds_leaf {k v key : List UInt8} (hk : HexKey k) (hv : v ≠ []) :
    Holds (.short k (.value v)) key ↔ key = k := by
  constructor
  · rintro ⟨hkey, h⟩
    rw [tryGet_leaf hk hkey] at h
    by_contra hne
    exact h (if_neg hne)
  · rintro rfl
    refine ⟨hk, ?_⟩
    rw [tryGet_leaf hk hk, if_pos rfl]
    simpa using hv

theorem toNat_ofNat_fin (i : Fin 17) : (UInt8.ofNat i.val).toNat = i.val := by
  rw [UInt8.toNat_ofNat', Nat.mod_eq_of_lt (by omega)]

/-- The child of a full node below the byte of its index. -/
theorem tryGet_full_ofNat (cs : Fin 17 → Node) (i : Fin 17) (r : List UInt8) :
    tryGet (.full cs) (UInt8.ofNat i.val :: r) = tryGet (cs i) r := by
  rw [tryGet_full_cons, dif_pos (by rw [toNat_ofNat_fin]; exact i.isLt)]
  congr 2
  exact Fin.ext (toNat_ofNat_fin i)

/-- A child that is not nil holds something, under a key that carries on
from the byte of its index. -/
theorem ChildOK.exists_holds {i : Fin 17} {c : Node} (h : ChildOK i c) (hne : c ≠ .nil)
    (hgood : Good c → ∃ r, Holds c r) :
    ∃ r, HexKey (UInt8.ofNat i.val :: r) ∧ tryGet c r ≠ some [] := by
  rcases childOK_iff.mp h with h | ⟨hi, hg⟩ | ⟨hi, w, hw, rfl⟩
  · exact absurd h hne
  · obtain ⟨r, hr, hv⟩ := hgood hg
    exact ⟨r, HexKey.append (nibbles_single hi) hr, hv⟩
  · refine ⟨[], ?_, ?_⟩
    · rw [hi]
      exact ⟨[], (fun _ h => by cases h), rfl⟩
    · show some w ≠ some []
      simpa using hw

theorem Holds.full_ofNat {cs : Fin 17 → Node} {i : Fin 17} {r : List UInt8}
    (hr : HexKey (UInt8.ofNat i.val :: r)) (hv : tryGet (cs i) r ≠ some []) :
    Holds (.full cs) (UInt8.ofNat i.val :: r) :=
  ⟨hr, by rw [tryGet_full_ofNat]; exact hv⟩

/-- A good node holds something. -/
theorem Good.exists_holds {t : Node} (h : Good t) : ∃ key, Holds t key := by
  induction t with
  | full cs ih =>
    obtain ⟨p, -, -, hp, -⟩ := h.two
    obtain ⟨r, hr, hv⟩ := (h.children p).exists_holds hp (ih p)
    exact ⟨_, Holds.full_ofNat hr hv⟩
  | short k c ih =>
    cases h with
    | leaf hk hv => exact ⟨k, (holds_leaf hk hv).mpr rfl⟩
    | ext _ hn hf =>
      obtain ⟨r, hr⟩ := ih hf
      exact ⟨k ++ r, hr.short_append hn⟩
  | value => cases h
  | nil => cases h

/-! ## Where a node forks -/

/-- A good full node holds two keys that part at their first nibble. -/
theorem Good.forksAt_full {cs : Fin 17 → Node} (hg : Good (.full cs)) :
    ForksAt (Holds (.full cs)) [] := by
  obtain ⟨p, q, hpq, hp, hq⟩ := hg.two
  obtain ⟨x, hx, hvx⟩ := (hg.children p).exists_holds hp Good.exists_holds
  obtain ⟨y, hy, hvy⟩ := (hg.children q).exists_holds hq Good.exists_holds
  refine ⟨UInt8.ofNat p.val, x, UInt8.ofNat q.val, y, fun h => hpq ?_, Holds.full_ofNat hx hvx,
    Holds.full_ofNat hy hvy⟩
  ext
  rw [← toNat_ofNat_fin p, h, toNat_ofNat_fin]

/-- A good extension node holds two keys that part right after its key. -/
theorem Good.forksAt_ext {k : List UInt8} {cs : Fin 17 → Node} (hn : Nibbles k)
    (hf : Good (.full cs)) : ForksAt (Holds (.short k (.full cs))) k := by
  obtain ⟨a, x, b, y, hab, hx, hy⟩ := hf.forksAt_full
  exact ⟨a, x, b, y, hab, hx.short_append hn, hy.short_append hn⟩

/-- A leaf holds one key alone. -/
theorem not_forksAt_leaf {k v p : List UInt8} (hk : HexKey k) (hv : v ≠ []) :
    ¬ ForksAt (Holds (.short k (.value v))) p := by
  rintro ⟨a, x, b, y, hab, hx, hy⟩
  rw [holds_leaf hk hv] at hx hy
  have hxy := hx.trans hy.symm
  rw [List.append_cancel_left_eq, List.cons.injEq] at hxy
  exact hab hxy.1

/-! ## A good trie is fixed by what it reads -/

/-- The terminator's slot is fixed by what it reads at the end of the key. -/
theorem slot_eq {c c' : Node} (hc : c = .nil ∨ ∃ w, w ≠ [] ∧ c = .value w)
    (hc' : c' = .nil ∨ ∃ w, w ≠ [] ∧ c' = .value w) (h : tryGet c [] = tryGet c' []) : c = c' := by
  rcases hc with rfl | ⟨w, hw, rfl⟩ <;> rcases hc' with rfl | ⟨w', hw', rfl⟩
  · rfl
  · exact absurd (Option.some.inj h).symm hw'
  · exact absurd (Option.some.inj h) hw
  · rw [Option.some.inj h]

/-- Children in one slot that read alike are equal, given that for good
nodes below a nibble. -/
theorem ChildOK.eq_of_tryGet {i : Fin 17} {c c' : Node} (h : ChildOK i c) (h' : ChildOK i c')
    (hgood : (c = .nil ∨ Good c) → (c' = .nil ∨ Good c') →
      (∀ r, HexKey r → tryGet c r = tryGet c' r) → c = c')
    (hr : ∀ r, HexKey (UInt8.ofNat i.val :: r) → tryGet c r = tryGet c' r) : c = c' := by
  by_cases hi : i.val < 16
  · exact hgood (h.nil_or_good hi) (h'.nil_or_good hi)
      fun r hr' => hr r (HexKey.append (nibbles_single hi) hr')
  · have hi16 : i.val = 16 := by omega
    refine slot_eq (h.slot hi16) (h'.slot hi16) (hr [] ?_)
    rw [hi16]
    exact ⟨[], (fun _ h => by cases h), rfl⟩

/-- Two nodes that read alike fork at the same place. -/
theorem fork_eq {t₁ t₂ : Node} {p q : List UInt8} (hS : Holds t₁ = Holds t₂)
    (hp : ∀ l, Holds t₁ l → p <+: l) (hfp : ForksAt (Holds t₁) p)
    (hq : ∀ l, Holds t₂ l → q <+: l) (hfq : ForksAt (Holds t₂) q) : p = q := by
  rw [← hS] at hq hfq
  exact ForksAt.eq hp hfp hq hfq

/-- A node that reads as a leaf does not fork. -/
theorem not_forksAt_of_leaf {k v p : List UInt8} {t : Node} (hk : HexKey k) (hv : v ≠ [])
    (hS : Holds (.short k (.value v)) = Holds t) : ¬ ForksAt (Holds t) p := by
  rw [← hS]
  exact not_forksAt_leaf hk hv

/-- Nil is the one node that holds nothing. -/
theorem eq_of_tryGet_of_good {t₁ t₂ : Node}
    (hgood : Good t₁ → Good t₂ → (∀ key, HexKey key → tryGet t₁ key = tryGet t₂ key) → t₁ = t₂)
    (h₁ : t₁ = .nil ∨ Good t₁) (h₂ : t₂ = .nil ∨ Good t₂)
    (h : ∀ key, HexKey key → tryGet t₁ key = tryGet t₂ key) : t₁ = t₂ := by
  have hS := holds_congr h
  rcases h₁ with rfl | hg₁ <;> rcases h₂ with rfl | hg₂
  · rfl
  · obtain ⟨key, hkey⟩ := hg₂.exists_holds
    rw [← hS] at hkey
    exact absurd hkey (not_holds_nil key)
  · obtain ⟨key, hkey⟩ := hg₁.exists_holds
    rw [hS] at hkey
    exact absurd hkey (not_holds_nil key)
  · exact hgood hg₁ hg₂ h

/-- Two good nodes that read alike are equal. By induction on the first;
the shapes are told apart by where the nodes fork: a leaf nowhere, a full
node at its first nibble, an extension node after its key. -/
theorem Good.eq_of_tryGet {t₁ : Node} (hg₁ : Good t₁) : ∀ {t₂ : Node}, Good t₂ →
    (∀ key, HexKey key → tryGet t₁ key = tryGet t₂ key) → t₁ = t₂ := by
  induction t₁ with
  | nil => cases hg₁
  | value => cases hg₁
  | short k c ih =>
    intro t₂ hg₂ h
    have hS := holds_congr h
    cases hg₁ with
    | leaf hk hv =>
      cases hg₂ with
      | @leaf k' v' hk' hv' =>
        -- one key each, the same, with the same value
        have hkey : Holds (.short k' (.value v')) k := by
          rw [← hS]
          exact (holds_leaf hk hv).mpr rfl
        obtain rfl := (holds_leaf hk' hv').mp hkey
        have hval := h k hk
        rw [tryGet_leaf hk hk, tryGet_leaf hk hk, if_pos rfl, if_pos rfl] at hval
        rw [Option.some.inj hval]
      | ext _ hn' hf' => exact absurd (hf'.forksAt_ext hn') (not_forksAt_of_leaf hk hv hS)
      | @full cs' hc' h2' => exact absurd (Good.full hc' h2').forksAt_full (not_forksAt_of_leaf hk hv hS)
    | @ext _ cs hk hn hf =>
      have hp : ∀ l, Holds (.short k (.full cs)) l → k <+: l := fun _ hl => hl.prefix_of_short
      cases hg₂ with
      | @leaf k' v' hk' hv' => exact absurd (hf.forksAt_ext hn) (not_forksAt_of_leaf hk' hv' hS.symm)
      | @ext k' cs' hk' hn' hf' =>
        -- the same key, then the same full node below it
        obtain rfl : k = k' := fork_eq hS hp (hf.forksAt_ext hn) (fun _ hl => hl.prefix_of_short)
          (hf'.forksAt_ext hn')
        have hbelow : ∀ r, HexKey r → tryGet (.full cs) r = tryGet (.full cs') r := by
          intro r hr
          rw [← tryGet_short_append k, ← tryGet_short_append k (.full cs')]
          exact h _ (hr.append hn)
        rw [ih hf hf' hbelow]
      | @full cs' hc' h2' =>
        have hk0 : k = [] := fork_eq hS hp (hf.forksAt_ext hn) (fun _ _ => List.nil_prefix)
          (Good.full hc' h2').forksAt_full
        exact absurd hk0 hk
  | full cs ih =>
    intro t₂ hg₂ h
    have hS := holds_congr h
    cases hg₂ with
    | @leaf k' v' hk' hv' => exact absurd hg₁.forksAt_full (not_forksAt_of_leaf hk' hv' hS.symm)
    | @ext k' cs' hk' hn' hf' =>
      have hk0 : [] = k' := fork_eq hS (fun _ _ => List.nil_prefix) hg₁.forksAt_full
        (fun _ hl => hl.prefix_of_short) (hf'.forksAt_ext hn')
      exact absurd hk0.symm hk'
    | @full cs' hc' h2' =>
      -- the same children, slot by slot
      congr 1
      funext i
      refine (hg₁.children i).eq_of_tryGet (hc' i)
        (eq_of_tryGet_of_good fun hg hg' hr => ih i hg hg' hr) fun r hr => ?_
      rw [← tryGet_full_ofNat, ← tryGet_full_ofNat]
      exact h _ hr

/-- **A good trie is fixed by what it reads**: two nodes, each nil or good,
that answer alike under every hex key are the same node. -/
theorem eq_of_tryGet {t₁ t₂ : Node} (h₁ : t₁ = .nil ∨ Good t₁) (h₂ : t₂ = .nil ∨ Good t₂)
    (h : ∀ key, HexKey key → tryGet t₁ key = tryGet t₂ key) : t₁ = t₂ :=
  eq_of_tryGet_of_good (fun hg₁ hg₂ => hg₁.eq_of_tryGet hg₂) h₁ h₂ h

/-! ## The trie as a map of byte keys -/

theorem keybytesToHex_inj {a b : List UInt8} (h : keybytesToHex a = keybytesToHex b) : a = b := by
  have hb := hexToKeybytes_keybytesToHex b
  rw [← h, hexToKeybytes_keybytesToHex] at hb
  exact Option.some.inj hb

namespace Trie

/-- A trie that stores `m`: its root is nil or good, reads `m key` under the
hex form of each byte key, and holds nothing under any other hex key. -/
structure Stores (t : Trie) (m : List UInt8 → List UInt8) : Prop where
  good : t.root = .nil ∨ Good t.root
  get : ∀ key, t.TryGet key = some (m key)
  other : ∀ hex, HexKey hex → (∀ key, hex ≠ keybytesToHex key) → tryGet t.root hex = some []

theorem empty_stores : empty.Stores fun _ => [] :=
  ⟨.inl rfl, fun _ => rfl, fun _ _ _ => rfl⟩

/-- A root that reads as the old one but for `v` under the hex form of `key`
stores the map updated there. -/
theorem Stores.update {t t' : Trie} {m : List UInt8 → List UInt8} {key v : List UInt8}
    (h : t.Stores m) (hg : t'.root = .nil ∨ Good t'.root)
    (hget : ∀ hex, HexKey hex →
      tryGet t'.root hex = if hex = keybytesToHex key then some v else tryGet t.root hex) :
    t'.Stores (Function.update m key v) where
  good := hg
  get key' := by
    show tryGet t'.root (keybytesToHex key') = _
    rw [hget _ (keybytesToHex_hexKey key'), Function.update_apply]
    by_cases hk : key' = key
    · rw [if_pos (congrArg keybytesToHex hk), if_pos hk]
    · rw [if_neg (fun h' => hk (keybytesToHex_inj h')), if_neg hk]
      exact h.get key'
  other hex hhex hne := by
    rw [hget hex hhex, if_neg (hne key)]
    exact h.other hex hhex hne

theorem TryUpdate_nil (t : Trie) (key : List UInt8) : t.TryUpdate key [] = t.TryDelete key := by
  simp [TryUpdate, TryDelete]

/-- TryDelete on a trie that stores a map succeeds, and the trie then
stores the map without `key`. -/
theorem Stores.tryDelete {t : Trie} {m : List UInt8 → List UInt8} (h : t.Stores m)
    (key : List UInt8) : ∃ t', t.TryDelete key = some t' ∧
      t'.Stores (Function.update m key []) ∧ t'.unhashed = t.unhashed + 1 := by
  obtain ⟨d, r, hrun, hdel⟩ := delete_spec t.root h.good (keybytesToHex_hexKey key)
  exact ⟨⟨r, t.unhashed + 1⟩, by simp [TryDelete, hrun], h.update hdel.good hdel.get, rfl⟩

/-- TryUpdate on a trie that stores a map succeeds, and the trie then
stores the map with `value` under `key`: the empty value deletes it. -/
theorem Stores.tryUpdate {t : Trie} {m : List UInt8 → List UInt8} (h : t.Stores m)
    (key value : List UInt8) : ∃ t', t.TryUpdate key value = some t' ∧
      t'.Stores (Function.update m key value) ∧ t'.unhashed = t.unhashed + 1 := by
  by_cases hv : value = []
  · subst hv
    rw [TryUpdate_nil]
    exact h.tryDelete key
  · obtain ⟨d, r, hrun, hins⟩ := insert_spec t.root h.good (keybytesToHex_hexKey key) hv
    refine ⟨⟨r, t.unhashed + 1⟩, ?_, h.update (.inr hins.good) hins.get, rfl⟩
    have hlen : value.length ≠ 0 := by simpa using hv
    simp [TryUpdate, hlen, hrun]

/-- **The root depends on the stored map alone**: two tries that store the
same map have the same root node. -/
theorem Stores.root_eq {t₁ t₂ : Trie} {m : List UInt8 → List UInt8} (h₁ : t₁.Stores m)
    (h₂ : t₂.Stores m) : t₁.root = t₂.root := by
  refine eq_of_tryGet h₁.good h₂.good fun hex hhex => ?_
  by_cases hk : ∃ key, hex = keybytesToHex key
  · obtain ⟨key, rfl⟩ := hk
    exact (h₁.get key).trans (h₂.get key).symm
  · have hne : ∀ key, hex ≠ keybytesToHex key := fun key h => hk ⟨key, h⟩
    rw [h₁.other hex hhex hne, h₂.other hex hhex hne]

/-! ## Runs of writes -/

/-- A write the trie takes: Update or Delete. -/
inductive Op where
  | update (key value : List UInt8)
  | delete (key : List UInt8)

/-- What a write does to the stored map. -/
def Op.write : Op → (List UInt8 → List UInt8) → List UInt8 → List UInt8
  | .update key value, m => Function.update m key value
  | .delete key, m => Function.update m key []

/-- The map a run of writes leaves. -/
def writes (m : List UInt8 → List UInt8) (ops : List Op) : List UInt8 → List UInt8 :=
  ops.foldl (fun m op => op.write m) m

/-- One write, as the trie takes it. -/
def apply (t : Trie) : Op → Option Trie
  | .update key value => t.TryUpdate key value
  | .delete key => t.TryDelete key

/-- A run of writes: none when one of them panics. -/
def run (t : Trie) : List Op → Option Trie
  | [] => some t
  | op :: ops => (t.apply op).bind fun t' => t'.run ops

theorem Stores.apply {t : Trie} {m : List UInt8 → List UInt8} (h : t.Stores m) (op : Op) :
    ∃ t', t.apply op = some t' ∧ t'.Stores (op.write m) ∧ t'.unhashed = t.unhashed + 1 := by
  cases op with
  | update key value => exact h.tryUpdate key value
  | delete key => exact h.tryDelete key

/-- A run from a trie that stores a map goes through, and leaves a trie
that stores what the run writes; induction on the run. -/
theorem Stores.run {t : Trie} {m : List UInt8 → List UInt8} (h : t.Stores m) (ops : List Op) :
    ∃ t', t.run ops = some t' ∧ t'.Stores (writes m ops) ∧ t'.unhashed = t.unhashed + ops.length := by
  induction ops generalizing t m with
  | nil => exact ⟨t, rfl, h, rfl⟩
  | cons op ops ih =>
    obtain ⟨t₁, hstep, hs₁, hu₁⟩ := h.apply op
    obtain ⟨t₂, hrun, hs₂, hu₂⟩ := ih hs₁
    refine ⟨t₂, by rw [Trie.run, hstep, Option.bind_some, hrun], hs₂, ?_⟩
    rw [hu₂, hu₁, List.length_cons]
    omega

/-- **Every run from the empty trie goes through**: from the trie `New`
makes for the empty root, no run of Update and Delete panics; the root stays
nil or good, Get returns for each key what the run last wrote there (nil if
it deleted the key or never wrote it), and `unhashed` counts the writes. -/
theorem run_from_empty (ops : List Op) : ∃ t, empty.run ops = some t ∧
    (t.root = .nil ∨ Good t.root) ∧ (∀ key, t.TryGet key = some (writes (fun _ => []) ops key)) ∧
    t.unhashed = ops.length := by
  obtain ⟨t, hrun, hs, hu⟩ := empty_stores.run ops
  refine ⟨t, hrun, hs.good, hs.get, ?_⟩
  rw [hu]
  exact Nat.zero_add _

/-- **The root does not show the history**: two runs that leave the same
map leave the same root node, whatever the order of the writes and whatever
was written and deleted on the way. -/
theorem run_root_eq {t : Trie} {m : List UInt8 → List UInt8} (h : t.Stores m)
    {ops₁ ops₂ : List Op} (hw : writes m ops₁ = writes m ops₂) :
    ∃ t₁ t₂, t.run ops₁ = some t₁ ∧ t.run ops₂ = some t₂ ∧ t₁.root = t₂.root := by
  obtain ⟨t₁, hrun₁, hs₁, -⟩ := h.run ops₁
  obtain ⟨t₂, hrun₂, hs₂, -⟩ := h.run ops₂
  rw [hw] at hs₁
  exact ⟨t₁, t₂, hrun₁, hrun₂, hs₁.root_eq hs₂⟩

theorem run_root_eq_swapped : ∃ t₁ t₂, empty.run [.update [1] [7], .update [2] [8]] = some t₁ ∧
    empty.run [.update [2] [8], .update [1] [7]] = some t₂ ∧ t₁.root = t₂.root :=
  run_root_eq empty_stores (Function.update_comm (by decide) _ _ _)

/-- **The root changes exactly when the stored value does**: TryUpdate on a
trie that stores a map leaves the root node as it was if and only if `key`
held `value` already (for the empty value: if the key was absent). -/
theorem TryUpdate_root_eq_iff {t : Trie} {m : List UInt8 → List UInt8} (h : t.Stores m)
    (key value : List UInt8) :
    ∃ t', t.TryUpdate key value = some t' ∧ (t'.root = t.root ↔ m key = value) := by
  obtain ⟨t', hrun, hs, -⟩ := h.tryUpdate key value
  refine ⟨t', hrun, ⟨fun hroot => ?_, fun hkv => ?_⟩⟩
  · -- the same root reads the same under `key`
    have hget := hs.get key
    rw [TryGet, hroot, ← TryGet, h.get key, Function.update_self] at hget
    exact Option.some.inj hget
  · rw [← hkv, Function.update_eq_self] at hs
    exact hs.root_eq h

/-- Keys `[1]` and `[2]` written with `[7]` and `[8]`. -/
def twoKeyOps : List Op := [.update [1] [7], .update [2] [8]]

/-- On the trie of two keys, rewriting `[2]` with `[9]` changes the root. -/
theorem TryUpdate_root_eq_iff_at_two_keys :
    ∃ t, empty.run twoKeyOps = some t ∧ ∃ t', t.TryUpdate [2] [9] = some t' ∧
      (t'.root = t.root ↔ writes (fun _ => []) twoKeyOps [2] = [9]) ∧ t'.root ≠ t.root := by
  obtain ⟨t, hrun, hs, -⟩ := empty_stores.run twoKeyOps
  obtain ⟨t', ht', hiff⟩ := TryUpdate_root_eq_iff hs [2] [9]
  have hne : writes (fun _ => []) twoKeyOps [2] ≠ [9] := by decide
  exact ⟨t, hrun, t', ht', hiff, fun h => hne (hiff.1 h)⟩

end Trie

end Xdchain.Trie.Patricia
