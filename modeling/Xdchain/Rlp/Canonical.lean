import Xdchain.Rlp.Decode
import Xdchain.Rlp.Encode

/-! # `DecodeBytes` accepts exactly the canonical encodings

Decoding into an `interface{}` reads back every item from its canonical
encoding `Item.enc`, consuming exactly those bytes (`decodeInterface_enc`),
and whatever it reads successfully is the canonical encoding of what it
returns (`decodeInterface_sound`). Both follow the recursion of
`decodeInterface`, with one case for a single byte, one for a string header
and one for a list header, and for a list one case per element. At toplevel,
`DecodeBytes` then succeeds on a byte string exactly when it is the encoding
of an item, and `EncodeToBytes` gives the byte string back. -/

namespace Xdchain.Rlp.Canonical
open Xdchain.Lib.BigEndian Xdchain.Lib.ErrState Xdchain.Rlp.Decode Xdchain.Rlp.Encode

/-- The stream after decoding values of `n` bytes from `s`: what a decoded
value leaves in `size` and `byteval` is not part of the position. -/
def After (s : Stream) (n : Nat) (s' : Stream) : Prop :=
  ∃ sz bv, s' = { s.read n with size := sz, byteval := bv, kinderr := none }

theorem room_scratch {s : Stream} {n sz : Nat} {bv : UInt8} {ke : Option Err} :
    ({ s with size := sz, byteval := bv, kinderr := ke } : Stream).Room n ↔ s.Room n := Iff.rfl

theorem read_zero {s : Stream} (hk : s.kind = none) : s.read 0 = s := by
  obtain ⟨r, remaining, limited, kind, size, byteval, kinderr, stack⟩ := s
  simp only at hk
  subst hk
  cases limited <;> simp [Stream.read, Stream.account]

theorem after_zero {s : Stream} (hk : s.kind = none) : After s 0 { s with kinderr := none } :=
  ⟨s.size, s.byteval, by rw [read_zero hk]⟩

theorem after_trans {s s1 s2 : Stream} {a b : Nat} (h1 : After s a s1) (h2 : After s1 b s2) :
    After s (a + b) s2 := by
  obtain ⟨sz1, bv1, rfl⟩ := h1
  obtain ⟨sz2, bv2, rfl⟩ := h2
  exact ⟨sz2, bv2, by rw [← Stream.read_read]; rfl⟩

theorem After.kind_eq {s s' : Stream} {n : Nat} (h : After s n s') : s'.kind = none := by
  obtain ⟨_, _, rfl⟩ := h; rfl

theorem After.r_eq {s s' : Stream} {n : Nat} (h : After s n s') : s'.r = s.r.drop n := by
  obtain ⟨_, _, rfl⟩ := h; rfl

theorem After.kinderr_eq {s s' : Stream} {n : Nat} (h : After s n s') : s'.kinderr = none := by
  obtain ⟨_, _, rfl⟩ := h; rfl

theorem After.stack_eq {s s' : Stream} {n : Nat} (h : After s n s') :
    s'.stack = Stream.bump s.stack n := by
  obtain ⟨_, _, rfl⟩ := h; rfl

theorem After.room_iff {s s' : Stream} {n k : Nat} (h : After s n s') :
    s'.Room k ↔ (s.read n).Room k := by
  obtain ⟨_, _, rfl⟩ := h; exact Iff.rfl

theorem atEOL_false_of_room {s : Stream} {n : Nat} (h : s.Room n) (hn : 0 < n) :
    atEOL s = false := by
  unfold atEOL
  cases hst : s.stack with
  | nil => rfl
  | cons tos _ =>
    have := h.1 tos (by simp [hst])
    simp only [decide_eq_false_iff_not]
    omega

theorem room_zero (s : Stream) : s.Room 0 :=
  ⟨fun _ _ => Nat.zero_le _, fun _ => Nat.zero_le _⟩

theorem fits_zero (s : Stream) : s.Fits 0 := by
  unfold Stream.Fits
  cases s.stack <;> simp

theorem encString_cases (b : List UInt8) :
    (∃ c, b = [c] ∧ c < 0x80 ∧ encString b = [c]) ∨
      (encString b = header 0x80 b.length ++ b ∧ ¬ (b.length = 1 ∧ b.headD 0 < 0x80)) := by
  rcases b with _ | ⟨c, _ | ⟨d, rest⟩⟩
  · exact .inr ⟨rfl, by simp⟩
  · by_cases hc : c < 0x80
    · exact .inl ⟨c, rfl, hc, by simp [encString, hc]⟩
    · exact .inr ⟨by simp [encString, hc], by simpa using hc⟩
  · exact .inr ⟨rfl, by simp⟩

/-! ## Reading the encoding back -/

/-- A string item is read back from its encoding. -/
theorem decodeInterface_str {b : List UInt8} (hb : b.length < 2 ^ 64) (fuel : Nat) {s : Stream}
    {rest : List UInt8} (hk : s.kind = none) (hr : s.r = encString b ++ rest)
    (h : s.Room (encString b).length) :
    ∃ s', (decodeInterface (fuel + 1)).run s = .ok (.str b) s' ∧ After s (encString b).length s' := by
  have heol := atEOL_false_of_room h (by have := length_enc_pos (.str b); simpa using this)
  rcases encString_cases b with ⟨c, rfl, hc, he⟩ | ⟨he, hcanon⟩
  · -- a single byte below 0x80 stands for itself
    rw [he] at hr h ⊢
    have hread := run_readKind_byte (s := { s with kinderr := none }) (by simpa using hr) hc h
    have hkind := run_kind_fresh hk heol hread (fits_zero _)
    simp only [decodeInterface]
    rw [run_bind_of_ok hkind]
    simp only [reduceCtorEq, if_false, EStateM.run_bind]
    rw [run_bytes_byte rfl rfl]
    exact ⟨_, rfl, 0, c, rfl⟩
  · -- a header, then the bytes
    rw [he] at hr h ⊢
    rw [List.length_append] at h ⊢
    rw [List.append_assoc] at hr
    obtain ⟨hh, hbody⟩ := Stream.room_add h
    have hread := run_readKind_header (s := { s with kinderr := none }) (k := .string)
      (by simp) hb hr hh
    have hkind := run_kind_fresh hk heol hread (Stream.fits_of_room hbody)
    simp only [decodeInterface]
    rw [run_bind_of_ok hkind]
    simp only [reduceCtorEq, if_false, EStateM.run_bind]
    have hr2 : s.r.drop (header 0x80 b.length).length = b ++ rest := by
      rw [hr, List.drop_left]
    have htake : (s.r.drop (header 0x80 b.length).length).take b.length = b := by
      rw [hr2, List.take_left]
    rw [run_bytes_string rfl rfl (by simp [hr2]) hbody (by simpa [hr2] using hcanon)]
    simp only [Stream.read_r, headerTag_string, htake, EStateM.run_pure]
    exact ⟨_, rfl, b.length, 0, by rw [← Stream.read_read]; rfl⟩

/-- A list item is read back from its encoding, given that its elements are
read back from their encodings inside it. -/
theorem decodeInterface_list {xs : List Item} {fuel : Nat} (hsize : (Item.encAll xs).length < 2 ^ 64)
    (hlen : xs.length < fuel)
    (helems : ∀ (s : Stream) (rest : List UInt8), s.kind = none →
      s.r = Item.encAll xs ++ rest → s.Room (Item.encAll xs).length →
      (∃ tos others, s.stack = tos :: others ∧ tos.pos + (Item.encAll xs).length = tos.size) →
      ∃ s', (decodeSliceElems (decodeInterface fuel) fuel).run s = .ok xs s' ∧
        After s (Item.encAll xs).length s')
    {s : Stream} {rest : List UInt8} (hk : s.kind = none) (hr : s.r = (Item.list xs).enc ++ rest)
    (h : s.Room (Item.list xs).enc.length) :
    ∃ s', (decodeInterface (fuel + 1)).run s = .ok (.list xs) s' ∧
      After s (Item.list xs).enc.length s' := by
  have heol := atEOL_false_of_room h (length_enc_pos _)
  rw [enc_list] at hr h ⊢
  rw [List.length_append] at h ⊢
  rw [List.append_assoc] at hr
  obtain ⟨hh, hbody⟩ := Stream.room_add h
  obtain ⟨s1, hread, hs1⟩ : ∃ s1, readKind.run { s with kinderr := none } =
      .ok (.list, (Item.encAll xs).length, none) s1 ∧
      s1 = { ({ s with kinderr := none } : Stream).read
        (header (headerTag .list) (Item.encAll xs).length).length with byteval := 0 } :=
    ⟨_, run_readKind_header (by simp) hsize hr hh, rfl⟩
  have hkind := run_kind_fresh hk heol hread (by rw [hs1]; exact Stream.fits_of_room hbody)
  simp only [decodeInterface]
  rw [run_bind_of_ok hkind]
  simp only [if_true, EStateM.run_bind, decodeListSlice]
  rw [run_list rfl rfl]
  simp only
  by_cases hP : (Item.encAll xs).length = 0
  · -- the empty list: `ListEnd` right away
    have hnil : xs = [] := List.eq_nil_of_length_eq_zero (by have := length_le_encAll xs; omega)
    subst hnil
    simp only [encAll_nil, List.length_nil, if_true, EStateM.run_bind]
    rw [run_listEnd rfl rfl]
    subst hs1
    exact ⟨_, rfl, 0, 0, by simp⟩
  · -- the elements, read inside the new list, then `ListEnd`
    simp only [hP, if_false, EStateM.run_bind]
    obtain ⟨s4, h4, hafter⟩ := helems
      ({ s1 with
          stack := ⟨0, (Item.encAll xs).length⟩ :: s1.stack
          kind := none
          size := 0
          kinderr := none } : Stream) rest rfl
      (by rw [hs1]; simpa using (show s.r.drop (header 0xC0 (Item.encAll xs).length).length = _ by
        rw [hr, List.drop_left]))
      ⟨fun tos htos => by simp at htos; subst htos; simp,
        fun hl => by rw [hs1] at hl ⊢; simpa [hl] using hbody.2 hl⟩
      ⟨_, _, rfl, by simp⟩
    rw [h4]
    have hst4 : s4.stack = ⟨(Item.encAll xs).length, (Item.encAll xs).length⟩ :: s1.stack := by
      rw [hafter.stack_eq]; simp [Stream.bump]
    simp only
    rw [run_listEnd hst4 rfl]
    obtain ⟨sz, bv, rfl⟩ := hafter
    subst hs1
    exact ⟨_, rfl, 0, bv, by rw [← Stream.read_read]; rfl⟩

/-- At the end of the list the loop stops, having read nothing. -/
theorem decodeSliceElems_eol {fuel n : Nat} {s : Stream} (hk : s.kind = none)
    (heol : atEOL s = true) :
    (decodeSliceElems (decodeInterface (fuel + 1)) (n + 1)).run s = .ok [] { s with kinderr := none } := by
  have hel : (decodeInterface (fuel + 1)).run s = .error .eol { s with kinderr := none } := by
    simp only [decodeInterface]
    exact run_bind_of_error (run_kind_eol hk heol)
  simp only [decodeSliceElems]
  rw [run_bind_of_ok (run_attempt_of_error hel)]
  rfl

/-- An element read, the loop goes on after it. -/
theorem decodeSliceElems_cons {α : Type} {elemdec : StreamM α} {n : Nat} {s s1 : Stream} {x : α}
    (h : elemdec.run s = .ok x s1) :
    (decodeSliceElems elemdec (n + 1)).run s =
      (do let xs ← decodeSliceElems elemdec n; pure (x :: xs)).run s1 := by
  simp only [decodeSliceElems]
  rw [run_bind_of_ok (run_attempt_of_ok h)]

/-- **Every item is read back from its canonical encoding**, whatever
follows it, at toplevel or inside a list, given fuel beyond its length and
room for it. -/
theorem decodeInterface_enc (t : Item) (ht : t.Fits) :
    ∀ (fuel : Nat) (s : Stream) (rest : List UInt8), t.enc.length < fuel → s.kind = none →
      s.r = t.enc ++ rest → s.Room t.enc.length →
      ∃ s', (decodeInterface fuel).run s = .ok t s' ∧ After s t.enc.length s' := by
  -- the elements of a list are read by the loop, each inside the list's bounds
  induction t using Item.rec (motive_2 := fun xs => (∀ x ∈ xs, x.Fits) →
      ∀ (fuel n : Nat) (s : Stream) (rest : List UInt8),
      (∀ x ∈ xs, x.enc.length < fuel) → xs.length < n → 0 < fuel → s.kind = none →
      s.r = Item.encAll xs ++ rest → s.Room (Item.encAll xs).length →
      (∃ tos others, s.stack = tos :: others ∧ tos.pos + (Item.encAll xs).length = tos.size) →
      ∃ s', (decodeSliceElems (decodeInterface fuel) n).run s = .ok xs s' ∧
        After s (Item.encAll xs).length s') with
  | str b =>
    intro fuel s rest hfuel hk hr h
    obtain ⟨f, rfl⟩ : ∃ f, fuel = f + 1 := ⟨fuel - 1, by omega⟩
    exact decodeInterface_str (length_lt_of_fits ht) f hk hr h
  | list xs ih =>
    intro fuel s rest hfuel hk hr h
    obtain ⟨f, rfl⟩ : ∃ f, fuel = f + 1 := ⟨fuel - 1, by omega⟩
    have hlt : (Item.encAll xs).length < (Item.list xs).enc.length := by
      simp [List.length_append, List.length_pos_iff, header_ne_nil]
    have hfits : (Item.encAll xs).length < 2 ^ 64 := by unfold Item.Fits at ht; omega
    have hlen := length_le_encAll xs
    refine decodeInterface_list hfits (by omega) (fun s' rest' hk' hr' h' htop' => ?_) hk hr h
    exact ih (fun x hx => fits_of_mem ht hx) f f s' rest'
      (fun x hx => by have := length_enc_le_encAll hx; omega) (by omega) (by omega) hk' hr' h' htop'
  | nil =>
    rename_i _ fuel n s rest _ hn hfuel hk _ _ htop
    obtain ⟨f, rfl⟩ : ∃ f, fuel = f + 1 := ⟨fuel - 1, by omega⟩
    obtain ⟨m, rfl⟩ : ∃ m, n = m + 1 := ⟨n - 1, by simp at hn; omega⟩
    obtain ⟨tos, others, hst, hend⟩ := htop
    have heol : atEOL s = true := by simp [atEOL, hst]; simpa using hend
    exact ⟨_, decodeSliceElems_eol hk heol, by simpa using after_zero hk⟩
  | cons x xs hx hxs =>
    rename_i hall fuel n s rest hfuels hn hfuel hk hr h htop
    obtain ⟨m, rfl⟩ : ∃ m, n = m + 1 := ⟨n - 1, by simp at hn; omega⟩
    simp only [encAll_cons, List.length_append] at hr h htop ⊢
    obtain ⟨hroomx, hroomxs⟩ := Stream.room_add h
    -- the element, then the rest of the list after it
    obtain ⟨s1, h1, hafter1⟩ := hx (hall x (List.mem_cons_self ..)) fuel s (Item.encAll xs ++ rest)
      (hfuels x (List.mem_cons_self ..)) hk (by rw [hr, List.append_assoc]) hroomx
    obtain ⟨tos, others, hst, hend⟩ := htop
    obtain ⟨s2, h2, hafter2⟩ := hxs (fun y hy => hall y (List.mem_cons_of_mem _ hy)) fuel m s1 rest
      (fun y hy => hfuels y (List.mem_cons_of_mem _ hy)) (by simpa using hn) hfuel hafter1.kind_eq
      (by rw [hafter1.r_eq, hr, List.append_assoc, List.drop_left])
      (hafter1.room_iff.mpr hroomxs)
      ⟨_, others, by rw [hafter1.stack_eq, hst]; rfl, by simp; omega⟩
    rw [decodeSliceElems_cons h1]
    simp only [EStateM.run_bind, h2, EStateM.run_pure]
    exact ⟨_, rfl, after_trans hafter1 hafter2⟩

/-! ## What a successful decoding read -/

theorem decodeSliceElems_ne_eol {α : Type} {elemdec : StreamM α} :
    ∀ (n : Nat) {s s' : Stream}, (decodeSliceElems elemdec n).run s ≠ .error .eol s'
  | 0, s, s' => by simp [decodeSliceElems]
  | n + 1, s, s' => by
    intro h
    simp only [decodeSliceElems] at h
    rcases run_bind_eq_error h with h1 | ⟨r, s1, h1, h2⟩
    · exact run_attempt_ne_error h1
    · rcases run_attempt_eq_ok h1 with ⟨x, rfl, -⟩ | ⟨e, rfl, -⟩
      · rcases run_bind_eq_error h2 with h3 | ⟨xs, s2, -, h4⟩
        · exact decodeSliceElems_ne_eol n h3
        · simp at h4
      · -- `EOL` of an element ends the loop; any other error is passed on
        cases e <;> simp at h2

theorem decodeListSlice_ne_eol {α : Type} {elemdec : StreamM α} {n : Nat} {s s' : Stream}
    (hk : s.kind = some .list) (he : s.kinderr = none) :
    (decodeListSlice elemdec n).run s ≠ .error .eol s' := by
  intro h
  unfold decodeListSlice at h
  rw [run_bind_of_ok (run_list hk he)] at h
  split at h
  · rcases run_bind_eq_error h with h1 | ⟨_, _, -, h2⟩
    · exact listEnd_ne_eol h1
    · simp at h2
  · rcases run_bind_eq_error h with h1 | ⟨_, _, -, h2⟩
    · exact decodeSliceElems_ne_eol n h1
    · rcases run_bind_eq_error h2 with h3 | ⟨_, _, -, h4⟩
      · exact listEnd_ne_eol h3
      · simp at h4

/-- `decodeInterface` returns `EOL` only from its first `Kind`, at the end of a list. -/
theorem decodeInterface_eq_error_eol {fuel : Nat} {s s' : Stream} (hk : s.kind = none)
    (h : (decodeInterface fuel).run s = .error .eol s') :
    atEOL s = true ∧ s' = { s with kinderr := none } := by
  cases fuel with
  | zero => simp [decodeInterface] at h
  | succ f =>
    simp only [decodeInterface] at h
    rcases run_bind_eq_error h with h1 | ⟨⟨k, n⟩, s1, h1, h2⟩
    · exact kind_eq_error_eol hk h1
    · obtain ⟨-, s0, -, -, rfl⟩ := kind_eq_ok hk h1
      exfalso
      simp only at h2
      split at h2
      · rename_i hl
        subst hl
        rcases run_bind_eq_error h2 with h3 | ⟨_, _, -, h4⟩
        · exact decodeListSlice_ne_eol rfl rfl h3
        · simp at h4
      · rcases run_bind_eq_error h2 with h3 | ⟨_, _, -, h4⟩
        · exact bytes_ne_eol rfl rfl h3
        · simp at h4

/-- What decoding an item successfully read: its encoding, within the room
the stream had. -/
def ReadOk (s s' : Stream) (t : Item) : Prop :=
  s.r = t.enc ++ s'.r ∧ s.Room t.enc.length ∧ After s t.enc.length s'

/-- The elements the loop returns were read one after the other. -/
theorem decodeSliceElems_sound {f : Nat}
    (ih : ∀ {s s' : Stream} {t : Item}, s.kind = none → (decodeInterface f).run s = .ok t s' →
      ReadOk s s' t) :
    ∀ (n : Nat) {s s' : Stream} {xs : List Item}, s.kind = none →
      (decodeSliceElems (decodeInterface f) n).run s = .ok xs s' →
      s.r = Item.encAll xs ++ s'.r ∧ s.Room (Item.encAll xs).length ∧
        After s (Item.encAll xs).length s'
  | 0, s, s', xs, _, h => by simp [decodeSliceElems] at h
  | n + 1, s, s', xs, hk, h => by
    simp only [decodeSliceElems] at h
    obtain ⟨r, s1, h1, h2⟩ := run_bind_eq_ok h
    rcases run_attempt_eq_ok h1 with ⟨x, rfl, hx⟩ | ⟨e, rfl, he⟩
    · -- an element, then the rest of the loop
      obtain ⟨xs', s2, h3, h4⟩ := run_bind_eq_ok h2
      simp only [EStateM.run_pure, EStateM.Result.ok.injEq] at h4
      obtain ⟨rfl, rfl⟩ := h4
      obtain ⟨hr1, hroom1, hafter1⟩ := ih hk hx
      obtain ⟨hr2, hroom2, hafter2⟩ := decodeSliceElems_sound ih n hafter1.kind_eq h3
      refine ⟨by rw [hr1, hr2, encAll_cons, List.append_assoc], ?_, ?_⟩
      · rw [encAll_cons, List.length_append]
        exact Stream.room_of_read hroom1 (hafter1.room_iff.mp hroom2)
      · rw [encAll_cons, List.length_append]
        exact after_trans hafter1 hafter2
    · -- `EOL`: the loop ends where it stands
      by_cases hee : e = .eol
      · subst hee
        obtain ⟨-, rfl⟩ := decodeInterface_eq_error_eol hk he
        simp only [EStateM.run_pure, EStateM.Result.ok.injEq] at h2
        obtain ⟨rfl, rfl⟩ := h2
        exact ⟨by simp, by simpa using room_zero s, by simpa using after_zero hk⟩
      · cases e <;> simp at h2 hee

/-- A list's elements fill its payload exactly: `ListEnd` checks it. -/
theorem decodeListSlice_sound {f : Nat}
    (ih : ∀ {s s' : Stream} {t : Item}, s.kind = none → (decodeInterface f).run s = .ok t s' →
      ReadOk s s' t)
    {s s' : Stream} {xs : List Item} (hk : s.kind = some .list) (he : s.kinderr = none)
    (h : (decodeListSlice (decodeInterface f) f).run s = .ok xs s') :
    s.r = Item.encAll xs ++ s'.r ∧ (Item.encAll xs).length = s.size ∧
      (s.limited = true → (Item.encAll xs).length ≤ s.remaining) ∧
      After { s with kind := none } (Item.encAll xs).length s' := by
  unfold decodeListSlice at h
  rw [run_bind_of_ok (run_list hk he)] at h
  split at h
  · -- an empty list
    rename_i hsize
    obtain ⟨u, s3, h3, h4⟩ := run_bind_eq_ok h
    obtain ⟨tos, rest, hst, -, rfl⟩ := listEnd_eq_ok h3
    simp only [List.cons.injEq] at hst
    obtain ⟨rfl, rfl⟩ := hst
    simp only [EStateM.run_pure, EStateM.Result.ok.injEq] at h4
    obtain ⟨rfl, rfl⟩ := h4
    refine ⟨by simp, by simp [hsize], by simp, ⟨0, s.byteval, ?_⟩⟩
    simp only [encAll_nil, List.length_nil]
    rw [read_zero (s := { s with kind := none }) rfl]
    simp [hsize, he]
  · -- the elements, then `ListEnd` at the list's end
    obtain ⟨xs', s3, h3, h4⟩ := run_bind_eq_ok h
    obtain ⟨hr3, hroom3, hafter3⟩ := decodeSliceElems_sound ih f rfl h3
    obtain ⟨u, s5, h5, h6⟩ := run_bind_eq_ok h4
    simp only [EStateM.run_pure, EStateM.Result.ok.injEq] at h6
    obtain ⟨rfl, rfl⟩ := h6
    obtain ⟨tos, rest, hst, hpos, rfl⟩ := listEnd_eq_ok h5
    rw [hafter3.stack_eq] at hst
    simp only [Stream.bump, List.cons.injEq] at hst
    obtain ⟨rfl, rfl⟩ := hst
    simp only [Nat.zero_add] at hpos
    refine ⟨by simpa using hr3, hpos, fun hl => by simpa [hl] using hroom3.2 hl, ?_⟩
    obtain ⟨sz, bv, rfl⟩ := hafter3
    exact ⟨0, bv, by simp [hpos]⟩

theorem enc_str_of_canon {b : List UInt8} (h : ¬ (b.length = 1 ∧ b.headD 0 < 0x80)) :
    (Item.str b).enc = header 0x80 b.length ++ b := by
  rcases encString_cases b with ⟨c, rfl, hc, _⟩ | ⟨he, _⟩
  · exact absurd ⟨rfl, hc⟩ h
  · exact he

/-- **Whatever `decodeInterface` reads is the canonical encoding of what it
returns**: a single byte below `0x80`, or a canonical header followed by
exactly the payload it announces. -/
theorem decodeInterface_sound :
    ∀ (fuel : Nat) {s s' : Stream} {t : Item}, s.kind = none →
      (decodeInterface fuel).run s = .ok t s' → ReadOk s s' t
  | 0, s, s', t, _, h => by simp [decodeInterface] at h
  | f + 1, s, s', t, hk, h => by
    simp only [decodeInterface] at h
    obtain ⟨⟨k, n⟩, s1, hkind, hcont⟩ := run_bind_eq_ok h
    simp only at hcont
    rcases kind_fresh_eq_ok hk hkind with ⟨rfl, rfl, c, hc, hr, hroom, rfl⟩ |
      ⟨hkb, hn, hr, hroom, hfit, rfl⟩
    · -- a single byte
      simp only [reduceCtorEq, if_false] at hcont
      obtain ⟨b, s2, hb, h2⟩ := run_bind_eq_ok hcont
      simp only [EStateM.run_pure, EStateM.Result.ok.injEq] at h2
      obtain ⟨rfl, rfl⟩ := h2
      rcases bytes_eq_ok rfl rfl hb with ⟨-, rfl, rfl⟩ | ⟨h, -⟩
      · have he : (Item.str [c]).enc = [c] := by simp [encString, hc]
        rw [ReadOk, he]
        exact ⟨hr, hroom, 0, c, rfl⟩
      · cases h
    · cases k with
      | byte => exact absurd rfl hkb
      | string =>
        -- a string header, then its bytes
        simp only [reduceCtorEq, if_false] at hcont
        obtain ⟨b, s2, hb, h2⟩ := run_bind_eq_ok hcont
        simp only [EStateM.run_pure, EStateM.Result.ok.injEq] at h2
        obtain ⟨rfl, rfl⟩ := h2
        rcases bytes_eq_ok rfl rfl hb with ⟨h, -⟩ | ⟨-, hroomb, hlen, rfl, rfl, hcanon⟩
        · cases h
        · dsimp only at hroomb hlen hcanon ⊢
          simp only [headerTag_string, Stream.read_r] at hr hroom hroomb hlen hcanon ⊢
          have hblen : ((s.r.drop (header 0x80 n).length).take n).length = n := by
            rw [List.length_take]; omega
          have he : (Item.str ((s.r.drop (header 0x80 n).length).take n)).enc =
              header 0x80 n ++ (s.r.drop (header 0x80 n).length).take n := by
            have := enc_str_of_canon (by rw [hblen]; exact hcanon)
            rwa [hblen] at this
          refine ⟨?_, ?_, ?_⟩
          · rw [he, List.append_assoc]
            simp only [Stream.read_r]
            rw [List.take_append_drop]
            exact hr
          · rw [he, List.length_append, hblen]
            exact Stream.room_of_read hroom hroomb
          · rw [he, List.length_append, hblen]
            exact ⟨n, 0, by rw [← Stream.read_read]; rfl⟩
      | list =>
        -- a list header, then its elements
        simp only [if_true] at hcont
        obtain ⟨xs, s2, hxs, h2⟩ := run_bind_eq_ok hcont
        simp only [EStateM.run_pure, EStateM.Result.ok.injEq] at h2
        obtain ⟨rfl, rfl⟩ := h2
        obtain ⟨hr2, hsize, hlim, hafter⟩ :=
          decodeListSlice_sound (decodeInterface_sound f) rfl rfl hxs
        have hn' : (Item.encAll xs).length = n := hsize
        have hlim' : (s.read (header (headerTag .list) n).length).limited = true →
            n ≤ (s.read (header (headerTag .list) n).length).remaining := fun hl => by
          have h' := hlim hl
          rw [hn'] at h'
          exact h'
        refine ⟨?_, ?_, ?_⟩
        · rw [enc_list, hn', List.append_assoc, ← hr2]
          exact hr
        · rw [enc_list, List.length_append, hn']
          refine Stream.room_of_read hroom ⟨fun tos htos => ?_, hlim'⟩
          -- the size check of `Kind` kept the list inside the enclosing one
          simp only [headerTag_list] at hfit
          unfold Stream.Fits at hfit
          rw [Option.mem_def] at htos
          rcases hst : (s.read (header 0xC0 n).length).stack with _ | ⟨top, rest⟩
          · rw [hst] at htos
            simp at htos
          · rw [hst] at hfit htos
            simp only [List.head?_cons, Option.some.injEq] at htos
            subst htos
            exact hfit
        · rw [enc_list, List.length_append, hn']
          obtain ⟨sz, bv, rfl⟩ := hafter
          exact ⟨sz, bv, by rw [hn', ← Stream.read_read]; rfl⟩

/-! ## At toplevel -/

theorem room_reset (b : List UInt8) : (reset b b.length).Room b.length :=
  ⟨fun _ h => by simp [reset] at h, fun _ => by simp [reset]⟩

/-- **Every item is decoded back from its encoding.** -/
theorem decodeBytes_enc (t : Item) (ht : t.Fits) : decodeBytes t.enc = .ok t := by
  obtain ⟨s', hrun, hafter⟩ := decodeInterface_enc t ht (t.enc.length + 1) (reset t.enc t.enc.length)
    [] (Nat.lt_succ_self _) rfl (List.append_nil _).symm (room_reset t.enc)
  have hr : s'.r = [] := by rw [hafter.r_eq]; simp [reset]
  simp [decodeBytes, hrun, hr]

/-- **What decodes is an encoding**: the item's, with nothing after it. -/
theorem eq_enc_of_decodeBytes {b : List UInt8} {t : Item} (h : decodeBytes b = .ok t) :
    b = t.enc := by
  unfold decodeBytes at h
  split at h
  · rename_i t' s' hrun
    split at h
    · cases h
    · rename_i hlen
      cases h
      obtain ⟨hr, -, -⟩ := decodeInterface_sound (b.length + 1) rfl hrun
      have hnil : s'.r = [] := List.eq_nil_of_length_eq_zero (by omega)
      simpa [reset, hnil] using hr
  · cases h

theorem decodeBytes_canonical :
    (∀ t : Item, t.Fits → decodeBytes (encodeToBytes t) = .ok t) ∧
    ∀ b : List UInt8, b.length < 2 ^ 64 →
      ((∃ t, decodeBytes b = .ok t) ↔ ∃ t : Item, b = t.enc) ∧
      ∀ t, decodeBytes b = .ok t → encodeToBytes t = b := by
  refine ⟨fun t ht => by rw [encodeToBytes_eq t ht]; exact decodeBytes_enc t ht, fun b hb => ?_⟩
  -- an item whose encoding is a Go byte slice fits in the encoder's sizes
  have hfits : ∀ t : Item, b = t.enc → t.Fits := fun t hbt => by
    unfold Item.Fits; rw [← hbt]; exact hb
  refine ⟨⟨fun ⟨t, ht⟩ => ⟨t, eq_enc_of_decodeBytes ht⟩, fun ⟨t, hbt⟩ => ?_⟩, fun t ht => ?_⟩
  · exact ⟨t, by rw [hbt]; exact decodeBytes_enc t (hfits t hbt)⟩
  · have hbt := eq_enc_of_decodeBytes ht
    rw [encodeToBytes_eq t (hfits t hbt), hbt]

theorem decodeBytes_canonical_cat :
    (Item.list [.str [0x63, 0x61, 0x74], .list []]).Fits ∧
      decodeBytes (encodeToBytes (.list [.str [0x63, 0x61, 0x74], .list []])) =
        .ok (.list [.str [0x63, 0x61, 0x74], .list []]) ∧
      ([0xC1, 0x80] : List UInt8).length < 2 ^ 64 ∧
      ((∃ t, decodeBytes [0xC1, 0x80] = .ok t) ↔ ∃ t : Item, [0xC1, 0x80] = t.enc) :=
  ⟨by decide, decodeBytes_canonical.1 _ (by decide), by decide,
    (decodeBytes_canonical.2 [0xC1, 0x80] (by decide)).1⟩

end Xdchain.Rlp.Canonical
