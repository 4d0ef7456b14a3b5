import Xdchain.Rlp.Integers

/-! # Values inside lists

A `DecodeRLP` method written by hand reads the elements of a list one call
at a time: `List`, then `Bytes`, `uint` or `Raw` for each element, then
`ListEnd`. `Canonical` and `Raw` say what such calls read at the front of
the input or at toplevel; here they are read anywhere (`Consumed`), inside
any list. Two shapes that writers produce and that are not items are read
back as well: a raw value (`rlp.RawValue`, any value whose content is never
parsed, `IsValue`) and a list whose payload is given as bytes. `EndsAt`
tracks where the innermost open list ends, which is where the next `Kind`
returns `EOL` and `ListEnd` succeeds. -/

namespace Xdchain.Rlp.Values
open Xdchain.Lib.BigEndian Xdchain.Lib.ErrState Xdchain.Rlp.Decode Xdchain.Rlp.Encode
  Xdchain.Rlp.Canonical Xdchain.Rlp.Typed Xdchain.Rlp.Raw Xdchain.Rlp.Integers

/-- A successful read from `s` to `s'` took the bytes `v` off the input,
within the room `s` had. -/
def Consumed (s : Stream) (v : List UInt8) (s' : Stream) : Prop :=
  s.r = v ++ s'.r ∧ s.Room v.length ∧ After s v.length s'

theorem consumed_nil {s : Stream} (hk : s.kind = none) : Consumed s [] { s with kinderr := none } :=
  ⟨rfl, by simpa using room_zero s, by simpa using after_zero hk⟩

theorem Consumed.trans {s s1 s2 : Stream} {a b : List UInt8} (h1 : Consumed s a s1)
    (h2 : Consumed s1 b s2) : Consumed s (a ++ b) s2 := by
  obtain ⟨hr1, hroom1, ha1⟩ := h1
  obtain ⟨hr2, hroom2, ha2⟩ := h2
  refine ⟨by rw [hr1, hr2, List.append_assoc], ?_, ?_⟩
  · rw [List.length_append]
    exact Stream.room_of_read hroom1 (ha1.room_iff.mp hroom2)
  · rw [List.length_append]
    exact after_trans ha1 ha2

/-- A raw value: a single byte below `0x80`, or a string or list header and
the content it announces, whatever that content is. -/
def IsValue (v : List UInt8) : Prop := ∃ k c, Announces k c ∧ v = valueEnc k c

/-- The encoding of an item is a value. -/
theorem isValue_enc {t : Item} (ht : t.Fits) : IsValue t.enc := by
  cases t with
  | str b =>
    rcases encString_cases b with ⟨c, rfl, hc, he⟩ | ⟨he, -⟩
    · exact ⟨.byte, [c], ⟨rfl, by simpa using hc⟩, by rw [enc_str, he]; rfl⟩
    · exact ⟨.string, b, length_lt_of_fits ht, by rw [enc_str, he]; rfl⟩
  | list xs => exact ⟨.list, Item.encAll xs, length_encAll_lt ht, by rw [enc_list]; rfl⟩

/-! ## What a read consumed -/

/-- A method that starts with `Kind` runs on after the `Kind` it starts with. -/
theorem kind_then {α : Type} {dec : StreamM α} {s s' : Stream} {a : α} (hk : s.kind = none)
    (h : dec.run s = .ok a s') (hdec : ∃ g, dec = kind >>= g) :
    ∃ k n s1, kind.run s = .ok (k, n) s1 ∧ dec.run s1 = .ok a s' := by
  obtain ⟨g, rfl⟩ := hdec
  obtain ⟨⟨k, n⟩, s1, h1, -⟩ := run_bind_eq_ok h
  exact ⟨k, n, s1, h1, by rw [← run_cached_of_kind _ ⟨g, rfl⟩ hk h1]; exact h⟩

/-- **`Bytes` consumed the canonical encoding of the string it returned.** -/
theorem bytes_consumed {s s' : Stream} {b : List UInt8} (hk : s.kind = none)
    (h : bytes.run s = .ok b s') : Consumed s (Item.str b).enc s' := by
  obtain ⟨k, n, s1, hkind, h1⟩ := kind_then hk h ⟨_, rfl⟩
  obtain ⟨-, s0, -, -, rfl⟩ := kind_eq_ok hk hkind
  -- the string was read as `decodeInterface` reads a string, whose reads are canonical
  have hnl : k ≠ .list := by
    rintro rfl
    rcases bytes_eq_ok rfl rfl h1 with ⟨h, -⟩ | ⟨h, -⟩ <;> cases h
  have hdec : (decodeInterface 1).run s = .ok (.str b) s' := by
    unfold decodeInterface
    rw [run_bind_of_ok hkind]
    dsimp only
    rw [if_neg hnl, run_bind_of_ok h1]
    rfl
  exact decodeInterface_sound 1 hk hdec

/-- `Bytes` returns `EOL` only from its `Kind`, at the end of the innermost
list, having read nothing. -/
theorem bytes_eq_error_eol {s s' : Stream} (hk : s.kind = none) (h : bytes.run s = .error .eol s') :
    atEOL s = true ∧ s' = { s with kinderr := none } := by
  unfold bytes at h
  rcases run_bind_eq_error h with h1 | ⟨⟨k, n⟩, s1, h1, h2⟩
  · exact kind_eq_error_eol hk h1
  · obtain ⟨-, s0, -, -, rfl⟩ := kind_eq_ok hk h1
    exfalso
    -- after `Kind`, `Bytes` reads the cached kind and cannot meet `EOL`
    have h3 : bytes.run { s0 with kind := some k, size := n, kinderr := none } = .error .eol s' := by
      unfold bytes
      rw [run_bind_of_ok (run_kind_cached rfl rfl)]
      exact h2
    exact bytes_ne_eol rfl rfl h3

/-- The minimal bytes of a number from 128 on, read by `readUint`. -/
theorem readUint_beBytes {s s' : Stream} {size v : Nat} (h1 : 1 ≤ size)
    (hread : (readUint size).run s = .ok v s') (h128 : 128 ≤ v) :
    s.Room size ∧ s' = s.read size ∧ s.r.take size = beBytes v ∧ (beBytes v).length = size := by
  obtain ⟨hroom, hlen, rfl, hval, hlead⟩ := readUint_eq_ok h1 hread
  -- a leading zero byte is refused from two bytes on and gives a small value in one
  have hhead : (s.r.take size).head? ≠ some 0 := by
    by_cases h2 : 2 ≤ size
    · exact hlead h2
    · intro h0
      have hl1 : (s.r.take size).length = 1 := by rw [List.length_take]; omega
      obtain ⟨y, hy⟩ := List.length_eq_one_iff.mp hl1
      rw [hy] at h0 hval
      simp only [List.head?_cons, Option.some.injEq] at h0
      subst h0
      simp [beValue] at hval
      omega
  have hbe : beBytes v = s.r.take size := by rw [hval]; exact beBytes_beValue hhead
  exact ⟨hroom, rfl, hbe.symm, by rw [hbe, List.length_take]; omega⟩

/-- **`uint` consumed the canonical encoding of the number it returned.** -/
theorem uint_consumed {s s' : Stream} {v : Nat} (hk : s.kind = none) (h : (uint 64).run s = .ok v s') :
    v < 2 ^ 64 ∧ Consumed s (writeUint v).enc s' := by
  obtain ⟨k, n, s1, hkind, h1⟩ := kind_then hk h ⟨_, rfl⟩
  rcases kind_fresh_eq_ok hk hkind with ⟨rfl, rfl, c, hc, hr, hroom, rfl⟩ |
    ⟨hkb, -, hr, hroom, -, rfl⟩
  · -- a single byte, which is not zero
    rcases uint_eq_ok rfl rfl h1 with ⟨-, hc0, rfl, rfl⟩ | ⟨hk', -⟩
    · have hc0' : c.toNat ≠ 0 := fun h0 => hc0 (UInt8.toNat_inj.mp h0)
      have he : (writeUint c.toNat).enc = [c] := by
        rw [writeUint, enc_str, beBytes_of_lt hc0' c.toNat_lt, UInt8.ofNat_toNat]
        simp [encString, hc]
      show c.toNat < 2 ^ 64 ∧ Consumed s (writeUint c.toNat).enc _
      refine ⟨by have := c.toNat_lt; omega, ?_⟩
      rw [he]
      exact ⟨hr, hroom, 0, c, rfl⟩
    · cases hk'
  · rcases uint_eq_ok rfl rfl h1 with ⟨hk', -⟩ | ⟨rfl, hsize, hread, hv⟩
    · exact absurd hk' hkb
    simp only [headerTag_string] at hr hroom ⊢
    dsimp only at hsize hread hv
    have hsize' : n ≤ 8 := by simpa using hsize
    by_cases hn0 : n = 0
    · -- the empty string is zero
      subst hn0
      rw [run_readUint_zero] at hread
      cases hread
      have he : (writeUint 0).enc = header 0x80 0 := rfl
      refine ⟨by norm_num, ?_⟩
      rw [he]
      exact ⟨by simpa using hr, hroom, 0, 0, rfl⟩
    · -- a string of the minimal bytes of a number from 128 on
      obtain ⟨hroom2, rfl, htake, hlen⟩ := readUint_beBytes (by omega) hread (by omega)
      simp only [Stream.read_r] at htake
      have h128 : 128 ≤ v := by omega
      have he : (writeUint v).enc = header 0x80 n ++ beBytes v := by
        rw [writeUint, enc_str, encString_beBytes_of_not_short (.inr h128), hlen]
      refine ⟨lt_of_length_beBytes_le (by omega), ?_, ?_, ?_⟩
      · rw [he, hr, List.append_assoc, ← htake]
        simp
      · rw [he, List.length_append, hlen]
        exact Stream.room_of_read hroom hroom2
      · rw [he, List.length_append, hlen]
        exact ⟨n, 0, by rw [← Stream.read_read]; rfl⟩

/-- **`Raw` consumed the value it returned.** -/
theorem raw_consumed {s s' : Stream} {v : List UInt8} (hk : s.kind = none) (h : raw.run s = .ok v s') :
    IsValue v ∧ Consumed s v s' := by
  obtain ⟨k, n, s1, hkind, h1⟩ := kind_then hk h ⟨_, rfl⟩
  rcases kind_fresh_eq_ok hk hkind with ⟨rfl, rfl, c, hc, hr, hroom, rfl⟩ |
    ⟨hkb, hn, hr, hroom, -, rfl⟩
  · rcases raw_eq_ok rfl rfl (by simp) h1 with ⟨-, rfl, rfl⟩ | ⟨hkb, -⟩
    · exact ⟨⟨.byte, [c], ⟨rfl, by simpa using hc⟩, rfl⟩, hr, hroom, 0, c, rfl⟩
    · exact absurd rfl hkb
  · rcases raw_eq_ok rfl rfl hn h1 with ⟨hb, -⟩ | ⟨-, hroom2, hlen, rfl, rfl⟩
    · exact absurd hb hkb
    simp only [Stream.read_r] at hlen ⊢
    set R := s.r.drop (header (headerTag k) n).length with hR
    have hc : (R.take n).length = n := by rw [List.length_take]; omega
    refine ⟨⟨k, R.take n, (announces_of_ne_byte hkb).mpr (by omega), by
      rw [valueEnc_of_ne_byte hkb, hc]⟩, ?_, ?_, ?_⟩
    · rw [hr, List.append_assoc]
      simp [R]
    · rw [List.length_append, hc]
      exact Stream.room_of_read hroom hroom2
    · rw [List.length_append, hc]
      exact ⟨n, 0, by rw [← Stream.read_read]; rfl⟩

/-- **`List` consumed a list header**, and opened the list on the stack. -/
theorem list_consumed {s s1 : Stream} {n : Nat} (hk : s.kind = none) (h : list.run s = .ok n s1) :
    (∃ s0, kind.run s = .ok (.list, n) s0) ∧ s.r = header 0xC0 n ++ s1.r ∧
      s.Room (header 0xC0 n).length ∧ s1.kind = none ∧ s1.kinderr = none ∧
      s1.stack = ⟨0, n⟩ :: Stream.bump s.stack (header 0xC0 n).length := by
  obtain ⟨k, m, s0, hkind, h1⟩ := kind_then hk h ⟨_, rfl⟩
  rcases kind_fresh_eq_ok hk hkind with ⟨rfl, rfl, c, hc, hr, hroom, rfl⟩ | ⟨-, -, hr, hroom, -, rfl⟩
  · obtain ⟨h, -⟩ := list_eq_ok rfl rfl h1
    cases h
  · obtain ⟨rfl, rfl, rfl⟩ := list_eq_ok rfl rfl h1
    exact ⟨⟨_, hkind⟩, hr, hroom, rfl, rfl, rfl⟩

/-! ## Where the innermost list ends -/

/-- The innermost open list ends `n` bytes ahead. -/
def EndsAt (s : Stream) (n : Nat) : Prop :=
  ∃ tos others, s.stack = tos :: others ∧ tos.pos + n = tos.size

theorem EndsAt.after {s s' : Stream} {a n : Nat} (h : EndsAt s (a + n)) (ha : After s a s') :
    EndsAt s' n := by
  obtain ⟨tos, others, hst, hend⟩ := h
  refine ⟨{ tos with pos := tos.pos + a }, others, ?_, by simp only; omega⟩
  rw [ha.stack_eq, hst]
  rfl

theorem EndsAt.atEOL {s : Stream} (h : EndsAt s 0) : atEOL s = true := by
  obtain ⟨tos, others, hst, hend⟩ := h
  unfold Decode.atEOL
  rw [hst]
  simpa using hend

/-- `ListEnd` succeeds only where the list ends: the bytes read inside it
since it was opened are its size. -/
theorem listEnd_after_open {s1 s2 s3 : Stream} {n m : Nat} {others : List Listpos}
    (hst : s1.stack = ⟨0, n⟩ :: others) (ha : After s1 m s2) (h : listEnd.run s2 = .ok () s3) :
    m = n := by
  obtain ⟨tos, rest, hst2, hpos, -⟩ := listEnd_eq_ok h
  rw [ha.stack_eq, hst] at hst2
  simp only [Stream.bump, List.cons.injEq] at hst2
  obtain ⟨rfl, -⟩ := hst2
  simpa using hpos

/-! ## Reading raw values and payloads back -/

/-- A stream over a byte slice of its own, with no input limit given, stands
at toplevel over it. -/
theorem atTop_reset_zero (b : List UInt8) : AtTop (reset b 0) b where
  r_eq := rfl
  remaining_eq := by simp [reset]
  limited := rfl
  stack_eq := rfl
  kind_eq := rfl
  kinderr_eq := rfl

/-- **`Raw` reads a value back** wherever it stands. -/
theorem Pos.raw_value {s : Stream} {v more rest : List UInt8} (hp : Pos s (v ++ more) rest)
    (hv : IsValue v) : ∃ s1, raw.run s = .ok v s1 ∧ After s v.length s1 ∧ Pos s1 more rest := by
  obtain ⟨k, c, ha, rfl⟩ := hv
  have hlen := hp.length_lt
  have hroom := hp.room
  rw [List.length_append] at hlen hroom
  by_cases hkb : k = .byte
  · -- a single byte stands for itself
    subst hkb
    obtain ⟨x, rfl⟩ := List.length_eq_one_iff.mp ha.1
    have hx : x < 0x80 := by simpa using ha.2
    have hr : ({ s with kinderr := none } : Stream).r = x :: (more ++ rest) := by
      show s.r = _
      rw [hp.r_eq]
      rfl
    have hroom1 : s.Room 1 := (Stream.room_add hroom).1
    have hread := run_readKind_byte hr hx hroom1
    have hkind := run_kind_fresh hp.kind_eq (atEOL_false_of_room hroom1 (by simp)) hread (fits_zero _)
    have hafter : After s 1 { s.read 1 with size := 0, byteval := x, kinderr := none } := ⟨0, x, rfl⟩
    refine ⟨_, ?_, hafter, hp.after hafter⟩
    unfold raw
    rw [run_bind_of_ok hkind]
    rfl
  · rw [valueEnc_of_ne_byte hkb] at hp hroom ⊢
    have hr : s.r = header (headerTag k) c.length ++ (c ++ (more ++ rest)) := by
      rw [hp.r_eq]
      simp
    have hroom' : s.Room ((header (headerTag k) c.length).length + c.length) :=
      (Stream.room_add (by rw [List.length_append] at hroom; omega)).1
    obtain ⟨s1, hraw, hafter⟩ :=
      run_raw_header hp.kind_eq hkb ((announces_of_ne_byte hkb).mp ha) hr hroom'
    have hafter' : After s (header (headerTag k) c.length ++ c).length s1 := by
      rw [List.length_append]
      exact hafter
    exact ⟨s1, hraw, hafter', hp.after hafter'⟩

/-- **A list of a given payload**: `List` opens it with room for exactly the
payload, and once that is read `ListEnd` closes it where it ends. -/
theorem Pos.list_payload {s : Stream} {p more rest : List UInt8}
    (hp : Pos s (header 0xC0 p.length ++ p ++ more) rest) :
    ∃ s1, list.run s = .ok p.length s1 ∧ Pos s1 p (more ++ rest) ∧ EndsAt s1 p.length ∧
      ∀ s2, After s1 p.length s2 →
        ∃ s3, listEnd.run s2 = .ok () s3 ∧ After s (header 0xC0 p.length ++ p).length s3 ∧
          Pos s3 more rest := by
  have hlen := hp.length_lt
  have hroom := hp.room
  simp only [List.length_append] at hlen hroom
  have hr : s.r = header 0xC0 p.length ++ (p ++ (more ++ rest)) := by
    rw [hp.r_eq]
    simp
  have hroom1 : s.Room ((header 0xC0 p.length).length + p.length) :=
    (Stream.room_add (show s.Room ((header 0xC0 p.length).length + p.length + more.length) from hroom)).1
  have hkind := run_kind_header (k := .list) hp.kind_eq (by simp) (by omega) hr hroom1
  simp only [headerTag_list] at hkind
  have hlist := run_list (s := { s.read (header 0xC0 p.length).length with
    byteval := 0, kind := some .list, size := p.length, kinderr := none }) rfl rfl
  rw [← run_cached_of_kind list ⟨_, rfl⟩ hp.kind_eq hkind] at hlist
  obtain ⟨hroomh, hroomp⟩ := Stream.room_add hroom1
  refine ⟨_, hlist, ⟨rfl, rfl, by omega, by simp [hr], ?_⟩, ⟨_, _, rfl, by simp⟩,
    fun s2 ha2 => ?_⟩
  · exact ⟨fun tos htos => by simp at htos; subst htos; simp, hroomp.2⟩
  · -- the stack after the payload: the list read to its end
    have hst2 : s2.stack = ⟨p.length, p.length⟩ ::
        (s.read (header 0xC0 p.length).length).stack := by
      rw [ha2.stack_eq]
      simp [Stream.bump]
    obtain ⟨sz, bv, rfl⟩ := ha2
    have hafter : After s (header 0xC0 p.length ++ p).length
        { (s.read (header 0xC0 p.length).length).read p.length with
          size := 0, byteval := bv, kinderr := none } := by
      refine ⟨0, bv, ?_⟩
      rw [List.length_append, ← Stream.read_read]
    refine ⟨_, run_listEnd hst2 rfl, hafter, hp.after hafter⟩

end Xdchain.Rlp.Values
