import Xdchain.Enr.Record

/-! # Encoding and decoding records

A record's encoding is one RLP list: the signature, the sequence number,
then each key and its raw value. `DecodeBytes` reads it back as it was
written (`DecodeBytes_encode`), so a record signed by `SetSig` comes back
from its `EncodeRLP` bytes unchanged; and whatever `DecodeBytes` accepts is
the encoding of the record it returns (`DecodeBytes_sound`), so two byte
strings that decode to the same signature, sequence number and pairs are
the same. Both directions rest on the readers of `Rlp.Values`: strings and
integers are read only in their canonical form, raw values are taken as
they stand and written back as they were read. -/

namespace Xdchain.Enr

open Xdchain.Lib Xdchain.Lib.SortedKeys Xdchain.Lib.ErrState Xdchain.Rlp Xdchain.Rlp.Decode
  Xdchain.Rlp.Encode Xdchain.Rlp.Canonical Xdchain.Rlp.Typed Xdchain.Rlp.Raw Xdchain.Rlp.Integers Xdchain.Rlp.Values

/-! ## The stream methods with this package's errors -/

theorem run_rlpM {α : Type} (m : StreamM α) (s : Stream) :
    (rlpM m).run s = match m.run s with
      | .ok a s' => .ok a s'
      | .error e s' => .error (Err.rlp e) s' := by
  simp only [rlpM, EStateM.adaptExcept, EStateM.run]
  cases m s <;> rfl

theorem rlpM_of_ok {α : Type} {m : StreamM α} {s s' : Stream} {a : α} (h : m.run s = .ok a s') :
    (rlpM m).run s = .ok a s' := by
  rw [run_rlpM, h]

theorem rlpM_eq_ok {α : Type} {m : StreamM α} {s s' : Stream} {a : α} (h : (rlpM m).run s = .ok a s') :
    m.run s = .ok a s' := by
  rw [run_rlpM] at h
  cases hm : m.run s with
  | ok b s1 =>
    rw [hm] at h
    cases h
    rfl
  | error e s1 =>
    rw [hm] at h
    cases h

/-! ## The bytes of a record -/

/-- The pairs as `encode` writes them: each key as a string, then its raw
value. -/
def pairsEnc (ps : List pair) : List UInt8 := ps.flatMap fun p => (Item.str p.k).enc ++ p.v

@[simp] theorem pairsEnc_nil : pairsEnc [] = [] := rfl

@[simp] theorem pairsEnc_cons (p : pair) (ps : List pair) :
    pairsEnc (p :: ps) = (Item.str p.k).enc ++ (p.v ++ pairsEnc ps) := by
  simp [pairsEnc]

/-- The payload of a record's list. -/
def payload (sig : List UInt8) (seq : UInt64) (ps : List pair) : List UInt8 :=
  (Item.str sig).enc ++ ((writeUint seq.toNat).enc ++ pairsEnc ps)

/-- The list `encode` writes is the header of the payload, then the payload. -/
theorem encodeList_AppendElements (r : Record) (sig : List UInt8) :
    encodeList (r.AppendElements [.bytes sig]) =
      header 0xC0 (payload sig r.seq r.pairs).length ++ payload sig r.seq r.pairs := by
  have hp : (r.AppendElements [.bytes sig]).flatMap Elem.enc = payload sig r.seq r.pairs := by
    simp [Record.AppendElements, payload, pairsEnc, Elem.enc, List.flatMap_assoc]
  rw [encodeList, hp]

theorem encode_eq_ok {r : Record} {sig raw : List UInt8} :
    r.encode sig = .ok raw ↔
      raw = header 0xC0 (payload sig r.seq r.pairs).length ++ payload sig r.seq r.pairs ∧
        raw.length ≤ SizeLimit := by
  unfold Record.encode
  rw [encodeList_AppendElements]
  dsimp only
  split
  · rename_i h
    simp only [reduceCtorEq, false_iff, not_and, not_le]
    intro hraw
    rw [hraw]
    exact h
  · rename_i h
    simp only [Except.ok.injEq]
    constructor
    · rintro rfl
      exact ⟨rfl, by omega⟩
    · rintro ⟨rfl, -⟩
      rfl

/-! ## Records that encode -/

/-- What a decoded record is, and what a record needs for its encoding to
read back: keys strictly increasing, and a value under each. -/
structure WellFormed (r : Record) : Prop where
  sorted : r.Sorted
  values : ∀ p ∈ r.pairs, IsValue p.v

theorem empty_wellFormed : WellFormed Record.empty := ⟨Record.empty_sorted, fun _ h => by cases h⟩

/-- An entry `Set` stores is its encoding, a value when it fits Go's sizes. -/
theorem Set_wellFormed {r : Record} (hw : WellFormed r) (key : List UInt8) {e : Item} (he : e.Fits) :
    WellFormed (r.Set key e) := by
  refine ⟨Record.Set_sorted hw.sorted key e, fun p hp => ?_⟩
  rw [Record.Set_pairs hw.sorted] at hp
  rcases mem_upsert hp with rfl | hp
  · show IsValue (encodeToBytes e)
    rw [encodeToBytes_eq e he]
    exact isValue_enc he
  · exact hw.values p hp

theorem apply_wellFormed {r r' : Record} {op : Op} (hw : WellFormed r)
    (hfit : ∀ key e, op = .Set key e → e.Fits) (h : r.apply op = some r') : WellFormed r' := by
  cases op with
  | Set key e =>
    cases h
    exact Set_wellFormed hw key (hfit key e rfl)
  | SetSeq s =>
    cases h
    exact ⟨hw.sorted, hw.values⟩
  | SetSig s sig =>
    simp only [Record.apply, Option.map_eq_some_iff] at h
    obtain ⟨res, hres, rfl⟩ := h
    cases res with
    | ok r' =>
      have hp := Record.SetSig_pairs hres
      exact ⟨by unfold Record.Sorted; rw [hp]; exact hw.sorted, by rw [hp]; exact hw.values⟩
    | error _ => exact hw

/-- **Every record a run builds from entries that fit is well formed.** -/
theorem run_wellFormed : ∀ {r r' : Record} {ops : List Op}, WellFormed r →
    (∀ key e, Op.Set key e ∈ ops → e.Fits) → r.run ops = some r' → WellFormed r'
  | r, r', [], hw, _, h => by
    cases h
    exact hw
  | r, r', op :: ops, hw, hfit, h => by
    obtain ⟨r1, h1, hrun⟩ := Option.bind_eq_some_iff.mp h
    have hw1 := apply_wellFormed hw (fun key e hop => hfit key e (hop ▸ List.mem_cons_self)) h1
    exact run_wellFormed hw1 (fun key e hmem => hfit key e (List.mem_cons_of_mem op hmem)) hrun

/-! ## The loop over the pairs -/

/-- Every key of `ps` is above `prevkey`. -/
def Above (prevkey : Option (List UInt8)) (ps : List pair) : Prop := ∀ p ∈ prevkey, ∀ q ∈ ps, p < q.k

theorem checkKey_eq_ok {prevkey : Option (List UInt8)} {k : List UInt8} :
    checkKey prevkey k = .ok () ↔ ∀ p ∈ prevkey, p < k := by
  cases prevkey with
  | none => simp [checkKey]
  | some p =>
    simp only [checkKey, Option.mem_def, Option.some.injEq, forall_eq']
    split_ifs with heq hlt
    · subst heq
      simp [List.lt_irrefl]
    · simp only [false_iff]
      exact List.lt_asymm hlt
    · simp only [true_iff]
      exact lt_of_not_lt_of_ne hlt heq

/-- At the end of the list the loop stops, having read nothing. -/
theorem decodePairs_run_eol {fuel : Nat} {prevkey : Option (List UInt8)} {s s1 : Stream}
    (h : bytes.run s = .error .eol s1) : (decodePairs (fuel + 1) prevkey).run s = .ok [] s1 := by
  simp only [decodePairs]
  rw [run_bind_of_ok (rlpM_of_ok (run_attempt_of_error h))]
  rfl

/-- A key, a value in order, then the rest of the loop. -/
theorem decodePairs_run_pair {fuel : Nat} {prevkey : Option (List UInt8)} {s s1 s2 : Stream}
    {k v : List UInt8} (h1 : bytes.run s = .ok k s1) (h2 : raw.run s1 = .ok v s2)
    (hc : checkKey prevkey k = .ok ()) :
    (decodePairs (fuel + 1) prevkey).run s = (List.cons ⟨k, v⟩ <$> decodePairs fuel (some k)).run s2 := by
  simp only [decodePairs]
  rw [run_bind_of_ok (rlpM_of_ok (run_attempt_of_ok h1))]
  dsimp only
  rw [run_bind_of_ok (rlpM_of_ok (run_attempt_of_ok h2))]
  dsimp only
  rw [hc]
  rfl

/-- **What one round of the loop did**: it met the end of the list, or read
a key and a value in order and went on. -/
theorem decodePairs_succ_eq_ok {fuel : Nat} {prevkey : Option (List UInt8)} {s s' : Stream}
    {ps : List pair} (h : (decodePairs (fuel + 1) prevkey).run s = .ok ps s') :
    (bytes.run s = .error .eol s' ∧ ps = []) ∨
      ∃ k v s1 s2 ps', bytes.run s = .ok k s1 ∧ raw.run s1 = .ok v s2 ∧
        checkKey prevkey k = .ok () ∧ (decodePairs fuel (some k)).run s2 = .ok ps' s' ∧
        ps = ⟨k, v⟩ :: ps' := by
  cases hb : bytes.run s with
  | error e s1 =>
    by_cases he : e = .eol
    · subst he
      rw [decodePairs_run_eol hb] at h
      cases h
      exact .inl ⟨rfl, rfl⟩
    · -- any other error of the key is passed on
      exfalso
      simp only [decodePairs] at h
      rw [run_bind_of_ok (rlpM_of_ok (run_attempt_of_error hb))] at h
      cases e <;> first | exact he rfl | cases h
  | ok k s1 =>
    cases hr : raw.run s1 with
    | error e s2 =>
      exfalso
      simp only [decodePairs] at h
      rw [run_bind_of_ok (rlpM_of_ok (run_attempt_of_ok hb))] at h
      dsimp only at h
      rw [run_bind_of_ok (rlpM_of_ok (run_attempt_of_error hr))] at h
      cases e <;> cases h
    | ok v s2 =>
      cases hc : checkKey prevkey k with
      | error e =>
        exfalso
        simp only [decodePairs] at h
        rw [run_bind_of_ok (rlpM_of_ok (run_attempt_of_ok hb))] at h
        dsimp only at h
        rw [run_bind_of_ok (rlpM_of_ok (run_attempt_of_ok hr))] at h
        dsimp only at h
        rw [hc] at h
        cases h
      | ok u =>
        rw [decodePairs_run_pair hb hr hc, run_map_eq] at h
        cases hd : (decodePairs fuel (some k)).run s2 with
        | ok ps' s3 =>
          rw [hd] at h
          cases h
          exact .inr ⟨k, v, s1, s2, ps', rfl, hr, hc, hd, rfl⟩
        | error e s3 =>
          rw [hd] at h
          cases h

/-- **The loop reads back the pairs `encode` wrote**, each key above the one
before it, and stops where the list ends. -/
theorem decodePairs_reads : ∀ (ps : List pair) {fuel : Nat} {prevkey : Option (List UInt8)}
    {s : Stream} {rest : List UInt8}, StrictlySorted pair.k ps → (∀ p ∈ ps, IsValue p.v) →
    Above prevkey ps → ps.length < fuel → Pos s (pairsEnc ps) rest → EndsAt s (pairsEnc ps).length →
    ∃ s', (decodePairs fuel prevkey).run s = .ok ps s' ∧ After s (pairsEnc ps).length s'
  | [], fuel + 1, _, s, _, _, _, _, _, hp, hend =>
    ⟨_, decodePairs_run_eol (stopsAtEOL_bytes s hp.kind_eq hend.atEOL), after_zero hp.kind_eq⟩
  | p :: ps, fuel + 1, prevkey, s, rest, hs, hv, habove, hfuel, hp, hend => by
    rw [pairsEnc_cons] at hp hend ⊢
    obtain ⟨hhead, hs'⟩ := List.pairwise_cons.mp hs
    obtain ⟨s1, h1, ha1, hp1⟩ := Pos.reads (reads_bytes p.k) hp
    obtain ⟨s2, h2, ha2, hp2⟩ := Pos.raw_value hp1 (hv p List.mem_cons_self)
    have hc : checkKey prevkey p.k = .ok () :=
      checkKey_eq_ok.mpr fun q hq => habove q hq p List.mem_cons_self
    -- what is left of the list after the key and its value is the rest of the pairs
    have hend2 : EndsAt s2 (pairsEnc ps).length := by
      simp only [List.length_append] at hend
      exact (hend.after ha1).after ha2
    have habove' : Above (some p.k) ps := by
      intro q hq r hr
      cases hq
      exact hhead r hr
    obtain ⟨s', h3, ha3⟩ := decodePairs_reads ps hs' (fun q hq => hv q (List.mem_cons_of_mem p hq))
      habove' (show ps.length < fuel by simp only [List.length_cons] at hfuel; omega) hp2 hend2
    refine ⟨s', ?_, ?_⟩
    · rw [decodePairs_run_pair h1 h2 hc, run_map_eq, h3]
    · exact After.length_eq (after_trans ha1 (after_trans ha2 ha3)) (by simp)

/-- **What the loop returns is what it read**: the pairs' encoding, keys
strictly increasing above the key before them, a value under each. -/
theorem decodePairs_sound : ∀ (fuel : Nat) {prevkey : Option (List UInt8)} {s s' : Stream}
    {ps : List pair}, s.kind = none → (decodePairs fuel prevkey).run s = .ok ps s' →
    Consumed s (pairsEnc ps) s' ∧ StrictlySorted pair.k ps ∧ Above prevkey ps ∧
      ∀ p ∈ ps, IsValue p.v
  | 0, _, _, _, _, _, h => by
    simp [decodePairs] at h
  | fuel + 1, prevkey, s, s', ps, hk, h => by
    rcases decodePairs_succ_eq_ok h with ⟨hb, rfl⟩ | ⟨k, v, s1, s2, ps', hb, hr, hc, hd, rfl⟩
    · obtain ⟨-, rfl⟩ := bytes_eq_error_eol hk hb
      refine ⟨consumed_nil hk, List.Pairwise.nil, ?_, ?_⟩
      · intro _ _ _ h
        cases h
      · intro _ h
        cases h
    · have hc1 := bytes_consumed hk hb
      obtain ⟨hval, hc2⟩ := raw_consumed hc1.2.2.kind_eq hr
      obtain ⟨hc3, hs3, habove3, hv3⟩ := decodePairs_sound fuel hc2.2.2.kind_eq hd
      have hlt : ∀ p ∈ prevkey, p < k := checkKey_eq_ok.mp hc
      refine ⟨?_, ?_, ?_, ?_⟩
      · rw [pairsEnc_cons]
        exact hc1.trans (hc2.trans hc3)
      · exact List.pairwise_cons.mpr ⟨fun q hq => habove3 k rfl q hq, hs3⟩
      · intro p hp q hq
        rcases List.mem_cons.mp hq with rfl | hq
        · exact hlt p hp
        · exact List.lt_trans (hlt p hp) (habove3 k rfl q hq)
      · intro q hq
        rcases List.mem_cons.mp hq with rfl | hq
        · exact hval
        · exact hv3 q hq

/-! ## The record's list -/

theorem length_le_pairsEnc (ps : List pair) : ps.length ≤ (pairsEnc ps).length := by
  induction ps with
  | nil => simp
  | cons p ps ih =>
    have := length_enc_pos (.str p.k)
    simp only [pairsEnc_cons, List.length_append, List.length_cons]
    omega

/-- **The container reads back a record's list**: its signature, sequence
number and pairs, with `raw` left empty. -/
theorem decodeContainer_reads {sig : List UInt8} {seq : UInt64} {ps : List pair} {fuel : Nat}
    {s : Stream} {more rest : List UInt8} (hs : StrictlySorted pair.k ps)
    (hv : ∀ p ∈ ps, IsValue p.v) (hfuel : ps.length < fuel)
    (hp : Pos s (header 0xC0 (payload sig seq ps).length ++ payload sig seq ps ++ more) rest) :
    ∃ s', (decodeContainer fuel).run s = .ok ⟨seq, some sig, [], ps⟩ s' ∧ Pos s' more rest := by
  obtain ⟨s1, hlist, hp1, hend, hclose⟩ := Pos.list_payload hp
  unfold payload at hp1 hend
  obtain ⟨s2, hb, ha2, hp2⟩ := Pos.reads (reads_bytes sig) hp1
  obtain ⟨s3, hu, ha3, hp3⟩ := Pos.reads (reads_uint seq.toNat_lt) hp2
  have hend3 : EndsAt s3 (pairsEnc ps).length := by
    simp only [List.length_append] at hend
    exact (hend.after ha2).after ha3
  obtain ⟨s4, hd, ha4⟩ := decodePairs_reads ps hs hv (fun _ h => absurd h (Option.not_mem_none _)) hfuel hp3 hend3
  obtain ⟨s5, h5, -, hp5⟩ := hclose s4
    (After.length_eq (after_trans ha2 (after_trans ha3 ha4)) (by simp [payload]))
  refine ⟨s5, ?_, hp5⟩
  unfold decodeContainer
  rw [run_bind_of_ok (rlpM_of_ok hlist), run_bind_of_ok (rlpM_of_ok hb),
    run_bind_of_ok (rlpM_of_ok hu), run_bind_of_ok hd, run_bind_of_ok (rlpM_of_ok h5)]
  simp

/-- **What the container returns is what it read**: a list whose payload
holds the signature, the sequence number and the pairs as `encode` writes
them, keys strictly increasing and a value under each. -/
theorem decodeContainer_sound {fuel : Nat} {s s' : Stream} {dec : Record} (hk : s.kind = none)
    (h : (decodeContainer fuel).run s = .ok dec s') :
    ∃ sig, dec.signature = some sig ∧ dec.raw = [] ∧ WellFormed dec ∧
      (∃ s0, kind.run s = .ok (.list, (payload sig dec.seq dec.pairs).length) s0) ∧
      s.r = header 0xC0 (payload sig dec.seq dec.pairs).length ++ payload sig dec.seq dec.pairs ++
        s'.r := by
  unfold decodeContainer at h
  obtain ⟨n, s1, h1, h⟩ := run_bind_eq_ok h
  obtain ⟨⟨s0, hkind⟩, hr1, -, hk1, -, hst1⟩ := list_consumed hk (rlpM_eq_ok h1)
  obtain ⟨sig, s2, h2, h⟩ := run_bind_eq_ok h
  have hc2 := bytes_consumed hk1 (rlpM_eq_ok h2)
  obtain ⟨v, s3, h3, h⟩ := run_bind_eq_ok h
  obtain ⟨hv, hc3⟩ := uint_consumed hc2.2.2.kind_eq (rlpM_eq_ok h3)
  obtain ⟨ps, s4, h4, h⟩ := run_bind_eq_ok h
  obtain ⟨hc4, hs4, -, hv4⟩ := decodePairs_sound fuel hc3.2.2.kind_eq h4
  obtain ⟨u, s5, h5, h⟩ := run_bind_eq_ok h
  cases h
  -- the payload, read between List and ListEnd, is what ListEnd closes
  have hpay : Consumed s1 (payload sig (UInt64.ofNat v) ps) s4 := by
    unfold payload
    rw [UInt64.toNat_ofNat_of_lt' hv]
    exact hc2.trans (hc3.trans hc4)
  have hn := listEnd_after_open hst1 hpay.2.2 (rlpM_eq_ok h5)
  obtain ⟨-, -, -, -, rfl⟩ := listEnd_eq_ok (rlpM_eq_ok h5)
  rw [← hn] at hkind hr1
  refine ⟨sig, rfl, rfl, ⟨hs4, hv4⟩, ⟨s0, hkind⟩, ?_⟩
  rw [hr1, hpay.1]
  simp

/-- `decodeRecord` after `Raw`: the size check, then the container over the
value's bytes alone. -/
theorem run_decodeRecord {s s1 : Stream} {b : List UInt8} (hraw : raw.run s = .ok b s1) :
    decodeRecord.run s =
      if b.length > SizeLimit then .error .tooBig s1
      else match (decodeContainer b.length).run (reset b 0) with
        | .ok dec _ => .ok (dec, b) s1
        | .error err _ => .error err s1 := by
  unfold decodeRecord
  rw [run_bind_of_ok (rlpM_of_ok hraw)]
  split
  · rfl
  · cases (decodeContainer b.length).run (reset b 0) <;> rfl

/-- **What `decodeRecord` returns is a record's list**, within `SizeLimit`:
the value it read is the header and the payload the container read, and
nothing else. -/
theorem decodeRecord_sound {s s' : Stream} {dec : Record} {b : List UInt8} (hk : s.kind = none)
    (h : decodeRecord.run s = .ok (dec, b) s') :
    WellFormed dec ∧ dec.raw = [] ∧ b.length ≤ SizeLimit ∧ s.r = b ++ s'.r ∧
      ∃ sig, dec.signature = some sig ∧
        b = header 0xC0 (payload sig dec.seq dec.pairs).length ++ payload sig dec.seq dec.pairs := by
  unfold decodeRecord at h
  obtain ⟨b', s1, h1, h⟩ := run_bind_eq_ok h
  obtain ⟨⟨k, c, hann, hbv⟩, hc⟩ := raw_consumed hk (rlpM_eq_ok h1)
  split_ifs at h with hsz
  · cases h
  split at h
  case h_2 => cases h
  rename_i dec' s2 hcont
  cases h
  obtain ⟨sig, hsig, hraw, hw, ⟨s0, hkind⟩, hr⟩ := decodeContainer_sound rfl hcont
  refine ⟨hw, hraw, by omega, hc.1, sig, hsig, ?_⟩
  -- the value Raw read is the list the container opened: nothing trails its payload
  subst hbv
  obtain ⟨s1', -, hkind', -, -⟩ :=
    AtTop.read_value (show AtTop (reset (valueEnc k c) 0) (valueEnc k c ++ []) by
      simpa using atTop_reset_zero (valueEnc k c)) hann
  rw [hkind] at hkind'
  simp only [EStateM.Result.ok.injEq, Prod.mk.injEq] at hkind'
  obtain ⟨⟨rfl, hlen⟩, -⟩ := hkind'
  simp only [reduceCtorEq, if_false] at hlen
  change header 0xC0 c.length ++ c = _ ++ _ ++ _ at hr
  rw [← hlen, List.append_assoc, List.append_cancel_left_eq] at hr
  have htrail : s2.r = [] := by
    have := congrArg List.length hr
    simp only [List.length_append] at this
    exact List.eq_nil_of_length_eq_zero (by omega)
  rw [htrail, List.append_nil] at hr
  show header 0xC0 c.length ++ c = _
  rw [← hlen, hr]

/-! ## Byte strings and records -/

/-- `DecodeBytes` is `DecodeRLP` over the bytes, with nothing left after it. -/
theorem DecodeBytes_eq_ok {b : List UInt8} {r : Record} :
    DecodeBytes b = .ok r ↔ ∃ dec raw s', decodeRecord.run (reset b b.length) = .ok (dec, raw) s' ∧
      s'.r = [] ∧ r = { dec with raw } := by
  unfold DecodeBytes Record.DecodeRLP
  constructor
  · intro h
    split at h
    · rename_i r' s' hrun
      obtain ⟨⟨dec, raw⟩, s1, h1, h2⟩ := run_bind_eq_ok hrun
      simp only [EStateM.run_pure, EStateM.Result.ok.injEq] at h2
      obtain ⟨rfl, rfl⟩ := h2
      split_ifs at h with htrail
      cases h
      exact ⟨dec, raw, s1, h1, List.eq_nil_of_length_eq_zero (by omega), rfl⟩
    · cases h
  · rintro ⟨dec, raw, s', h1, htrail, rfl⟩
    rw [run_bind_of_ok h1]
    simp [htrail]

/-- **A record reads back from its encoding**, with the signature it was
signed with and the encoding as its bytes. -/
theorem DecodeBytes_encode {r : Record} {sig b : List UInt8} (hw : WellFormed r)
    (he : r.encode sig = .ok b) : DecodeBytes b = .ok { r with signature := some sig, raw := b } := by
  obtain ⟨hb, hlen⟩ := encode_eq_ok.mp he
  have hfits : b.length < 2 ^ 64 := by
    unfold SizeLimit at hlen
    omega
  -- the encoding is one list value, which Raw takes whole
  have hval : IsValue b := ⟨.list, payload sig r.seq r.pairs, by
    show (payload sig r.seq r.pairs).length < 2 ^ 64
    rw [hb, List.length_append] at hfits
    omega, hb⟩
  obtain ⟨s1, hraw, -, hp1⟩ := Pos.raw_value
    (show Pos (reset b b.length) (b ++ []) [] by simpa using pos_reset hfits b.length (.inr rfl)) hval
  -- and the container reads the record from it, its pairs fewer than its bytes
  have hfuel : r.pairs.length < b.length := by
    have h1 := length_le_pairsEnc r.pairs
    have h2 := length_enc_pos (.str sig)
    rw [hb]
    simp only [payload, List.length_append]
    omega
  obtain ⟨s2, hcont, -⟩ := decodeContainer_reads hw.sorted hw.values hfuel
    (show Pos (reset b 0) (header 0xC0 (payload sig r.seq r.pairs).length ++
        payload sig r.seq r.pairs ++ []) [] by
      rw [List.append_nil, ← hb]
      exact pos_reset hfits 0 (.inl rfl))
  have hrec : decodeRecord.run (reset b b.length) = .ok (⟨r.seq, some sig, [], r.pairs⟩, b) s1 := by
    rw [run_decodeRecord hraw, if_neg (by omega), hcont]
  exact DecodeBytes_eq_ok.mpr ⟨_, b, s1, hrec, by simpa using hp1.r_eq, rfl⟩

/-- **What `DecodeBytes` accepts is a record's encoding**: the record it
returns is well formed, keeps the bytes, and encodes back to them under its
signature. -/
theorem DecodeBytes_sound {b : List UInt8} {r : Record} (h : DecodeBytes b = .ok r) :
    WellFormed r ∧ r.raw = b ∧ ∃ sig, r.signature = some sig ∧ r.encode sig = .ok b := by
  obtain ⟨dec, raw, s', hrec, htrail, rfl⟩ := DecodeBytes_eq_ok.mp h
  obtain ⟨hw, -, hlen, hr, sig, hsig, hraw⟩ := decodeRecord_sound rfl hrec
  -- Raw took every byte
  have hb : b = raw := by
    rw [htrail, List.append_nil] at hr
    exact hr
  subst hb
  exact ⟨⟨hw.sorted, hw.values⟩, rfl, sig, hsig, encode_eq_ok.mpr ⟨hraw, hlen⟩⟩

/-- Two accepted byte strings with the same signature, sequence number and
pairs are the same: the encoding is a function of these. -/
theorem DecodeBytes_injective {b b' : List UInt8} {r r' : Record} (h : DecodeBytes b = .ok r)
    (h' : DecodeBytes b' = .ok r') (hsig : r.signature = r'.signature) (hseq : r.seq = r'.seq)
    (hpairs : r.pairs = r'.pairs) : b = b' := by
  obtain ⟨-, -, sig, hs, he⟩ := DecodeBytes_sound h
  obtain ⟨-, -, sig', hs', he'⟩ := DecodeBytes_sound h'
  have hsg : sig = sig' := Option.some.inj (hs.symm.trans (hsig.trans hs'))
  rw [(encode_eq_ok.mp he).1, (encode_eq_ok.mp he').1, hsg, hseq, hpairs]

/-! ## Signed records -/

/-- A record signed by a scheme has its encoding as its bytes. -/
theorem EncodeRLP_SetSig {r r' : Record} {s : Option IdentityScheme} {sig : List UInt8}
    (h : r.SetSig s (some sig) = some (.ok r')) : ∃ out, r'.EncodeRLP = .ok out := by
  rcases Record.SetSig_eq_ok h with ⟨sch, sg, -, -, -, -, h'⟩ | ⟨-, hnone, -⟩
  · refine ⟨r'.raw, ?_⟩
    rw [h']
    rfl
  · cases hnone

/-- **A signed record reads back from the bytes `EncodeRLP` gives.** -/
theorem DecodeBytes_SetSig {r r' : Record} {s : Option IdentityScheme} {sig : Option (List UInt8)}
    {out : List UInt8} (hw : WellFormed r) (h : r.SetSig s sig = some (.ok r'))
    (he : r'.EncodeRLP = .ok out) : DecodeBytes out = .ok r' := by
  rcases Record.SetSig_eq_ok h with ⟨sch, sg, -, -, -, henc, h'⟩ | ⟨-, -, h'⟩
  · have hout : out = r'.raw := by
      rw [h'] at he
      simp only [Record.EncodeRLP, Option.isNone_some, Bool.false_eq_true, if_false,
        Except.ok.injEq] at he
      exact he.symm
    rw [hout, DecodeBytes_encode hw henc, ← h']
  · -- without a signature there is nothing to encode
    rw [h'] at he
    cases he

/-! ## Loading from a record built by calls -/

theorem Load_empty {α : Type} (key : List UInt8) (dec : StreamM α) :
    Record.empty.Load key dec = .error ⟨key, .notFound⟩ := by
  rw [Record.Load_eq Record.empty_sorted]
  rfl

/-- The entry a decoder reads as `v` loads as `v`. -/
theorem Load_stored_of_reads {α : Type} {key : List UInt8} {e : Item} {dec : StreamM α} {v : α}
    (h : Reads dec e v) (he : e.Fits) :
    ((decodeBytesAs dec (encodeToBytes e)).mapError fun err => (⟨key, .rlp err⟩ : KeyError)) =
      .ok v := by
  rw [encodeToBytes_eq e he, decodeBytesAs_enc h he]
  rfl

/-- **ENR records are signed sorted maps with one encoding each.** Every
run of calls keeps the keys strictly increasing; on a record built from
`Record.empty`, `Load` gives the value the last `Set` of the key stored, or
`notFound`; a `Set` on a signed record bumps the sequence number by one and
drops the signature; a record `SetSig` signed reads back from its
`EncodeRLP` bytes; and `DecodeBytes` accepts only the encoding, within
`SizeLimit`, of the record it returns. -/
theorem record_signed_sorted_map :
    (∀ (r r' : Record) (ops : List Op), r.Sorted → r.run ops = some r' → r'.Sorted) ∧
    (∀ (ops : List Op) (r : Record) (key : List UInt8), Record.empty.run ops = some r →
      (lastSet key ops = none →
        ∀ {α : Type} (dec : StreamM α), r.Load key dec = .error ⟨key, .notFound⟩) ∧
      ∀ e, lastSet key ops = some e → e.Fits →
        ∀ {α : Type} (dec : StreamM α) (v : α), Reads dec e v → r.Load key dec = .ok v) ∧
    (∀ (r : Record) (key : List UInt8) (e : Item), r.signature.isSome →
      (r.Set key e).seq = r.seq + 1 ∧ (r.Set key e).signature = none) ∧
    (∀ (ops : List Op) (r : Record), (∀ key e, Op.Set key e ∈ ops → e.Fits) →
      Record.empty.run ops = some r → WellFormed r) ∧
    (∀ (r r' : Record) (s : Option IdentityScheme) (sig : Option (List UInt8)), WellFormed r →
      r.SetSig s sig = some (.ok r') →
      (sig.isSome → ∃ out, r'.EncodeRLP = .ok out) ∧
        ∀ out, r'.EncodeRLP = .ok out → DecodeBytes out = .ok r') ∧
    (∀ (b : List UInt8) (r : Record), DecodeBytes b = .ok r →
      b.length ≤ SizeLimit ∧ ∃ sig, r.signature = some sig ∧ r.encode sig = .ok b) ∧
    (∀ (b b' : List UInt8) (r r' : Record), DecodeBytes b = .ok r → DecodeBytes b' = .ok r' →
      r.signature = r'.signature → r.seq = r'.seq → r.pairs = r'.pairs → b = b') := by
  refine ⟨fun r r' ops hs h => (Record.run_find hs h).1, ?load, ?set, ?wf, ?signed, ?sound,
    fun b b' r r' h h' => DecodeBytes_injective h h'⟩
  case load =>
    intro ops r key h
    constructor
    · intro hnone α dec
      rw [Record.run_Load Record.empty_sorted h, hnone, Load_empty]
    · intro e hlast he α dec v hv
      rw [Record.run_Load Record.empty_sorted h, hlast]
      exact Load_stored_of_reads hv he
  case set =>
    intro r key e hsig
    simp [hsig]
  case wf =>
    intro ops r hfit h
    exact run_wellFormed empty_wellFormed hfit h
  case signed =>
    intro r r' s sig hw h
    refine ⟨fun hs => ?_, fun out he => DecodeBytes_SetSig hw h he⟩
    obtain ⟨sg, rfl⟩ := Option.isSome_iff_exists.mp hs
    exact EncodeRLP_SetSig h
  case sound =>
    intro b r h
    obtain ⟨-, -, sig, hsig, he⟩ := DecodeBytes_sound h
    exact ⟨(encode_eq_ok.mp he).2, sig, hsig, he⟩

end Xdchain.Enr
