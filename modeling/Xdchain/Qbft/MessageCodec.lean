import Xdchain.Qbft.Message

/-! # The QBFT messages read back what they write

`Decode(m.Code(), rlp.EncodeToBytes(m))` gives `m` back, with the code of its
kind, for every message whose blocks the block codec reads back. What comes
back of a ROUND-CHANGE payload is not always the payload that was written:
`encodePayloadInternal` writes the prepared round and digest only together,
so a round without a digest is dropped (`SignedRoundChangePayload.received`).
A message is read back unchanged exactly when its payloads hold both or
neither (`WellFormed`). -/

namespace Xdchain.Qbft.MessageCodec
open Xdchain.Lib.ErrState Xdchain.Rlp Xdchain.Rlp.Decode Xdchain.Rlp.Encode Xdchain.Rlp.Canonical
  Xdchain.Rlp.Typed
  Xdchain.Qbft.Message

variable {B : Type}

/-- What the messages need of the block codec: it reads back what it writes,
its `DecodeRLP` starts with `Kind` (as `Block.DecodeRLP` does), and a block is
written as a list with at least one element (a header, transactions, uncles). -/
structure LawfulBlockCodec (c : BlockCodec B) : Prop where
  reads : ∀ b, Reads c.decodeRLP (c.encodeRLP b) b
  startsWithKind : ∃ g, c.decodeRLP = kind >>= g
  encodeRLP_cons : ∀ b, ∃ x xs, c.encodeRLP b = .list (x :: xs)

/-- A block codec to run the theorems on: a block is a byte string, written
as the struct of one field, and hashed to its first 32 bytes. -/
def bytesCodec : BlockCodec (List UInt8) where
  encodeRLP b := .list [writeBytes b]
  decodeRLP := decodeStruct (field decodeByteSlice)
  hash b := Vector.ofFn fun i => b.getD i 0

theorem lawful_bytesCodec : LawfulBlockCodec bytesCodec where
  reads b := reads_decodeStruct (reads_field (reads_decodeByteSlice b))
  startsWithKind := decodeStruct_startsWithKind _
  encodeRLP_cons _ := ⟨_, _, rfl⟩

/-- The payload `NewRoundChange(1, 1, 0, nil)` builds for a node that has
prepared nothing: round 0, no block, so an empty digest. -/
def unpreparedRoundChangePayload : SignedRoundChangePayload :=
  { code := roundChangeCode, sequence := 1, round := 1, signature := [],
    preparedRound := some 0, preparedDigest := zeroHash }

/-- A PRE-PREPARE for round 1 justified by that payload. -/
def preprepareJustifiedByUnprepared : Preprepare (List UInt8) :=
  { code := preprepareCode, sequence := 1, round := 1, signature := [], proposal := [1],
    justificationRoundChanges := [unpreparedRoundChangePayload], justificationPrepares := [] }

/-- A ROUND-CHANGE prepared at round 0 for the block `[7]`. -/
def preparedRoundChange : RoundChange (List UInt8) :=
  { code := roundChangeCode, sequence := 1, round := 1, signature := [],
    preparedRound := some 0, preparedDigest := bytesCodec.hash [7], preparedBlock := some [7],
    justification := [] }

/-! ## What comes back -/

def Prepare.received (p : Prepare) : Prepare := { p with code := prepareCode }

def Commit.received (m : Commit) : Commit := { m with code := commitCode }

/-- A ROUND-CHANGE payload as it is read back: its prepared round and digest
as `encodePayloadInternal` wrote them, both or neither. -/
def SignedRoundChangePayload.received (p : SignedRoundChangePayload) : SignedRoundChangePayload :=
  match p.preparedRound with
  | some _ => if !emptyHash p.preparedDigest then { p with code := roundChangeCode }
    else { p with code := roundChangeCode, preparedRound := none, preparedDigest := zeroHash }
  | none => { p with code := roundChangeCode, preparedDigest := zeroHash }

def RoundChange.received (m : RoundChange B) : RoundChange B :=
  { m with
    toSignedRoundChangePayload := SignedRoundChangePayload.received m.toSignedRoundChangePayload
    justification := m.justification.map Prepare.received }

def Preprepare.received (m : Preprepare B) : Preprepare B :=
  { m with
    code := preprepareCode
    justificationRoundChanges := m.justificationRoundChanges.map SignedRoundChangePayload.received
    justificationPrepares := m.justificationPrepares.map Prepare.received }

def QBFTMessage.received : QBFTMessage B → QBFTMessage B
  | .preprepare m => .preprepare (Preprepare.received m)
  | .prepare m => .prepare (Prepare.received m)
  | .commit m => .commit (Commit.received m)
  | .roundChange m => .roundChange (RoundChange.received m)

/-! ## Reading back, message by message -/

theorem reads_prepare (p : Prepare) :
    Reads Prepare.decodeRLP p.encodeRLP (Prepare.received p) := by
  have hpayload : ReadsSeq
      (do
        let sequence ← field decodeBigInt
        let round ← field decodeBigInt
        let digest ← field (decodeByteArray zeroHash)
        pure (sequence, round, digest))
      [writeBigInt p.sequence, writeBigInt p.round, writeByteArray p.digest]
      (p.sequence, p.round, p.digest) :=
    (reads_field (reads_decodeBigInt _)).bind ((reads_field (reads_decodeBigInt _)).bind
      ((reads_field (reads_decodeByteArray _ _ (by decide))).bind (readsSeq_pure _)))
  exact Reads.bind_pure (reads_decodeStruct ((readsSeq_field (reads_decodeStruct hpayload)).bind
    ((reads_field (reads_decodeByteSlice _)).bind (readsSeq_pure _)))) rfl

theorem reads_commit (m : Commit) :
    Reads Commit.decodeRLP m.encodeRLP (Commit.received m) := by
  have hpayload : ReadsSeq
      (do
        let sequence ← field decodeBigInt
        let round ← field decodeBigInt
        let digest ← field (decodeByteArray zeroHash)
        let commitSeal ← field decodeByteSlice
        pure (sequence, round, digest, commitSeal))
      [writeBigInt m.sequence, writeBigInt m.round, writeByteArray m.digest,
        writeBytes m.commitSeal]
      (m.sequence, m.round, m.digest, m.commitSeal) :=
    (reads_field (reads_decodeBigInt _)).bind ((reads_field (reads_decodeBigInt _)).bind
      ((reads_field (reads_decodeByteArray _ _ (by decide))).bind
        ((reads_field (reads_decodeByteSlice _)).bind (readsSeq_pure _))))
  exact Reads.bind_pure (reads_decodeStruct ((readsSeq_field (reads_decodeStruct hpayload)).bind
    ((reads_field (reads_decodeByteSlice _)).bind (readsSeq_pure _)))) rfl

/-! ## The ROUND-CHANGE payload -/

/-- The prepared list is read back as the round and digest it holds, or as
no round and the zero hash when it is empty. -/
theorem reads_prepared (p : SignedRoundChangePayload) {s : Stream} {more rest : List UInt8}
    (hp : Pos s (Item.encAll p.prepared ++ more) rest) :
    ∃ s', (decodePrepared (Item.encAll p.prepared).length).run s =
        .ok ((SignedRoundChangePayload.received p).preparedRound,
          (SignedRoundChangePayload.received p).preparedDigest) s' ∧
      After s (Item.encAll p.prepared).length s' ∧ Pos s' more rest := by
  -- an empty list leaves the stream where it is
  have hempty : p.prepared = [] →
      (SignedRoundChangePayload.received p).preparedRound = none ∧
        (SignedRoundChangePayload.received p).preparedDigest = zeroHash →
      ∃ s', (decodePrepared (Item.encAll p.prepared).length).run s =
        .ok ((SignedRoundChangePayload.received p).preparedRound,
          (SignedRoundChangePayload.received p).preparedDigest) s' ∧
      After s (Item.encAll p.prepared).length s' ∧ Pos s' more rest := by
    intro hnil ⟨hr, hd⟩
    rw [hnil] at hp ⊢
    rw [hr, hd]
    exact ⟨s, rfl, after_zero_self hp.kind_eq hp.kinderr_eq, by simpa using hp⟩
  rcases hround : p.preparedRound with _ | r
  · exact hempty (by simp [SignedRoundChangePayload.prepared, hround])
      (by simp [SignedRoundChangePayload.received, hround])
  · by_cases hd : emptyHash p.preparedDigest = true
    · exact hempty (by simp [SignedRoundChangePayload.prepared, hround, hd])
        (by simp [SignedRoundChangePayload.received, hround, hd])
    · -- a round and a digest, read one after the other
      have hprep : p.prepared = [writeBigInt r, writeByteArray p.preparedDigest] := by
        simp [SignedRoundChangePayload.prepared, hround, hd]
      have hrecv : SignedRoundChangePayload.received p = { p with code := roundChangeCode } := by
        simp [SignedRoundChangePayload.received, hround, hd]
      rw [hprep] at hp ⊢
      rw [hrecv, hround]
      simp only [encAll_cons, encAll_nil, List.append_nil, List.append_assoc] at hp
      obtain ⟨s1, h1, ha1, hp1⟩ := Pos.reads (reads_decodeBigInt r) hp
      obtain ⟨s2, h2, ha2, hp2⟩ := Pos.reads (reads_decodeByteArray zeroHash p.preparedDigest
        (by decide)) hp1
      have hpos : (Item.encAll [writeBigInt r, writeByteArray p.preparedDigest]).length > 0 := by
        simp [List.length_append, length_enc_pos]
      refine ⟨s2, ?_, by simpa using after_trans ha1 ha2, hp2⟩
      rw [decodePrepared, if_pos hpos, EStateM.run_bind, h1]
      simp only [EStateM.run_bind, h2]
      rfl

/-- **The payload of a ROUND-CHANGE is read back** on the stream over its
bytes, with the prepared round and digest it was written with. -/
theorem reads_decodePayload (p : SignedRoundChangePayload) :
    Reads decodePayload p.payload
      (p.sequence, p.round, (SignedRoundChangePayload.received p).preparedRound,
        (SignedRoundChangePayload.received p).preparedDigest) := by
  rw [reads_iff]
  intro s rest hk he hfit hr hroom
  have hp : Pos s (p.payload.enc ++ []) rest :=
    ⟨hk, he, by simpa using (show p.payload.enc.length < 2 ^ 64 from hfit), by simpa using hr,
      by simpa using hroom⟩
  -- the payload list holds the sequence, the round and the prepared list
  obtain ⟨s1, hl1, hp1, -, hend1⟩ := Pos.list hp
  simp only [encAll_cons, encAll_nil] at hp1
  obtain ⟨s2, h2, ha2, hp2⟩ := Pos.reads (reads_decodeBigInt p.sequence) hp1
  obtain ⟨s3, h3, ha3, hp3⟩ := Pos.reads (reads_decodeBigInt p.round) hp2
  obtain ⟨s4, hl4, hp4, -, hend4⟩ := Pos.list hp3
  obtain ⟨s5, h5, ha5, -⟩ := reads_prepared p
    (show Pos s4 (Item.encAll p.prepared ++ []) ([] ++ ([] ++ rest)) by rwa [List.append_nil])
  obtain ⟨s6, h6, ha6, hp6⟩ := hend4 s5 ha5
  obtain ⟨s7, h7, ha7, -⟩ := hend1 s6
    (After.length_eq (after_trans ha2 (after_trans ha3 ha6)) (by simp))
  refine ⟨s7, ?_, ha7⟩
  unfold decodePayload
  rw [run_bind_of_ok hl1, run_bind_of_ok h2, run_bind_of_ok h3, run_bind_of_ok hl4,
    run_bind_of_ok h5]
  dsimp only
  rw [run_bind_of_ok h6, run_bind_of_ok h7]
  rfl

theorem received_eq_fields (p : SignedRoundChangePayload) :
    SignedRoundChangePayload.received p =
      { code := roundChangeCode
        sequence := p.sequence
        round := p.round
        signature := p.signature
        preparedRound := (SignedRoundChangePayload.received p).preparedRound
        preparedDigest := (SignedRoundChangePayload.received p).preparedDigest } := by
  unfold SignedRoundChangePayload.received
  split
  · split <;> rfl
  · rfl

theorem code_received (p : SignedRoundChangePayload) :
    (SignedRoundChangePayload.received p).code = roundChangeCode := by
  rw [received_eq_fields]

/-- **A signed ROUND-CHANGE payload is read back** as `received` says. -/
theorem reads_signedRoundChangePayload (p : SignedRoundChangePayload) :
    Reads SignedRoundChangePayload.decodeRLP p.encodeRLP (SignedRoundChangePayload.received p) := by
  rw [reads_iff]
  intro s rest hk he hfit hr hroom
  have hp : Pos s (p.encodeRLP.enc ++ []) rest :=
    ⟨hk, he, by simpa using (show p.encodeRLP.enc.length < 2 ^ 64 from hfit), by simpa using hr,
      by simpa using hroom⟩
  obtain ⟨s1, hl1, hp1, -, hend1⟩ := Pos.list hp
  simp only [encAll_cons, encAll_nil] at hp1
  -- `Raw` hands the payload's bytes to a stream of their own
  obtain ⟨s2, h2, ha2, hp2⟩ := Pos.reads (reads_raw p.payload) hp1
  have hpfit : p.payload.Fits := by
    have := hp1.length_lt
    unfold Item.Fits
    rw [List.length_append] at this
    omega
  obtain ⟨t, ht, -, -⟩ := Pos.reads (reads_decodePayload p)
    (show Pos _ (p.payload.enc ++ []) [] by simpa using pos_reset hpfit 0 (.inl rfl))
  obtain ⟨s3, h3, ha3, hp3⟩ := Pos.reads (reads_decodeByteSlice p.signature) hp2
  obtain ⟨s4, h4, ha4, -⟩ := hend1 s3 (After.length_eq (after_trans ha2 ha3) (by simp))
  refine ⟨s4, ?_, ha4⟩
  unfold SignedRoundChangePayload.decodeRLP
  rw [run_bind_of_ok hl1, run_bind_of_ok h2, ht]
  dsimp only
  rw [run_bind_of_ok h3, run_bind_of_ok h4, received_eq_fields p]
  rfl

/-! ## ROUND-CHANGE -/

theorem stopsAtEOL_prepare : StopsAtEOL Prepare.decodeRLP := by
  unfold Prepare.decodeRLP
  exact (stopsAtEOL_decodeStruct _).bind _

theorem length_encAll_cons_pos (x : Item) (xs : List Item) : 0 < (Item.encAll (x :: xs)).length := by
  rw [encAll_cons, List.length_append]
  have := length_enc_pos x
  omega

/-- `Kind` at the prepared block, then the block: nil as the empty list, else
read by the block codec and checked against the prepared digest. -/
theorem reads_preparedBlock {c : BlockCodec B} (hc : LawfulBlockCodec c) {d : Hash}
    {blk : Option B} (hhash : ∀ b, blk = some b → c.hash b = d) {s : Stream}
    {more rest : List UInt8} (hp : Pos s ((writeBlock c blk).enc ++ more) rest) :
    ∃ k n s1 s2, kind.run s = .ok (k, n) s1 ∧ (decodePreparedBlock c d n).run s1 = .ok blk s2 ∧
      After s (writeBlock c blk).enc.length s2 ∧ Pos s2 more rest := by
  cases blk with
  | none =>
    -- an empty list, skipped with `Raw`
    obtain ⟨s1, hkind, -, hcached⟩ := @Pos.kind_list _ [] _ _ hp
    obtain ⟨s2, h2, ha2, hp2⟩ := Pos.reads (reads_raw (.list [])) hp
    refine ⟨_, _, s1, s2, hkind, ?_, ha2, hp2⟩
    rw [decodePreparedBlock, if_pos (show (Item.encAll []).length = 0 from rfl),
      run_bind_of_ok (by rw [hcached raw ⟨_, rfl⟩]; exact h2)]
    rfl
  | some b =>
    -- a block, which is never an empty list
    obtain ⟨x, xs, hx⟩ := hc.encodeRLP_cons b
    have hp' : Pos s ((Item.list (x :: xs)).enc ++ more) rest := by
      simpa [writeBlock, hx] using hp
    obtain ⟨s1, hkind, -, hcached⟩ := Pos.kind_list hp'
    obtain ⟨s2, h2, ha2, hp2⟩ := Pos.reads (hc.reads b) (by simpa [writeBlock] using hp)
    refine ⟨_, _, s1, s2, hkind, ?_, by simpa [writeBlock] using ha2, hp2⟩
    rw [decodePreparedBlock, if_neg (Nat.pos_iff_ne_zero.mp (length_encAll_cons_pos x xs)),
      run_bind_of_ok (by rw [hcached c.decodeRLP hc.startsWithKind]; exact h2),
      if_neg (by simp [hhash b rfl])]
    rfl

/-- `Kind` at the justification, then the PREPAREs: an empty list is skipped
with `Raw`, any other read as a slice. -/
theorem reads_justification (js : List Prepare) {s : Stream} {more rest : List UInt8}
    (hp : Pos s ((Item.list (js.map Prepare.encodeRLP)).enc ++ more) rest) :
    ∃ k n s1 s2, kind.run s = .ok (k, n) s1 ∧
      (decodeJustification n).run s1 = .ok (js.map Prepare.received) s2 ∧
      After s (Item.list (js.map Prepare.encodeRLP)).enc.length s2 ∧ Pos s2 more rest := by
  obtain ⟨s1, hkind, hr1, hcached⟩ := Pos.kind_list hp
  cases js with
  | nil =>
    obtain ⟨s2, h2, ha2, hp2⟩ := Pos.reads (reads_raw (.list [])) hp
    refine ⟨_, _, s1, s2, hkind, ?_, ha2, hp2⟩
    rw [decodeJustification, if_pos (show (Item.encAll (List.map Prepare.encodeRLP [])).length = 0 from rfl),
      run_bind_of_ok (by rw [hcached raw ⟨_, rfl⟩]; exact h2)]
    rfl
  | cons j js =>
    -- the slice is read from where `Kind` left the stream, with the fuel it finds there
    have hne : (Item.encAll ((j :: js).map Prepare.encodeRLP)).length ≠ 0 :=
      Nat.pos_iff_ne_zero.mp (length_encAll_cons_pos _ _)
    have hfuel : (j :: js).length < s1.r.length + 1 := by
      have := length_le_encAll ((j :: js).map Prepare.encodeRLP)
      rw [hr1, List.length_append]
      simp only [List.length_map] at this
      omega
    obtain ⟨s2, h2, ha2, hp2⟩ := Pos.reads
      (reads_decodeListSlice (n := s1.r.length + 1) stopsAtEOL_prepare
        (fun x _ => reads_prepare x) hfuel) hp
    refine ⟨_, _, s1, s2, hkind, ?_, ha2, hp2⟩
    rw [decodeJustification, if_neg hne]
    unfold decodeSlice
    simp only [EStateM.run_bind, EStateM.run_get]
    rw [hcached _ (decodeListSlice_startsWithKind _ _)]
    exact h2

/-- **A ROUND-CHANGE is read back**, given that its block, if any, hashes to
the digest its payload is read back with. -/
theorem reads_roundChange {c : BlockCodec B} (hc : LawfulBlockCodec c) (m : RoundChange B)
    (hhash : ∀ b, m.preparedBlock = some b →
      c.hash b = (SignedRoundChangePayload.received m.toSignedRoundChangePayload).preparedDigest) :
    Reads (RoundChange.decodeRLP c) (m.encodeRLP c) (RoundChange.received m) := by
  rw [reads_iff]
  intro s rest hk he hfit hr hroom
  have hp : Pos s ((m.encodeRLP c).enc ++ []) rest :=
    ⟨hk, he, by simpa using (show (m.encodeRLP c).enc.length < 2 ^ 64 from hfit),
      by simpa using hr, by simpa using hroom⟩
  obtain ⟨s1, hl1, hp1, -, hend1⟩ := Pos.list hp
  simp only [encAll_cons, encAll_nil] at hp1
  -- the signed payload: the payload's bytes on a stream of their own, then the signature
  obtain ⟨s2, hl2, hp2, -, hend2⟩ := Pos.list hp1
  simp only [encAll_cons, encAll_nil] at hp2
  obtain ⟨s3, h3, ha3, hp3⟩ := Pos.reads (reads_raw m.payload) hp2
  have hpfit : m.payload.Fits := by
    have := hp2.length_lt
    unfold Item.Fits
    rw [List.length_append] at this
    omega
  obtain ⟨t, ht, -, -⟩ := Pos.reads (reads_decodePayload m.toSignedRoundChangePayload)
    (show Pos _ (m.payload.enc ++ []) [] by simpa using pos_reset hpfit 0 (.inl rfl))
  obtain ⟨s4, h4, ha4, hp4⟩ := Pos.reads (reads_decodeByteSlice m.signature) hp3
  obtain ⟨s5, h5, ha5, hp5⟩ := hend2 s4 (After.length_eq (after_trans ha3 ha4) (by simp))
  -- the prepared block and the justification, each after `Kind`
  obtain ⟨k6, n6, s6, s7, hk6, h7, ha7, hp7⟩ := reads_preparedBlock hc hhash hp5
  obtain ⟨k8, n8, s8, s9, hk8, h9, ha9, -⟩ := reads_justification m.justification hp7
  obtain ⟨s10, h10, ha10, -⟩ := hend1 s9
    (After.length_eq (after_trans ha5 (after_trans ha7 ha9))
      (by simp only [encAll_cons, encAll_nil, List.length_append, List.length_nil, Nat.add_zero]))
  refine ⟨s10, ?_, ha10⟩
  unfold RoundChange.decodeRLP
  rw [run_bind_of_ok hl1, run_bind_of_ok hl2, run_bind_of_ok h3, ht]
  dsimp only
  rw [run_bind_of_ok h4, run_bind_of_ok h5, run_bind_of_ok hk6]
  dsimp only
  rw [run_bind_of_ok h7, run_bind_of_ok hk8]
  dsimp only
  rw [run_bind_of_ok h9, run_bind_of_ok h10, RoundChange.received,
    received_eq_fields m.toSignedRoundChangePayload]
  rfl

/-! ## PRE-PREPARE -/

theorem stopsAtEOL_signedRoundChangePayload : StopsAtEOL SignedRoundChangePayload.decodeRLP := by
  unfold SignedRoundChangePayload.decodeRLP
  exact stopsAtEOL_list.bind _

/-- **A PRE-PREPARE is read back**, its justification as `received` says. -/
theorem reads_preprepare {c : BlockCodec B} (hc : LawfulBlockCodec c) (m : Preprepare B) :
    Reads (Preprepare.decodeRLP c) (m.encodeRLP c) (Preprepare.received m) := by
  have hproposal : Reads (decodeProposalPayload c) (m.payload c) (m.sequence, m.round, m.proposal) :=
    reads_decodeStruct ((reads_field (reads_decodeBigInt m.sequence)).bind
      ((reads_field (reads_decodeBigInt m.round)).bind
        ((reads_field (hc.reads m.proposal)).bind (readsSeq_pure _))))
  have hsigned : Reads (decodeSignedPayload c) (.list [m.payload c, writeBytes m.signature])
      (m.sequence, m.round, m.proposal, m.signature) :=
    reads_decodeStruct ((readsSeq_field hproposal).bind
      ((reads_field (reads_decodeByteSlice m.signature)).bind (readsSeq_pure _)))
  have hjust : Reads decodeJustificationLists
      (.list [.list (m.justificationRoundChanges.map SignedRoundChangePayload.encodeRLP),
        .list (m.justificationPrepares.map Prepare.encodeRLP)])
      (m.justificationRoundChanges.map SignedRoundChangePayload.received,
        m.justificationPrepares.map Prepare.received) :=
    reads_decodeStruct ((reads_field (reads_decodeSlice stopsAtEOL_signedRoundChangePayload
        (fun x _ => reads_signedRoundChangePayload x))).bind
      ((reads_field (reads_decodeSlice stopsAtEOL_prepare (fun x _ => reads_prepare x))).bind
        (readsSeq_pure _)))
  exact Reads.bind_pure (reads_decodeStruct ((readsSeq_field hsigned).bind
    ((readsSeq_field hjust).bind (readsSeq_pure _)))) rfl

/-! ## `Decode` -/

/-- The code each kind's constructor (`NewPreprepare`, `NewPrepare`, ...)
gives it, and that `Decode` sets on what it reads. -/
def QBFTMessage.kindCode : QBFTMessage B → Nat
  | .preprepare _ => preprepareCode
  | .prepare _ => prepareCode
  | .commit _ => commitCode
  | .roundChange _ => roundChangeCode

/-- The prepared block of a ROUND-CHANGE hashes to the digest its payload
writes, the digest `RoundChange.DecodeRLP` checks it against. -/
def QBFTMessage.BlockMatches (c : BlockCodec B) : QBFTMessage B → Prop
  | .roundChange m => ∀ b, m.preparedBlock = some b →
      c.hash b = (SignedRoundChangePayload.received m.toSignedRoundChangePayload).preparedDigest
  | _ => True

/-- **`Decode` reads back what `EncodeToBytes` writes**: the message with the
code of its kind and its round-change payloads as `received` says. -/
theorem decode_encodeRLP {c : BlockCodec B} (hc : LawfulBlockCodec c) (m : QBFTMessage B)
    (hcode : m.code = QBFTMessage.kindCode m) (hblock : QBFTMessage.BlockMatches c m)
    (hfit : (m.encodeRLP c).Fits) :
    decode c m.code (encodeToBytes (m.encodeRLP c)) = .ok (QBFTMessage.received m) := by
  rw [hcode, encodeToBytes_eq _ hfit]
  cases m with
  | preprepare m =>
    show decode c preprepareCode (m.encodeRLP c).enc = _
    unfold decode
    rw [decodeBytesAs_enc (reads_preprepare hc m) hfit]
    rfl
  | prepare p =>
    show decode c prepareCode p.encodeRLP.enc = _
    unfold decode
    rw [decodeBytesAs_enc (reads_prepare p) hfit]
    rfl
  | commit m =>
    show decode c commitCode m.encodeRLP.enc = _
    unfold decode
    rw [decodeBytesAs_enc (reads_commit m) hfit]
    rfl
  | roundChange m =>
    show decode c roundChangeCode (m.encodeRLP c).enc = .ok (.roundChange (RoundChange.received m))
    have hcode' : (RoundChange.received m).code = roundChangeCode :=
      code_received m.toSignedRoundChangePayload
    unfold decode
    rw [decodeBytesAs_enc (reads_roundChange hc m hblock) hfit]
    -- what is read back already carries ROUND-CHANGE's code, so setting it is the identity
    simp only [if_neg (show roundChangeCode ≠ preprepareCode by decide),
      if_neg (show roundChangeCode ≠ prepareCode by decide),
      if_neg (show roundChangeCode ≠ commitCode by decide), if_true]
    rw [← hcode']

/-! ## Signing payloads -/

/-- `received` drops from a round-change payload only what
`encodePayloadInternal` does not write. -/
theorem prepared_received (p : SignedRoundChangePayload) :
    (SignedRoundChangePayload.received p).prepared = p.prepared := by
  obtain ⟨common, preparedRound, preparedDigest⟩ := p
  cases preparedRound with
  | none => rfl
  | some r =>
    cases he : emptyHash preparedDigest <;>
      simp [SignedRoundChangePayload.received, SignedRoundChangePayload.prepared, he]

theorem payload_received (p : SignedRoundChangePayload) :
    (SignedRoundChangePayload.received p).payload = p.payload := by
  have hseq : (SignedRoundChangePayload.received p).sequence = p.sequence := by
    rw [received_eq_fields]
  have hround : (SignedRoundChangePayload.received p).round = p.round := by
    rw [received_eq_fields]
  rw [SignedRoundChangePayload.payload, SignedRoundChangePayload.payload, hseq, hround,
    prepared_received]

/-- What comes back is signed as the message that was sent. -/
theorem encodePayloadForSigning_received {c : BlockCodec B} (m : QBFTMessage B)
    (hcode : m.code = QBFTMessage.kindCode m) :
    (QBFTMessage.received m).encodePayloadForSigning c = m.encodePayloadForSigning c := by
  cases m with
  | preprepare m =>
    change m.code = preprepareCode at hcode
    show (Preprepare.received m).encodePayloadForSigning c = m.encodePayloadForSigning c
    rw [Preprepare.encodePayloadForSigning, Preprepare.encodePayloadForSigning, hcode]
    rfl
  | prepare p =>
    change p.code = prepareCode at hcode
    show (Prepare.received p).encodePayloadForSigning = p.encodePayloadForSigning
    rw [Prepare.encodePayloadForSigning, Prepare.encodePayloadForSigning, hcode]
    rfl
  | commit m =>
    change m.code = commitCode at hcode
    show (Commit.received m).encodePayloadForSigning = m.encodePayloadForSigning
    rw [Commit.encodePayloadForSigning, Commit.encodePayloadForSigning, hcode]
    rfl
  | roundChange m =>
    change m.code = roundChangeCode at hcode
    show (SignedRoundChangePayload.received m.toSignedRoundChangePayload).encodePayloadForSigning =
      m.toSignedRoundChangePayload.encodePayloadForSigning
    rw [SignedRoundChangePayload.encodePayloadForSigning,
      SignedRoundChangePayload.encodePayloadForSigning, payload_received, code_received, hcode]

/-- **A signature made by the sender verifies at the receiver**: what
`Decode` returns is signed as the message that was encoded, whatever its
round-change payloads hold, since `received` drops only what was never
written. -/
theorem decode_encodePayloadForSigning {c : BlockCodec B} (hc : LawfulBlockCodec c)
    (m : QBFTMessage B) (hcode : m.code = QBFTMessage.kindCode m)
    (hblock : QBFTMessage.BlockMatches c m) (hfit : (m.encodeRLP c).Fits) :
    ∃ m', decode c m.code (encodeToBytes (m.encodeRLP c)) = .ok m' ∧
      m'.encodePayloadForSigning c = m.encodePayloadForSigning c :=
  ⟨_, decode_encodeRLP hc m hcode hblock hfit, encodePayloadForSigning_received m hcode⟩

theorem decode_signs_preprepareJustifiedByUnprepared :
    ((QBFTMessage.preprepare preprepareJustifiedByUnprepared).encodeRLP bytesCodec).Fits ∧
    ∃ m', decode bytesCodec (QBFTMessage.preprepare preprepareJustifiedByUnprepared).code (encodeToBytes
        ((QBFTMessage.preprepare preprepareJustifiedByUnprepared).encodeRLP bytesCodec)) = .ok m' ∧
      m'.encodePayloadForSigning bytesCodec =
        (QBFTMessage.preprepare preprepareJustifiedByUnprepared).encodePayloadForSigning bytesCodec :=
  ⟨by decide, decode_encodePayloadForSigning lawful_bytesCodec
    (.preprepare preprepareJustifiedByUnprepared) rfl trivial (by decide)⟩

/-! ## Messages read back unchanged -/

/-- A ROUND-CHANGE payload whose prepared round is nil exactly when its
prepared digest is empty, and which carries ROUND-CHANGE's code. -/
def SignedRoundChangePayload.WellFormed (p : SignedRoundChangePayload) : Prop :=
  p.code = roundChangeCode ∧ (p.preparedRound = none ↔ emptyHash p.preparedDigest = true)

instance (p : SignedRoundChangePayload) : Decidable (SignedRoundChangePayload.WellFormed p) :=
  inferInstanceAs (Decidable (_ ∧ _))

/-- A message as its kind's constructor builds it: it carries its kind's
code, every round-change payload in it (a ROUND-CHANGE's own, a
PRE-PREPARE's justification) is well formed, and a ROUND-CHANGE's prepared
block hashes to its prepared digest. -/
def QBFTMessage.WellFormed (c : BlockCodec B) : QBFTMessage B → Prop
  | .preprepare m => m.code = preprepareCode ∧
      (∀ p ∈ m.justificationRoundChanges, SignedRoundChangePayload.WellFormed p) ∧
      ∀ p ∈ m.justificationPrepares, p.code = prepareCode
  | .prepare p => p.code = prepareCode
  | .commit m => m.code = commitCode
  | .roundChange m => SignedRoundChangePayload.WellFormed m.toSignedRoundChangePayload ∧
      (∀ b, m.preparedBlock = some b → c.hash b = m.preparedDigest) ∧
      ∀ p ∈ m.justification, p.code = prepareCode

theorem SignedRoundChangePayload.received_of_wellFormed (p : SignedRoundChangePayload)
    (h : SignedRoundChangePayload.WellFormed p) : SignedRoundChangePayload.received p = p := by
  obtain ⟨hcode, hround⟩ := h
  unfold SignedRoundChangePayload.received
  split
  · rename_i r hr
    have he : emptyHash p.preparedDigest = false := by
      cases he : emptyHash p.preparedDigest
      · rfl
      · simp [hround.2 he] at hr
    rw [he, ← hcode]
    rfl
  · rename_i hr
    have hd : p.preparedDigest = zeroHash := by simpa [emptyHash] using hround.1 hr
    rw [← hcode, ← hd]

theorem Prepare.received_of_code (p : Prepare) (h : p.code = prepareCode) :
    Prepare.received p = p := by
  rw [Prepare.received, ← h]

theorem map_received_of_code (ps : List Prepare) (h : ∀ p ∈ ps, p.code = prepareCode) :
    ps.map Prepare.received = ps := by
  rw [List.map_congr_left fun p hp => Prepare.received_of_code p (h p hp), List.map_id']

theorem QBFTMessage.received_of_wellFormed {c : BlockCodec B} (m : QBFTMessage B)
    (h : QBFTMessage.WellFormed c m) : QBFTMessage.received m = m := by
  cases m with
  | preprepare m =>
    obtain ⟨hcode, hrc, hps⟩ := h
    have hrc' : m.justificationRoundChanges.map SignedRoundChangePayload.received =
        m.justificationRoundChanges := by
      rw [List.map_congr_left fun p hp => SignedRoundChangePayload.received_of_wellFormed p (hrc p hp),
        List.map_id']
    show QBFTMessage.preprepare (Preprepare.received m) = .preprepare m
    rw [Preprepare.received, hrc', map_received_of_code _ hps, ← hcode]
  | prepare p => exact congrArg QBFTMessage.prepare (Prepare.received_of_code p h)
  | commit m =>
    show QBFTMessage.commit { m with code := commitCode } = .commit m
    rw [← (show m.code = commitCode from h)]
  | roundChange m =>
    obtain ⟨hp, -, hj⟩ := h
    show QBFTMessage.roundChange (RoundChange.received m) = .roundChange m
    rw [RoundChange.received, SignedRoundChangePayload.received_of_wellFormed _ hp,
      map_received_of_code _ hj]

theorem QBFTMessage.kindCode_of_wellFormed {c : BlockCodec B} {m : QBFTMessage B}
    (h : QBFTMessage.WellFormed c m) : m.code = QBFTMessage.kindCode m := by
  cases m with
  | preprepare m => exact h.1
  | prepare p => exact h
  | commit m => exact h
  | roundChange m => exact h.1.1

theorem QBFTMessage.blockMatches_of_wellFormed {c : BlockCodec B} {m : QBFTMessage B}
    (h : QBFTMessage.WellFormed c m) : QBFTMessage.BlockMatches c m := by
  cases m with
  | roundChange m =>
    intro b hb
    rw [SignedRoundChangePayload.received_of_wellFormed _ h.1]
    exact h.2.1 b hb
  | _ => trivial

/-- **A well-formed message is read back unchanged**: `Decode(m.Code(),
rlp.EncodeToBytes(m))` returns `m` itself, every field and every
justification entry. -/
theorem decode_encodeRLP_of_wellFormed {c : BlockCodec B} (hc : LawfulBlockCodec c)
    (m : QBFTMessage B) (hwf : QBFTMessage.WellFormed c m) (hfit : (m.encodeRLP c).Fits) :
    decode c m.code (encodeToBytes (m.encodeRLP c)) = .ok m := by
  rw [decode_encodeRLP hc m (QBFTMessage.kindCode_of_wellFormed hwf)
    (QBFTMessage.blockMatches_of_wellFormed hwf) hfit, QBFTMessage.received_of_wellFormed m hwf]

theorem decode_preparedRoundChange :
    QBFTMessage.WellFormed bytesCodec (.roundChange preparedRoundChange) ∧
    ((QBFTMessage.roundChange preparedRoundChange).encodeRLP bytesCodec).Fits ∧
    decode bytesCodec (QBFTMessage.roundChange preparedRoundChange).code
        (encodeToBytes ((QBFTMessage.roundChange preparedRoundChange).encodeRLP bytesCodec)) =
      .ok (.roundChange preparedRoundChange) := by
  have hwf : QBFTMessage.WellFormed bytesCodec (.roundChange preparedRoundChange) :=
    ⟨by decide, fun b hb => by cases hb; rfl, fun p hp => by cases hp⟩
  have hfit : ((QBFTMessage.roundChange preparedRoundChange).encodeRLP bytesCodec).Fits := by
    decide
  exact ⟨hwf, hfit, decode_encodeRLP_of_wellFormed lawful_bytesCodec (.roundChange preparedRoundChange) hwf hfit⟩

/-- The PRE-PREPARE justified by `NewRoundChange(1, 1, 0, nil)`'s payload is
read back with another justification: the entry's prepared round 0 is gone. -/
theorem decode_drops_unprepared_round :
    ∃ m', decode bytesCodec (QBFTMessage.preprepare preprepareJustifiedByUnprepared).code (encodeToBytes
        ((QBFTMessage.preprepare preprepareJustifiedByUnprepared).encodeRLP bytesCodec)) =
        .ok (.preprepare m') ∧
      m'.justificationRoundChanges ≠ preprepareJustifiedByUnprepared.justificationRoundChanges ∧
      (m'.justificationRoundChanges.map SignedRoundChangePayload.preparedRound) = [none] :=
  ⟨_, decode_encodeRLP lawful_bytesCodec (.preprepare preprepareJustifiedByUnprepared) rfl trivial
    (by decide), by decide, rfl⟩

end Xdchain.Qbft.MessageCodec
