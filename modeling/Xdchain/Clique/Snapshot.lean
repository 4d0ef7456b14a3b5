import Xdchain.Lib.KeyMap
import Xdchain.Lib.ErrState
import Xdchain.Types.Istanbul

/-! # The Clique voting snapshot

`consensus/clique/snapshot.go`. A snapshot is the authorization state at a
block: the set of signers, the recent signers, and the votes cast since the
last checkpoint with their tally. `apply` runs a chain of headers through
it; each header's signer is checked, its previous vote on the header's
coinbase is replaced by the new one, and a vote that more than half of the
signers back changes the set of signers.

Go's snapshot is a pointer that `apply` deep-copies before it mutates the
copy; here a snapshot is a value, so `copy` is the identity. Signatures are
recovered by a parameter `ecrecover`, which stands for the signature cache
and `crypto.Ecrecover` over the seal hash. Block numbers are the `uint64`
of the header's number, so the checkpoint test and the consecutive-number
check wrap as Go's do. -/

namespace Xdchain.Clique
open Xdchain.Lib Xdchain.Types Xdchain.Lib.ErrState

/-- The parameters `apply` reads. `New` replaces a zero epoch by
`epochLength`, so every engine has a positive one. -/
structure CliqueConfig where
  epoch : UInt64
  epoch_pos : 0 < epoch

def epochLength : UInt64 := 30000

def nonceAuthVote : Vector UInt8 8 := Vector.replicate 8 0xff

def nonceDropVote : Vector UInt8 8 := Vector.replicate 8 0

inductive CliqueError where
  | invalidVotingChain
  | unauthorizedSigner
  | recentlySigned
  | invalidVote
  /-- What `ecrecover` returns for an extra-data too short for a seal. -/
  | missingSignature
  /-- What `ecrecover` returns when `crypto.Ecrecover` fails. -/
  | invalidSignature
deriving DecidableEq, Repr

structure Vote where
  signer : Address
  block : UInt64
  address : Address
  authorize : Bool
deriving DecidableEq, Repr

/-- A tally counts only the votes for its proposal. -/
structure Tally where
  authorize : Bool
  votes : Nat
deriving DecidableEq, Repr

structure Snapshot where
  config : CliqueConfig
  number : UInt64
  hash : Hash
  signers : KeyMap Address Unit
  recents : KeyMap UInt64 Address
  /-- The votes in the order they were cast. -/
  votes : List Vote
  tally : KeyMap Address Tally

/-- `newSnapshot`, for the genesis block: no recent signers and no votes. -/
def newSnapshot (config : CliqueConfig) (number : UInt64) (hash : Hash) (signers : List Address) : Snapshot :=
  { config, number, hash, signers := signers.foldl (fun m signer => m.insert signer ()) .empty,
    recents := .empty, votes := [], tally := .empty }

namespace Snapshot

def isSigner (snap : Snapshot) (address : Address) : Bool := (snap.signers.find? address).isSome

/-- `validVote`: a vote to add someone who is not a signer, or to drop a
signer. -/
def validVote (snap : Snapshot) (address : Address) (authorize : Bool) : Bool :=
  let signer := snap.isSigner address
  (signer && !authorize) || (!signer && authorize)

/-- `cast`: a meaningful vote counted into the tally of its address. An
existing tally keeps its own direction. -/
def cast (snap : Snapshot) (address : Address) (authorize : Bool) : Bool × Snapshot :=
  if !snap.validVote address authorize then (false, snap)
  else
    match snap.tally.find? address with
    | some old => (true, { snap with tally := snap.tally.insert address { old with votes := old.votes + 1 } })
    | none => (true, { snap with tally := snap.tally.insert address ⟨authorize, 1⟩ })

/-- `uncast`: a counted vote taken back out of its tally; a dangling vote, or
one against the tally's direction, is dropped. -/
def uncast (snap : Snapshot) (address : Address) (authorize : Bool) : Bool × Snapshot :=
  match snap.tally.find? address with
  | none => (false, snap)
  | some tally =>
    if tally.authorize ≠ authorize then (false, snap)
    else if tally.votes > 1 then
      (true, { snap with tally := snap.tally.insert address { tally with votes := tally.votes - 1 } })
    else (true, { snap with tally := snap.tally.erase address })

/-- `delete(snap.Recents, number-limit)` for the current number of signers,
so that the oldest recent signer may sign again. -/
def deleteRecent (snap : Snapshot) (number : UInt64) : Snapshot :=
  let limit := (snap.signers.size / 2 + 1).toUInt64
  if number ≥ limit then { snap with recents := snap.recents.erase (number - limit) } else snap

/-- The votes and tally a checkpoint block discards. -/
def checkpoint (snap : Snapshot) (config : CliqueConfig) (number : UInt64) : Snapshot :=
  if number % config.epoch = 0 then { snap with votes := [], tally := .empty } else snap

/-- The loop discarding the signer's previous vote on `address`: the first
such vote is uncast and removed, and the loop breaks. -/
def discardVote (snap : Snapshot) (signer address : Address) : Snapshot :=
  let p := fun (vote : Vote) => vote.signer == signer && vote.address == address
  match snap.votes.find? p with
  | some vote => { (snap.uncast vote.address vote.authorize).2 with votes := snap.votes.eraseP p }
  | none => snap

/-- Uncast the votes one after the other. -/
def uncastAll (snap : Snapshot) : List Vote → Snapshot
  | [] => snap
  | vote :: votes => (snap.uncast vote.address vote.authorize).2.uncastAll votes

/-- The loop discarding every vote a deauthorized signer cast: each is uncast
and removed in place, the index stepping back over the removed entry, so
the others keep their order. -/
def discardVotesOf (snap : Snapshot) (signer : Address) : Snapshot :=
  { snap.uncastAll (snap.votes.filter (·.signer == signer)) with votes := snap.votes.filter (·.signer != signer) }

/-- The end of a header's step: if the coinbase's tally has more votes than
half the signers, the coinbase is added or dropped (with its own votes and a
recent entry), and every vote about it is discarded with its tally. -/
def passVote (snap : Snapshot) (number : UInt64) (coinbase : Address) : Snapshot :=
  -- a missing tally reads as Go's zero value
  let tally := (snap.tally.find? coinbase).getD ⟨false, 0⟩
  if tally.votes > snap.signers.size / 2 then
    let snap :=
      if tally.authorize then { snap with signers := snap.signers.insert coinbase () }
      else (({ snap with signers := snap.signers.erase coinbase }).deleteRecent number).discardVotesOf coinbase
    { snap with votes := snap.votes.filter (·.address != coinbase), tally := snap.tally.erase coinbase }
  else snap

/-- The vote a header's nonce carries. -/
def nonceVote (header : Header) : Except CliqueError Bool :=
  if header.nonce = nonceAuthVote then .ok true
  else if header.nonce = nonceDropVote then .ok false
  else .error .invalidVote

/-- The vote a header casts, counted and recorded if it is meaningful. -/
def castVote (snap : Snapshot) (signer : Address) (number : UInt64) (coinbase : Address) (authorize : Bool) :
    Snapshot :=
  let r := snap.cast coinbase authorize
  if r.1 then { r.2 with votes := r.2.votes ++ [⟨signer, number, coinbase, authorize⟩] } else r.2

variable (ecrecover : Header → Except CliqueError Address)

/-- One iteration of `apply`'s loop over the headers. -/
def applyHeader (config : CliqueConfig) (snap : Snapshot) (header : Header) : Except CliqueError Snapshot := do
  let number := header.number.toUInt64
  let snap := (snap.checkpoint config number).deleteRecent number
  let signer ← ecrecover header
  if !snap.isSigner signer then throw .unauthorizedSigner
  if snap.recents.values.contains signer then throw .recentlySigned
  let snap := { snap with recents := snap.recents.insert number signer }
  let snap := snap.discardVote signer header.coinbase
  let authorize ← nonceVote header
  let snap := snap.castVote signer number header.coinbase authorize
  pure (snap.passVote number header.coinbase)

/-- The sanity check that each header's number follows the one before. -/
def consecutive : List Header → Bool
  | h₁ :: h₂ :: headers => h₂.number.toUInt64 == h₁.number.toUInt64 + 1 && consecutive (h₂ :: headers)
  | _ => true

/-- `apply`: the headers checked to continue the snapshot, run through it
one by one, and the snapshot moved to the last of them. -/
def apply (keccak : List UInt8 → Hash) (s : Snapshot) (headers : List Header) : Except CliqueError Snapshot :=
  match headers with
  | [] => pure s
  | first :: rest => do
    if !consecutive (first :: rest) then throw .invalidVotingChain
    if first.number.toUInt64 ≠ s.number + 1 then throw .invalidVotingChain
    let snap ← (first :: rest).foldlM (applyHeader ecrecover s.config) s
    pure { snap with number := snap.number + (first :: rest).length.toUInt64,
                     hash := ((first :: rest).getLast (by simp)).hash keccak }

end Snapshot

/-! ## What each step reads and writes -/

namespace Snapshot

/-- `cast` says whether the vote made sense. -/
@[simp] theorem cast_fst (snap : Snapshot) (a : Address) (auth : Bool) : (snap.cast a auth).1 = snap.validVote a auth := by
  unfold cast
  split
  · rename_i hv
    simpa using hv
  · rename_i hv
    split <;> simpa using hv

@[simp] theorem cast_votes (snap : Snapshot) (a : Address) (auth : Bool) : (snap.cast a auth).2.votes = snap.votes := by
  unfold cast
  split
  · rfl
  · split <;> rfl

@[simp] theorem cast_signers (snap : Snapshot) (a : Address) (auth : Bool) :
    (snap.cast a auth).2.signers = snap.signers := by
  unfold cast
  split
  · rfl
  · split <;> rfl

@[simp] theorem uncast_signers (snap : Snapshot) (a : Address) (auth : Bool) :
    (snap.uncast a auth).2.signers = snap.signers := by
  unfold uncast
  split
  · rfl
  · split
    · rfl
    · split <;> rfl

@[simp] theorem uncastAll_signers (snap : Snapshot) (votes : List Vote) :
    (snap.uncastAll votes).signers = snap.signers := by
  induction votes generalizing snap with
  | nil => rfl
  | cons v votes ih => simp [uncastAll, ih]

@[simp] theorem discardVotesOf_signers (snap : Snapshot) (signer : Address) :
    (snap.discardVotesOf signer).signers = snap.signers := by
  simp [discardVotesOf]

@[simp] theorem deleteRecent_votes (snap : Snapshot) (n : UInt64) : (snap.deleteRecent n).votes = snap.votes := by
  unfold deleteRecent
  dsimp only
  split <;> rfl

@[simp] theorem deleteRecent_tally (snap : Snapshot) (n : UInt64) : (snap.deleteRecent n).tally = snap.tally := by
  unfold deleteRecent
  dsimp only
  split <;> rfl

@[simp] theorem deleteRecent_signers (snap : Snapshot) (n : UInt64) :
    (snap.deleteRecent n).signers = snap.signers := by
  unfold deleteRecent
  dsimp only
  split <;> rfl

@[simp] theorem checkpoint_signers (snap : Snapshot) (config : CliqueConfig) (n : UInt64) :
    (snap.checkpoint config n).signers = snap.signers := by
  unfold checkpoint
  split <;> rfl

@[simp] theorem discardVote_signers (snap : Snapshot) (signer address : Address) :
    (snap.discardVote signer address).signers = snap.signers := by
  unfold discardVote
  dsimp only
  split
  · simp
  · rfl

@[simp] theorem castVote_signers (snap : Snapshot) (signer : Address) (number : UInt64) (coinbase : Address)
    (authorize : Bool) : (snap.castVote signer number coinbase authorize).signers = snap.signers := by
  unfold castVote
  dsimp only
  split <;> simp

/-- The votes after a cast: the ones before, and the header's own if it
counted. -/
theorem castVote_votes (snap : Snapshot) (signer : Address) (number : UInt64) (coinbase : Address)
    (authorize : Bool) :
    (snap.castVote signer number coinbase authorize).votes =
      if snap.validVote coinbase authorize then snap.votes ++ [⟨signer, number, coinbase, authorize⟩]
      else snap.votes := by
  unfold castVote
  dsimp only
  rw [cast_fst]
  split <;> simp [cast_votes]

theorem isSigner_insert_of_ne (snap : Snapshot) {a b : Address} (hb : b ≠ a) :
    ({ snap with signers := snap.signers.insert a () } : Snapshot).isSigner b = snap.isSigner b := by
  simp [isSigner, KeyMap.find?_insert_of_ne _ _ hb]

theorem discardVote_votes_sublist (snap : Snapshot) (signer address : Address) :
    (snap.discardVote signer address).votes.Sublist snap.votes := by
  unfold discardVote
  dsimp only
  split
  · exact List.eraseP_sublist
  · exact List.Sublist.refl _

theorem passVote_votes_sublist (snap : Snapshot) (number : UInt64) (coinbase : Address) :
    (snap.passVote number coinbase).votes.Sublist snap.votes := by
  unfold passVote
  dsimp only
  split_ifs
  · exact List.filter_sublist
  · simp only [discardVotesOf, deleteRecent_votes]
    exact List.filter_sublist.trans List.filter_sublist
  · exact List.Sublist.refl _

theorem mem_checkpoint_votes {snap : Snapshot} {config : CliqueConfig} {n : UInt64} {v : Vote}
    (hv : v ∈ (snap.checkpoint config n).votes) : n % config.epoch ≠ 0 ∧ v ∈ snap.votes := by
  unfold checkpoint at hv
  split at hv
  · simp at hv
  · rename_i hcp
    exact ⟨hcp, hv⟩

/-! ### The block a snapshot is at

Each step of `apply` reads and writes the votes, the tally, the signers and
the recent signers only; the configuration, number and hash pass through. -/

/-- The snapshot with its configuration and block replaced. -/
def relocate (snap : Snapshot) (config : CliqueConfig) (number : UInt64) (hash : Hash) : Snapshot :=
  { snap with config, number, hash }

section Relocate
variable (config : CliqueConfig) (number : UInt64) (hash : Hash)

@[simp] theorem relocate_self (snap : Snapshot) : snap.relocate snap.config snap.number snap.hash = snap := rfl

@[simp] theorem validVote_relocate (snap : Snapshot) (a : Address) (auth : Bool) :
    (snap.relocate config number hash).validVote a auth = snap.validVote a auth := rfl

@[simp] theorem isSigner_relocate (snap : Snapshot) (a : Address) :
    (snap.relocate config number hash).isSigner a = snap.isSigner a := rfl

theorem cast_relocate (snap : Snapshot) (a : Address) (auth : Bool) :
    (snap.relocate config number hash).cast a auth =
      ((snap.cast a auth).1, (snap.cast a auth).2.relocate config number hash) := by
  have ht : (snap.relocate config number hash).tally = snap.tally := rfl
  unfold cast
  rw [validVote_relocate, ht]
  split
  · rfl
  · split <;> rfl

theorem uncast_relocate (snap : Snapshot) (a : Address) (auth : Bool) :
    (snap.relocate config number hash).uncast a auth =
      ((snap.uncast a auth).1, (snap.uncast a auth).2.relocate config number hash) := by
  have ht : (snap.relocate config number hash).tally = snap.tally := rfl
  unfold uncast
  rw [ht]
  split
  · rfl
  · split
    · rfl
    · split <;> rfl

theorem uncastAll_relocate (snap : Snapshot) (votes : List Vote) :
    (snap.relocate config number hash).uncastAll votes = (snap.uncastAll votes).relocate config number hash := by
  induction votes generalizing snap with
  | nil => rfl
  | cons v votes ih => simp only [uncastAll, uncast_relocate, ih]

theorem deleteRecent_relocate (snap : Snapshot) (n : UInt64) :
    (snap.relocate config number hash).deleteRecent n = (snap.deleteRecent n).relocate config number hash := by
  have hs : (snap.relocate config number hash).signers = snap.signers := rfl
  unfold deleteRecent
  dsimp only
  rw [hs]
  split_ifs <;> rfl

theorem checkpoint_relocate (snap : Snapshot) (c : CliqueConfig) (n : UInt64) :
    (snap.relocate config number hash).checkpoint c n = (snap.checkpoint c n).relocate config number hash := by
  unfold checkpoint
  split_ifs <;> rfl

theorem discardVote_relocate (snap : Snapshot) (signer address : Address) :
    (snap.relocate config number hash).discardVote signer address =
      (snap.discardVote signer address).relocate config number hash := by
  have hv : (snap.relocate config number hash).votes = snap.votes := rfl
  unfold discardVote
  dsimp only
  rw [hv]
  cases snap.votes.find? (fun vote => vote.signer == signer && vote.address == address) with
  | none => rfl
  | some v =>
    dsimp only
    rw [uncast_relocate]
    rfl

theorem discardVotesOf_relocate (snap : Snapshot) (signer : Address) :
    (snap.relocate config number hash).discardVotesOf signer =
      (snap.discardVotesOf signer).relocate config number hash := by
  unfold discardVotesOf
  rw [show (snap.relocate config number hash).votes = snap.votes from rfl, uncastAll_relocate]
  rfl

theorem castVote_relocate (snap : Snapshot) (signer : Address) (n : UInt64) (coinbase : Address) (auth : Bool) :
    (snap.relocate config number hash).castVote signer n coinbase auth =
      (snap.castVote signer n coinbase auth).relocate config number hash := by
  unfold castVote
  dsimp only
  rw [cast_relocate]
  split <;> rfl

theorem passVote_relocate (snap : Snapshot) (n : UInt64) (coinbase : Address) :
    (snap.relocate config number hash).passVote n coinbase = (snap.passVote n coinbase).relocate config number hash := by
  have ht : (snap.relocate config number hash).tally = snap.tally := rfl
  have hs : (snap.relocate config number hash).signers = snap.signers := rfl
  unfold passVote
  dsimp only
  rw [ht, hs]
  split_ifs
  · rfl
  · -- the snapshot with the coinbase dropped, as the unfolding spells it
    have hdrop : (⟨(snap.relocate config number hash).config, (snap.relocate config number hash).number,
        (snap.relocate config number hash).hash, snap.signers.erase coinbase,
        (snap.relocate config number hash).recents, (snap.relocate config number hash).votes, snap.tally⟩ :
          Snapshot) =
        ({ snap with signers := snap.signers.erase coinbase } : Snapshot).relocate config number hash := rfl
    rw [hdrop, deleteRecent_relocate, discardVotesOf_relocate]
    rfl
  · rfl

theorem applyHeader_relocate (ecrecover : Header → Except CliqueError Address) (snap : Snapshot) (c : CliqueConfig)
    (header : Header) :
    (snap.relocate config number hash).applyHeader ecrecover c header =
      (snap.applyHeader ecrecover c header).map (·.relocate config number hash) := by
  unfold applyHeader
  dsimp only
  rw [checkpoint_relocate, deleteRecent_relocate]
  generalize (snap.checkpoint c header.number.toUInt64).deleteRecent header.number.toUInt64 = t
  cases ecrecover header with
  | error e => rfl
  | ok signer =>
    -- the recent signer recorded, as the unfolding spells it
    have hrec : (⟨(t.relocate config number hash).config, (t.relocate config number hash).number,
        (t.relocate config number hash).hash, (t.relocate config number hash).signers,
        (t.relocate config number hash).recents.insert header.number.toUInt64 signer,
        (t.relocate config number hash).votes, (t.relocate config number hash).tally⟩ : Snapshot) =
        ({ t with recents := t.recents.insert header.number.toUInt64 signer } : Snapshot).relocate config number
          hash := rfl
    have hr : (t.relocate config number hash).recents = t.recents := rfl
    simp only [ok_bind]
    rw [hrec, discardVote_relocate, hr, isSigner_relocate]
    -- a failed check throws on both sides
    split_ifs <;> try rfl
    cases nonceVote header with
    | error e => rfl
    | ok authorize =>
      simp only [ok_bind, castVote_relocate, passVote_relocate]
      rfl

theorem foldlM_applyHeader_relocate (ecrecover : Header → Except CliqueError Address) (c : CliqueConfig) :
    ∀ (headers : List Header) (snap : Snapshot),
      headers.foldlM (applyHeader ecrecover c) (snap.relocate config number hash) =
        (headers.foldlM (applyHeader ecrecover c) snap).map (·.relocate config number hash)
  | [], _ => rfl
  | header :: headers, snap => by
    rw [List.foldlM_cons, List.foldlM_cons, applyHeader_relocate]
    cases snap.applyHeader ecrecover c header with
    | error e => rfl
    | ok mid =>
      show headers.foldlM _ (mid.relocate config number hash) = _
      rw [foldlM_applyHeader_relocate ecrecover c headers mid]
      rfl

end Relocate

/-! ## Successful steps and runs -/

variable {ecrecover : Header → Except CliqueError Address} {keccak : List UInt8 → Hash}

/-- What a header's step does when it succeeds: its signer is a signer, its
nonce a vote, and the snapshot after the checkpoint goes through the
discard, the cast and the pass. -/
theorem applyHeader_eq_ok {config : CliqueConfig} {snap snap' : Snapshot} {header : Header}
    (h : snap.applyHeader ecrecover config header = .ok snap') :
    ∃ signer authorize, ∃ s : Snapshot, ecrecover header = .ok signer ∧ nonceVote header = .ok authorize ∧
      s.votes = (snap.checkpoint config header.number.toUInt64).votes ∧
      s.tally = (snap.checkpoint config header.number.toUInt64).tally ∧ s.signers = snap.signers ∧
      s.isSigner signer = true ∧
      snap' = ((s.discardVote signer header.coinbase).castVote signer header.number.toUInt64 header.coinbase
        authorize).passVote header.number.toUInt64 header.coinbase := by
  unfold applyHeader at h
  simp only [bind_eq_ok] at h
  obtain ⟨signer, hsig, h⟩ := h
  split at h
  · cases h
  · rename_i hsigner
    split at h
    · cases h
    · simp only [bind_eq_ok] at h
      obtain ⟨authorize, hauth, h⟩ := h
      refine ⟨signer, authorize, _, hsig, hauth, by simp, by simp, by simp, by simpa [isSigner, Option.isSome_iff_ne_none] using hsigner,
        (Except.ok.inj h).symm⟩

/-- What `apply` does when it succeeds on some headers: they continue the
snapshot, each goes through its step, and the snapshot moves to the last. -/
theorem apply_eq_ok {snap snap' : Snapshot} {first : Header} {rest : List Header}
    (happ : snap.apply ecrecover keccak (first :: rest) = .ok snap') :
    consecutive (first :: rest) = true ∧ first.number.toUInt64 = snap.number + 1 ∧
      ∃ snap₁, (first :: rest).foldlM (applyHeader ecrecover snap.config) snap = .ok snap₁ ∧
        snap' = { snap₁ with number := snap₁.number + (first :: rest).length.toUInt64,
                             hash := ((first :: rest).getLast (by simp)).hash keccak } := by
  unfold apply at happ
  dsimp only at happ
  -- the two sanity checks, each a throw when it fails
  split_ifs at happ with hc hn
  · cases happ
  · cases happ
  · cases happ
  · rename_i hn
    rw [bind_eq_ok] at happ
    obtain ⟨snap₁, hrun, hend⟩ := happ
    exact ⟨by simpa using hc, by simpa using hn, snap₁, hrun, (Except.ok.inj hend).symm⟩

/-- The steps of `apply` keep the configuration and the block of the snapshot. -/
theorem foldlM_applyHeader_position {c : CliqueConfig} {headers : List Header} {snap snap' : Snapshot}
    (hrun : headers.foldlM (applyHeader ecrecover c) snap = .ok snap') :
    snap'.config = snap.config ∧ snap'.number = snap.number ∧ snap'.hash = snap.hash := by
  have hself := foldlM_applyHeader_relocate snap.config snap.number snap.hash ecrecover c headers snap
  rw [relocate_self, hrun] at hself
  have := Except.ok.inj hself
  rw [this]
  exact ⟨rfl, rfl, rfl⟩

/-- The number of the last of consecutive headers. -/
theorem getLast_number_of_consecutive :
    ∀ {headers : List Header} {first : Header} {a : UInt64}, consecutive (first :: headers) = true →
      first.number.toUInt64 = a + 1 →
      ((first :: headers).getLast (by simp)).number.toUInt64 = a + (first :: headers).length.toUInt64
  | [], first, a, _, hn => by
    rw [List.getLast_singleton, hn]
    rfl
  | next :: headers, first, a, hc, hn => by
    simp only [consecutive, Bool.and_eq_true, beq_iff_eq] at hc
    rw [List.getLast_cons_cons, getLast_number_of_consecutive hc.2 (by rw [hc.1, hn])]
    have hlen : (first :: next :: headers).length = (next :: headers).length + 1 := rfl
    rw [hlen, Nat.toUInt64, UInt64.ofNat_add, show UInt64.ofNat 1 = 1 from rfl]
    ac_rfl

end Snapshot

end Xdchain.Clique
