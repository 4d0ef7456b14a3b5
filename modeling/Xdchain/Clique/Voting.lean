import Xdchain.Clique.Snapshot
import Xdchain.Lib.Lists
import Xdchain.Lib.Epoch

/-! # The invariant of Clique voting

Every snapshot `apply` reaches from a genesis snapshot keeps its votes in
order (`Snapshot.Consistent`): the tally of each address counts exactly the
votes on it, each in the tally's direction, and no tally is kept at zero;
every vote was cast by a signer, once per signer and address; and every vote
asks for a change, to add an address that is not a signer or to drop one
that is. The votes are those cast since the last checkpoint
(`Snapshot.SinceCheckpoint`), so a header changes the signers only by its
coinbase, and only when more than half of the signers have a vote recorded
for that change in the current epoch (`Snapshot.SignersChange`).

The tally is read address by address (`TallyAt`): each step of `apply`
touches the tally of one address, or drops the votes of one signer, and the
others keep their counts. -/

namespace Xdchain.Clique
open Xdchain.Lib Xdchain.Types Xdchain.Lib.ErrState

/-! ## Tallies of votes -/

/-- Go's `snap.Tally[a].Votes`: zero for an address with no tally. -/
def tallyVotes (tally : KeyMap Address Tally) (a : Address) : Nat := ((tally.find? a).map Tally.votes).getD 0

/-- The tally of `a` counts exactly the votes on `a`, each in the tally's
direction, and is dropped rather than kept at zero. -/
structure TallyAt (votes : List Vote) (tally : KeyMap Address Tally) (a : Address) : Prop where
  count : tallyVotes tally a = votes.countP (·.address == a)
  pos : ∀ t, tally.find? a = some t → 0 < t.votes
  authorize : ∀ v ∈ votes, v.address = a → (tally.find? a).map Tally.authorize = some v.authorize

/-- A tally that counts exactly the given votes. -/
def TallyOf (votes : List Vote) (tally : KeyMap Address Tally) : Prop := ∀ a, TallyAt votes tally a

/-- The tally of `a` depends on the votes on `a` and on its own entry only. -/
theorem TallyAt.congr {votes votes' : List Vote} {tally tally' : KeyMap Address Tally} {a : Address}
    (h : TallyAt votes tally a) (hv : (votes.filter (·.address == a)).Perm (votes'.filter (·.address == a)))
    (ht : tally'.find? a = tally.find? a) : TallyAt votes' tally' a := by
  have hmem : ∀ v, v ∈ votes' ∧ v.address = a → v ∈ votes := by
    intro v ⟨hv', ha⟩
    have : v ∈ votes'.filter (·.address == a) := List.mem_filter.2 ⟨hv', by simpa using ha⟩
    exact (List.mem_filter.1 (hv.mem_iff.2 this)).1
  refine ⟨?_, fun t ht' => h.pos t (ht ▸ ht'), fun v hv' ha => ht ▸ h.authorize v (hmem v ⟨hv', ha⟩) ha⟩
  rw [tallyVotes, ht, ← tallyVotes, h.count, List.countP_eq_length_filter, List.countP_eq_length_filter,
    hv.length_eq]

/-- An address with no vote and no tally. -/
theorem tallyAt_of_none {votes : List Vote} {tally : KeyMap Address Tally} {a : Address}
    (hv : ∀ v ∈ votes, v.address ≠ a) (ht : tally.find? a = none) : TallyAt votes tally a := by
  refine ⟨?_, fun t h => by simp [ht] at h, fun v hv' ha => absurd ha (hv v hv')⟩
  rw [tallyVotes, ht, List.countP_eq_zero.2 fun v hv' => by simpa using hv v hv']
  rfl

theorem tallyOf_nil : TallyOf [] .empty := fun _ => tallyAt_of_none (by simp) rfl

theorem TallyOf.perm {votes votes' : List Vote} {tally : KeyMap Address Tally} (h : TallyOf votes tally)
    (hp : votes.Perm votes') : TallyOf votes' tally :=
  fun a => (h a).congr (hp.filter _) rfl

/-- A tally is backed by a vote on its address in its direction. -/
theorem TallyAt.exists_vote {votes : List Vote} {tally : KeyMap Address Tally} {a : Address} {t : Tally}
    (h : TallyAt votes tally a) (ht : tally.find? a = some t) :
    ∃ w ∈ votes, w.address = a ∧ w.authorize = t.authorize := by
  have hpos : 0 < votes.countP (·.address == a) := by
    have := h.count
    simp only [tallyVotes, ht, Option.map_some, Option.getD_some] at this
    exact this ▸ h.pos t ht
  obtain ⟨w, hw, hwa⟩ := List.countP_pos_iff.1 hpos
  have hwa : w.address = a := by simpa using hwa
  have := h.authorize w hw hwa
  rw [ht] at this
  exact ⟨w, hw, hwa, (Option.some.inj this).symm⟩

/-- Dropping every vote on `a` with its tally. -/
theorem TallyOf.erase {votes : List Vote} {tally : KeyMap Address Tally} (h : TallyOf votes tally) (a : Address) :
    TallyOf (votes.filter (·.address != a)) (tally.erase a) := by
  intro b
  by_cases hb : b = a
  · subst hb
    exact tallyAt_of_none (fun v hv => by simpa using (List.mem_filter.1 hv).2) (by simp [KeyMap.find?_erase])
  · refine (h b).congr ?_ (by rw [KeyMap.find?_erase, if_neg hb])
    rw [List.filter_filter]
    refine (List.filter_congr fun v _ => ?_).symm ▸ List.Perm.refl _
    by_cases hv : v.address = b <;> simp [hv, hb]

/-- Counting one more vote on `a`, in the direction of the others. -/
theorem TallyOf.insert {votes : List Vote} {tally : KeyMap Address Tally} (h : TallyOf votes tally) (v : Vote)
    (hdir : ∀ w ∈ votes, w.address = v.address → w.authorize = v.authorize) :
    TallyOf (votes ++ [v]) (tally.insert v.address ⟨v.authorize, tallyVotes tally v.address + 1⟩) := by
  intro a
  by_cases ha : a = v.address
  · subst ha
    refine ⟨?_, fun t ht => ?_, fun w hw hwa => ?_⟩
    · have hc := (h v.address).count
      simp only [tallyVotes] at hc
      simp [tallyVotes, hc, List.countP_append]
    · simp only [KeyMap.find?_insert_self, Option.some.injEq] at ht
      rw [← ht]
      simp
    · rw [KeyMap.find?_insert_self]
      rcases List.mem_append.1 hw with hw | hw
      · simp [hdir w hw hwa]
      · simp [List.mem_singleton.1 hw]
  · refine (h a).congr ?_ (KeyMap.find?_insert_of_ne _ _ ha)
    have hva : (v.address == a) = false := by simpa using Ne.symm ha
    rw [List.filter_append, List.filter_singleton, hva, cond_false, List.append_nil]

namespace Snapshot

theorem find?_tally_uncast_of_ne (snap : Snapshot) {a b : Address} (auth : Bool) (hb : b ≠ a) :
    (snap.uncast a auth).2.tally.find? b = snap.tally.find? b := by
  unfold uncast
  split
  · rfl
  · split
    · rfl
    · split
      · exact KeyMap.find?_insert_of_ne _ _ hb
      · rw [KeyMap.find?_erase, if_neg hb]

theorem tally_uncast_of_find? {snap : Snapshot} {a : Address} {auth : Bool} {t : Tally}
    (ht : snap.tally.find? a = some t) (hauth : t.authorize = auth) :
    (snap.uncast a auth).2.tally =
      if t.votes > 1 then snap.tally.insert a { t with votes := t.votes - 1 } else snap.tally.erase a := by
  unfold uncast
  rw [ht]
  by_cases hv : t.votes > 1 <;> simp [hauth, hv]

/-- Uncasting a vote the tally counts leaves a tally of the other votes. -/
theorem uncast_tallyOf {snap : Snapshot} {v : Vote} {votes : List Vote} (h : TallyOf (v :: votes) snap.tally) :
    TallyOf votes (snap.uncast v.address v.authorize).2.tally := by
  obtain ⟨t, ht, hauth⟩ : ∃ t, snap.tally.find? v.address = some t ∧ t.authorize = v.authorize := by
    have := (h v.address).authorize v List.mem_cons_self rfl
    cases hf : snap.tally.find? v.address with
    | none => simp [hf] at this
    | some t => exact ⟨t, rfl, by simpa [hf] using this⟩
  have hcount : t.votes = votes.countP (·.address == v.address) + 1 := by
    have := (h v.address).count
    simpa [tallyVotes, ht] using this
  intro a
  by_cases ha : a = v.address
  · subst ha
    rw [tally_uncast_of_find? ht hauth]
    by_cases hv : t.votes > 1
    · rw [if_pos hv]
      refine ⟨by simp [tallyVotes, hcount], fun t' h' => ?_, fun w hw hwa => ?_⟩
      · simp only [KeyMap.find?_insert_self, Option.some.injEq] at h'
        rw [← h']
        simp only
        omega
      · have := (h v.address).authorize w (List.mem_cons_of_mem _ hw) hwa
        rw [ht] at this
        simpa using this
    · rw [if_neg hv]
      -- the last vote on the address: no other is left
      have hnone : votes.countP (·.address == v.address) = 0 := by omega
      refine tallyAt_of_none (fun w hw hwa => ?_) (by simp [KeyMap.find?_erase])
      have : 0 < votes.countP (·.address == v.address) := List.countP_pos_iff.2 ⟨w, hw, by simpa using hwa⟩
      omega
  · refine (h a).congr ?_ (find?_tally_uncast_of_ne snap _ ha)
    rw [List.filter_cons_of_neg (by simpa using Ne.symm ha)]

/-- The tallies of votes uncast one after the other. -/
theorem uncastAll_tallyOf {votes : List Vote} :
    ∀ {snap : Snapshot} {removed : List Vote}, TallyOf (removed ++ votes) snap.tally →
      TallyOf votes (snap.uncastAll removed).tally
  | _, [], h => h
  | _, _ :: removed, h => @uncastAll_tallyOf votes _ removed (uncast_tallyOf h)

theorem cast_of_not_validVote {snap : Snapshot} {a : Address} {auth : Bool} (hv : snap.validVote a auth = false) :
    snap.cast a auth = (false, snap) := by
  unfold cast
  rw [if_pos (by simp [hv])]

/-- A meaningful vote in the direction of the votes already on its address. -/
theorem cast_of_validVote {snap : Snapshot} {a : Address} {auth : Bool} (hv : snap.validVote a auth = true)
    (hdir : ∀ t, snap.tally.find? a = some t → t.authorize = auth) :
    snap.cast a auth = (true, { snap with tally := snap.tally.insert a ⟨auth, tallyVotes snap.tally a + 1⟩ }) := by
  unfold cast
  rw [if_neg (by simp [hv])]
  cases ht : snap.tally.find? a with
  | none => simp [tallyVotes, ht]
  | some old => simp [tallyVotes, ht, ← hdir old ht]

theorem discardVotesOf_tallyOf {snap : Snapshot} (h : TallyOf snap.votes snap.tally) (signer : Address) :
    TallyOf (snap.discardVotesOf signer).votes (snap.discardVotesOf signer).tally := by
  have hperm : snap.votes.Perm (snap.votes.filter (·.signer == signer) ++ snap.votes.filter (·.signer != signer)) := by
    exact (List.filter_append_perm (·.signer == signer) snap.votes).symm
  exact uncastAll_tallyOf (h.perm hperm)

/-! ## The invariant of the votes -/

/-- The invariant of the votes: the tally counts them; each was cast by a
signer, once per signer and address; and each asks for a change, to add an
address that is not a signer or to drop one that is. -/
structure Consistent (snap : Snapshot) : Prop where
  tallyOf : TallyOf snap.votes snap.tally
  signer_mem : ∀ v ∈ snap.votes, snap.isSigner v.signer = true
  nodup : (snap.votes.map fun v => (v.signer, v.address)).Nodup
  authorize_iff : ∀ v ∈ snap.votes, v.authorize = !snap.isSigner v.address

/-- The invariant reads the votes, the tally and the signers only. -/
theorem Consistent.of_eq {snap snap' : Snapshot} (h : Consistent snap) (hv : snap'.votes = snap.votes)
    (ht : snap'.tally = snap.tally) (hs : snap'.signers = snap.signers) : Consistent snap' := by
  have hsig : ∀ a, snap'.isSigner a = snap.isSigner a := fun a => by simp [isSigner, hs]
  refine ⟨?_, fun v hv' => ?_, ?_, fun v hv' => ?_⟩
  · rw [hv, ht]
    exact h.tallyOf
  · rw [hsig]
    exact h.signer_mem v (hv ▸ hv')
  · rw [hv]
    exact h.nodup
  · rw [hsig]
    exact h.authorize_iff v (hv ▸ hv')

/-- Fewer votes, with a tally of them and the same signers. -/
theorem Consistent.of_sublist {snap snap' : Snapshot} (h : Consistent snap) (hv : snap'.votes.Sublist snap.votes)
    (ht : TallyOf snap'.votes snap'.tally) (hs : snap'.signers = snap.signers) : Consistent snap' := by
  have hsig : ∀ a, snap'.isSigner a = snap.isSigner a := fun a => by simp [isSigner, hs]
  refine ⟨ht, fun v hv' => ?_, (hv.map _).nodup h.nodup, fun v hv' => ?_⟩
  · rw [hsig]
    exact h.signer_mem v (hv.subset hv')
  · rw [hsig]
    exact h.authorize_iff v (hv.subset hv')

theorem checkpoint_consistent {snap : Snapshot} (h : Consistent snap) (config : CliqueConfig) (n : UInt64) :
    Consistent (snap.checkpoint config n) := by
  unfold checkpoint
  split
  · exact ⟨tallyOf_nil, by simp, by simp, by simp⟩
  · exact h

theorem discardVote_consistent {snap : Snapshot} (h : Consistent snap) (signer address : Address) :
    Consistent (snap.discardVote signer address) := by
  unfold discardVote
  dsimp only
  split
  · rename_i v hv
    refine h.of_sublist List.eraseP_sublist ?_ (by simp)
    exact uncast_tallyOf (h.tallyOf.perm (Lists.perm_cons_eraseP_of_find? hv))
  · exact h

/-- After the discard, the signer has no vote on the address left. -/
theorem discardVote_fresh {snap : Snapshot} (h : Consistent snap) (signer address : Address) :
    ∀ v ∈ (snap.discardVote signer address).votes, ¬(v.signer = signer ∧ v.address = address) := by
  have hnone : ∀ v ∈ snap.votes.eraseP (fun v => v.signer == signer && v.address == address),
      ¬(v.signer = signer ∧ v.address = address) := by
    intro v hv hva
    refine Lists.not_of_mem_eraseP (f := fun v => (v.signer, v.address)) ?_ h.nodup v hv (by simp [hva])
    intro x y hx hy
    simp only [Bool.and_eq_true, beq_iff_eq] at hx hy
    rw [hx.1, hx.2, hy.1, hy.2]
  unfold discardVote
  dsimp only
  split
  · exact hnone
  · rename_i hv
    intro v hv' hva
    exact absurd (List.find?_eq_none.1 hv v hv') (by simp [hva])

/-- A meaningful vote in the direction every recorded vote on its address
takes, since those were meaningful too. -/
theorem Consistent.direction {snap : Snapshot} (h : Consistent snap) {a : Address} {auth : Bool}
    (hv : snap.validVote a auth = true) : ∀ w ∈ snap.votes, w.address = a → w.authorize = auth := by
  intro w hw hwa
  rw [h.authorize_iff w hw, hwa]
  dsimp only [validVote] at hv
  cases hs : snap.isSigner a <;> cases auth <;> simp_all

/-- The header's vote, cast by a signer with no other vote on the address. -/
theorem castVote_consistent {snap : Snapshot} (h : Consistent snap) {signer : Address} (number : UInt64)
    (coinbase : Address) (authorize : Bool) (hsigner : snap.isSigner signer = true)
    (hfresh : ∀ v ∈ snap.votes, ¬(v.signer = signer ∧ v.address = coinbase)) :
    Consistent (snap.castVote signer number coinbase authorize) := by
  unfold castVote
  by_cases hv : snap.validVote coinbase authorize = true
  · have hdir := h.direction hv
    have htally : ∀ t, snap.tally.find? coinbase = some t → t.authorize = authorize := by
      intro t ht
      obtain ⟨w, hw, hwa, hwt⟩ := (h.tallyOf coinbase).exists_vote ht
      rw [← hwt, hdir w hw hwa]
    rw [cast_of_validVote hv htally]
    dsimp only
    rw [if_pos rfl]
    refine ⟨h.tallyOf.insert ⟨signer, number, coinbase, authorize⟩ hdir, fun v hv' => ?_, ?_, fun v hv' => ?_⟩
    · rcases List.mem_append.1 hv' with hv' | hv'
      · exact h.signer_mem v hv'
      · rw [List.mem_singleton.1 hv']
        exact hsigner
    · rw [List.map_append, List.nodup_append]
      refine ⟨h.nodup, List.nodup_singleton _, fun x hx y hy hxy => ?_⟩
      obtain ⟨w, hw, rfl⟩ := List.mem_map.1 hx
      simp only [List.map_cons, List.map_nil, List.mem_singleton] at hy
      rw [hy, Prod.mk.injEq] at hxy
      exact hfresh w hw hxy
    · show v.authorize = !snap.isSigner v.address
      rcases List.mem_append.1 hv' with hv' | hv'
      · exact h.authorize_iff v hv'
      · rw [List.mem_singleton.1 hv']
        dsimp only [validVote] at hv
        cases hs : snap.isSigner coinbase <;> cases authorize <;> simp_all
  · rw [cast_of_not_validVote (by simpa using hv)]
    exact h

/-- A passing vote changes the signers by its address, and takes every vote on
that address (and, for a dropped signer, every vote it cast) with it. -/
theorem passVote_consistent {snap : Snapshot} (h : Consistent snap) (number : UInt64) (coinbase : Address) :
    Consistent (snap.passVote number coinbase) := by
  unfold passVote
  dsimp only
  split_ifs with hpass hauth
  · -- the coinbase becomes a signer
    refine ⟨h.tallyOf.erase coinbase, fun v hv => ?_, (List.filter_sublist.map _).nodup h.nodup, fun v hv => ?_⟩
    · show (snap.signers.insert coinbase () |>.find? v.signer).isSome = true
      rw [KeyMap.find?_insert]
      split
      · rfl
      · exact h.signer_mem v (List.mem_filter.1 hv).1
    · have hne : v.address ≠ coinbase := by simpa using (List.mem_filter.1 hv).2
      show v.authorize = !({ snap with signers := snap.signers.insert coinbase () } : Snapshot).isSigner v.address
      rw [isSigner_insert_of_ne _ hne]
      exact h.authorize_iff v (List.mem_filter.1 hv).1
  · -- the coinbase is dropped with the votes it cast
    set dropped := (({ snap with signers := snap.signers.erase coinbase } : Snapshot).deleteRecent number).discardVotesOf
      coinbase
    have hsigners : dropped.signers = snap.signers.erase coinbase := by simp [dropped, discardVotesOf]
    have hmem : ∀ v ∈ dropped.votes, v ∈ snap.votes ∧ v.signer ≠ coinbase := by
      intro v hv
      have := List.mem_filter.1 hv
      exact ⟨by simpa using this.1, by simpa using this.2⟩
    have hsub : dropped.votes.Sublist snap.votes := by
      simp [dropped, discardVotesOf, List.filter_sublist]
    refine ⟨TallyOf.erase (discardVotesOf_tallyOf (by simpa using h.tallyOf) coinbase) coinbase,
      fun v hv => ?_, ((List.filter_sublist.trans hsub).map _).nodup h.nodup, fun v hv => ?_⟩
    · obtain ⟨hv, -⟩ := List.mem_filter.1 hv
      simp only [isSigner, hsigners, KeyMap.find?_erase, if_neg (hmem v hv).2]
      exact h.signer_mem v (hmem v hv).1
    · obtain ⟨hv, hvc⟩ := List.mem_filter.1 hv
      have hne : v.address ≠ coinbase := by simpa using hvc
      simp only [isSigner, hsigners, KeyMap.find?_erase, if_neg hne]
      exact h.authorize_iff v (hmem v hv).1
  · exact h

variable {ecrecover : Header → Except CliqueError Address} {keccak : List UInt8 → Hash}

/-- One header keeps the invariant. -/
theorem applyHeader_consistent {config : CliqueConfig} {snap snap' : Snapshot} {header : Header}
    (h : Consistent snap) (hstep : snap.applyHeader ecrecover config header = .ok snap') : Consistent snap' := by
  obtain ⟨signer, authorize, s, -, -, hv, ht, hs, hsigner, rfl⟩ := applyHeader_eq_ok hstep
  have hs0 : Consistent s := (checkpoint_consistent h config _).of_eq hv ht (by simpa using hs)
  have hs1 := discardVote_consistent hs0 signer header.coinbase
  have hsigner1 : (s.discardVote signer header.coinbase).isSigner signer = true := by
    simpa [isSigner] using hsigner
  exact passVote_consistent (castVote_consistent hs1 _ _ authorize hsigner1 (discardVote_fresh hs0 _ _)) _ _

/-- The headers of one `apply`, one after the other. -/
theorem foldlM_applyHeader_consistent {config : CliqueConfig} :
    ∀ {headers : List Header} {snap snap' : Snapshot}, Consistent snap →
      headers.foldlM (applyHeader ecrecover config) snap = .ok snap' → Consistent snap'
  | [], _, _, h, hrun => by
    cases hrun
    exact h
  | header :: headers, snap, snap', h, hrun => by
    rw [List.foldlM_cons, bind_eq_ok] at hrun
    obtain ⟨mid, hmid, hrest⟩ := hrun
    exact foldlM_applyHeader_consistent (applyHeader_consistent h hmid) hrest

theorem apply_consistent {snap snap' : Snapshot} {headers : List Header}
    (h : Consistent snap) (happ : snap.apply ecrecover keccak headers = .ok snap') : Consistent snap' := by
  cases headers with
  | nil =>
    cases happ
    exact h
  | cons first rest =>
    obtain ⟨-, -, snap₁, hrun, rfl⟩ := apply_eq_ok happ
    exact (foldlM_applyHeader_consistent h hrun).of_eq rfl rfl rfl

/-! ## Votes of the current epoch -/

/-- Every vote was cast in the epoch of block `n`, at or before `n`. -/
def SinceCheckpoint (epoch n : UInt64) (votes : List Vote) : Prop :=
  ∀ v ∈ votes, n - n % epoch ≤ v.block ∧ v.block ≤ n

theorem SinceCheckpoint.sublist {epoch n : UInt64} {votes votes' : List Vote} (h : SinceCheckpoint epoch n votes)
    (hs : votes'.Sublist votes) : SinceCheckpoint epoch n votes' :=
  fun v hv => h v (hs.subset hv)

/-- The votes that survive the checkpoint test of the next block. -/
theorem checkpoint_sinceCheckpoint {snap : Snapshot} {config : CliqueConfig} {prev : UInt64}
    (h : SinceCheckpoint config.epoch prev snap.votes) :
    SinceCheckpoint config.epoch (prev + 1) (snap.checkpoint config (prev + 1)).votes := by
  unfold checkpoint
  split
  · simp [SinceCheckpoint]
  · rename_i hcp
    obtain ⟨hle, hstart⟩ := Epoch.uint64_succ_sub_mod_of_ne_zero hcp
    intro v hv
    obtain ⟨h1, h2⟩ := h v hv
    exact ⟨hstart ▸ h1, UInt64.le_trans h2 hle⟩

/-- One header's votes are cast in its own epoch. -/
theorem applyHeader_sinceCheckpoint {config : CliqueConfig} {snap snap' : Snapshot} {header : Header}
    {prev : UInt64} (h : SinceCheckpoint config.epoch prev snap.votes) (hn : header.number.toUInt64 = prev + 1)
    (hstep : snap.applyHeader ecrecover config header = .ok snap') :
    SinceCheckpoint config.epoch header.number.toUInt64 snap'.votes := by
  obtain ⟨signer, authorize, s, -, -, hv, -, -, -, rfl⟩ := applyHeader_eq_ok hstep
  have h0 : SinceCheckpoint config.epoch header.number.toUInt64 s.votes := by
    rw [hv, hn]
    exact checkpoint_sinceCheckpoint h
  have h1 := h0.sublist (discardVote_votes_sublist s signer header.coinbase)
  refine SinceCheckpoint.sublist ?_ (passVote_votes_sublist _ _ _)
  rw [castVote_votes]
  split
  · intro v hv'
    rcases List.mem_append.1 hv' with hv' | hv'
    · exact h1 v hv'
    · rw [List.mem_singleton.1 hv']
      exact ⟨Epoch.uint64_sub_mod_le _ _, UInt64.le_refl _⟩
  · exact h1

/-- The steps over consecutive headers cast their votes in the epoch of the
last one. -/
theorem foldlM_applyHeader_sinceCheckpoint {config : CliqueConfig} :
    ∀ {headers : List Header} {first : Header} {snap snap' : Snapshot} {prev : UInt64},
      SinceCheckpoint config.epoch prev snap.votes → consecutive (first :: headers) = true →
      first.number.toUInt64 = prev + 1 →
      (first :: headers).foldlM (applyHeader ecrecover config) snap = .ok snap' →
      SinceCheckpoint config.epoch ((first :: headers).getLast (by simp)).number.toUInt64 snap'.votes
  | [], first, snap, snap', prev, hs, _, hn, hrun => by
    rw [List.foldlM_cons, bind_eq_ok] at hrun
    obtain ⟨mid, hmid, hrest⟩ := hrun
    cases hrest
    exact applyHeader_sinceCheckpoint hs hn hmid
  | next :: headers, first, snap, snap', prev, hs, hc, hn, hrun => by
    rw [List.foldlM_cons, bind_eq_ok] at hrun
    obtain ⟨mid, hmid, hrest⟩ := hrun
    simp only [consecutive, Bool.and_eq_true, beq_iff_eq] at hc
    rw [List.getLast_cons_cons]
    exact foldlM_applyHeader_sinceCheckpoint (applyHeader_sinceCheckpoint hs hn hmid) hc.2 hc.1 hrest

theorem apply_sinceCheckpoint {snap snap' : Snapshot} {headers : List Header}
    (hs : SinceCheckpoint snap.config.epoch snap.number snap.votes)
    (happ : snap.apply ecrecover keccak headers = .ok snap') :
    SinceCheckpoint snap'.config.epoch snap'.number snap'.votes := by
  cases headers with
  | nil =>
    cases happ
    exact hs
  | cons first rest =>
    obtain ⟨hc, hn, snap₁, hrun, rfl⟩ := apply_eq_ok happ
    obtain ⟨hconfig, hnumber, -⟩ := foldlM_applyHeader_position hrun
    have hlast := getLast_number_of_consecutive hc hn
    have := foldlM_applyHeader_sinceCheckpoint hs hc hn hrun
    rw [hlast, ← hnumber, ← hconfig] at this
    exact this

/-! ## How the signers change -/

/-- `voter` has a vote recorded for the change of the header's coinbase: the
header's own, if its signer is `voter`, or one cast before it since the last
checkpoint. -/
def RecordedVote (snap : Snapshot) (header : Header) (signer voter : Address) : Prop :=
  (voter = signer ∧ nonceVote header = .ok (!snap.isSigner header.coinbase)) ∨
  (voter ≠ signer ∧ ∃ vote ∈ snap.votes, vote.signer = voter ∧ vote.address = header.coinbase ∧
    vote.authorize = !snap.isSigner header.coinbase ∧
    header.number.toUInt64 - header.number.toUInt64 % snap.config.epoch ≤ vote.block)

/-- How a header signed by `signer` may change the signers: not at all, or by
adding or dropping its coinbase when more than half of the signers have a
recorded vote for that. -/
def SignersChange (snap : Snapshot) (header : Header) (signer : Address) (snap' : Snapshot) : Prop :=
  snap'.signers = snap.signers ∨
    (snap'.signers = if snap.isSigner header.coinbase then snap.signers.erase header.coinbase
      else snap.signers.insert header.coinbase ()) ∧
    ∃ voters : List Address, voters.Nodup ∧ snap.signers.size / 2 < voters.length ∧
      ∀ voter ∈ voters, snap.isSigner voter = true ∧ snap.RecordedVote header signer voter

/-- The signers of the votes on one address, each once. -/
theorem Consistent.voters {snap : Snapshot} (h : Consistent snap) {a : Address} {t : Tally}
    (ht : snap.tally.find? a = some t) :
    ∃ voters : List Address, voters.Nodup ∧ voters.length = t.votes ∧
      ∀ voter ∈ voters, ∃ w ∈ snap.votes, w.signer = voter ∧ w.address = a := by
  refine ⟨(snap.votes.filter (·.address == a)).map (·.signer), ?_, ?_, fun voter hvoter => ?_⟩
  · have hpairs : ((snap.votes.filter (·.address == a)).map fun v => (v.signer, v.address)) =
        ((snap.votes.filter (·.address == a)).map (·.signer)).map (·, a) := by
      rw [List.map_map]
      refine List.map_congr_left fun v hv => ?_
      simp only [Function.comp, (by simpa using (List.mem_filter.1 hv).2 : v.address = a)]
    have hnodup : ((snap.votes.filter (·.address == a)).map fun v => (v.signer, v.address)).Nodup :=
      (List.filter_sublist.map _).nodup h.nodup
    rw [hpairs] at hnodup
    exact hnodup.of_map _
  · have hcount := (h.tallyOf a).count
    simp only [tallyVotes, ht, Option.map_some, Option.getD_some] at hcount
    rw [List.length_map, ← List.countP_eq_length_filter, hcount]
  · obtain ⟨w, hw, rfl⟩ := List.mem_map.1 hvoter
    exact ⟨w, (List.mem_filter.1 hw).1, rfl, by simpa using (List.mem_filter.1 hw).2⟩

/-- **One header changes the signers only by a vote that passed.** -/
theorem applyHeader_signersChange {snap snap' : Snapshot} {header : Header} {prev : UInt64}
    (hc : Consistent snap) (hs : SinceCheckpoint snap.config.epoch prev snap.votes)
    (hn : header.number.toUInt64 = prev + 1) (hstep : snap.applyHeader ecrecover snap.config header = .ok snap') :
    ∃ signer, ecrecover header = .ok signer ∧ SignersChange snap header signer snap' := by
  obtain ⟨signer, authorize, s, hsig, hauth, hv, ht, hss, hsigner, rfl⟩ := applyHeader_eq_ok hstep
  refine ⟨signer, hsig, ?_⟩
  have hs0 : Consistent s := (checkpoint_consistent hc snap.config _).of_eq hv ht (by simpa using hss)
  have hs1 := discardVote_consistent hs0 signer header.coinbase
  have hsigner1 : (s.discardVote signer header.coinbase).isSigner signer = true := by
    simpa [isSigner] using hsigner
  set c := (s.discardVote signer header.coinbase).castVote signer header.number.toUInt64 header.coinbase authorize
    with hcdef
  have hc2 : Consistent c := castVote_consistent hs1 _ _ authorize hsigner1 (discardVote_fresh hs0 _ _)
  have hcsigners : c.signers = snap.signers := by simp [c, hss]
  have hcsig : ∀ a, c.isSigner a = snap.isSigner a := fun a => by simp [isSigner, hcsigners]
  -- the votes on the coinbase after the cast are recorded votes
  have hrecorded : ∀ w ∈ c.votes, w.address = header.coinbase → snap.RecordedVote header signer w.signer := by
    intro w hw hwa
    have hdir : w.authorize = !snap.isSigner header.coinbase := by rw [hc2.authorize_iff w hw, hwa, hcsig]
    have hold : w ∈ (s.discardVote signer header.coinbase).votes →
        snap.RecordedVote header signer w.signer := by
      intro hwd
      have hne : w.signer ≠ signer := fun he => discardVote_fresh hs0 signer header.coinbase w hwd ⟨he, hwa⟩
      obtain ⟨hcp, hws⟩ := mem_checkpoint_votes (hv ▸ (discardVote_votes_sublist _ _ _).subset hwd)
      obtain ⟨-, hstart⟩ := Epoch.uint64_succ_sub_mod_of_ne_zero (hn ▸ hcp)
      refine .inr ⟨hne, w, hws, rfl, hwa, hdir, ?_⟩
      rw [hn, hstart]
      exact (hs w hws).1
    rw [hcdef, castVote_votes] at hw
    split at hw
    · rcases List.mem_append.1 hw with hw | hw
      · exact hold hw
      · -- the header's own vote
        obtain rfl := List.mem_singleton.1 hw
        refine .inl ⟨rfl, ?_⟩
        rw [hauth]
        exact congrArg Except.ok hdir
    · exact hold hw
  unfold passVote
  dsimp only
  by_cases hpass : ((c.tally.find? header.coinbase).getD ⟨false, 0⟩).votes > c.signers.size / 2
  · -- a passing vote has a tally, backed by more than half of the signers
    obtain ⟨t, ht⟩ : ∃ t, c.tally.find? header.coinbase = some t := by
      cases hf : c.tally.find? header.coinbase with
      | none => simp [hf] at hpass
      | some t => exact ⟨t, rfl⟩
    rw [ht, Option.getD_some] at hpass ⊢
    rw [if_pos hpass]
    have hdirection : t.authorize = !snap.isSigner header.coinbase := by
      obtain ⟨w, hw, hwa, hwt⟩ := (hc2.tallyOf header.coinbase).exists_vote ht
      rw [← hwt, hc2.authorize_iff w hw, hwa, hcsig]
    obtain ⟨voters, hnodup, hlen, hmem⟩ := hc2.voters ht
    refine .inr ⟨?_, voters, hnodup, by rw [hlen, ← hcsigners]; exact hpass, fun voter hvoter => ?_⟩
    · cases hcb : snap.isSigner header.coinbase
      · rw [hcb] at hdirection
        simp [hdirection, hcsigners]
      · rw [hcb] at hdirection
        simp [hdirection, hcsigners]
    · obtain ⟨w, hw, rfl, hwa⟩ := hmem voter hvoter
      exact ⟨by rw [← hcsig]; exact hc2.signer_mem w hw, hrecorded w hw hwa⟩
  · rw [if_neg hpass]
    exact .inl hcsigners

end Snapshot

/-! ## Reachable snapshots -/

/-- The snapshots `apply` reaches from a genesis snapshot. -/
inductive Reachable (ecrecover : Header → Except CliqueError Address) (keccak : List UInt8 → Hash) :
    Snapshot → Prop where
  | newSnapshot (config : CliqueConfig) (number : UInt64) (hash : Hash) (signers : List Address) :
    Reachable ecrecover keccak (newSnapshot config number hash signers)
  | apply {snap snap' : Snapshot} (headers : List Header) :
    Reachable ecrecover keccak snap → snap.apply ecrecover keccak headers = .ok snap' →
      Reachable ecrecover keccak snap'

theorem newSnapshot_consistent (config : CliqueConfig) (number : UInt64) (hash : Hash) (signers : List Address) :
    (newSnapshot config number hash signers).Consistent :=
  ⟨tallyOf_nil, by simp [newSnapshot], by simp [newSnapshot], by simp [newSnapshot]⟩

theorem Reachable.consistent {ecrecover : Header → Except CliqueError Address} {keccak : List UInt8 → Hash}
    {snap : Snapshot} (h : Reachable ecrecover keccak snap) : snap.Consistent := by
  induction h with
  | newSnapshot config number hash signers => exact newSnapshot_consistent config number hash signers
  | apply headers _ happ ih => exact Snapshot.apply_consistent ih happ

theorem Reachable.sinceCheckpoint {ecrecover : Header → Except CliqueError Address} {keccak : List UInt8 → Hash}
    {snap : Snapshot} (h : Reachable ecrecover keccak snap) :
    Snapshot.SinceCheckpoint snap.config.epoch snap.number snap.votes := by
  induction h with
  | newSnapshot config number hash signers => exact fun v hv => by cases hv
  | apply headers _ happ ih => exact Snapshot.apply_sinceCheckpoint ih happ

theorem reachable_snapshot_voting (ecrecover : Header → Except CliqueError Address) (keccak : List UInt8 → Hash)
    {snap : Snapshot} (h : Reachable ecrecover keccak snap) :
    snap.Consistent ∧ ∀ header snap', snap.apply ecrecover keccak [header] = .ok snap' →
      ∃ signer, ecrecover header = .ok signer ∧ snap.SignersChange header signer snap' := by
  refine ⟨h.consistent, fun header snap' happ => ?_⟩
  obtain ⟨-, hn, snap₁, hrun, rfl⟩ := Snapshot.apply_eq_ok happ
  rw [List.foldlM_cons, bind_eq_ok] at hrun
  obtain ⟨mid, hmid, hrest⟩ := hrun
  cases hrest
  -- the move to the header's block leaves the signers as the step made them
  obtain ⟨signer, hsig, hchange⟩ := Snapshot.applyHeader_signersChange h.consistent h.sinceCheckpoint hn hmid
  exact ⟨signer, hsig, hchange⟩

def genesisConfig : CliqueConfig := ⟨epochLength, by decide⟩

/-! ### Three signers voting a fourth in

Signer `i` is the address of twenty bytes `i`. A header sealed by signer
`i` carries `i` as the last byte of its extra data, where the seal stands,
and `sealSigner` recovers it, as `ecrecover` recovers the key that signed
the seal. Signers 1 and 2 vote, in blocks 1 and 2, to add signer 4. -/

def signerAddr (i : UInt8) : Address := Vector.replicate 20 i

/-- The seal check of these headers: the signer the seal byte names. -/
def sealSigner (header : Header) : Except CliqueError Address :=
  match header.extra.getLast? with
  | some i => .ok (signerAddr i)
  | none => .error .missingSignature

/-- Block `number`, sealed by signer `sealer`, voting to add `candidate`. -/
def voteHeader (number : Nat) (candidate sealer : UInt8) : Header :=
  { parentHash := Vector.replicate 32 0, uncleHash := Vector.replicate 32 0, coinbase := signerAddr candidate,
    root := Vector.replicate 32 0, txHash := Vector.replicate 32 0, receiptHash := Vector.replicate 32 0,
    bloom := Vector.replicate 256 0, difficulty := 2, number, gasLimit := 0, gasUsed := 0, time := 0,
    extra := [sealer], mixDigest := Vector.replicate 32 0, nonce := nonceAuthVote }

def zeroKeccak (_ : List UInt8) : Hash := Vector.replicate 32 0

def genesisSnap : Snapshot :=
  newSnapshot genesisConfig 0 (Vector.replicate 32 0) [signerAddr 1, signerAddr 2, signerAddr 3]

/-- The snapshot after block 1, whatever `apply` made of it. -/
def votedSnap : Snapshot :=
  match genesisSnap.apply sealSigner zeroKeccak [voteHeader 1 4 1] with
  | .ok snap => snap
  | .error _ => genesisSnap

/-- The snapshot after block 2. -/
def addedSnap : Snapshot :=
  match votedSnap.apply sealSigner zeroKeccak [voteHeader 2 4 2] with
  | .ok snap => snap
  | .error _ => votedSnap

theorem reachable_snapshot_voting_after_votes :
    Reachable sealSigner zeroKeccak votedSnap ∧
      (votedSnap.Consistent ∧ ∀ header snap', votedSnap.apply sealSigner zeroKeccak [header] = .ok snap' →
        ∃ signer, sealSigner header = .ok signer ∧ votedSnap.SignersChange header signer snap') ∧
      votedSnap.apply sealSigner zeroKeccak [voteHeader 2 4 2] = .ok addedSnap ∧
      votedSnap.isSigner (signerAddr 4) = false ∧ addedSnap.isSigner (signerAddr 4) = true ∧
      ∃ signer, sealSigner (voteHeader 2 4 2) = .ok signer ∧
        votedSnap.SignersChange (voteHeader 2 4 2) signer addedSnap := by
  -- block 1 is applied from genesis, so the snapshot after it is reachable
  have h₁ : genesisSnap.apply sealSigner zeroKeccak [voteHeader 1 4 1] = .ok votedSnap := rfl
  have hr : Reachable sealSigner zeroKeccak votedSnap :=
    .apply [voteHeader 1 4 1] (.newSnapshot genesisConfig 0 (Vector.replicate 32 0) _) h₁
  have hvote := reachable_snapshot_voting sealSigner zeroKeccak hr
  -- block 2's vote is the second of three signers: signer 4 is added
  have happ : votedSnap.apply sealSigner zeroKeccak [voteHeader 2 4 2] = .ok addedSnap := rfl
  exact ⟨hr, hvote, happ, by decide, by decide, hvote.2 _ _ happ⟩

end Xdchain.Clique
