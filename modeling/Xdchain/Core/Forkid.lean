import Mathlib.Data.UInt
import Xdchain.Lib.SliceSort
import Xdchain.Lib.BigEndian

/-! # Fork identifiers (EIP-2124)

`core/forkid/forkid.go`. A node announces the checksum of its genesis and the
fork blocks it has passed, and the next fork it knows of (`NewID`); a filter
built from the local configuration judges the announcements of remote nodes
(`newFilter`). The fork blocks come from the configuration by `gatherForks`:
collected, sorted by an exchange sort, stripped of repeats and of block 0.
CRC32 itself (`crc32.Update` over the IEEE table) is a parameter.

`NewID` counts a fork as passed when it is at or below the head; the filter
skips a fork only when the head is above it. The two agree at every head that
is not a fork block. At a fork block the filter works one fork behind, and
rejects a remote node of the same chain that has not yet reached the fork. -/

namespace Xdchain.Core.Forkid

open Xdchain.Lib.SliceSort Xdchain.Lib.BigEndian

/-- The fork blocks of `params.ChainConfig` that `gatherForks` reads: the
`*big.Int` fields whose names end in `Block`, in declaration order, without
`QIP714Block`, which it skips by name. `nil` is `none`. -/
structure ChainConfig where
  HomesteadBlock : Option Nat := none
  DAOForkBlock : Option Nat := none
  EIP150Block : Option Nat := none
  EIP155Block : Option Nat := none
  EIP158Block : Option Nat := none
  ByzantiumBlock : Option Nat := none
  ConstantinopleBlock : Option Nat := none
  PetersburgBlock : Option Nat := none
  IstanbulBlock : Option Nat := none
  MuirGlacierBlock : Option Nat := none
  YoloV2Block : Option Nat := none
  EWASMBlock : Option Nat := none
  MaxCodeSizeChangeBlock : Option Nat := none
  PrivacyEnhancementsBlock : Option Nat := none
  PrivacyPrecompileBlock : Option Nat := none

/-- The fields in the order reflection walks them. -/
def ChainConfig.forkFields (c : ChainConfig) : List (Option Nat) :=
  [c.HomesteadBlock, c.DAOForkBlock, c.EIP150Block, c.EIP155Block, c.EIP158Block, c.ByzantiumBlock,
    c.ConstantinopleBlock, c.PetersburgBlock, c.IstanbulBlock, c.MuirGlacierBlock, c.YoloV2Block,
    c.EWASMBlock, c.MaxCodeSizeChangeBlock, c.PrivacyEnhancementsBlock, c.PrivacyPrecompileBlock]

/-- The fork blocks of the set fields, as `rule.Uint64()` reads them. -/
def ChainConfig.rules (c : ChainConfig) : List UInt64 := c.forkFields.filterMap (Option.map UInt64.ofNat)

section Gather

/-- `uint64` ordered as Go orders it, for the sort. -/
local instance uint64LinearOrder : LinearOrder UInt64 :=
  LinearOrder.lift' UInt64.toNat (fun _ _ h => UInt64.toNat_inj.1 h)

/-- The last step of `gatherForks`: skip any forks in block 0, that's the
genesis ruleset. -/
def skipGenesis (forks : List UInt64) : List UInt64 :=
  match forks with
  | 0 :: rest => rest
  | _ => forks

def gatherForks (config : ChainConfig) : List UInt64 :=
  let forks := exchangeSort config.rules
  -- deduplicate block numbers applying multiple forks
  skipGenesis (dedupSorted forks)

theorem dedup_rules_spec (config : ChainConfig) :
    (dedupSorted (exchangeSort config.rules)).Pairwise (· < ·) ∧
      ∀ f, f ∈ dedupSorted (exchangeSort config.rules) ↔ f ∈ config.rules := by
  obtain ⟨hsorted, hperm⟩ := exchangeSort_spec config.rules
  obtain ⟨hstrict, hmem⟩ := dedupSorted_spec hsorted
  exact ⟨hstrict, fun f => (hmem f).trans hperm.mem_iff⟩

end Gather

/-- Dropping block 0 from the front of a strictly sorted list leaves its
non-zero elements, still strictly sorted. -/
theorem skipGenesis_spec {l : List UInt64} (hs : l.Pairwise (· < ·)) :
    (skipGenesis l).Pairwise (· < ·) ∧ ∀ f, f ∈ skipGenesis l ↔ f ≠ 0 ∧ f ∈ l := by
  cases l with
  | nil => simp [skipGenesis]
  | cons a rest =>
    have habove : ∀ g ∈ rest, a < g := (List.pairwise_cons.1 hs).1
    by_cases ha : a = 0
    · subst ha
      refine ⟨(List.pairwise_cons.1 hs).2, fun f => ⟨fun hf => ⟨?_, List.mem_cons_of_mem _ hf⟩, ?_⟩⟩
      · rintro rfl
        exact UInt64.lt_irrefl 0 (habove 0 hf)
      · rintro ⟨hne, hf⟩
        rcases List.mem_cons.1 hf with rfl | hf
        · exact absurd rfl hne
        · exact hf
    · have hskip : skipGenesis (a :: rest) = a :: rest := by
        simp [skipGenesis, ha]
      rw [hskip]
      refine ⟨hs, fun f => ⟨fun hf => ⟨?_, hf⟩, fun h => h.2⟩⟩
      rintro rfl
      rcases List.mem_cons.1 hf with h | h
      · exact ha h.symm
      · exact UInt64.not_lt_zero (habove 0 h)

/-- **The forks are the configured non-zero blocks, in increasing order.** -/
theorem gatherForks_spec (config : ChainConfig) :
    (gatherForks config).Pairwise (· < ·) ∧ ∀ f, f ∈ gatherForks config ↔ f ≠ 0 ∧ f ∈ config.rules := by
  obtain ⟨hstrict, hmem⟩ := dedup_rules_spec config
  obtain ⟨hskip, hskipMem⟩ := skipGenesis_spec hstrict
  exact ⟨hskip, fun f => (hskipMem f).trans (and_congr_right fun _ => hmem f)⟩

theorem gatherForks_pos {config : ChainConfig} {f : UInt64} (hf : f ∈ gatherForks config) : 0 < f := by
  have hne := (((gatherForks_spec config).2 f).1 hf).1
  rw [UInt64.lt_iff_toNat_lt]
  have : f.toNat ≠ 0 := fun h => hne (UInt64.toNat_inj.1 h)
  simp only [UInt64.toNat_zero]
  omega

/-! ## Checksums and identifiers -/

/-- `checksumToBytes`: the checksum's four big-endian bytes. -/
def checksumToBytes (hash : UInt32) : List UInt8 := fixedBytes 4 hash.toNat

/-- `ID`: the checksum of the genesis and the passed fork blocks, and the
next fork block, or 0 if no forks are known. -/
structure ID where
  Hash : List UInt8
  Next : UInt64
deriving DecidableEq, Repr

inductive FilterError
  /-- `ErrRemoteStale` -/
  | remoteStale
  /-- `ErrLocalIncompatibleOrStale` -/
  | localIncompatibleOrStale
deriving DecidableEq, Repr

section Checksums

-- `crc32.Update(crc, crc32.IEEETable, p)`; `crc32.ChecksumIEEE(p)` is `update 0 p`
variable (update : UInt32 → List UInt8 → UInt32)

/-- `checksumUpdate`: the checksum of the previous blob followed by the
fork's eight big-endian bytes. -/
def checksumUpdate (hash : UInt32) (fork : UInt64) : UInt32 := update hash (fixedBytes 8 fork.toNat)

/-- The loop of `NewID`: checksum each passed fork, stop at the first one
ahead of the head. -/
def passForks (head : UInt64) : UInt32 → List UInt64 → UInt32 × UInt64
  | hash, [] => (hash, 0)
  | hash, fork :: forks =>
    if fork ≤ head then passForks head (checksumUpdate update hash fork) forks
    else (hash, fork)

def NewID (config : ChainConfig) (genesis : List UInt8) (head : UInt64) : ID :=
  -- the starting checksum is that of the genesis hash
  let passed := passForks update head (update 0 genesis) (gatherForks config)
  ⟨checksumToBytes passed.1, passed.2⟩

/-- The `sums` of `newFilter`: the checksum of the genesis, then after each
further fork. -/
def sumsFrom : UInt32 → List UInt64 → List (List UInt8)
  | hash, [] => [checksumToBytes hash]
  | hash, fork :: forks => checksumToBytes hash :: sumsFrom (checksumUpdate update hash fork) forks

/-- The validation at `i`, the first fork the head has not passed. -/
def checkFork (sums : List (List UInt8)) (forks : List UInt64) (head : UInt64) (id : ID) (i : Nat) :
    Option FilterError :=
  -- rule 1: the same fork state; a remote next fork passed locally is rule 1a
  if sums[i]? = some id.Hash then
    if id.Next > 0 ∧ head ≥ id.Next then some .localIncompatibleOrStale else none
  else
    -- rule 2: the remote checksum is one of the local past forks
    match (List.range i).find? (fun j => sums[j]? == some id.Hash) with
    | some j => if forks[j]? ≠ some id.Next then some .remoteStale else none
    | none =>
      -- rule 3: the remote checksum is a local future fork
      if (List.range' (i + 1) (sums.length - (i + 1))).any (fun j => sums[j]? == some id.Hash) then none
      else some .localIncompatibleOrStale

/-- The loop of the filter over the forks: it skips those the head is
above. Past the sentinel it accepts, as Go does after logging an impossible
validation. -/
def filterLoop (sums : List (List UInt8)) (forks : List UInt64) (head : UInt64) (id : ID) :
    Nat → List UInt64 → Option FilterError
  | _, [] => none
  | i, fork :: rest =>
    if head > fork then filterLoop sums forks head id (i + 1) rest else checkFork sums forks head id i

/-- `newFilter` applied to an `ID`, with `head` what `headfn` returns then;
`none` is a nil error. -/
def newFilter (config : ChainConfig) (genesis : List UInt8) (head : UInt64) (id : ID) : Option FilterError :=
  let forks := gatherForks config
  let sums := sumsFrom update (update 0 genesis) forks
  -- the sentinel, never passed
  let forks := forks ++ [UInt64.ofNat (2 ^ 64 - 1)]
  filterLoop sums forks head id 0 forks

end Checksums

/-! ## Counting forks around the head -/

/-- In an increasing list, the elements below one of them are those before
it, and those at or below it one more. -/
theorem countP_around {A B : List UInt64} {x : UInt64} (hA : ∀ a ∈ A, a < x) (hB : ∀ b ∈ B, x < b) :
    (A ++ x :: B).countP (· < x) = A.length ∧ (A ++ x :: B).countP (· ≤ x) = A.length + 1 := by
  have hAle : ∀ a ∈ A, a ≤ x := fun a ha => UInt64.le_of_lt (hA a ha)
  have hBlt : ∀ b ∈ B, ¬b < x := fun b hb h => UInt64.lt_asymm h (hB b hb)
  have hBle : ∀ b ∈ B, ¬b ≤ x := fun b hb h => UInt64.not_le.2 (hB b hb) h
  refine ⟨?_, ?_⟩
  · rw [List.countP_append, List.countP_eq_length.2 (by simpa using hA),
      List.countP_cons_of_neg (by simp), List.countP_eq_zero.2 (by simpa using hBlt), Nat.add_zero]
  · rw [List.countP_append, List.countP_eq_length.2 (by simpa using hAle),
      List.countP_cons_of_pos (by simp), List.countP_eq_zero.2 (by simpa using hBle)]

/-- At the fork block `F[k]`, `k` forks are below the head and `k + 1` at or
below it. -/
theorem countP_at_fork {F : List UInt64} (hs : F.Pairwise (· < ·)) {k : Nat} (hk : k < F.length) :
    F.countP (· < F[k]) = k ∧ F.countP (· ≤ F[k]) = k + 1 := by
  have hsplit : F = F.take k ++ F[k] :: F.drop (k + 1) := by
    rw [List.getElem_cons_drop, List.take_append_drop]
  have hA : ∀ a ∈ F.take k, a < F[k] := by
    intro a ha
    obtain ⟨j, hj, rfl⟩ := List.mem_iff_getElem.1 ha
    rw [List.getElem_take]
    exact List.pairwise_iff_getElem.1 hs j k (by simp at hj; omega) hk (by simp at hj; omega)
  have hB : ∀ b ∈ F.drop (k + 1), F[k] < b := by
    intro b hb
    obtain ⟨j, hj, rfl⟩ := List.mem_iff_getElem.1 hb
    rw [List.getElem_drop]
    exact List.pairwise_iff_getElem.1 hs k (k + 1 + j) hk (by simp at hj; omega) (by omega)
  have hlen : (F.take k).length = k := List.length_take_of_le (by omega)
  generalize F[k] = x at hsplit hA hB
  have hcount := countP_around hA hB
  rw [hlen] at hcount
  rw [hsplit]
  exact hcount

/-- Below a fork block, the forks at or below the head are those below the block. -/
theorem countP_le_pred_eq {F : List UInt64} {x : UInt64} (hx : 0 < x) :
    F.countP (· ≤ x - 1) = F.countP (· < x) := by
  have hx' : 0 < x.toNat := by
    rw [UInt64.lt_iff_toNat_lt] at hx
    simpa using hx
  have hsub : (x - 1).toNat = x.toNat - 1 := UInt64.toNat_sub_of_le x 1 (by
    rw [UInt64.le_iff_toNat_le]
    simp only [UInt64.toNat_one]
    omega)
  apply List.countP_congr
  intro f _
  simp only [decide_eq_true_eq, UInt64.le_iff_toNat_le, UInt64.lt_iff_toNat_lt, hsub]
  omega

section Spec

variable (update : UInt32 → List UInt8 → UInt32)

theorem length_sumsFrom : ∀ (hash : UInt32) (forks : List UInt64),
    (sumsFrom update hash forks).length = forks.length + 1
  | _, [] => rfl
  | hash, _ :: forks => by
    rw [sumsFrom, List.length_cons, length_sumsFrom _ forks, List.length_cons]

/-- **`NewID` reads the checksum and the fork after the passed forks**, the
forks at or below the head, when the forks increase. -/
theorem passForks_spec (head : UInt64) : ∀ (hash : UInt32) (forks : List UInt64), forks.Pairwise (· < ·) →
    some (checksumToBytes (passForks update head hash forks).1) =
        (sumsFrom update hash forks)[forks.countP (· ≤ head)]? ∧
      (passForks update head hash forks).2 = (forks[forks.countP (· ≤ head)]?).getD 0
  | hash, [], _ => ⟨rfl, rfl⟩
  | hash, fork :: forks, hs => by
    have hrest := (List.pairwise_cons.1 hs).2
    by_cases hle : fork ≤ head
    · -- a passed fork: counted, and checksummed
      rw [passForks, if_pos hle, List.countP_cons_of_pos (by simpa using hle), sumsFrom]
      simpa using passForks_spec head (checksumUpdate update hash fork) forks hrest
    · -- the first fork ahead of the head, and the later ones are ahead too
      have hnone : forks.countP (· ≤ head) = 0 := by
        refine List.countP_eq_zero.2 fun g hg hgle => hle ?_
        have hfg := (List.pairwise_cons.1 hs).1 g hg
        simp only [decide_eq_true_eq, UInt64.le_iff_toNat_le] at hgle ⊢
        rw [UInt64.lt_iff_toNat_lt] at hfg
        omega
      rw [passForks, if_neg hle, List.countP_cons_of_neg (by simpa using hle), hnone, sumsFrom]
      exact ⟨rfl, rfl⟩

theorem NewID_spec (config : ChainConfig) (genesis : List UInt8) (head : UInt64) :
    some (NewID update config genesis head).Hash =
        (sumsFrom update (update 0 genesis) (gatherForks config))[(gatherForks config).countP (· ≤ head)]? ∧
      (NewID update config genesis head).Next =
        ((gatherForks config)[(gatherForks config).countP (· ≤ head)]?).getD 0 :=
  passForks_spec update head _ _ (gatherForks_spec config).1

end Spec

/-! ## Where the filter looks -/

/-- **The filter validates at the first fork the head is not above**, the
number of forks below the head. -/
theorem filterLoop_spec (sums : List (List UInt8)) (forks : List UInt64) (head : UInt64) (id : ID) :
    ∀ (i : Nat) (F : List UInt64), F.Pairwise (· < ·) →
      filterLoop sums forks head id i (F ++ [UInt64.ofNat (2 ^ 64 - 1)]) =
        checkFork sums forks head id (i + F.countP (· < head))
  | i, [], _ => by
    -- the sentinel is never passed
    have hmax : ¬head > UInt64.ofNat (2 ^ 64 - 1) := by
      have hval : (UInt64.ofNat (2 ^ 64 - 1)).toNat = 2 ^ 64 - 1 := rfl
      have hlt := head.toNat_lt
      rw [gt_iff_lt, UInt64.lt_iff_toNat_lt, hval]
      omega
    rw [List.nil_append, filterLoop, if_neg hmax, List.countP_nil, Nat.add_zero]
  | i, f :: F, hs => by
    by_cases hgt : head > f
    · rw [List.cons_append, filterLoop, if_pos hgt, filterLoop_spec sums forks head id (i + 1) F
        (List.pairwise_cons.1 hs).2, List.countP_cons_of_pos (by simpa using hgt)]
      congr 1
      omega
    · have hnone : F.countP (· < head) = 0 := by
        refine List.countP_eq_zero.2 fun g hg hglt => hgt ?_
        have hfg := (List.pairwise_cons.1 hs).1 g hg
        simp only [decide_eq_true_eq, UInt64.lt_iff_toNat_lt] at hglt hfg ⊢
        omega
      rw [List.cons_append, filterLoop, if_neg hgt, List.countP_cons_of_neg (by simpa using hgt), hnone,
        Nat.add_zero]

/-! ## The acceptance rules -/

/-- The three rules of EIP-2124 around the local fork index `p`: the remote
checksum is the local one and its next fork is not passed at the head; it is
an earlier one and announces the local fork that followed it; or it is a
later one. -/
def RulesAccept (sums : List (List UInt8)) (forks : List UInt64) (head : UInt64) (p : Nat) (id : ID) : Prop :=
  (sums[p]? = some id.Hash ∧ (id.Next = 0 ∨ head < id.Next)) ∨
    (∃ j < p, sums[j]? = some id.Hash ∧ forks[j]? = some id.Next) ∨
    ∃ j < sums.length, p < j ∧ sums[j]? = some id.Hash

/-- Rule 1a rejects exactly the next forks that are passed. -/
theorem not_passed_iff (head next : UInt64) : ¬(next > 0 ∧ head ≥ next) ↔ next = 0 ∨ head < next := by
  have hzero : next = 0 ↔ next.toNat = 0 := ⟨fun h => by rw [h]; rfl, fun h => UInt64.toNat_inj.1 h⟩
  simp only [gt_iff_lt, ge_iff_le, UInt64.lt_iff_toNat_lt, UInt64.le_iff_toNat_le, hzero, UInt64.toNat_zero]
  omega

/-- **The validation at `i` is the three rules at `i`**, when no two
checksums coincide. -/
theorem checkFork_eq_none_iff {sums : List (List UInt8)} {forks F : List UInt64} {head : UInt64} {id : ID}
    {i : Nat} (hnd : sums.Nodup) (hi : i < sums.length) (hforks : ∀ j < i, forks[j]? = F[j]?) :
    checkFork sums forks head id i = none ↔ RulesAccept sums F head i id := by
  -- an index that holds the remote checksum is the only one
  have honly : ∀ j j' : Nat, sums[j]? = some id.Hash → sums[j']? = some id.Hash → j = j' := by
    intro j j' hj hj'
    obtain ⟨hlt, _⟩ := List.getElem?_eq_some_iff.1 hj
    exact (List.getElem?_inj hlt hnd).1 (hj.trans hj'.symm)
  unfold checkFork RulesAccept
  by_cases hcur : sums[i]? = some id.Hash
  · -- rule 1
    rw [if_pos hcur, ← not_passed_iff]
    constructor
    · intro h
      refine Or.inl ⟨hcur, fun hpassed => ?_⟩
      rw [if_pos hpassed] at h
      cases h
    · rintro (⟨_, hnext⟩ | ⟨j, hj, hsum, _⟩ | ⟨j, _, hj, hsum⟩)
      · rw [if_neg hnext]
      · exact absurd (honly j i hsum hcur) (by omega)
      · exact absurd (honly j i hsum hcur) (by omega)
  · rw [if_neg hcur]
    cases hfind : (List.range i).find? (fun j => sums[j]? == some id.Hash) with
    | some j =>
      -- rule 2: the first earlier index with the remote checksum decides
      obtain ⟨hsum, hmem, _⟩ := List.find?_range_eq_some.1 hfind
      have hj : j < i := List.mem_range.1 hmem
      have hsum' : sums[j]? = some id.Hash := by simpa using hsum
      simp only [hforks j hj, ite_eq_right_iff, reduceCtorEq, imp_false, not_not]
      constructor
      · intro hnext
        exact Or.inr (Or.inl ⟨j, hj, hsum', hnext⟩)
      · rintro (⟨h, _⟩ | ⟨j', _, hsum'', hnext⟩ | ⟨j', _, hj', hsum''⟩)
        · exact absurd h hcur
        · rw [honly j j' hsum' hsum'']
          exact hnext
        · exact absurd (honly j j' hsum' hsum'') (by omega)
    | none =>
      -- rule 3: no earlier index holds it; a later one accepts
      have hnone : ∀ j < i, sums[j]? ≠ some id.Hash := by
        intro j hj hsum
        have := List.find?_eq_none.1 hfind j (List.mem_range.2 hj)
        simp [hsum] at this
      simp only [ite_eq_left_iff, reduceCtorEq, imp_false, not_not, List.any_eq_true, List.mem_range'_1,
        beq_iff_eq]
      constructor
      · rintro ⟨j, ⟨hlo, hhi⟩, hsum⟩
        exact Or.inr (Or.inr ⟨j, by omega, by omega, hsum⟩)
      · rintro (⟨h, _⟩ | ⟨j, hj, hsum, _⟩ | ⟨j, hlen, hj, hsum⟩)
        · exact absurd h hcur
        · exact absurd hsum (hnone j hj)
        · exact ⟨j, ⟨hj, by omega⟩, hsum⟩

theorem countP_lt_eq_countP_le {F : List UInt64} {head : UInt64} (hhead : head ∉ F) :
    F.countP (· < head) = F.countP (· ≤ head) := by
  apply List.countP_congr
  intro f hf
  have hne : f ≠ head := fun h => hhead (h ▸ hf)
  have hne' : f.toNat ≠ head.toNat := fun h => hne (UInt64.toNat_inj.1 h)
  simp only [decide_eq_true_eq, UInt64.lt_iff_toNat_lt, UInt64.le_iff_toNat_le]
  omega

section Filter

variable (update : UInt32 → List UInt8 → UInt32)

/-- Acceptance as EIP-2124 states it, with the fork index `NewID` uses: the
number of forks at or below the head. -/
def Eip2124Accepts (config : ChainConfig) (genesis : List UInt8) (head : UInt64) (id : ID) : Prop :=
  RulesAccept (sumsFrom update (update 0 genesis) (gatherForks config)) (gatherForks config) head
    ((gatherForks config).countP (· ≤ head)) id

/-- The filter loop stops at the first fork above the head, the sentinel at the latest. -/
theorem newFilter_eq_checkFork (config : ChainConfig) (genesis : List UInt8) (head : UInt64) (id : ID) :
    newFilter update config genesis head id =
      checkFork (sumsFrom update (update 0 genesis) (gatherForks config))
        (gatherForks config ++ [UInt64.ofNat (2 ^ 64 - 1)]) head id ((gatherForks config).countP (· < head)) := by
  unfold newFilter
  rw [filterLoop_spec _ _ _ _ 0 _ (gatherForks_spec config).1, Nat.zero_add]

/-- The validation at any index up to the number of forks is the three rules
there; the sentinel is never read as a fork. -/
theorem checkFork_sentinel_eq_none_iff {config : ChainConfig} {genesis : List UInt8} {head : UInt64}
    {id : ID} {i : Nat} (hnd : (sumsFrom update (update 0 genesis) (gatherForks config)).Nodup)
    (hi : i ≤ (gatherForks config).length) :
    checkFork (sumsFrom update (update 0 genesis) (gatherForks config))
        (gatherForks config ++ [UInt64.ofNat (2 ^ 64 - 1)]) head id i = none ↔
      RulesAccept (sumsFrom update (update 0 genesis) (gatherForks config)) (gatherForks config) head i id := by
  apply checkFork_eq_none_iff hnd
  · rw [length_sumsFrom]
    omega
  · intro j hj
    exact List.getElem?_append_left (by omega)

/-- **What the filter accepts**: when no two checksums coincide, exactly
what the three rules accept around the number of forks below the head. -/
theorem newFilter_eq_none_iff (config : ChainConfig) (genesis : List UInt8) (head : UInt64) (id : ID)
    (hnd : (sumsFrom update (update 0 genesis) (gatherForks config)).Nodup) :
    newFilter update config genesis head id = none ↔
      RulesAccept (sumsFrom update (update 0 genesis) (gatherForks config)) (gatherForks config) head
        ((gatherForks config).countP (· < head)) id := by
  rw [newFilter_eq_checkFork]
  exact checkFork_sentinel_eq_none_iff update hnd (List.countP_le_length)

theorem newFilter_eq_none_iff_at_homestead :
    (newFilter (fun hash _ => hash + 1) { HomesteadBlock := some 1 } [] 5 ⟨[0, 0, 0, 2], 0⟩ = none ↔
      RulesAccept (sumsFrom (fun hash _ => hash + 1) ((fun (hash : UInt32) (_ : List UInt8) => hash + 1) 0 [])
          (gatherForks { HomesteadBlock := some 1 }))
        (gatherForks { HomesteadBlock := some 1 }) 5 ((gatherForks { HomesteadBlock := some 1 }).countP (· < 5))
        ⟨[0, 0, 0, 2], 0⟩) :=
  newFilter_eq_none_iff (fun hash _ => hash + 1) { HomesteadBlock := some 1 } [] 5 ⟨[0, 0, 0, 2], 0⟩ (by decide)

/-- Away from the fork blocks the filter is EIP-2124's. -/
theorem newFilter_agrees_off_forks (config : ChainConfig) (genesis : List UInt8) (head : UInt64) (id : ID)
    (hnd : (sumsFrom update (update 0 genesis) (gatherForks config)).Nodup)
    (hhead : head ∉ gatherForks config) :
    newFilter update config genesis head id = none ↔ Eip2124Accepts update config genesis head id := by
  rw [newFilter_eq_checkFork, countP_lt_eq_countP_le hhead]
  exact checkFork_sentinel_eq_none_iff update hnd (List.countP_le_length)

theorem newFilter_agrees_off_forks_at_homestead :
    (newFilter (fun hash _ => hash + 1) { HomesteadBlock := some 1 } [] 5 ⟨[0, 0, 0, 2], 0⟩ = none ↔
      Eip2124Accepts (fun hash _ => hash + 1) { HomesteadBlock := some 1 } [] 5 ⟨[0, 0, 0, 2], 0⟩) :=
  newFilter_agrees_off_forks (fun hash _ => hash + 1) { HomesteadBlock := some 1 } [] 5 ⟨[0, 0, 0, 2], 0⟩
    (by decide) (by decide)

/-- At the head `F[k]`, a fork block, EIP-2124 accepts the `ID` a node of
the same chain announces just below the block, and the filter rejects it:
the filter counts the block as not yet passed. -/
theorem newFilter_rejects_remote_one_fork_behind (config : ChainConfig) (genesis : List UInt8) (k : Nat)
    (hk : k < (gatherForks config).length) :
    Eip2124Accepts update config genesis (gatherForks config)[k]
        (NewID update config genesis ((gatherForks config)[k] - 1)) ∧
      newFilter update config genesis (gatherForks config)[k]
          (NewID update config genesis ((gatherForks config)[k] - 1)) =
        some .localIncompatibleOrStale := by
  have hs := (gatherForks_spec config).1
  have hpos : 0 < (gatherForks config)[k] := gatherForks_pos (List.getElem_mem hk)
  obtain ⟨hbelow, hatOrBelow⟩ := countP_at_fork hs hk
  -- the remote node has passed the forks before `F[k]`
  obtain ⟨hhash, hnext⟩ := NewID_spec update config genesis ((gatherForks config)[k] - 1)
  rw [countP_le_pred_eq hpos, hbelow] at hhash hnext
  rw [List.getElem?_eq_getElem hk, Option.getD_some] at hnext
  refine ⟨Or.inr (Or.inl ⟨k, by omega, hhash.symm, by rw [hnext, List.getElem?_eq_getElem hk]⟩), ?_⟩
  -- the filter validates at `k` and finds the announced next fork passed
  have hs' := (gatherForks_spec config).1
  unfold newFilter
  rw [filterLoop_spec _ _ _ _ 0 _ hs', Nat.zero_add, hbelow]
  unfold checkFork
  rw [if_pos hhash.symm, hnext, if_pos ⟨hpos, UInt64.le_refl _⟩]

theorem newFilter_rejects_remote_one_fork_behind_at_homestead :
    0 < (gatherForks { HomesteadBlock := some 1 }).length ∧
      Eip2124Accepts (fun hash _ => hash + 1) { HomesteadBlock := some 1 } [] (gatherForks { HomesteadBlock := some 1 })[0]
          (NewID (fun hash _ => hash + 1) { HomesteadBlock := some 1 } [] ((gatherForks { HomesteadBlock := some 1 })[0] - 1)) ∧
        newFilter (fun hash _ => hash + 1) { HomesteadBlock := some 1 } [] (gatherForks { HomesteadBlock := some 1 })[0]
            (NewID (fun hash _ => hash + 1) { HomesteadBlock := some 1 } [] ((gatherForks { HomesteadBlock := some 1 })[0] - 1)) =
          some .localIncompatibleOrStale :=
  have hk : 0 < (gatherForks { HomesteadBlock := some 1 }).length := by decide
  ⟨hk, newFilter_rejects_remote_one_fork_behind (fun hash _ => hash + 1) { HomesteadBlock := some 1 } [] 0 hk⟩

/-- At the head `F[k]`, the filter accepts a remote node that has not passed
`F[k]` and knows of no fork after it, which EIP-2124 rejects when no two
checksums coincide. -/
theorem newFilter_accepts_stale_remote_at_fork (config : ChainConfig) (genesis : List UInt8) (k : Nat)
    (hk : k < (gatherForks config).length) (hnd : (sumsFrom update (update 0 genesis) (gatherForks config)).Nodup)
    {hash : List UInt8} (hhash : (sumsFrom update (update 0 genesis) (gatherForks config))[k]? = some hash) :
    ¬Eip2124Accepts update config genesis (gatherForks config)[k] ⟨hash, 0⟩ ∧
      newFilter update config genesis (gatherForks config)[k] ⟨hash, 0⟩ = none := by
  have hs := (gatherForks_spec config).1
  have hpos : 0 < (gatherForks config)[k] := gatherForks_pos (List.getElem_mem hk)
  obtain ⟨hbelow, hatOrBelow⟩ := countP_at_fork hs hk
  have honly : ∀ j : Nat, (sumsFrom update (update 0 genesis) (gatherForks config))[j]? = some hash → j = k := by
    intro j hj
    obtain ⟨hlt, _⟩ := List.getElem?_eq_some_iff.1 hj
    exact (List.getElem?_inj hlt hnd).1 (hj.trans hhash.symm)
  refine ⟨?_, ?_⟩
  · unfold Eip2124Accepts RulesAccept
    rw [hatOrBelow]
    rintro (⟨hsum, _⟩ | ⟨j, _, hsum, hnext⟩ | ⟨j, _, hj, hsum⟩)
    · exact absurd (honly _ hsum) (by omega)
    · -- the only index is `k`, whose fork is not block 0
      rw [honly j hsum, List.getElem?_eq_getElem hk] at hnext
      rw [Option.some_inj.1 hnext] at hpos
      exact UInt64.lt_irrefl 0 hpos
    · exact absurd (honly j hsum) (by omega)
  · rw [newFilter_eq_checkFork, hbelow]
    unfold checkFork
    rw [if_pos hhash, if_neg (fun h => UInt64.lt_irrefl 0 h.1)]

theorem newFilter_accepts_stale_remote_at_homestead :
    ¬Eip2124Accepts (fun hash _ => hash + 1) { HomesteadBlock := some 1 } [] (gatherForks { HomesteadBlock := some 1 })[0]
        ⟨[0, 0, 0, 1], 0⟩ ∧
      newFilter (fun hash _ => hash + 1) { HomesteadBlock := some 1 } [] (gatherForks { HomesteadBlock := some 1 })[0]
        ⟨[0, 0, 0, 1], 0⟩ = none :=
  newFilter_accepts_stale_remote_at_fork (fun hash _ => hash + 1) { HomesteadBlock := some 1 } [] 0 (by decide)
    (by decide) rfl

end Filter

end Xdchain.Core.Forkid
