import Mathlib.Data.List.TakeDrop

/-! # Trie key encodings

`trie/encoding.go`. A key is held as bytes (KEYBYTES), as one byte per
nibble with an optional terminator 16 (HEX), or packed two nibbles to a byte
behind a flag byte that records the terminator and the parity (COMPACT).
`hexToCompact` packs into a new buffer, `hexToCompactInPlace` packs over
its own input, reading each pair of nibbles before the byte that overwrites
them; `compactToHex` unpacks through `keybytesToHex`.

Packing a pair and reading back its two halves are inverse on nibbles, and
both packers fill the same bytes, so compact and hex keys, and key bytes
and hex keys, go back and forth exactly. The one exception is the empty
buffer, on which the in-place packer panics writing its flag byte. -/

namespace Xdchain.Trie.Encoding

/-- `hasTerm`: the last byte is the terminator 16. -/
def hasTerm (s : List UInt8) : Bool := s.getLast? == some 16

/-- `decodeNibbles` into a buffer of half the length: each pair of nibbles
makes one byte. Go would read past a last odd nibble; no caller passes one. -/
def decodeNibbles : List UInt8 → List UInt8
  | a :: b :: rest => ((a <<< 4) ||| b) :: decodeNibbles rest
  | _ => []

def hexToCompact (hex : List UInt8) : List UInt8 :=
  let terminator : UInt8 := if hasTerm hex then 1 else 0
  let hex := if hasTerm hex then hex.dropLast else hex
  -- the flag byte
  let flag := terminator <<< 5
  if hex.length % 2 = 1 then
    -- the odd flag, and the first nibble in the flag byte
    (flag ||| (1 : UInt8) <<< 4 ||| hex.headD 0) :: decodeNibbles hex.tail
  else flag :: decodeNibbles hex

/-- The loop of `hexToCompactInPlace`: byte `bi` of the buffer becomes the
pair of nibbles at `ni`, read before it is written. The loop runs while
`ni < hexLen`, where `ni + 1 < hexLen` and `bi ≤ ni + 1` too, so Go's
indexing stays in range. -/
def inPlaceLoop (hexLen : Nat) : Nat → List UInt8 → Nat → Nat → List UInt8
  | 0, hex, _, _ => hex
  | fuel + 1, hex, ni, bi =>
    if ni < hexLen then
      inPlaceLoop hexLen fuel (hex.set bi ((hex.getD ni 0 <<< 4) ||| hex.getD (ni + 1) 0)) (ni + 2) (bi + 1)
    else hex

/-- `hexToCompactInPlace`: the buffer after the call, and the length of the
compact key at its front; `none` where the write of the first byte panics,
on an empty buffer. -/
def hexToCompactInPlace (hex : List UInt8) : Option (List UInt8 × Nat) :=
  let (firstByte, hexLen) : UInt8 × Nat :=
    if hex.length > 0 ∧ hex.getD (hex.length - 1) 0 = 16 then ((1 : UInt8) <<< 5, hex.length - 1)
    else (0, hex.length)
  let binLen := hexLen / 2 + 1
  let (firstByte, ni) : UInt8 × Nat :=
    if hexLen % 2 = 1 then (firstByte ||| (1 : UInt8) <<< 4 ||| hex.getD 0 0, 1) else (firstByte, 0)
  match inPlaceLoop hexLen hexLen hex ni 1 with
  | [] => none
  | _ :: rest => some (firstByte :: rest, binLen)

def keybytesToHex (str : List UInt8) : List UInt8 := str.flatMap (fun b => [b / 16, b % 16]) ++ [16]

def compactToHex (compact : List UInt8) : List UInt8 :=
  if compact.isEmpty then compact
  else
    let base := keybytesToHex compact
    -- delete the terminator flag
    let base := if base.headD 0 < 2 then base.dropLast else base
    -- apply the odd flag
    let chop := 2 - (base.headD 0 &&& 1)
    base.drop chop.toNat

/-- `hexToKeybytes`; `none` where it panics on a key of odd length. -/
def hexToKeybytes (hex : List UInt8) : Option (List UInt8) :=
  let hex := if hasTerm hex then hex.dropLast else hex
  if hex.length % 2 ≠ 0 then none else some (decodeNibbles hex)

/-! ## A byte of two nibbles -/

theorem pack_toNat (a b : UInt8) (ha : a < 16) (hb : b < 16) :
    ((a <<< 4) ||| b).toNat = a.toNat * 16 + b.toNat := by
  have ha' : a.toNat < 16 := ha
  have hb' : b.toNat < 16 := hb
  rw [UInt8.toNat_or, UInt8.toNat_shiftLeft]
  have h4 : (4 : UInt8).toNat % 8 = 4 := rfl
  -- the shifted nibble stays inside the byte
  have hfit : a.toNat <<< 4 % 2 ^ 8 = a.toNat <<< 4 := by
    rw [Nat.shiftLeft_eq]
    exact Nat.mod_eq_of_lt (by omega)
  rw [h4, hfit, ← Nat.shiftLeft_add_eq_or_of_lt (by omega : b.toNat < 2 ^ 4), Nat.shiftLeft_eq]

theorem pack_div (a b : UInt8) (ha : a < 16) (hb : b < 16) : ((a <<< 4) ||| b) / 16 = a := by
  apply UInt8.toNat_inj.1
  have hb' : b.toNat < 16 := hb
  rw [UInt8.toNat_div, pack_toNat a b ha hb]
  show _ / 16 = a.toNat
  omega

theorem pack_mod (a b : UInt8) (ha : a < 16) (hb : b < 16) : ((a <<< 4) ||| b) % 16 = b := by
  apply UInt8.toNat_inj.1
  have hb' : b.toNat < 16 := hb
  rw [UInt8.toNat_mod, pack_toNat a b ha hb]
  show _ % 16 = b.toNat
  omega

/-- A byte is the pair of its two nibbles. -/
theorem pack_div_mod (b : UInt8) : ((b / 16) <<< 4) ||| (b % 16) = b := by
  apply UInt8.toNat_inj.1
  have hb := b.toNat_lt
  have h16 : (16 : UInt8).toNat = 16 := rfl
  have hdiv : b / 16 < 16 := by
    show (b / 16).toNat < 16
    rw [UInt8.toNat_div, h16]
    exact Nat.div_lt_of_lt_mul (by omega)
  have hmod : b % 16 < 16 := by
    show (b % 16).toNat < 16
    rw [UInt8.toNat_mod, h16]
    exact Nat.mod_lt _ (by decide)
  rw [pack_toNat _ _ hdiv hmod, UInt8.toNat_div, UInt8.toNat_mod, h16]
  exact Nat.div_add_mod' b.toNat 16

/-! ## Packing runs of nibbles -/

theorem length_decodeNibbles : ∀ l : List UInt8, (decodeNibbles l).length = l.length / 2
  | [] => rfl
  | [_] => by simp [decodeNibbles]
  | a :: b :: rest => by
    rw [decodeNibbles, List.length_cons, length_decodeNibbles rest]
    simp only [List.length_cons]
    omega

/-- Packing splits at an even cut. -/
theorem decodeNibbles_append : ∀ (l r : List UInt8), l.length % 2 = 0 →
    decodeNibbles (l ++ r) = decodeNibbles l ++ decodeNibbles r
  | [], _, _ => rfl
  | [_], _, hl => by simp at hl
  | a :: b :: rest, r, hl => by
    have hrest : rest.length % 2 = 0 := by simp only [List.length_cons] at hl; omega
    rw [List.cons_append, List.cons_append, decodeNibbles, decodeNibbles, decodeNibbles_append rest r hrest]
    rfl

/-- Unpacking the bytes of an even run of nibbles gives the nibbles back. -/
theorem flatMap_decodeNibbles : ∀ l : List UInt8, (∀ x ∈ l, x < 16) → l.length % 2 = 0 →
    (decodeNibbles l).flatMap (fun b => [b / 16, b % 16]) = l
  | [], _, _ => rfl
  | [_], _, hl => by simp at hl
  | a :: b :: rest, hn, hl => by
    have ha := hn a (by simp)
    have hb := hn b (by simp)
    have hrest : rest.length % 2 = 0 := by simp only [List.length_cons] at hl; omega
    rw [decodeNibbles, List.flatMap_cons, pack_div a b ha hb, pack_mod a b ha hb,
      flatMap_decodeNibbles rest (fun x hx => hn x (by simp [hx])) hrest]
    rfl

/-- Packing the nibbles of key bytes gives the bytes back. -/
theorem decodeNibbles_flatMap : ∀ k : List UInt8, decodeNibbles (k.flatMap fun b => [b / 16, b % 16]) = k
  | [] => rfl
  | b :: k => by
    rw [List.flatMap_cons, List.cons_append, List.cons_append, List.nil_append, decodeNibbles,
      pack_div_mod, decodeNibbles_flatMap k]

theorem length_flatMap_nibbles (k : List UInt8) : (k.flatMap fun b => [b / 16, b % 16]).length = 2 * k.length := by
  induction k with
  | nil => rfl
  | cons b k ih =>
    rw [List.flatMap_cons, List.length_append, ih, List.length_cons]
    simp only [List.length_cons, List.length_nil]
    omega

/-! ## Compact to hex and back -/

theorem hasTerm_append_terminator (body : List UInt8) : hasTerm (body ++ [16]) = true := by
  simp [hasTerm]

theorem hasTerm_of_nibbles {body : List UInt8} (hbody : ∀ x ∈ body, x < 16) : hasTerm body = false := by
  cases hlast : body.getLast? with
  | none => simp [hasTerm, hlast]
  | some x =>
    have hx := hbody x (List.mem_of_getLast? hlast)
    have hne : x ≠ 16 := fun h => by rw [h] at hx; exact absurd hx (by decide)
    simp [hasTerm, hlast, hne]

/-- The hex key that a compact key with the flag nibble `x` and first nibble
`a` unpacks to, before the terminator and the flag are cut. -/
theorem keybytesToHex_pack {x a : UInt8} (hx : x < 16) (ha : a < 16) (D : List UInt8) :
    keybytesToHex (((x <<< 4) ||| a) :: D) = (x :: a :: D.flatMap fun b => [b / 16, b % 16]) ++ [16] := by
  rw [keybytesToHex, List.flatMap_cons, pack_div x a hx ha, pack_mod x a hx ha]
  rfl

theorem compactToHex_pack {x a : UInt8} (hx : x < 16) (ha : a < 16) (D : List UInt8) :
    compactToHex (((x <<< 4) ||| a) :: D) =
      (if x < 2 then x :: a :: (D.flatMap fun b => [b / 16, b % 16])
        else (x :: a :: (D.flatMap fun b => [b / 16, b % 16])) ++ [16]).drop (2 - (x &&& 1)).toNat := by
  simp only [compactToHex, List.isEmpty_cons, Bool.false_eq_true, if_false, keybytesToHex_pack hx ha]
  by_cases h2 : x < 2
  · have hhead : ((x :: a :: D.flatMap fun b => [b / 16, b % 16]) ++ [16]).headD 0 < 2 := h2
    rw [if_pos hhead, List.dropLast_concat, if_pos h2]
    rfl
  · have hhead : ¬((x :: a :: D.flatMap fun b => [b / 16, b % 16]) ++ [16]).headD 0 < 2 := h2
    rw [if_neg hhead, if_neg h2]
    rfl

/-- `hexToCompact` on a run of nibbles and an optional terminator. -/
theorem hexToCompact_nibbles {body : List UInt8} (hbody : ∀ x ∈ body, x < 16) (term : Bool) :
    hexToCompact (body ++ if term then [16] else []) =
      if body.length % 2 = 1 then
        ((if term then (1 : UInt8) else 0) <<< 5 ||| (1 : UInt8) <<< 4 ||| body.headD 0) :: decodeNibbles body.tail
      else ((if term then (1 : UInt8) else 0) <<< 5) :: decodeNibbles body := by
  cases term
  · simp only [hexToCompact, Bool.false_eq_true, if_false, List.append_nil, hasTerm_of_nibbles hbody]
  · simp only [hexToCompact, if_true, hasTerm_append_terminator, List.dropLast_concat]

/-- **Compact keys unpack to the hex keys they pack.** For every run of
nibbles, with the terminator or without it. -/
theorem compactToHex_hexToCompact (body : List UInt8) (hbody : ∀ x ∈ body, x < 16) (term : Bool) :
    compactToHex (hexToCompact (body ++ if term then [16] else [])) = body ++ if term then [16] else [] := by
  rw [hexToCompact_nibbles hbody term]
  split
  · -- odd: the first nibble rides in the flag byte
    rename_i hodd
    obtain ⟨a, rest, rfl⟩ : ∃ a rest, body = a :: rest := by
      cases body with
      | nil => simp at hodd
      | cons a rest => exact ⟨a, rest, rfl⟩
    have ha := hbody a (by simp)
    have hrest : ∀ x ∈ rest, x < 16 := fun x hx => hbody x (by simp [hx])
    have heven : rest.length % 2 = 0 := by simp only [List.length_cons] at hodd; omega
    simp only [List.headD_cons, List.tail_cons]
    cases term
    · have hflag : (0 : UInt8) <<< 5 ||| (1 : UInt8) <<< 4 = (1 : UInt8) <<< 4 := by decide
      simp only [Bool.false_eq_true, if_false, List.append_nil]
      rw [hflag, compactToHex_pack (by decide) ha, flatMap_decodeNibbles rest hrest heven]
      simp
    · have hflag : (1 : UInt8) <<< 5 ||| (1 : UInt8) <<< 4 = (3 : UInt8) <<< 4 := by decide
      have hchop : (2 - ((3 : UInt8) &&& 1)).toNat = 1 := by decide
      simp only [if_true]
      rw [hflag, compactToHex_pack (by decide) ha, flatMap_decodeNibbles rest hrest heven]
      simp [hchop]
  · -- even: the flag byte holds nothing else
    rename_i hodd
    have heven : body.length % 2 = 0 := by omega
    cases term
    · have hflag : (0 : UInt8) <<< 5 = ((0 : UInt8) <<< 4) ||| 0 := by decide
      simp only [Bool.false_eq_true, if_false, List.append_nil]
      rw [hflag, compactToHex_pack (by decide) (by decide), flatMap_decodeNibbles body hbody heven]
      simp
    · have hflag : (1 : UInt8) <<< 5 = ((2 : UInt8) <<< 4) ||| 0 := by decide
      have hchop : (2 - ((2 : UInt8) &&& 1)).toNat = 2 := by decide
      simp only [if_true]
      rw [hflag, compactToHex_pack (by decide) (by decide), flatMap_decodeNibbles body hbody heven]
      simp [hchop]

/-- **Key bytes come back from their hex key.** -/
theorem hexToKeybytes_keybytesToHex (k : List UInt8) : hexToKeybytes (keybytesToHex k) = some k := by
  simp only [hexToKeybytes, keybytesToHex, hasTerm_append_terminator, if_true, List.dropLast_concat,
    length_flatMap_nibbles, Nat.mul_mod_right, ne_eq, not_true_eq_false, if_false, decodeNibbles_flatMap]

/-! ## Packing in place -/

/-- The buffer of `hexToCompactInPlace` after `j` passes of its loop from
nibble `s`: the first byte as it was, `j` packed pairs, then the input from
byte `j + 1` on. -/
def inPlaceBuffer (hex : List UInt8) (s j : Nat) : List UInt8 :=
  hex.take 1 ++ decodeNibbles ((hex.drop s).take (2 * j)) ++ hex.drop (j + 1)

theorem inPlaceBuffer_zero (hex : List UInt8) (s : Nat) : inPlaceBuffer hex s 0 = hex := by
  have hnil : decodeNibbles [] = [] := rfl
  rw [inPlaceBuffer, Nat.mul_zero, List.take_zero, hnil, List.append_nil, List.take_append_drop]

theorem length_inPlacePrefix {hex : List UInt8} {s j : Nat} (hne : hex ≠ []) (hj : s + 2 * j ≤ hex.length) :
    (hex.take 1 ++ decodeNibbles ((hex.drop s).take (2 * j))).length = j + 1 := by
  have hpos : 0 < hex.length := List.length_pos_iff.2 hne
  simp only [List.length_append, List.length_take, length_decodeNibbles, List.length_drop]
  omega

/-- The loop reads the input where it has not yet written: at the first
byte and from byte `j + 1` on. -/
theorem inPlaceBuffer_getD {hex : List UInt8} {s j i : Nat} (hne : hex ≠ []) (hj : s + 2 * j ≤ hex.length)
    (hi : i = 0 ∨ j + 1 ≤ i) : (inPlaceBuffer hex s j).getD i 0 = hex.getD i 0 := by
  rcases hi with rfl | hi
  · obtain ⟨a, t, rfl⟩ := List.exists_cons_of_ne_nil hne
    rfl
  · rw [inPlaceBuffer, List.getD_eq_getElem?_getD, List.getD_eq_getElem?_getD,
      List.getElem?_append_right (by rw [length_inPlacePrefix hne hj]; omega),
      length_inPlacePrefix hne hj, List.getElem?_drop, Nat.add_sub_cancel' hi]

/-- One pass packs the pair at `s + 2j` into byte `j + 1`. -/
theorem inPlaceBuffer_succ {hex : List UInt8} {s j : Nat} (hne : hex ≠ []) (hj : s + 2 * j + 2 ≤ hex.length) :
    (inPlaceBuffer hex s j).set (j + 1) ((hex.getD (s + 2 * j) 0 <<< 4) ||| hex.getD (s + 2 * j + 1) 0) =
      inPlaceBuffer hex s (j + 1) := by
  have hlen := length_inPlacePrefix hne (by omega : s + 2 * j ≤ hex.length)
  -- the pair read, and the byte written over
  have hpair : (hex.drop s).take (2 * (j + 1)) = (hex.drop s).take (2 * j) ++ [hex.getD (s + 2 * j) 0, hex.getD (s + 2 * j + 1) 0] := by
    have ha : hex.getD (s + 2 * j) 0 = hex[s + 2 * j] := by
      rw [List.getD_eq_getElem?_getD, List.getElem?_eq_getElem (by omega)]
      rfl
    have hb : hex.getD (s + 2 * j + 1) 0 = hex[s + 2 * j + 1] := by
      rw [List.getD_eq_getElem?_getD, List.getElem?_eq_getElem (by omega)]
      rfl
    rw [show 2 * (j + 1) = 2 * j + 2 by omega, List.take_add, List.drop_drop,
      List.drop_eq_getElem_cons (by omega : s + 2 * j < hex.length),
      List.drop_eq_getElem_cons (by omega : s + 2 * j + 1 < hex.length), ha, hb]
    rfl
  have hnext : hex.drop (j + 1) = hex[j + 1] :: hex.drop (j + 2) := List.drop_eq_getElem_cons (by omega)
  have heven : ((hex.drop s).take (2 * j)).length % 2 = 0 := by
    simp only [List.length_take, List.length_drop]
    omega
  rw [inPlaceBuffer, inPlaceBuffer, List.set_append_right _ _ (by omega), hlen, Nat.sub_self, hnext, List.set_cons_zero,
    hpair, decodeNibbles_append _ _ heven]
  simp [decodeNibbles]

/-- **The in-place loop packs every pair.** From `j` passes done, enough
fuel runs the rest; each pass reads a pair the buffer still holds. -/
theorem inPlaceLoop_inPlaceBuffer {hex : List UInt8} {L s : Nat} (hne : hex ≠ []) (hL : L ≤ hex.length)
    (hpar : (L - s) % 2 = 0) :
    ∀ fuel j, s + 2 * j ≤ L → (L - s) / 2 ≤ j + fuel →
      inPlaceLoop L fuel (inPlaceBuffer hex s j) (s + 2 * j) (j + 1) = inPlaceBuffer hex s ((L - s) / 2)
  | 0, j, hj, hfuel => by
    have hdone : j = (L - s) / 2 := by omega
    rw [inPlaceLoop, hdone]
  | fuel + 1, j, hj, hfuel => by
    rw [inPlaceLoop]
    split
    · rename_i hlt
      rw [inPlaceBuffer_getD hne (by omega) (by omega), inPlaceBuffer_getD hne (by omega) (by omega),
        inPlaceBuffer_succ hne (by omega), show s + 2 * j + 2 = s + 2 * (j + 1) by omega]
      exact inPlaceLoop_inPlaceBuffer hne hL hpar fuel (j + 1) (by omega) (by omega)
    · have hdone : j = (L - s) / 2 := by omega
      rw [hdone]

/-- The loop of `hexToCompactInPlace` leaves the packed nibbles behind the
first byte, and the input beyond them. -/
theorem inPlaceLoop_packs {hex : List UInt8} {L s : Nat} (hne : hex ≠ []) (hL : L ≤ hex.length) (hs : s = L % 2) :
    inPlaceLoop L L hex s 1 = hex.headD 0 :: (decodeNibbles ((hex.take L).drop s) ++ hex.drop (L / 2 + 1)) := by
  have hrun := inPlaceLoop_inPlaceBuffer hne hL (by omega : (L - s) % 2 = 0) L 0 (by omega) (by omega)
  rw [inPlaceBuffer_zero, Nat.mul_zero, Nat.add_zero, Nat.zero_add] at hrun
  rw [hrun, inPlaceBuffer, List.drop_take, show (L - s) / 2 + 1 = L / 2 + 1 by omega,
    show 2 * ((L - s) / 2) = L - s by omega]
  obtain ⟨a, t, rfl⟩ := List.exists_cons_of_ne_nil hne
  rfl

/-- The two packers test for the terminator alike. -/
theorem terminator_iff (hex : List UInt8) :
    (hex.length > 0 ∧ hex.getD (hex.length - 1) 0 = 16) ↔ hasTerm hex = true := by
  cases hex with
  | nil => simp [hasTerm]
  | cons a t =>
    rw [hasTerm, beq_iff_eq, List.getLast?_eq_getElem?, List.getD_eq_getElem?_getD,
      List.getElem?_eq_getElem (by simp)]
    simp

/-- **Packing in place leaves the compact key at the front of the buffer**,
and the input beyond it, on every non-empty buffer. -/
theorem hexToCompactInPlace_eq {hex : List UInt8} (hne : hex ≠ []) :
    hexToCompactInPlace hex =
      some (hexToCompact hex ++ hex.drop (hexToCompact hex).length, (hexToCompact hex).length) := by
  -- both packers see the terminator alike, and pack the nibbles before it
  obtain ⟨f, L, hin, hL, hbody, hflag⟩ : ∃ (f : UInt8) (L : Nat),
      (if hex.length > 0 ∧ hex.getD (hex.length - 1) 0 = 16 then ((1 : UInt8) <<< 5, hex.length - 1)
        else (0, hex.length)) = (f, L) ∧
      L ≤ hex.length ∧ (if hasTerm hex then hex.dropLast else hex) = hex.take L ∧
      (if hasTerm hex then (1 : UInt8) else 0) <<< 5 = f := by
    by_cases ht : hasTerm hex = true
    · refine ⟨(1 : UInt8) <<< 5, hex.length - 1, if_pos ((terminator_iff hex).2 ht), Nat.sub_le _ _, ?_, ?_⟩
      · rw [if_pos ht, List.dropLast_eq_take]
      · rw [if_pos ht]
    · refine ⟨0, hex.length, if_neg (mt (terminator_iff hex).1 ht), Nat.le_refl _, ?_, ?_⟩
      · rw [if_neg ht, List.take_length]
      · rw [if_neg ht]
        decide
  have hlen : (List.take L hex).length = L := List.length_take_of_le hL
  unfold hexToCompactInPlace hexToCompact
  simp only [hin, hbody, hflag, hlen]
  by_cases hodd : L % 2 = 1
  · -- odd: the first nibble goes to the flag byte, the pairs start at nibble 1
    have hhead : (List.take L hex).headD 0 = hex.getD 0 0 := by
      obtain ⟨a, t, rfl⟩ := List.exists_cons_of_ne_nil hne
      cases L with
      | zero => omega
      | succ L => rfl
    simp only [if_pos hodd, hhead, ← List.drop_one, List.length_cons, length_decodeNibbles, List.length_drop, hlen]
    rw [inPlaceLoop_packs hne hL (by omega), show (L - 1) / 2 + 1 = L / 2 + 1 by omega]
    rfl
  · -- even: the pairs start at nibble 0
    simp only [if_neg hodd, List.length_cons, length_decodeNibbles, hlen]
    rw [inPlaceLoop_packs hne hL (by omega), List.drop_zero]
    rfl

/-! ## The three codecs agree -/

/-- Hex keys survive compact packing, the in-place packer fills the same
bytes as the allocating one on every non-empty buffer, and key bytes survive
the hex round trip. -/
theorem trie_key_encodings_invert :
    (∀ body : List UInt8, (∀ x ∈ body, x < 16) → ∀ term : Bool,
      compactToHex (hexToCompact (body ++ if term then [16] else [])) = body ++ if term then [16] else []) ∧
    (∀ h : List UInt8, h ≠ [] → ∃ buf, hexToCompactInPlace h = some (buf, (hexToCompact h).length) ∧
      buf.take (hexToCompact h).length = hexToCompact h ∧
      buf.drop (hexToCompact h).length = h.drop (hexToCompact h).length) ∧
    ∀ k : List UInt8, hexToKeybytes (keybytesToHex k) = some k := by
  refine ⟨compactToHex_hexToCompact, fun h hne => ?_, hexToKeybytes_keybytesToHex⟩
  -- the buffer is the compact key, then what was left of the nibbles
  refine ⟨_, hexToCompactInPlace_eq hne, ?_, ?_⟩
  · rw [List.take_left' rfl]
  · rw [List.drop_left' rfl]

theorem trie_key_encodings_invert_at_odd_key :
    compactToHex (hexToCompact ([1, 2, 3] ++ if true then [16] else [])) = [1, 2, 3] ++ (if true then [16] else []) ∧
      (∃ buf, hexToCompactInPlace [1, 2, 3, 16] = some (buf, (hexToCompact [1, 2, 3, 16]).length) ∧
        buf.take (hexToCompact [1, 2, 3, 16]).length = hexToCompact [1, 2, 3, 16] ∧
        buf.drop (hexToCompact [1, 2, 3, 16]).length = [1, 2, 3, 16].drop (hexToCompact [1, 2, 3, 16]).length) ∧
      hexToKeybytes (keybytesToHex [0x12, 0x34]) = some [0x12, 0x34] :=
  ⟨trie_key_encodings_invert.1 [1, 2, 3] (by simp) true,
    trie_key_encodings_invert.2.1 [1, 2, 3, 16] (by simp), trie_key_encodings_invert.2.2 [0x12, 0x34]⟩

/-- On an empty buffer the in-place packer panics at the write of the flag
byte, where the allocating packer returns the one flag byte. -/
theorem hexToCompactInPlace_empty_panics : hexToCompactInPlace [] = none ∧ hexToCompact [] = [0] := by
  decide

end Xdchain.Trie.Encoding
