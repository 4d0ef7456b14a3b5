import Xdchain.Rlp.Item
import Xdchain.Lib.ErrState

/-! # The decoding `Stream` of `rlp/decode.go`

A `Stream` reads one RLP value at a time from a `bytes.Reader`. `Kind` reads
the type tag and size information of the next value and caches them until
the value is consumed; `willRead` accounts every byte read in the innermost
open list and in the input limit, which is how `List`, `ListEnd` and the size
checks of `Kind` keep values inside their lists and inside the input. The
methods are `EStateM` computations over the stream, as in Go: they mutate it
and return an error. -/

namespace Xdchain.Rlp.Decode
open Xdchain.Lib.BigEndian Xdchain.Lib.ErrState

/-- `Kind`: the kind of value ahead. -/
inductive Kind where
  | byte
  | string
  | list
deriving DecidableEq, Repr

/-- The errors of the stream methods and of `DecodeBytes`, unwrapped (no
`decodeError` context). `eof` and `unexpectedEOF` are `io.EOF` and
`io.ErrUnexpectedEOF`. `tooFewElements`, `inputStringTooLong` and
`inputStringTooShort` are the messages of the `decodeError`s the struct and
byte array decoders build, `wrongNilKind` that of a `nil`-tagged pointer at an
empty value of the other kind, and `failedDecodePreprepare` is the istanbul
error a `DecodeRLP` method of the QBFT messages returns through the stream.
`outOfFuel` is not a Go error: it bounds the model's recursion, and the fuel
`decodeBytes` gives is enough. -/
inductive Err where
  | eol
  | expectedString
  | expectedList
  | canonInt
  | canonSize
  | elemTooLarge
  | valueTooLarge
  | moreThanOneValue
  | notInList
  | notAtEOL
  | uintOverflow
  | eof
  | unexpectedEOF
  | tooFewElements
  | inputStringTooLong
  | inputStringTooShort
  | wrongNilKind
  | failedDecodePreprepare
  | outOfFuel
deriving DecidableEq, Repr

/-- `listpos`: bytes read so far of an open list, and the list's size. -/
structure Listpos where
  pos : Nat
  size : Nat
deriving DecidableEq, Repr

/-- `Stream` over a `bytes.Reader` holding the unread bytes `r`, without the
scratch buffer `uintbuf`. `kind = none` is Go's `-1` ("rearm Kind"), and
`stack` has the innermost list first. Sizes are `Nat`: they come from at most
eight bytes, and `willRead` keeps `pos ≤ size`, so no subtraction of the
source wraps. -/
structure Stream where
  r : List UInt8
  remaining : Nat
  limited : Bool
  kind : Option Kind
  size : Nat
  byteval : UInt8
  kinderr : Option Err
  stack : List Listpos
deriving DecidableEq, Repr

abbrev StreamM := EStateM Err Stream

/-- `Reset` for a `bytes.Reader` over `b`; an input limit of `0` means the
reader's length. -/
def reset (b : List UInt8) (inputLimit : Nat) : Stream :=
  { r := b, remaining := if inputLimit > 0 then inputLimit else b.length, limited := true,
    kind := none, size := 0, byteval := 0, kinderr := none, stack := [] }

/-- `willRead`: accounts `n` bytes about to be read in the innermost list
and in the input limit. -/
def willRead (n : Nat) : StreamM Unit := do
  modify fun s => { s with kind := none }
  let s ← get
  match s.stack with
  | tos :: rest =>
    if n > tos.size - tos.pos then throw .elemTooLarge
    set { s with stack := { tos with pos := tos.pos + n } :: rest }
  | [] => pure ()
  let s ← get
  if s.limited then
    if n > s.remaining then throw .valueTooLarge
    set { s with remaining := s.remaining - n }

/-- `readByte`; the reader's `io.EOF` becomes `io.ErrUnexpectedEOF`. -/
def readByte : StreamM UInt8 := do
  willRead 1
  let s ← get
  match s.r with
  | b :: rest =>
    set { s with r := rest }
    pure b
  | [] => throw .unexpectedEOF

/-- `readFull` into a buffer of `n` bytes, returning them. A `bytes.Reader`
hands out what it has; `io.EOF` before `n` bytes is `io.ErrUnexpectedEOF`. -/
def readFull (n : Nat) : StreamM (List UInt8) := do
  willRead n
  let s ← get
  if n ≤ s.r.length then
    set { s with r := s.r.drop n }
    pure (s.r.take n)
  else
    set { s with r := [] }
    throw .unexpectedEOF

/-- `readUint`: a big-endian integer of `size ≤ 8` bytes. More than one byte
with a leading zero is `ErrCanonSize`. -/
def readUint (size : Nat) : StreamM Nat :=
  match size with
  | 0 => do
    modify fun s => { s with kind := none }
    pure 0
  | 1 => do
    let b ← readByte
    pure b.toNat
  | size => do
    let buf ← readFull size
    if buf.head? = some 0 then throw .canonSize
    pure (beValue buf)

/-- The two long-form branches of `readKind`: `lenlen` bytes of size
information, which must not encode a size below 56. -/
def readLongSize (k : Kind) (lenlen : Nat) : StreamM (Kind × Nat × Option Err) := do
  match ← attempt (readUint lenlen) with
  | .ok size => pure (k, size, if size < 56 then some .canonSize else none)
  | .error err => pure (k, 0, some err)

/-- `readKind`: the type tag and size information of the next value. Like
the source it returns its error with a kind and a size. -/
def readKind : StreamM (Kind × Nat × Option Err) := do
  match ← attempt readByte with
  | .error err =>
    let s ← get
    -- at toplevel a missing byte is the end of the input
    let err := if s.stack = [] ∧ (err = .unexpectedEOF ∨ err = .valueTooLarge) then Err.eof
      else err
    pure (.byte, 0, some err)
  | .ok b =>
    modify fun s => { s with byteval := 0 }
    if b < 0x80 then
      modify fun s => { s with byteval := b }
      pure (.byte, 0, none)
    else if b < 0xB8 then pure (.string, (b - 0x80).toNat, none)
    else if b < 0xC0 then readLongSize .string (b - 0xB7).toNat
    else if b < 0xF8 then pure (.list, (b - 0xC0).toNat, none)
    else readLongSize .list (b - 0xF7).toNat

/-- The innermost list has been read to its end. -/
def atEOL (s : Stream) : Bool :=
  match s.stack with
  | tos :: _ => decide (tos.pos = tos.size)
  | [] => false

/-- The size check of `Kind` on a value of `size` bytes: it must fit the
innermost list, or at toplevel the input limit. -/
def sizeErr (s : Stream) (size : Nat) : Option Err :=
  match s.stack with
  | [] => if s.limited ∧ size > s.remaining then some .valueTooLarge else none
  | tos :: _ => if size > tos.size - tos.pos then some .elemTooLarge else none

/-- `Kind`: the kind and size of the next value. The first call reads them
and checks the size; later calls return the cached result, a cached error
included. -/
def kind : StreamM (Kind × Nat) := do
  let s ← get
  match s.kind with
  | some k =>
    match s.kinderr with
    | some err => throw err
    | none => pure (k, s.size)
  | none =>
    set { s with kinderr := none }
    -- don't read further at the end of the innermost list
    if atEOL s then throw .eol
    else do
      let (k, size, err) ← readKind
      -- the source's `tos` points into the stack: it sees what `readKind` accounted
      let s ← get
      let err := err.or (sizeErr s size)
      set { s with kind := some k, size := size, kinderr := err }
      match err with
      | some err => throw err
      | none => pure (k, size)

/-- `Bytes`: an RLP string's contents. A one-byte string below `0x80`
should have been a single byte: `ErrCanonSize`. -/
def bytes : StreamM (List UInt8) := do
  let (k, size) ← kind
  match k with
  | .byte =>
    modify fun s => { s with kind := none }
    pure [(← get).byteval]
  | .string =>
    let b ← readFull size
    if size = 1 ∧ b.headD 0 < 0x80 then throw .canonSize
    pure b
  | .list => throw .expectedString

/-- `Raw`: the next value with its type information. The header was read
already, so a new one is put in front of the content. -/
def raw : StreamM (List UInt8) := do
  let (k, size) ← kind
  if k = .byte then
    modify fun s => { s with kind := none }
    return [(← get).byteval]
  let content ← readFull size
  if k = .string then pure (puthead 0x80 0xB7 size ++ content)
  else pure (puthead 0xC0 0xF7 size ++ content)

/-- `uint`: an RLP string of at most `maxbits / 8` bytes as an integer, with
no leading zero and no one-byte string for a value below 128. -/
def uint (maxbits : Nat) : StreamM Nat := do
  let (k, size) ← kind
  match k with
  | .byte =>
    let s ← get
    if s.byteval = 0 then throw .canonInt
    set { s with kind := none }
    pure s.byteval.toNat
  | .string =>
    if size > maxbits / 8 then throw .uintOverflow
    match ← attempt (readUint size) with
    | .error .canonSize => throw .canonInt
    | .error err => throw err
    | .ok v => if size > 0 ∧ v < 128 then throw .canonSize else pure v
  | .list => throw .expectedString

/-- `List`: enters a list and returns its size. -/
def list : StreamM Nat := do
  let (k, size) ← kind
  if k ≠ .list then throw .expectedList
  modify fun s => { s with stack := ⟨0, size⟩ :: s.stack, kind := none, size := 0 }
  pure size

/-- `ListEnd`: leaves a list whose contents were all read, and accounts
them in the enclosing list. -/
def listEnd : StreamM Unit := do
  let s ← get
  match s.stack with
  | [] => throw .notInList
  | tos :: rest =>
    if tos.pos ≠ tos.size then throw .notAtEOL
    let rest := match rest with
      | [] => []
      | p :: ps => { p with pos := p.pos + tos.size } :: ps
    set { s with stack := rest, kind := none, size := 0 }



/-- The tag the header of a string or of a list is built on; a byte has none. -/
def headerTag : Kind → UInt8
  | .byte => 0
  | .string => 0x80
  | .list => 0xC0

@[simp] theorem headerTag_string : headerTag .string = 0x80 := rfl
@[simp] theorem headerTag_list : headerTag .list = 0xC0 := rfl

/-! ## What the primitives do

Each method gets two lemmas: its run on a stream where it succeeds, and what
a successful run says about the stream it started from. -/

namespace Stream

/-- There is room for `n` more bytes, in the innermost list and in the input. -/
def Room (s : Stream) (n : Nat) : Prop :=
  (∀ tos ∈ s.stack.head?, n ≤ tos.size - tos.pos) ∧ (s.limited = true → n ≤ s.remaining)

/-- The stack after `n` more bytes of the innermost list were read. -/
def bump (stack : List Listpos) (n : Nat) : List Listpos :=
  match stack with
  | [] => []
  | tos :: rest => { tos with pos := tos.pos + n } :: rest

/-- What `willRead n` leaves: `n` bytes accounted and `Kind` rearmed. -/
def account (s : Stream) (n : Nat) : Stream :=
  { s with
    remaining := if s.limited then s.remaining - n else s.remaining
    kind := none
    stack := bump s.stack n }

/-- The stream after `n` bytes were accounted and read. -/
def read (s : Stream) (n : Nat) : Stream := { s.account n with r := s.r.drop n }

@[simp] theorem account_stack (s : Stream) (n : Nat) : (s.account n).stack = bump s.stack n := rfl
@[simp] theorem account_r (s : Stream) (n : Nat) : (s.account n).r = s.r := rfl
@[simp] theorem account_kind (s : Stream) (n : Nat) : (s.account n).kind = none := rfl
@[simp] theorem account_limited (s : Stream) (n : Nat) : (s.account n).limited = s.limited := rfl
@[simp] theorem read_r (s : Stream) (n : Nat) : (s.read n).r = s.r.drop n := rfl
@[simp] theorem read_stack (s : Stream) (n : Nat) : (s.read n).stack = bump s.stack n :=
  account_stack s n
@[simp] theorem read_kind (s : Stream) (n : Nat) : (s.read n).kind = none := rfl
@[simp] theorem read_limited (s : Stream) (n : Nat) : (s.read n).limited = s.limited := rfl
@[simp] theorem read_remaining (s : Stream) (n : Nat) :
    (s.read n).remaining = if s.limited then s.remaining - n else s.remaining := rfl

@[simp] theorem bump_bump (stack : List Listpos) (a b : Nat) :
    bump (bump stack a) b = bump stack (a + b) := by
  cases stack <;> simp [bump, Nat.add_assoc]

@[simp] theorem bump_zero (stack : List Listpos) : bump stack 0 = stack := by
  cases stack <;> simp [bump]

@[simp] theorem read_byteval (s : Stream) (c : UInt8) (n : Nat) :
    ({ s with byteval := c } : Stream).read n = { s.read n with byteval := c } := rfl

@[simp] theorem read_kinderr (s : Stream) (e : Option Err) (n : Nat) :
    ({ s with kinderr := e } : Stream).read n = { s.read n with kinderr := e } := rfl

theorem read_read (s : Stream) (a b : Nat) : (s.read a).read b = s.read (a + b) := by
  cases hl : s.limited <;>
    simp [read, account, hl, List.drop_drop, Nat.sub_sub]

theorem room_add {s : Stream} {a b : Nat} (h : s.Room (a + b)) : s.Room a ∧ (s.read a).Room b := by
  obtain ⟨htop, hlim⟩ := h
  refine ⟨⟨fun tos htos => ?_, fun hl => ?_⟩, ⟨fun tos htos => ?_, fun hl => ?_⟩⟩
  · have := htop tos htos; omega
  · have := hlim hl; omega
  · -- the innermost list of `s.read a` is the one of `s`, `a` bytes further
    cases hst : s.stack with
    | nil => simp [hst, bump] at htos
    | cons top rest =>
      simp only [read_stack, hst, bump, List.head?_cons, Option.mem_def, Option.some.injEq] at htos
      subst htos
      have := htop top (by simp [hst])
      simp only
      omega
  · simp only [read_limited] at hl
    have := hlim hl
    simp only [read_remaining, hl, if_true]
    omega

/-- The size check of `Kind`: the value fits the innermost list, or at
toplevel the input. -/
def Fits (s : Stream) (n : Nat) : Prop :=
  match s.stack with
  | [] => s.limited = true → n ≤ s.remaining
  | tos :: _ => n ≤ tos.size - tos.pos

theorem fits_of_room {s : Stream} {n : Nat} (h : s.Room n) : s.Fits n := by
  unfold Fits
  cases hst : s.stack with
  | nil => exact h.2
  | cons tos _ => exact h.1 tos (by simp [hst])

theorem room_of_read {s : Stream} {a b : Nat} (ha : s.Room a) (hb : (s.read a).Room b) :
    s.Room (a + b) := by
  obtain ⟨htop, hlim⟩ := ha
  obtain ⟨htop', hlim'⟩ := hb
  refine ⟨fun tos htos => ?_, fun hl => ?_⟩
  · cases hst : s.stack with
    | nil => simp [hst] at htos
    | cons top rest =>
      simp only [hst, List.head?_cons, Option.mem_def, Option.some.injEq] at htos
      subst htos
      have h1 := htop top (by simp [hst])
      have h2 := htop' { top with pos := top.pos + a } (by simp [hst, bump])
      simp only at h2
      omega
  · have h1 := hlim hl
    have h2 := hlim' (by simpa using hl)
    simp only [read_remaining, hl, if_true] at h2
    omega

end Stream



theorem run_willRead {s : Stream} {n : Nat} (h : s.Room n) :
    (willRead n).run s = .ok () (s.account n) := by
  obtain ⟨htop, hlim⟩ := h
  unfold willRead
  cases hst : s.stack with
  | nil =>
    cases hl : s.limited
    · simp [hst, hl, Stream.account, Stream.bump]
    · have := Nat.not_lt.mpr (hlim hl)
      simp [hst, hl, Stream.account, Stream.bump, this]
  | cons tos rest =>
    have htos := Nat.not_lt.mpr (htop tos (by simp [hst]))
    cases hl : s.limited
    · simp [hst, hl, Stream.account, Stream.bump, htos]
    · have := Nat.not_lt.mpr (hlim hl)
      simp [hst, hl, Stream.account, Stream.bump, htos, this]

theorem willRead_error {s : Stream} {n : Nat} (h : ¬ s.Room n) :
    ∃ e s', (willRead n).run s = .error e s' := by
  unfold willRead
  cases hst : s.stack with
  | nil =>
    have hl : s.limited = true ∧ s.remaining < n := by
      simp only [Stream.Room, hst, List.head?_nil, Option.mem_def, reduceCtorEq,
        false_imp_iff, implies_true, true_and, Classical.not_imp, Nat.not_le] at h
      exact h
    simp [hst, hl.1, hl.2]
  | cons tos rest =>
    by_cases htos : n ≤ tos.size - tos.pos
    · -- the list has room: the input limit is what fails
      have hl : s.limited = true ∧ s.remaining < n := by
        simp only [Stream.Room, hst, List.head?_cons, Option.mem_def, Option.some.injEq,
          forall_eq', htos, true_and, Classical.not_imp, Nat.not_le] at h
        exact h
      simp [hst, hl.1, hl.2, Nat.not_lt.mpr htos]
    · simp [hst, Nat.lt_of_not_le htos]

theorem willRead_eq_ok {s s' : Stream} {n : Nat} {u : Unit} (h : (willRead n).run s = .ok u s') :
    s.Room n ∧ s' = s.account n := by
  by_cases hroom : s.Room n
  · rw [run_willRead hroom] at h
    cases h
    exact ⟨hroom, rfl⟩
  · obtain ⟨e, s'', he⟩ := willRead_error hroom
    rw [he] at h
    cases h

theorem run_readByte {s : Stream} {b : UInt8} {rest : List UInt8} (hr : s.r = b :: rest)
    (h : s.Room 1) : readByte.run s = .ok b (s.read 1) := by
  unfold readByte
  rw [run_bind_of_ok (run_willRead h)]
  simp [hr, Stream.read]

theorem readByte_eq_ok {s s' : Stream} {b : UInt8} (h : readByte.run s = .ok b s') :
    s.Room 1 ∧ s.r = b :: s'.r ∧ s' = s.read 1 := by
  unfold readByte at h
  obtain ⟨u, s1, h1, h2⟩ := run_bind_eq_ok h
  obtain ⟨hroom, rfl⟩ := willRead_eq_ok h1
  cases hr : s.r with
  | nil => simp [hr] at h2
  | cons c rest =>
    simp only [EStateM.run_bind, EStateM.run_get, Stream.account_r, hr, EStateM.run_set,
      EStateM.run_pure, EStateM.Result.ok.injEq] at h2
    obtain ⟨rfl, rfl⟩ := h2
    exact ⟨hroom, rfl, by simp [Stream.read, hr]⟩

theorem run_readFull {s : Stream} {n : Nat} (hn : n ≤ s.r.length) (h : s.Room n) :
    (readFull n).run s = .ok (s.r.take n) (s.read n) := by
  unfold readFull
  rw [run_bind_of_ok (run_willRead h)]
  simp [hn, Stream.read]

theorem readFull_eq_ok {s s' : Stream} {n : Nat} {b : List UInt8}
    (h : (readFull n).run s = .ok b s') :
    s.Room n ∧ n ≤ s.r.length ∧ b = s.r.take n ∧ s' = s.read n := by
  unfold readFull at h
  obtain ⟨u, s1, h1, h2⟩ := run_bind_eq_ok h
  obtain ⟨hroom, rfl⟩ := willRead_eq_ok h1
  by_cases hn : n ≤ s.r.length
  · simp only [EStateM.run_bind, EStateM.run_get, Stream.account_r, hn, if_true,
      EStateM.run_set, EStateM.run_pure, EStateM.Result.ok.injEq] at h2
    obtain ⟨rfl, rfl⟩ := h2
    exact ⟨hroom, hn, rfl, rfl⟩
  · simp [hn] at h2

theorem length_beBytes_le_eight {n : Nat} (h : n < 2 ^ 64) : (beBytes n).length ≤ 8 :=
  length_beBytes_le_iff.mpr (by norm_num at h ⊢; exact h)

theorem length_beBytes_pos {n : Nat} (h : n ≠ 0) : 0 < (beBytes n).length := by
  rcases Nat.eq_zero_or_pos (beBytes n).length with h0 | h0
  · exact absurd (beBytes_eq_nil_iff.mp (List.length_eq_zero_iff.mp h0)) h
  · exact h0

theorem lt_of_length_beBytes_le {n : Nat} (h : (beBytes n).length ≤ 8) : n < 2 ^ 64 := by
  have := length_beBytes_le_iff.mp h
  norm_num at this ⊢
  exact this

/-- Reading the minimal bytes of a size of at least 56 gives the size back. -/
theorem run_readUint_beBytes {s : Stream} {n : Nat} {rest : List UInt8} (h56 : 56 ≤ n)
    (h64 : n < 2 ^ 64) (hr : s.r = beBytes n ++ rest) (h : s.Room (beBytes n).length) :
    (readUint (beBytes n).length).run s = .ok n (s.read (beBytes n).length) := by
  have hpos := length_beBytes_pos (show n ≠ 0 by omega)
  by_cases h1 : (beBytes n).length = 1
  · -- one byte of size information: `readByte`
    have hlt : n < 256 := by simpa using length_beBytes_le_iff.mp h1.le
    have hb : beBytes n = [UInt8.ofNat n] := beBytes_of_lt (by omega) hlt
    rw [hb] at hr
    rw [h1] at h ⊢
    simp only [readUint]
    rw [run_bind_of_ok (run_readByte hr h)]
    simp [Nat.mod_eq_of_lt hlt]
  · obtain ⟨k, hk⟩ : ∃ k, (beBytes n).length = k + 2 := ⟨(beBytes n).length - 2, by omega⟩
    have hlen : k + 2 ≤ s.r.length := by rw [hr, List.length_append]; omega
    have htake : s.r.take (k + 2) = beBytes n := by
      rw [hr, ← hk, List.take_left]
    rw [hk] at h ⊢
    simp only [readUint]
    rw [run_bind_of_ok (run_readFull hlen h), htake]
    simp [head_beBytes_ne_zero]

theorem readUint_eq_ok {s s' : Stream} {size v : Nat} (h1 : 1 ≤ size)
    (h : (readUint size).run s = .ok v s') :
    s.Room size ∧ size ≤ s.r.length ∧ s' = s.read size ∧ v = beValue (s.r.take size) ∧
      (2 ≤ size → (s.r.take size).head? ≠ some 0) := by
  obtain ⟨k, rfl⟩ : ∃ k, size = k + 1 := ⟨size - 1, by omega⟩
  cases k with
  | zero =>
    simp only [readUint] at h
    obtain ⟨b, s1, h1, h2⟩ := run_bind_eq_ok h
    obtain ⟨hroom, hr, rfl⟩ := readByte_eq_ok h1
    simp only [EStateM.run_pure, EStateM.Result.ok.injEq] at h2
    obtain ⟨rfl, rfl⟩ := h2
    refine ⟨hroom, by rw [hr]; simp, rfl, ?_, by omega⟩
    rw [hr]
    simpa using (beValue_append_singleton [] b).symm
  | succ k =>
    simp only [readUint] at h
    obtain ⟨buf, s1, h1, h2⟩ := run_bind_eq_ok h
    obtain ⟨hroom, hlen, rfl, rfl⟩ := readFull_eq_ok h1
    by_cases h0 : (s.r.take (k + 2)).head? = some 0
    · simp [h0] at h2
    · simp only [h0, if_false, EStateM.run_pure, EStateM.Result.ok.injEq] at h2
      obtain ⟨rfl, rfl⟩ := h2
      exact ⟨hroom, hlen, rfl, rfl, fun _ => h0⟩

theorem run_readLongSize (k : Kind) {s : Stream} {n : Nat} {rest : List UInt8} (h56 : 56 ≤ n)
    (h64 : n < 2 ^ 64) (hr : s.r = beBytes n ++ rest) (h : s.Room (beBytes n).length) :
    (readLongSize k (beBytes n).length).run s = .ok (k, n, none) (s.read (beBytes n).length) := by
  unfold readLongSize
  rw [run_bind_of_ok (run_attempt_of_ok (run_readUint_beBytes h56 h64 hr h))]
  simp [Nat.not_lt.mpr h56]

/-- Size information `readKind` accepts is the minimal bytes of a size of at least 56. -/
theorem readLongSize_eq_ok {k k' : Kind} {s s' : Stream} {lenlen n : Nat} (h1 : 1 ≤ lenlen)
    (h : (readLongSize k lenlen).run s = .ok (k', n, none) s') :
    k' = k ∧ 56 ≤ n ∧ (beBytes n).length = lenlen ∧ s.r = beBytes n ++ s'.r ∧ s.Room lenlen ∧
      s' = s.read lenlen := by
  unfold readLongSize at h
  obtain ⟨res, s1, h1', h2⟩ := run_bind_eq_ok h
  rcases run_attempt_eq_ok h1' with ⟨v, rfl, hv⟩ | ⟨e, rfl, -⟩
  · simp only [EStateM.run_pure, EStateM.Result.ok.injEq, Prod.mk.injEq] at h2
    obtain ⟨⟨rfl, rfl, hne⟩, rfl⟩ := h2
    have h56 : 56 ≤ v := by by_contra hc; simp [Nat.lt_of_not_le hc] at hne
    obtain ⟨hroom, hlen, rfl, hval, hlead⟩ := readUint_eq_ok h1 hv
    -- a single byte of size information is not zero either: it is at least 56
    have hhead : (s.r.take lenlen).head? ≠ some 0 := by
      by_cases h2 : 2 ≤ lenlen
      · exact hlead h2
      · obtain ⟨c, rest, hc⟩ : ∃ c rest, s.r = c :: rest := by
          cases hr : s.r with
          | nil => rw [hr] at hlen; simp at hlen; omega
          | cons c rest => exact ⟨c, rest, rfl⟩
        have hl1 : lenlen = 1 := by omega
        subst hl1
        rw [hc] at hval ⊢
        simp only [List.take_succ_cons, List.take_zero, List.head?_cons, ne_eq,
          Option.some.injEq] at hval ⊢
        rintro rfl
        have h0 : beValue [(0 : UInt8)] = 0 := by simp [beValue]
        omega
    have hbe : beBytes v = s.r.take lenlen := by rw [hval]; exact beBytes_beValue hhead
    refine ⟨rfl, h56, by rw [hbe, List.length_take]; omega, ?_, hroom, rfl⟩
    rw [hbe, Stream.read_r, List.take_append_drop]
  · simp at h2

theorem toNat_tag_add {tag : UInt8} {m : Nat} (h : tag.toNat + m < 256) :
    (tag + UInt8.ofNat m).toNat = tag.toNat + m := by
  rw [UInt8.toNat_add, UInt8.toNat_ofNat']
  omega

theorem run_readKind_byte {s : Stream} {c : UInt8} {rest : List UInt8} (hr : s.r = c :: rest)
    (hc : c < 0x80) (h : s.Room 1) :
    readKind.run s = .ok (.byte, 0, none) { s.read 1 with byteval := c } := by
  unfold readKind
  rw [run_bind_of_ok (run_attempt_of_ok (run_readByte hr h))]
  simp [hc]

theorem header_short {tag : UInt8} {n : Nat} (h : n < 56) : header tag n = [tag + UInt8.ofNat n] := by
  simp [header, h]

theorem header_long {tag : UInt8} {n : Nat} (h : ¬ n < 56) :
    header tag n = (tag + 55 + UInt8.ofNat (beBytes n).length) :: beBytes n := by
  simp [header, h]

/-- After a type tag `b` from the string or list range, `readKind` reads what
the tag announces. -/
theorem run_readKind_header {s : Stream} {k : Kind} {n : Nat} {rest : List UInt8}
    (hk : k ≠ .byte) (hn : n < 2 ^ 64) (hr : s.r = header (headerTag k) n ++ rest)
    (h : s.Room (header (headerTag k) n).length) :
    readKind.run s = .ok (k, n, none) { s.read (header (headerTag k) n).length with byteval := 0 } := by
  unfold readKind
  by_cases hs : n < 56
  · -- one byte: the tag plus the size
    rw [header_short hs] at hr h ⊢
    rw [run_bind_of_ok (run_attempt_of_ok (run_readByte (by simpa using hr) h))]
    cases k with
    | byte => exact absurd rfl hk
    | string =>
      have hv : (headerTag .string + UInt8.ofNat n).toNat = 128 + n :=
        toNat_tag_add (by simp [headerTag]; omega)
      have hsub : (headerTag .string + UInt8.ofNat n - 0x80).toNat = n := by
        rw [UInt8.toNat_sub_of_le _ _ (by rw [UInt8.le_iff_toNat_le, hv]; simp), hv]; simp
      have hb1 : ¬ (headerTag .string + UInt8.ofNat n) < 0x80 := by
        simp only [UInt8.lt_iff_toNat_lt, hv, UInt8.reduceToNat]; omega
      have hb2 : (headerTag .string + UInt8.ofNat n) < 0xB8 := by
        simp only [UInt8.lt_iff_toNat_lt, hv, UInt8.reduceToNat]; omega
      simp only [EStateM.run_bind, EStateM.run_modify, hb1, hb2, if_false, if_true, hsub]
      rfl
    | list =>
      have hv : (headerTag .list + UInt8.ofNat n).toNat = 192 + n :=
        toNat_tag_add (by simp [headerTag]; omega)
      have hsub : (headerTag .list + UInt8.ofNat n - 0xC0).toNat = n := by
        rw [UInt8.toNat_sub_of_le _ _ (by rw [UInt8.le_iff_toNat_le, hv]; simp), hv]; simp
      have hb1 : ¬ (headerTag .list + UInt8.ofNat n) < 0x80 := by
        simp only [UInt8.lt_iff_toNat_lt, hv, UInt8.reduceToNat]; omega
      have hb2 : ¬ (headerTag .list + UInt8.ofNat n) < 0xB8 := by
        simp only [UInt8.lt_iff_toNat_lt, hv, UInt8.reduceToNat]; omega
      have hb3 : ¬ (headerTag .list + UInt8.ofNat n) < 0xC0 := by
        simp only [UInt8.lt_iff_toNat_lt, hv, UInt8.reduceToNat]; omega
      have hb4 : (headerTag .list + UInt8.ofNat n) < 0xF8 := by
        simp only [UInt8.lt_iff_toNat_lt, hv, UInt8.reduceToNat]; omega
      simp only [EStateM.run_bind, EStateM.run_modify, hb1, hb2, hb3, hb4, if_false, if_true, hsub]
      rfl
  · -- the tag gives the number of size bytes that follow
    have hlen := length_beBytes_le_eight hn
    have hpos := length_beBytes_pos (show n ≠ 0 by omega)
    rw [header_long hs] at hr h ⊢
    have h' : s.Room (1 + (beBytes n).length) := by simpa [Nat.add_comm] using h
    obtain ⟨h1, hL⟩ := Stream.room_add h'
    rw [run_bind_of_ok (run_attempt_of_ok (run_readByte (by simpa using hr) h1))]
    have hr' : ({ s.read 1 with byteval := 0 } : Stream).r = beBytes n ++ rest := by
      simp [hr]
    have hfin : ({ s.read 1 with byteval := 0 } : Stream).read (beBytes n).length =
        { s.read ((beBytes n).length + 1) with byteval := 0 } := by
      rw [← Nat.add_comm 1, ← Stream.read_read]; rfl
    cases k with
    | byte => exact absurd rfl hk
    | string =>
      have hv : (headerTag .string + 55 + UInt8.ofNat (beBytes n).length).toNat =
          183 + (beBytes n).length := toNat_tag_add (by simp [headerTag]; omega)
      have hsub : (headerTag .string + 55 + UInt8.ofNat (beBytes n).length - 0xB7).toNat =
          (beBytes n).length := by
        rw [UInt8.toNat_sub_of_le _ _ (by rw [UInt8.le_iff_toNat_le, hv]; simp), hv]; simp
      have hb1 : ¬ (headerTag .string + 55 + UInt8.ofNat (beBytes n).length) < 0x80 := by
        simp only [UInt8.lt_iff_toNat_lt, hv, UInt8.reduceToNat]; omega
      have hb2 : ¬ (headerTag .string + 55 + UInt8.ofNat (beBytes n).length) < 0xB8 := by
        simp only [UInt8.lt_iff_toNat_lt, hv, UInt8.reduceToNat]; omega
      have hb3 : (headerTag .string + 55 + UInt8.ofNat (beBytes n).length) < 0xC0 := by
        simp only [UInt8.lt_iff_toNat_lt, hv, UInt8.reduceToNat]; omega
      simp only [EStateM.run_bind, EStateM.run_modify, hb1, hb2, hb3, if_false, if_true, hsub]
      rw [run_readLongSize .string (by omega) hn hr' hL, hfin]
      simp
    | list =>
      have hv : (headerTag .list + 55 + UInt8.ofNat (beBytes n).length).toNat =
          247 + (beBytes n).length := toNat_tag_add (by simp [headerTag]; omega)
      have hsub : (headerTag .list + 55 + UInt8.ofNat (beBytes n).length - 0xF7).toNat =
          (beBytes n).length := by
        rw [UInt8.toNat_sub_of_le _ _ (by rw [UInt8.le_iff_toNat_le, hv]; simp), hv]; simp
      have hb1 : ¬ (headerTag .list + 55 + UInt8.ofNat (beBytes n).length) < 0x80 := by
        simp only [UInt8.lt_iff_toNat_lt, hv, UInt8.reduceToNat]; omega
      have hb2 : ¬ (headerTag .list + 55 + UInt8.ofNat (beBytes n).length) < 0xB8 := by
        simp only [UInt8.lt_iff_toNat_lt, hv, UInt8.reduceToNat]; omega
      have hb3 : ¬ (headerTag .list + 55 + UInt8.ofNat (beBytes n).length) < 0xC0 := by
        simp only [UInt8.lt_iff_toNat_lt, hv, UInt8.reduceToNat]; omega
      have hb4 : ¬ (headerTag .list + 55 + UInt8.ofNat (beBytes n).length) < 0xF8 := by
        simp only [UInt8.lt_iff_toNat_lt, hv, UInt8.reduceToNat]; omega
      simp only [EStateM.run_bind, EStateM.run_modify, hb1, hb2, hb3, hb4, if_false, hsub]
      rw [run_readLongSize .list (by omega) hn hr' hL, hfin]
      simp

theorem header_eq_of_short {tag b : UInt8} {n : Nat} (hn : n < 56)
    (hb : b.toNat = tag.toNat + n) : header tag n = [b] := by
  have := UInt8.toNat_lt b
  rw [header_short hn, List.singleton_inj, UInt8.ext_iff, hb]
  exact toNat_tag_add (by omega)

theorem header_eq_of_long {tag b : UInt8} {n : Nat} (hn : ¬ n < 56) (hlen : (beBytes n).length ≤ 8)
    (htag : tag.toNat + 55 + 8 < 256) (hb : b.toNat = tag.toNat + 55 + (beBytes n).length) :
    header tag n = b :: beBytes n := by
  rw [header_long hn, List.cons.injEq, UInt8.ext_iff, hb]
  refine ⟨?_, rfl⟩
  have h55 : (tag + 55).toNat = tag.toNat + 55 := toNat_tag_add (m := 55) (by omega)
  rw [toNat_tag_add (by rw [h55]; omega), h55]

/-- **What `readKind` accepts.** A type tag that `readKind` reads without
error is a single byte below `0x80`, or the canonical header of a string or
of a list: its size in the short form below 56, otherwise in the fewest
bytes with no leading zero. -/
theorem readKind_eq_ok {s s' : Stream} {k : Kind} {n : Nat}
    (h : readKind.run s = .ok (k, n, none) s') :
    (k = .byte ∧ n = 0 ∧ ∃ c, c < 0x80 ∧ s.r = c :: s'.r ∧ s.Room 1 ∧
      s' = { s.read 1 with byteval := c }) ∨
    (k ≠ .byte ∧ n < 2 ^ 64 ∧ s.r = header (headerTag k) n ++ s'.r ∧
      s.Room (header (headerTag k) n).length ∧
      s' = { s.read (header (headerTag k) n).length with byteval := 0 }) := by
  unfold readKind at h
  obtain ⟨res, s1, h1, h2⟩ := run_bind_eq_ok h
  rcases run_attempt_eq_ok h1 with ⟨b, rfl, hb⟩ | ⟨e, rfl, -⟩
  · obtain ⟨hroom1, hr, rfl⟩ := readByte_eq_ok hb
    simp only [EStateM.run_bind, EStateM.run_modify] at h2
    split_ifs at h2 with c1 c2 c3 c4
    · -- a single byte is its own encoding
      simp only [EStateM.run_bind, EStateM.run_modify, EStateM.run_pure,
        EStateM.Result.ok.injEq, Prod.mk.injEq] at h2
      obtain ⟨⟨rfl, rfl, -⟩, rfl⟩ := h2
      exact .inl ⟨rfl, rfl, b, c1, hr, hroom1, rfl⟩
    · -- a short string
      simp only [EStateM.run_pure, EStateM.Result.ok.injEq, Prod.mk.injEq] at h2
      obtain ⟨⟨rfl, rfl, -⟩, rfl⟩ := h2
      simp only [UInt8.lt_iff_toNat_lt, UInt8.reduceToNat, Nat.not_lt] at c1 c2
      have hsub : (b - 0x80).toNat = b.toNat - 128 :=
        UInt8.toNat_sub_of_le _ _ (by rw [UInt8.le_iff_toNat_le]; simpa using c1)
      have hh : header (headerTag .string) (b - 0x80).toNat = [b] :=
        header_eq_of_short (by omega) (by simp [headerTag, hsub]; omega)
      refine .inr ⟨by simp, by omega, ?_, ?_, ?_⟩ <;> rw [hh]
      · exact hr
      · exact hroom1
      · rfl
    · -- a long string: the tag says how many size bytes follow
      simp only [UInt8.lt_iff_toNat_lt, UInt8.reduceToNat, Nat.not_lt] at c1 c2 c3
      have hsub : (b - 0xB7).toNat = b.toNat - 183 :=
        UInt8.toNat_sub_of_le _ _ (by rw [UInt8.le_iff_toNat_le]; simp; omega)
      rw [hsub] at h2
      obtain ⟨rfl, h56, hlen, hr', hroomL, rfl⟩ := readLongSize_eq_ok (by omega) h2
      have hh : header (headerTag .string) n = b :: beBytes n :=
        header_eq_of_long (by omega) (by omega) (by simp [headerTag]) (by simp [headerTag]; omega)
      have hr1 : s.r = header (headerTag .string) n ++
          (({ s.read 1 with byteval := 0 } : Stream).read (b.toNat - 183)).r := by
        rw [hh, hr, List.cons_append, ← hr']
      refine .inr ⟨by simp, ?_, hr1, ?_, ?_⟩
      · exact lt_of_length_beBytes_le (by omega)
      · rw [hh, List.length_cons, hlen, Nat.add_comm]
        exact Stream.room_of_read hroom1 hroomL
      · rw [hh, List.length_cons, hlen, Nat.add_comm, ← Stream.read_read, Stream.read_byteval]
    · -- a short list
      simp only [EStateM.run_pure, EStateM.Result.ok.injEq, Prod.mk.injEq] at h2
      obtain ⟨⟨rfl, rfl, -⟩, rfl⟩ := h2
      simp only [UInt8.lt_iff_toNat_lt, UInt8.reduceToNat, Nat.not_lt] at c1 c2 c3 c4
      have hsub : (b - 0xC0).toNat = b.toNat - 192 :=
        UInt8.toNat_sub_of_le _ _ (by rw [UInt8.le_iff_toNat_le]; simpa using c3)
      have hh : header (headerTag .list) (b - 0xC0).toNat = [b] :=
        header_eq_of_short (by omega) (by simp [headerTag, hsub]; omega)
      refine .inr ⟨by simp, by omega, ?_, ?_, ?_⟩ <;> rw [hh]
      · exact hr
      · exact hroom1
      · rfl
    · -- a long list
      simp only [UInt8.lt_iff_toNat_lt, UInt8.reduceToNat, Nat.not_lt] at c1 c2 c3 c4
      have hb8 := UInt8.toNat_lt b
      have hsub : (b - 0xF7).toNat = b.toNat - 247 :=
        UInt8.toNat_sub_of_le _ _ (by rw [UInt8.le_iff_toNat_le]; simp; omega)
      rw [hsub] at h2
      obtain ⟨rfl, h56, hlen, hr', hroomL, rfl⟩ := readLongSize_eq_ok (by omega) h2
      have hh : header (headerTag .list) n = b :: beBytes n :=
        header_eq_of_long (by omega) (by omega) (by simp [headerTag]) (by simp [headerTag]; omega)
      have hr1 : s.r = header (headerTag .list) n ++
          (({ s.read 1 with byteval := 0 } : Stream).read (b.toNat - 247)).r := by
        rw [hh, hr, List.cons_append, ← hr']
      refine .inr ⟨by simp, ?_, hr1, ?_, ?_⟩
      · exact lt_of_length_beBytes_le (by omega)
      · rw [hh, List.length_cons, hlen, Nat.add_comm]
        exact Stream.room_of_read hroom1 hroomL
      · rw [hh, List.length_cons, hlen, Nat.add_comm, ← Stream.read_read, Stream.read_byteval]
  · simp at h2

theorem run_kind_cached {s : Stream} {k : Kind} (hk : s.kind = some k) (he : s.kinderr = none) :
    kind.run s = .ok (k, s.size) s := by
  unfold kind
  simp [hk, he]

theorem fits_iff_sizeErr {s : Stream} {n : Nat} : s.Fits n ↔ sizeErr s n = none := by
  unfold Stream.Fits sizeErr
  cases s.stack with
  | nil => cases s.limited <;> simp
  | cons tos _ => simp

/-- A first call of `Kind` reads the type tag and checks the size. -/
theorem run_kind_fresh {s s1 : Stream} {k : Kind} {n : Nat} (hk : s.kind = none)
    (heol : atEOL s = false)
    (hread : readKind.run { s with kinderr := none } = .ok (k, n, none) s1) (hfit : s1.Fits n) :
    kind.run s = .ok (k, n) { s1 with kind := some k, size := n, kinderr := none } := by
  simp only [hk] at hread
  unfold kind
  simp [hk, heol, hread, fits_iff_sizeErr.mp hfit]

theorem kind_eq_ok {s s' : Stream} {k : Kind} {n : Nat} (hk : s.kind = none)
    (h : kind.run s = .ok (k, n) s') :
    atEOL s = false ∧ ∃ s1, readKind.run { s with kinderr := none } = .ok (k, n, none) s1 ∧
      s1.Fits n ∧ s' = { s1 with kind := some k, size := n, kinderr := none } := by
  unfold kind at h
  cases heol : atEOL s
  · refine ⟨rfl, ?_⟩
    simp only [EStateM.run_bind, EStateM.run_get, hk, EStateM.run_set, heol, Bool.false_eq_true,
      if_false] at h
    split at h
    · rename_i x s1 hread
      obtain ⟨k', n', e⟩ := x
      -- an error of `readKind` or of the size check would be thrown
      cases e with
      | some e => simp at h
      | none =>
        cases hse : sizeErr s1 n'
        · simp only [Option.none_or, hse, EStateM.run_pure, EStateM.Result.ok.injEq,
            Prod.mk.injEq] at h
          obtain ⟨⟨rfl, rfl⟩, rfl⟩ := h
          refine ⟨s1, ?_, fits_iff_sizeErr.mpr hse, rfl⟩
          simpa [hk] using hread
        · simp [hse] at h
    · simp at h
  · simp [hk, heol] at h

/-- **What a first call of `Kind` reads.** A single byte below `0x80`, or
the canonical header of a string or a list whose size passes the check of
`Kind`; the kind and size are then cached. -/
theorem kind_fresh_eq_ok {s s' : Stream} {k : Kind} {n : Nat} (hk : s.kind = none)
    (h : kind.run s = .ok (k, n) s') :
    (k = .byte ∧ n = 0 ∧ ∃ c, c < 0x80 ∧ s.r = c :: s'.r ∧ s.Room 1 ∧
        s' = { s.read 1 with byteval := c, kind := some .byte, size := 0, kinderr := none }) ∨
      (k ≠ .byte ∧ n < 2 ^ 64 ∧ s.r = header (headerTag k) n ++ s'.r ∧
        s.Room (header (headerTag k) n).length ∧ (s.read (header (headerTag k) n).length).Fits n ∧
        s' = { s.read (header (headerTag k) n).length with
          byteval := 0, kind := some k, size := n, kinderr := none }) := by
  obtain ⟨-, s1, hread, hfit, rfl⟩ := kind_eq_ok hk h
  rcases readKind_eq_ok hread with ⟨rfl, rfl, c, hc, hr, hroom, rfl⟩ | ⟨hkb, hn, hr, hroom, rfl⟩
  · exact .inl ⟨rfl, rfl, c, hc, hr, hroom, rfl⟩
  · exact .inr ⟨hkb, hn, hr, hroom, hfit, rfl⟩

/-- At the end of a list, a first call of `Kind` returns `EOL` and reads nothing. -/
theorem run_kind_eol {s : Stream} (hk : s.kind = none) (heol : atEOL s = true) :
    kind.run s = .error .eol { s with kinderr := none } := by
  unfold kind
  simp [hk, heol]

/-! ### `EOL` comes only from `Kind` at the end of a list

The byte readers fail for lack of room in a list or in the input limit, when
the reader runs dry, or at a size with a leading zero byte: never with the
`EOL` and `EOF` that `Kind` reports. -/

/-- The errors `willRead`, `readByte`, `readFull` and `readUint` can return. -/
def ReadErr (e : Err) : Prop :=
  e = .elemTooLarge ∨ e = .valueTooLarge ∨ e = .unexpectedEOF ∨ e = .canonSize

theorem willRead_readErr {s s' : Stream} {n : Nat} {e : Err}
    (h : (willRead n).run s = .error e s') : ReadErr e := by
  unfold willRead at h
  cases hst : s.stack with
  | nil =>
    cases hl : s.limited <;> by_cases hn : s.remaining < n <;> simp [hst, hl, hn] at h
    exact .inr (.inl h.1.symm)
  | cons tos rest =>
    cases hl : s.limited <;> by_cases h1 : tos.size - tos.pos < n <;>
      by_cases hn : s.remaining < n <;> simp [hst, hl, h1, hn] at h <;>
      first
        | exact .inl h.1.symm
        | exact .inr (.inl h.1.symm)

theorem readByte_readErr {s s' : Stream} {e : Err} (h : readByte.run s = .error e s') :
    ReadErr e := by
  unfold readByte at h
  rw [EStateM.run_bind] at h
  split at h
  · rename_i s1 _
    cases hr : s1.r <;> simp [hr] at h
    exact .inr (.inr (.inl h.1.symm))
  · rename_i e' s1 hw
    cases h
    exact willRead_readErr hw

theorem readFull_readErr {s s' : Stream} {n : Nat} {e : Err}
    (h : (readFull n).run s = .error e s') : ReadErr e := by
  unfold readFull at h
  rw [EStateM.run_bind] at h
  split at h
  · rename_i s1 _
    by_cases hn : n ≤ s1.r.length <;> simp [hn] at h
    exact .inr (.inr (.inl h.1.symm))
  · rename_i e' s1 hw
    cases h
    exact willRead_readErr hw

theorem readUint_readErr {s s' : Stream} {size : Nat} {e : Err}
    (h : (readUint size).run s = .error e s') : ReadErr e := by
  match size with
  | 0 => simp [readUint] at h
  | 1 =>
    simp only [readUint, EStateM.run_bind] at h
    split at h
    · simp at h
    · rename_i e' s1 hb
      cases h
      exact readByte_readErr hb
  | k + 2 =>
    simp only [readUint, EStateM.run_bind] at h
    split at h
    · rename_i buf s1 _
      by_cases h0 : buf.head? = some 0 <;> simp [h0] at h
      exact .inr (.inr (.inr h.1.symm))
    · rename_i e' s1 hb
      cases h
      exact readFull_readErr hb

theorem readErr_ne_eol : ¬ ReadErr .eol := by simp [ReadErr]

theorem willRead_ne_eol {s s' : Stream} {n : Nat} : (willRead n).run s ≠ .error .eol s' :=
  fun h => readErr_ne_eol (willRead_readErr h)

theorem readByte_ne_eol {s s' : Stream} : readByte.run s ≠ .error .eol s' :=
  fun h => readErr_ne_eol (readByte_readErr h)

theorem readFull_ne_eol {s s' : Stream} {n : Nat} : (readFull n).run s ≠ .error .eol s' :=
  fun h => readErr_ne_eol (readFull_readErr h)

theorem readUint_ne_eol {s s' : Stream} {size : Nat} : (readUint size).run s ≠ .error .eol s' :=
  fun h => readErr_ne_eol (readUint_readErr h)

/-- `readKind` never fails: it returns its error, which is never `EOL`. -/
theorem readKind_eq {s : Stream} :
    ∃ k n e s', readKind.run s = .ok (k, n, e) s' ∧ e ≠ some .eol := by
  unfold readKind
  rw [EStateM.run_bind]
  split
  · rename_i res s1 h1
    rcases run_attempt_eq_ok h1 with ⟨b, rfl, -⟩ | ⟨e, rfl, he⟩
    · simp only [EStateM.run_bind, EStateM.run_modify]
      have hlong : ∀ (k : Kind) (lenlen : Nat) (s2 : Stream), ∃ n e s', (readLongSize k lenlen).run s2 =
          .ok (k, n, e) s' ∧ e ≠ some .eol := by
        intro k lenlen s2
        unfold readLongSize
        rw [EStateM.run_bind]
        split
        · rename_i res s3 h3
          rcases run_attempt_eq_ok h3 with ⟨v, rfl, -⟩ | ⟨e, rfl, he⟩
          · refine ⟨v, _, s3, rfl, ?_⟩
            split <;> simp
          · exact ⟨0, some e, s3, rfl, by simpa using fun h => readUint_ne_eol (h ▸ he)⟩
        · rename_i e s3 h3
          exact absurd h3 run_attempt_ne_error
      split_ifs
      · exact ⟨_, _, _, _, rfl, by simp⟩
      · exact ⟨_, _, _, _, rfl, by simp⟩
      · obtain ⟨n, e, s', h, he⟩ := hlong .string _ _
        exact ⟨_, n, e, s', h, he⟩
      · exact ⟨_, _, _, _, rfl, by simp⟩
      · obtain ⟨n, e, s', h, he⟩ := hlong .list _ _
        exact ⟨_, n, e, s', h, he⟩
    · refine ⟨_, _, _, _, rfl, ?_⟩
      simp only [ne_eq, Option.some.injEq]
      split_ifs
      · simp
      · exact fun h => readByte_ne_eol (h ▸ he)
  · rename_i e s1 h1
    exact absurd h1 run_attempt_ne_error

/-- A first call of `Kind` returns `EOL` only at the end of a list, having read nothing. -/
theorem kind_eq_error_eol {s s' : Stream} (hk : s.kind = none) (h : kind.run s = .error .eol s') :
    atEOL s = true ∧ s' = { s with kinderr := none } := by
  cases heol : atEOL s
  · exfalso
    obtain ⟨k, n, e, s1, hread, he⟩ := readKind_eq (s := { s with kind := none, kinderr := none })
    unfold kind at h
    simp only [EStateM.run_bind, EStateM.run_get, hk, EStateM.run_set, heol, Bool.false_eq_true,
      if_false, hread] at h
    -- neither `readKind` nor the size check produces `EOL`
    have hse : sizeErr s1 n ≠ some .eol := by
      unfold sizeErr
      cases s1.stack with
      | nil => split <;> simp
      | cons tos _ => split <;> simp
    cases e with
    | some e =>
      simp only [Option.some_or, run_throw_error, EStateM.Result.error.injEq] at h
      exact he (by rw [h.1])
    | none =>
      cases hs : sizeErr s1 n with
      | none => simp [hs] at h
      | some e =>
        simp only [Option.none_or, hs, run_throw_error, EStateM.Result.error.injEq] at h
        exact hse (by rw [hs, h.1])
  · rw [run_kind_eol hk heol] at h
    cases h
    exact ⟨rfl, rfl⟩

/-! ### Reading a value whose kind is known -/

theorem run_bytes_byte {s : Stream} (hk : s.kind = some .byte) (he : s.kinderr = none) :
    bytes.run s = .ok [s.byteval] { s with kind := none } := by
  unfold bytes
  rw [run_bind_of_ok (run_kind_cached hk he)]
  simp

theorem run_bytes_string {s : Stream} (hk : s.kind = some .string) (he : s.kinderr = none)
    (hn : s.size ≤ s.r.length) (h : s.Room s.size)
    (hcanon : ¬ (s.size = 1 ∧ (s.r.take s.size).headD 0 < 0x80)) :
    bytes.run s = .ok (s.r.take s.size) (s.read s.size) := by
  unfold bytes
  rw [run_bind_of_ok (run_kind_cached hk he)]
  simp only [EStateM.run_bind, run_readFull hn h, hcanon, if_false, EStateM.run_pure]

theorem bytes_eq_ok {s s' : Stream} {k : Kind} {b : List UInt8} (hk : s.kind = some k)
    (he : s.kinderr = none) (h : bytes.run s = .ok b s') :
    (k = .byte ∧ b = [s.byteval] ∧ s' = { s with kind := none }) ∨
      (k = .string ∧ s.Room s.size ∧ s.size ≤ s.r.length ∧ b = s.r.take s.size ∧
        s' = s.read s.size ∧ ¬ (s.size = 1 ∧ b.headD 0 < 0x80)) := by
  unfold bytes at h
  rw [run_bind_of_ok (run_kind_cached hk he)] at h
  cases k with
  | byte =>
    simp only [EStateM.run_bind, EStateM.run_modify, EStateM.run_get, EStateM.run_pure,
      EStateM.Result.ok.injEq] at h
    obtain ⟨rfl, rfl⟩ := h
    exact .inl ⟨rfl, rfl, rfl⟩
  | string =>
    simp only [EStateM.run_bind] at h
    split at h
    · rename_i b' s1 hread
      obtain ⟨hroom, hn, rfl, rfl⟩ := readFull_eq_ok hread
      by_cases hc : s.size = 1 ∧ (s.r.take s.size).headD 0 < 0x80
      · simp only [if_pos hc] at h
        cases h
      · simp only [hc, if_false, EStateM.run_pure, EStateM.Result.ok.injEq] at h
        obtain ⟨rfl, rfl⟩ := h
        exact .inr ⟨rfl, hroom, hn, rfl, rfl, hc⟩
    · simp at h
  | list => simp at h

theorem bytes_ne_eol {s s' : Stream} {k : Kind} (hk : s.kind = some k) (he : s.kinderr = none) :
    bytes.run s ≠ .error .eol s' := by
  intro h
  unfold bytes at h
  rw [run_bind_of_ok (run_kind_cached hk he)] at h
  cases k with
  | byte => simp at h
  | string =>
    simp only [EStateM.run_bind] at h
    split at h
    · rename_i b' s1 _
      by_cases hc : s.size = 1 ∧ b'.headD 0 < 0x80
      · simp only [if_pos hc] at h
        cases h
      · simp only [hc, if_false, EStateM.run_pure] at h
        cases h
    · rename_i e s1 hread
      cases h
      exact readFull_ne_eol hread
  | list => simp at h

theorem run_list {s : Stream} (hk : s.kind = some .list) (he : s.kinderr = none) :
    list.run s = .ok s.size { s with stack := ⟨0, s.size⟩ :: s.stack, kind := none, size := 0 } := by
  unfold list
  rw [run_bind_of_ok (run_kind_cached hk he)]
  simp

theorem list_eq_ok {s s' : Stream} {k : Kind} {n : Nat} (hk : s.kind = some k)
    (he : s.kinderr = none) (h : list.run s = .ok n s') :
    k = .list ∧ n = s.size ∧ s' = { s with stack := ⟨0, s.size⟩ :: s.stack, kind := none, size := 0 } := by
  unfold list at h
  rw [run_bind_of_ok (run_kind_cached hk he)] at h
  by_cases hl : k = .list
  · subst hl
    simp only [ne_eq, not_true_eq_false, if_false, EStateM.run_bind, EStateM.run_modify,
      EStateM.run_pure, EStateM.Result.ok.injEq] at h
    obtain ⟨rfl, rfl⟩ := h
    exact ⟨rfl, rfl, rfl⟩
  · simp [hl] at h

theorem run_listEnd {s : Stream} {tos : Listpos} {rest : List Listpos} (hst : s.stack = tos :: rest)
    (hpos : tos.pos = tos.size) :
    listEnd.run s = .ok () { s with stack := Stream.bump rest tos.size, kind := none, size := 0 } := by
  unfold listEnd
  cases rest <;> simp [hst, hpos, Stream.bump]

theorem listEnd_eq_ok {s s' : Stream} {u : Unit} (h : listEnd.run s = .ok u s') :
    ∃ tos rest, s.stack = tos :: rest ∧ tos.pos = tos.size ∧
      s' = { s with stack := Stream.bump rest tos.size, kind := none, size := 0 } := by
  cases hst : s.stack with
  | nil =>
    unfold listEnd at h
    simp [hst] at h
  | cons tos rest =>
    by_cases hpos : tos.pos = tos.size
    · rw [run_listEnd hst hpos] at h
      cases h
      exact ⟨tos, rest, rfl, hpos, rfl⟩
    · unfold listEnd at h
      simp [hst, hpos] at h

theorem listEnd_ne_eol {s s' : Stream} : listEnd.run s ≠ .error .eol s' := by
  intro h
  unfold listEnd at h
  cases hst : s.stack with
  | nil => simp [hst] at h
  | cons tos rest =>
    by_cases hpos : tos.pos = tos.size
    · cases rest <;> simp [hst, hpos] at h
    · simp [hst, hpos] at h

/-! ## Decoding into `interface{}` -/

/-- `decodeSliceElems`: elements until the end of the list (`EOL`). The fuel
bounds the number of elements. -/
def decodeSliceElems {α : Type} (elemdec : StreamM α) : Nat → StreamM (List α)
  | 0 => throw .outOfFuel
  | n + 1 => do
    match ← attempt elemdec with
    | .error .eol => pure []
    | .error err => throw err
    | .ok x =>
      let xs ← decodeSliceElems elemdec n
      pure (x :: xs)

/-- `decodeListSlice`: a list of elements, each read by `elemdec`. -/
def decodeListSlice {α : Type} (elemdec : StreamM α) (n : Nat) : StreamM (List α) := do
  let size ← list
  if size = 0 then
    listEnd
    pure []
  else
    let xs ← decodeSliceElems elemdec n
    listEnd
    pure xs

/-- `decodeInterface`: a list becomes `[]interface{}` of its elements, any
other value its `Bytes`. The fuel bounds the nesting depth. -/
def decodeInterface : Nat → StreamM Item
  | 0 => throw .outOfFuel
  | fuel + 1 => do
    let (k, _) ← kind
    if k = .list then
      let xs ← decodeListSlice (decodeInterface fuel) fuel
      pure (.list xs)
    else
      let b ← bytes
      pure (.str b)

/-- `DecodeBytes(b, &v)` with `v` an `interface{}`: exactly one value and no
trailing data. -/
def decodeBytes (b : List UInt8) : Except Err Item :=
  match (decodeInterface (b.length + 1)).run (reset b b.length) with
  | .ok t s => if s.r.length > 0 then .error .moreThanOneValue else .ok t
  | .error err _ => .error err

end Xdchain.Rlp.Decode
