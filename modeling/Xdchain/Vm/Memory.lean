import Mathlib

/-! # EVM memory and its sizing

`core/vm/memory.go`, `common.go`, `memory_table.go` and the memory part of
`EVMInterpreter.Run`. Before an opcode that touches memory runs, `Run` asks
the opcode's `memorySize` function for the bytes the opcode needs, rounds
them up to words, charges `memoryGasCost` for the growth inside the
opcode's dynamic gas and resizes the memory; only then does the opcode read
or write. Stack words are `Nat`s below `2 ^ 256` and every `uint64`
operation is taken modulo `2 ^ 64` where the source's can wrap. A memory
access that panics in Go (the "invalid memory" checks, a slice out of
range, an index out of range) is `none`. -/

namespace Xdchain.Vm

def maxUint64 : Nat := 2 ^ 64 - 1

def memoryGas : Nat := 3

def quadCoeffDiv : Nat := 512

/-- `(*uint256.Int).Uint64`: the low 64 bits. -/
def toUint64 (v : Nat) : Nat := v % 2 ^ 64

/-- `int64(x)` of a `uint64`. -/
def toInt64 (x : Nat) : Int := if x < 2 ^ 63 then x else (x : Int) - 2 ^ 64

/-- `stack.Back(n)`, the stack with its top first. `Run` checks `minStack`
before sizing, so every slot an opcode names is there. -/
def back (stack : List Nat) (n : Nat) : Nat := stack.getD n 0

/-- `math.SafeMul`: the low word of the product and whether it overflowed. -/
def safeMul (x y : Nat) : Nat × Bool := ((x * y) % 2 ^ 64, decide (2 ^ 64 ≤ x * y))

def calcMemSize64WithUint (off length64 : Nat) : Nat × Bool :=
  -- if length is zero, memsize is always zero, regardless of offset
  if length64 = 0 then (0, false)
  else if 2 ^ 64 ≤ off then (0, true)
  else
    let val := (off + length64) % 2 ^ 64
    (val, decide (val < off))

def calcMemSize64 (off l : Nat) : Nat × Bool :=
  if 2 ^ 64 ≤ l then (0, true) else calcMemSize64WithUint off l

/-- `toWordSize`: the words a size takes, rounded up. -/
def toWordSize (size : Nat) : Nat :=
  if size > maxUint64 - 31 then maxUint64 / 32 + 1 else (size + 31) / 32

/-- The size a range needs: its end, or nothing for an empty range. -/
def memEnd (off l : Nat) : Nat := if l = 0 then 0 else off + l

/-- `calcMemSize64WithUint` reports an overflow exactly when the range of a
64-bit length does not end below `2 ^ 64`. -/
theorem calcMemSize64WithUint_snd {off length64 : Nat} (hl : length64 < 2 ^ 64) :
    (calcMemSize64WithUint off length64).2 = decide (2 ^ 64 ≤ memEnd off length64) := by
  unfold calcMemSize64WithUint memEnd
  rw [Bool.eq_iff_iff, decide_eq_true_eq]
  split_ifs with h0 hoff
  · simp
  · simp only [true_iff]
    omega
  · simp only [decide_eq_true_eq]
    omega

/-- Without an overflow, `calcMemSize64WithUint` is the size the range needs. -/
theorem calcMemSize64WithUint_fst {off length64 : Nat} (hl : length64 < 2 ^ 64)
    (h : (calcMemSize64WithUint off length64).2 = false) :
    (calcMemSize64WithUint off length64).1 = memEnd off length64 := by
  unfold calcMemSize64WithUint memEnd at *
  split_ifs at h ⊢ with h0 hoff
  · rfl
  · dsimp only at h ⊢
    simp only [decide_eq_false_iff_not, Nat.not_lt] at h
    omega

theorem calcMemSize64_snd (off l : Nat) :
    (calcMemSize64 off l).2 = decide (2 ^ 64 ≤ memEnd off l) := by
  unfold calcMemSize64
  split_ifs with hl
  · have : memEnd off l = off + l := if_neg (by omega)
    rw [this]
    exact (decide_eq_true (by omega)).symm
  · exact calcMemSize64WithUint_snd (by omega)

theorem calcMemSize64_fst {off l : Nat} (h : (calcMemSize64 off l).2 = false) :
    (calcMemSize64 off l).1 = memEnd off l := by
  unfold calcMemSize64 at *
  split_ifs at h ⊢ with hl
  exact calcMemSize64WithUint_fst (by omega) h

/-- `toWordSize` rounds every 64-bit size up to whole words, exactly. -/
theorem toWordSize_eq {size : Nat} (h : size < 2 ^ 64) : toWordSize size = (size + 31) / 32 := by
  unfold toWordSize maxUint64
  split_ifs <;> omega

theorem safeMul_fst {x y : Nat} (h : (safeMul x y).2 = false) : (safeMul x y).1 = x * y := by
  simp only [safeMul, decide_eq_false_iff_not, Nat.not_le] at h ⊢
  exact Nat.mod_eq_of_lt h

/-! ## Memory -/

structure Memory where
  store : List UInt8
  lastGasCost : Nat
deriving DecidableEq, Repr

def newMemory : Memory := { store := [], lastGasCost := 0 }

namespace Memory

/-- The bytes of `value` copied over `store` from `offset`, as `copy` does:
no more than the destination holds. -/
def copyAt (store : List UInt8) (offset : Nat) (value : List UInt8) : List UInt8 :=
  store.take offset ++ value ++ store.drop (offset + value.length)

def set (m : Memory) (offset size : Nat) (value : List UInt8) : Option Memory :=
  if size > 0 then
    -- "invalid memory: store empty"
    if (offset + size) % 2 ^ 64 > m.store.length then none
    -- the slice `store[offset:offset+size]` of a wrapped end
    else if 2 ^ 64 ≤ offset + size then none
    else some { m with store := copyAt m.store offset (value.take size) }
  else some m

/-- The 32 big-endian bytes of a word. -/
def wordBytes (val : Nat) : List UInt8 := (List.range 32).reverse.map fun i => UInt8.ofNat (val / 2 ^ (8 * i))

def set32 (m : Memory) (offset val : Nat) : Option Memory :=
  if (offset + 32) % 2 ^ 64 > m.store.length then none
  else if 2 ^ 64 ≤ offset + 32 then none
  else some { m with store := copyAt m.store offset (wordBytes val) }

/-- The assignment `store[off] = b` of `opMstore8`. -/
def setByte (m : Memory) (off : Nat) (b : UInt8) : Option Memory :=
  if off < m.store.length then some { m with store := m.store.set off b } else none

def resize (m : Memory) (size : Nat) : Memory :=
  if m.store.length < size then { m with store := m.store ++ List.replicate (size - m.store.length) 0 } else m

/-- The slice `store[offset:offset+size]` of `GetPtr` and `GetCopy`, below
the store's length. -/
def slice (m : Memory) (offset size : Int) : Option (List UInt8) :=
  if 0 ≤ offset ∧ 0 ≤ size ∧ offset + size ≤ m.store.length then
    some ((m.store.drop offset.toNat).take size.toNat)
  else none

/-- `GetPtr`, and `GetCopy` alike: empty for a size of zero or an offset past
the end, the slice otherwise. -/
def getPtr (m : Memory) (offset size : Int) : Option (List UInt8) :=
  if size = 0 then some []
  else if m.store.length > offset then m.slice offset size
  else some []

end Memory

/-! ## The opcodes that touch memory -/

inductive MemOp where
  | sha3
  | callDataCopy
  | returnDataCopy
  | codeCopy
  | extCodeCopy
  | mload
  | mstore
  | mstore8
  | create
  | create2
  | call
  | callCode
  | delegateCall
  | staticCall
  | «return»
  | revert
  | log (n : Fin 5)
deriving DecidableEq, Repr

/-- `memoryCall`, `memoryDelegateCall` and `memoryStaticCall`: the larger of
the return range at `Back(ro)`, `Back(rl)` and the argument range at
`Back(io)`, `Back(il)`. -/
def memoryCallRanges (ro rl io il : Nat) (stack : List Nat) : Nat × Bool :=
  let (x, overflow) := calcMemSize64 (back stack ro) (back stack rl)
  if overflow then (0, true)
  else
    let (y, overflow) := calcMemSize64 (back stack io) (back stack il)
    if overflow then (0, true)
    else if x > y then (x, false) else (y, false)

def memorySha3 (stack : List Nat) : Nat × Bool := calcMemSize64 (back stack 0) (back stack 1)
def memoryCallDataCopy (stack : List Nat) : Nat × Bool := calcMemSize64 (back stack 0) (back stack 2)
def memoryReturnDataCopy (stack : List Nat) : Nat × Bool := calcMemSize64 (back stack 0) (back stack 2)
def memoryCodeCopy (stack : List Nat) : Nat × Bool := calcMemSize64 (back stack 0) (back stack 2)
def memoryExtCodeCopy (stack : List Nat) : Nat × Bool := calcMemSize64 (back stack 1) (back stack 3)
def memoryMLoad (stack : List Nat) : Nat × Bool := calcMemSize64WithUint (back stack 0) 32
def memoryMStore8 (stack : List Nat) : Nat × Bool := calcMemSize64WithUint (back stack 0) 1
def memoryMStore (stack : List Nat) : Nat × Bool := calcMemSize64WithUint (back stack 0) 32
def memoryCreate (stack : List Nat) : Nat × Bool := calcMemSize64 (back stack 1) (back stack 2)
def memoryCreate2 (stack : List Nat) : Nat × Bool := calcMemSize64 (back stack 1) (back stack 2)
def memoryCall (stack : List Nat) : Nat × Bool := memoryCallRanges 5 6 3 4 stack
def memoryDelegateCall (stack : List Nat) : Nat × Bool := memoryCallRanges 4 5 2 3 stack
def memoryStaticCall (stack : List Nat) : Nat × Bool := memoryCallRanges 4 5 2 3 stack
def memoryReturn (stack : List Nat) : Nat × Bool := calcMemSize64 (back stack 0) (back stack 1)
def memoryRevert (stack : List Nat) : Nat × Bool := calcMemSize64 (back stack 0) (back stack 1)
def memoryLog (stack : List Nat) : Nat × Bool := calcMemSize64 (back stack 0) (back stack 1)

/-- The `memorySize` entry of the jump table. -/
def MemOp.memorySize : MemOp → List Nat → Nat × Bool
  | .sha3 => memorySha3
  | .callDataCopy => memoryCallDataCopy
  | .returnDataCopy => memoryReturnDataCopy
  | .codeCopy => memoryCodeCopy
  | .extCodeCopy => memoryExtCodeCopy
  | .mload => memoryMLoad
  | .mstore => memoryMStore
  | .mstore8 => memoryMStore8
  | .create => memoryCreate
  | .create2 => memoryCreate2
  | .call => memoryCall
  | .callCode => memoryCall
  | .delegateCall => memoryDelegateCall
  | .staticCall => memoryStaticCall
  | .return => memoryReturn
  | .revert => memoryRevert
  | .log _ => memoryLog

/-- `GetPtr(int64(off.Uint64()), int64(size.Uint64()))` of the stack slots
`o` and `l`, the memory left as it is. -/
def readRange (o l : Nat) (stack : List Nat) (mem : Memory) : Option Memory :=
  (mem.getPtr (toInt64 (toUint64 (back stack o))) (toInt64 (toUint64 (back stack l)))).map fun _ => mem

/-- `Set(off.Uint64(), size.Uint64(), value)` of the stack slots `o` and `l`. -/
def writeRange (o l : Nat) (stack : List Nat) (value : List UInt8) (mem : Memory) : Option Memory :=
  mem.set (toUint64 (back stack o)) (toUint64 (back stack l)) value

/-- What the execute function of each opcode does to memory; `value` stands
for the bytes it writes (call data, return data, code, or a call's output),
which the checks do not read. A call reads its arguments and writes its
output in the memory of the caller, which the callee does not share. -/
def MemOp.execute (op : MemOp) (stack : List Nat) (value : List UInt8) (mem : Memory) : Option Memory :=
  match op with
  | .sha3 => readRange 0 1 stack mem
  | .callDataCopy => writeRange 0 2 stack value mem
  | .returnDataCopy => writeRange 0 2 stack value mem
  | .codeCopy => writeRange 0 2 stack value mem
  | .extCodeCopy => writeRange 1 3 stack value mem
  | .mload => (mem.getPtr (toInt64 (toUint64 (back stack 0))) 32).map fun _ => mem
  | .mstore => mem.set32 (toUint64 (back stack 0)) (back stack 1)
  | .mstore8 => mem.setByte (toUint64 (back stack 0)) (UInt8.ofNat (toUint64 (back stack 1)))
  | .create => readRange 1 2 stack mem
  | .create2 => readRange 1 2 stack mem
  | .call => readRange 3 4 stack mem >>= writeRange 5 6 stack value
  | .callCode => readRange 3 4 stack mem >>= writeRange 5 6 stack value
  | .delegateCall => readRange 2 3 stack mem >>= writeRange 4 5 stack value
  | .staticCall => readRange 2 3 stack mem >>= writeRange 4 5 stack value
  | .return => readRange 0 1 stack mem
  | .revert => readRange 0 1 stack mem
  | .log _ => readRange 0 1 stack mem

/-- The ranges, offset and size, that the execute function of each opcode
reads or writes. -/
def MemOp.accesses (op : MemOp) (stack : List Nat) : List (Nat × Nat) :=
  let range (o l : Nat) := (toUint64 (back stack o), toUint64 (back stack l))
  match op with
  | .sha3 => [range 0 1]
  | .callDataCopy => [range 0 2]
  | .returnDataCopy => [range 0 2]
  | .codeCopy => [range 0 2]
  | .extCodeCopy => [range 1 3]
  | .mload => [(toUint64 (back stack 0), 32)]
  | .mstore => [(toUint64 (back stack 0), 32)]
  | .mstore8 => [(toUint64 (back stack 0), 1)]
  | .create => [range 1 2]
  | .create2 => [range 1 2]
  | .call => [range 3 4, range 5 6]
  | .callCode => [range 3 4, range 5 6]
  | .delegateCall => [range 2 3, range 4 5]
  | .staticCall => [range 2 3, range 4 5]
  | .return => [range 0 1]
  | .revert => [range 0 1]
  | .log _ => [range 0 1]

/-- The ranges, offset and size as the stack holds them, that each opcode
asks memory for: what its `memorySize` function is to compute. -/
def MemOp.needs (op : MemOp) (stack : List Nat) : List (Nat × Nat) :=
  let range (o l : Nat) := (back stack o, back stack l)
  match op with
  | .sha3 => [range 0 1]
  | .callDataCopy => [range 0 2]
  | .returnDataCopy => [range 0 2]
  | .codeCopy => [range 0 2]
  | .extCodeCopy => [range 1 3]
  | .mload => [(back stack 0, 32)]
  | .mstore => [(back stack 0, 32)]
  | .mstore8 => [(back stack 0, 1)]
  | .create => [range 1 2]
  | .create2 => [range 1 2]
  | .call => [range 3 4, range 5 6]
  | .callCode => [range 3 4, range 5 6]
  | .delegateCall => [range 2 3, range 4 5]
  | .staticCall => [range 2 3, range 4 5]
  | .return => [range 0 1]
  | .revert => [range 0 1]
  | .log _ => [range 0 1]

/-- The memory size an opcode needs, in exact arithmetic: the furthest end of
its ranges. -/
def MemOp.requiredSize (op : MemOp) (stack : List Nat) : Nat :=
  ((op.needs stack).map fun r => memEnd r.1 r.2).foldr max 0

/-! ## Memory gas -/

inductive VmError where
  | gasUintOverflow
  | outOfGas
deriving DecidableEq, Repr

/-- The total fee of a memory of `words` words. -/
def memoryFee (words : Nat) : Nat := words * memoryGas + words * words / quadCoeffDiv

/-- `memoryGasCost`: the fee of growing the memory to `newMemSize`, with the
memory's `lastGasCost` updated. -/
def memoryGasCost (mem : Memory) (newMemSize : Nat) : Except VmError (Nat × Memory) :=
  if newMemSize = 0 then .ok (0, mem)
  -- the highest size whose fee fits in 64 bits
  else if newMemSize > 0x1FFFFFFFE0 then .error .gasUintOverflow
  else
    let newMemSizeWords := toWordSize newMemSize
    let newMemSize := newMemSizeWords * 32 % 2 ^ 64
    if newMemSize > mem.store.length then
      let square := newMemSizeWords * newMemSizeWords % 2 ^ 64
      let linCoef := newMemSizeWords * memoryGas % 2 ^ 64
      let quadCoef := square / quadCoeffDiv
      let newTotalFee := (linCoef + quadCoef) % 2 ^ 64
      let fee := (newTotalFee + (2 ^ 64 - mem.lastGasCost)) % 2 ^ 64
      .ok (fee, { mem with lastGasCost := newTotalFee })
    else .ok (0, mem)

/-! ## Every range an opcode touches is inside the resized memory -/

theorem toUint64_of_lt {v : Nat} (h : v < 2 ^ 64) : toUint64 v = v := Nat.mod_eq_of_lt h

theorem toUint64_lt (v : Nat) : toUint64 v < 2 ^ 64 := Nat.mod_lt _ (by decide)

theorem toInt64_of_lt {x : Nat} (h : x < 2 ^ 63) : toInt64 x = x := if_pos h

/-- A range `calcMemSize64` sizes without an overflow lies below the size. -/
theorem range_le_calcMemSize64 {off l : Nat} (h : (calcMemSize64 off l).2 = false) (hl : toUint64 l ≠ 0) :
    toUint64 off + toUint64 l ≤ (calcMemSize64 off l).1 := by
  have hend : ¬ 2 ^ 64 ≤ memEnd off l := by
    have := calcMemSize64_snd off l
    rw [h] at this
    exact of_decide_eq_false this.symm
  rw [calcMemSize64_fst h]
  unfold memEnd at hend ⊢
  split_ifs at hend ⊢ with h0
  · simp [h0, toUint64] at hl
  · apply Nat.le_of_eq
    rw [toUint64_of_lt (by omega), toUint64_of_lt (by omega)]

theorem range_le_calcMemSize64WithUint {off c : Nat} (hc : c < 2 ^ 64) (hc0 : c ≠ 0)
    (h : (calcMemSize64WithUint off c).2 = false) : toUint64 off + c ≤ (calcMemSize64WithUint off c).1 := by
  have hend : ¬ 2 ^ 64 ≤ memEnd off c := by
    have := @calcMemSize64WithUint_snd off c hc
    rw [h] at this
    exact of_decide_eq_false this.symm
  rw [calcMemSize64WithUint_fst hc h]
  unfold memEnd at hend ⊢
  rw [if_neg hc0] at hend ⊢
  apply Nat.le_of_eq
  rw [toUint64_of_lt (by omega)]

/-- Both ranges a call sizes lie below its size. -/
theorem range_le_memoryCallRanges {ro rl io il : Nat} {stack : List Nat}
    (h : (memoryCallRanges ro rl io il stack).2 = false) :
    (toUint64 (back stack rl) ≠ 0 →
      toUint64 (back stack ro) + toUint64 (back stack rl) ≤ (memoryCallRanges ro rl io il stack).1) ∧
    (toUint64 (back stack il) ≠ 0 →
      toUint64 (back stack io) + toUint64 (back stack il) ≤ (memoryCallRanges ro rl io il stack).1) := by
  unfold memoryCallRanges at *
  have hrx := @range_le_calcMemSize64 (back stack ro) (back stack rl)
  have hry := @range_le_calcMemSize64 (back stack io) (back stack il)
  generalize calcMemSize64 (back stack ro) (back stack rl) = px at hrx h ⊢
  generalize calcMemSize64 (back stack io) (back stack il) = py at hry h ⊢
  obtain ⟨x, ox⟩ := px
  obtain ⟨y, oy⟩ := py
  cases ox
  · cases oy
    · simp only [Bool.false_eq_true, ↓reduceIte] at h ⊢
      have hx := hrx rfl
      have hy := hry rfl
      split_ifs with hxy
      · exact ⟨hx, fun hl => Nat.le_trans (hy hl) (by omega)⟩
      · exact ⟨fun hl => Nat.le_trans (hx hl) (by omega), hy⟩
    · simp at h
  · simp at h

/-- The `memorySize` function of every opcode covers the ranges its execute
function touches: it reads the same stack slots. -/
theorem memorySize_covers {op : MemOp} {stack : List Nat} (h : (op.memorySize stack).2 = false) :
    ∀ acc ∈ op.accesses stack, acc.2 ≠ 0 → acc.1 + acc.2 ≤ (op.memorySize stack).1 := by
  cases op <;>
    simp only [MemOp.memorySize, MemOp.accesses, memorySha3, memoryCallDataCopy, memoryReturnDataCopy,
      memoryCodeCopy, memoryExtCodeCopy, memoryMLoad, memoryMStore, memoryMStore8, memoryCreate, memoryCreate2,
      memoryCall, memoryDelegateCall, memoryStaticCall, memoryReturn, memoryRevert, memoryLog,
      List.mem_cons, List.mem_nil_iff, or_false, forall_eq_or_imp, forall_eq] at h ⊢
  all_goals first
    | exact fun hl => range_le_calcMemSize64 h hl
    | exact fun _ => range_le_calcMemSize64WithUint (by decide) (by decide) h
    | exact ⟨(range_le_memoryCallRanges h).2, (range_le_memoryCallRanges h).1⟩

namespace Memory

theorem set_isSome {m : Memory} {offset size : Nat} (value : List UInt8)
    (h : size ≠ 0 → offset + size ≤ m.store.length ∧ offset + size < 2 ^ 64) : (m.set offset size value).isSome := by
  unfold set
  split_ifs with hs h1 h2
  · have := h (by omega)
    rw [Nat.mod_eq_of_lt this.2] at h1
    omega
  · have := h (by omega)
    omega
  all_goals rfl

theorem set32_isSome {m : Memory} {offset : Nat} (val : Nat)
    (h : offset + 32 ≤ m.store.length ∧ offset + 32 < 2 ^ 64) : (m.set32 offset val).isSome := by
  unfold set32
  split_ifs with h1 h2
  · rw [Nat.mod_eq_of_lt h.2] at h1
    omega
  · omega
  · rfl

theorem setByte_isSome {m : Memory} {off : Nat} (b : UInt8) (h : off + 1 ≤ m.store.length) :
    (m.setByte off b).isSome := by
  unfold setByte
  rw [if_pos (by omega)]
  rfl

/-- A read of a range inside the memory, with an offset and a size that
`int64` keeps as they are, does not panic. -/
theorem getPtr_isSome {m : Memory} {offset size : Nat} (ho : offset < 2 ^ 64) (hs : size < 2 ^ 64)
    (h : size ≠ 0 → offset + size ≤ m.store.length ∧ offset + size < 2 ^ 63) :
    (m.getPtr (toInt64 offset) (toInt64 size)).isSome := by
  by_cases h0 : size = 0
  · subst h0
    rfl
  · obtain ⟨hin, h63⟩ := h h0
    rw [toInt64_of_lt (by omega), toInt64_of_lt (by omega)]
    unfold getPtr slice
    rw [if_neg (by omega)]
    split_ifs <;> first | rfl | omega

theorem length_resize (m : Memory) (size : Nat) : size ≤ (m.resize size).store.length := by
  unfold resize
  split_ifs with h
  · simp only [List.length_append, List.length_replicate]
    omega
  · omega

theorem resize_of_le {m : Memory} {size : Nat} (h : size ≤ m.store.length) : m.resize size = m := by
  unfold resize
  rw [if_neg (by omega)]

theorem length_resize_of_lt {m : Memory} {size : Nat} (h : m.store.length < size) :
    (m.resize size).store.length = size := by
  unfold resize
  rw [if_pos h]
  simp only [List.length_append, List.length_replicate]
  omega

@[simp] theorem lastGasCost_resize (m : Memory) (size : Nat) : (m.resize size).lastGasCost = m.lastGasCost := by
  unfold resize
  split_ifs <;> rfl

/-! ### The writes keep the memory's length -/

theorem length_copyAt {store : List UInt8} {offset : Nat} {value : List UInt8}
    (h : offset + value.length ≤ store.length) : (copyAt store offset value).length = store.length := by
  simp only [copyAt, List.length_append, List.length_take, List.length_drop]
  omega

theorem length_wordBytes (val : Nat) : (wordBytes val).length = 32 := by
  simp [wordBytes]

/-- The memory after a write has the length and the recorded fee of the one before. -/
def Frame (m m' : Memory) : Prop := m'.store.length = m.store.length ∧ m'.lastGasCost = m.lastGasCost

theorem frame_of_set {m m' : Memory} {offset size : Nat} {value : List UInt8}
    (h : m.set offset size value = some m') : Frame m m' := by
  unfold set at h
  split_ifs at h with hs h1 h2
  · cases h
    have := List.length_take_le size value
    rw [Nat.mod_eq_of_lt (by omega)] at h1
    exact ⟨length_copyAt (by omega), rfl⟩
  · cases h
    exact ⟨rfl, rfl⟩

theorem frame_of_set32 {m m' : Memory} {offset val : Nat} (h : m.set32 offset val = some m') : Frame m m' := by
  unfold set32 at h
  split_ifs at h with h1 h2
  cases h
  rw [Nat.mod_eq_of_lt (by omega)] at h1
  exact ⟨length_copyAt (by rw [length_wordBytes]; omega), rfl⟩

theorem frame_of_setByte {m m' : Memory} {off : Nat} {b : UInt8} (h : m.setByte off b = some m') : Frame m m' := by
  unfold setByte at h
  split_ifs at h
  cases h
  exact ⟨List.length_set, rfl⟩

end Memory

theorem eq_of_readRange {o l : Nat} {stack : List Nat} {mem mem' : Memory} (h : readRange o l stack mem = some mem') :
    mem' = mem := by
  unfold readRange at h
  obtain ⟨_, -, rfl⟩ := Option.map_eq_some_iff.1 h
  rfl

/-- No execute function changes the memory's length or its recorded fee. -/
theorem frame_of_execute {op : MemOp} {stack : List Nat} {value : List UInt8} {mem mem' : Memory}
    (h : op.execute stack value mem = some mem') : Memory.Frame mem mem' := by
  have hread : ∀ {o l}, readRange o l stack mem = some mem' → Memory.Frame mem mem' := fun h => by
    rw [eq_of_readRange h]
    exact ⟨rfl, rfl⟩
  have hcall : ∀ {o l o' l'}, (readRange o l stack mem >>= writeRange o' l' stack value) = some mem' →
      Memory.Frame mem mem' := fun h => by
    obtain ⟨m, hm, hw⟩ := Option.bind_eq_some_iff.1 h
    rw [eq_of_readRange hm] at hw
    exact Memory.frame_of_set hw
  cases op <;> simp only [MemOp.execute] at h
  case mload =>
    obtain ⟨_, -, rfl⟩ := Option.map_eq_some_iff.1 h
    exact ⟨rfl, rfl⟩
  case mstore => exact Memory.frame_of_set32 h
  case mstore8 => exact Memory.frame_of_setByte h
  case call | callCode | delegateCall | staticCall => exact hcall h
  case callDataCopy | returnDataCopy | codeCopy | extCodeCopy => exact Memory.frame_of_set h
  all_goals exact hread h

/-- Each opcode's execute function runs without a panic on a memory that holds
every range it touches, when those ranges end below `2 ^ 63`. -/
theorem execute_isSome {op : MemOp} {stack : List Nat} (value : List UInt8) {mem : Memory}
    (h : ∀ acc ∈ op.accesses stack, acc.2 ≠ 0 → acc.1 + acc.2 ≤ mem.store.length ∧ acc.1 + acc.2 < 2 ^ 63) :
    (op.execute stack value mem).isSome := by
  have hread : ∀ o l, (toUint64 (back stack l) ≠ 0 →
      toUint64 (back stack o) + toUint64 (back stack l) ≤ mem.store.length ∧
        toUint64 (back stack o) + toUint64 (back stack l) < 2 ^ 63) →
      readRange o l stack mem = some mem := by
    intro o l hol
    have := Memory.getPtr_isSome (toUint64_lt (back stack o)) (toUint64_lt (back stack l)) hol
    unfold readRange
    cases hp : mem.getPtr (toInt64 (toUint64 (back stack o))) (toInt64 (toUint64 (back stack l))) with
    | none => rw [hp] at this; cases this
    | some _ => rfl
  have hwrite : ∀ o l, (toUint64 (back stack l) ≠ 0 →
      toUint64 (back stack o) + toUint64 (back stack l) ≤ mem.store.length ∧
        toUint64 (back stack o) + toUint64 (back stack l) < 2 ^ 63) →
      (writeRange o l stack value mem).isSome := fun o l hol =>
    Memory.set_isSome value fun h0 => ⟨(hol h0).1, by have := (hol h0).2; omega⟩
  cases op <;>
    simp only [MemOp.accesses, List.mem_cons, List.mem_nil_iff, or_false, forall_eq_or_imp, forall_eq] at h <;>
    simp only [MemOp.execute]
  case mload =>
    have := Memory.getPtr_isSome (m := mem) (toUint64_lt (back stack 0)) (show 32 < 2 ^ 64 by decide)
      fun _ => h (by decide)
    rw [toInt64_of_lt (show 32 < 2 ^ 63 by decide)] at this
    rwa [Option.isSome_map]
  case mstore => exact Memory.set32_isSome _ ⟨(h (by decide)).1, by have := (h (by decide)).2; omega⟩
  case mstore8 => exact Memory.setByte_isSome _ (h (by decide)).1
  case call | callCode | delegateCall | staticCall =>
    rw [hread _ _ h.1, Option.bind_eq_bind, Option.bind_some]
    exact hwrite _ _ h.2
  case callDataCopy | returnDataCopy | codeCopy | extCodeCopy => exact hwrite _ _ h
  all_goals rw [hread _ _ h]; rfl

theorem calcMemSize64WithUint_fst_lt (off length64 : Nat) : (calcMemSize64WithUint off length64).1 < 2 ^ 64 := by
  unfold calcMemSize64WithUint
  split_ifs
  · decide
  · decide
  · exact Nat.mod_lt _ (by decide)

theorem calcMemSize64_fst_lt (off l : Nat) : (calcMemSize64 off l).1 < 2 ^ 64 := by
  unfold calcMemSize64
  split_ifs
  · decide
  · exact calcMemSize64WithUint_fst_lt off l

/-- Every `memorySize` function returns a 64-bit size. -/
theorem memorySize_fst_lt (op : MemOp) (stack : List Nat) : (op.memorySize stack).1 < 2 ^ 64 := by
  have hcall : ∀ ro rl io il, (memoryCallRanges ro rl io il stack).1 < 2 ^ 64 := by
    intro ro rl io il
    have hx := calcMemSize64_fst_lt (back stack ro) (back stack rl)
    have hy := calcMemSize64_fst_lt (back stack io) (back stack il)
    unfold memoryCallRanges
    generalize calcMemSize64 (back stack ro) (back stack rl) = px at hx ⊢
    generalize calcMemSize64 (back stack io) (back stack il) = py at hy ⊢
    obtain ⟨x, ox⟩ := px
    obtain ⟨y, oy⟩ := py
    dsimp only at hx hy ⊢
    split_ifs <;> first | decide | assumption
  cases op <;>
    simp only [MemOp.memorySize, memorySha3, memoryCallDataCopy, memoryReturnDataCopy, memoryCodeCopy,
      memoryExtCodeCopy, memoryMLoad, memoryMStore, memoryMStore8, memoryCreate, memoryCreate2, memoryCall,
      memoryDelegateCall, memoryStaticCall, memoryReturn, memoryRevert, memoryLog] <;>
    first
      | exact calcMemSize64_fst_lt _ _
      | exact calcMemSize64WithUint_fst_lt _ _
      | exact hcall _ _ _ _

/-- `memoryGasCost` succeeds only for a size whose fee fits in 64 bits. -/
theorem le_of_memoryGasCost {mem : Memory} {n : Nat} {p : Nat × Memory} (h : memoryGasCost mem n = .ok p) :
    n ≤ 0x1FFFFFFFE0 := by
  by_contra hn
  rw [memoryGasCost, if_neg (by omega), if_pos (by omega)] at h
  cases h

/-- `memoryGasCost` changes the price paid so far, not the memory's bytes. -/
theorem store_of_memoryGasCost {mem mem' : Memory} {n cost : Nat} (h : memoryGasCost mem n = .ok (cost, mem')) :
    mem'.store = mem.store := by
  unfold memoryGasCost at h
  dsimp only at h
  split_ifs at h <;> cases h <;> rfl

/-! ## Every size is exact or reports an overflow -/

/-- A `(size, overflow)` pair of the sizing functions is exact for `n`: it
reports an overflow exactly when `n` does not fit in 64 bits, and is `n`
otherwise. -/
def SizesExactly (p : Nat × Bool) (n : Nat) : Prop := p.2 = decide (2 ^ 64 ≤ n) ∧ (p.2 = false → p.1 = n)

theorem calcMemSize64_sizesExactly (off l : Nat) : SizesExactly (calcMemSize64 off l) (memEnd off l) :=
  ⟨calcMemSize64_snd off l, calcMemSize64_fst⟩

theorem calcMemSize64WithUint_sizesExactly {off c : Nat} (hc : c < 2 ^ 64) :
    SizesExactly (calcMemSize64WithUint off c) (memEnd off c) :=
  ⟨calcMemSize64WithUint_snd hc, calcMemSize64WithUint_fst hc⟩

/-- The larger of two exact sizes is exact, and an overflow of either is one
of the larger. -/
theorem memoryCallRanges_sizesExactly (ro rl io il : Nat) (stack : List Nat) :
    SizesExactly (memoryCallRanges ro rl io il stack)
      (max (memEnd (back stack ro) (back stack rl)) (memEnd (back stack io) (back stack il))) := by
  have hx := calcMemSize64_sizesExactly (back stack ro) (back stack rl)
  have hy := calcMemSize64_sizesExactly (back stack io) (back stack il)
  unfold memoryCallRanges
  generalize calcMemSize64 (back stack ro) (back stack rl) = px at hx ⊢
  generalize calcMemSize64 (back stack io) (back stack il) = py at hy ⊢
  generalize memEnd (back stack ro) (back stack rl) = ex at hx ⊢
  generalize memEnd (back stack io) (back stack il) = ey at hy ⊢
  obtain ⟨x, ox⟩ := px
  obtain ⟨y, oy⟩ := py
  obtain ⟨hxo, hxv⟩ := hx
  obtain ⟨hyo, hyv⟩ := hy
  dsimp only at hxo hxv hyo hyv
  cases ox
  case true =>
    have : 2 ^ 64 ≤ ex := of_decide_eq_true hxo.symm
    exact ⟨(decide_eq_true (by omega)).symm, nofun⟩
  cases oy
  case true =>
    have : 2 ^ 64 ≤ ey := of_decide_eq_true hyo.symm
    exact ⟨(decide_eq_true (by omega)).symm, nofun⟩
  have hex : ¬ 2 ^ 64 ≤ ex := of_decide_eq_false hxo.symm
  have hey : ¬ 2 ^ 64 ≤ ey := of_decide_eq_false hyo.symm
  have := hxv rfl
  have := hyv rfl
  simp only [Bool.false_eq_true, ↓reduceIte]
  split_ifs <;> exact ⟨(decide_eq_false (by omega)).symm, fun _ => by omega⟩

/-- **Every `memorySize` function is exact.** It reports an overflow exactly
when the memory the opcode needs does not fit in 64 bits, and returns that
size otherwise. -/
theorem memorySize_sizesExactly (op : MemOp) (stack : List Nat) :
    SizesExactly (op.memorySize stack) (op.requiredSize stack) := by
  cases op <;>
    simp only [MemOp.memorySize, MemOp.requiredSize, MemOp.needs, List.map, List.foldr, Nat.max_zero,
      memorySha3, memoryCallDataCopy, memoryReturnDataCopy, memoryCodeCopy, memoryExtCodeCopy, memoryMLoad,
      memoryMStore, memoryMStore8, memoryCreate, memoryCreate2, memoryCall, memoryDelegateCall,
      memoryStaticCall, memoryReturn, memoryRevert, memoryLog]
  all_goals first
    | exact calcMemSize64_sizesExactly _ _
    | exact calcMemSize64WithUint_sizesExactly (by decide)
    | (rw [Nat.max_comm]; exact memoryCallRanges_sizesExactly _ _ _ _ _)

theorem safeMul_sizesExactly (x y : Nat) : SizesExactly (safeMul x y) (x * y) := ⟨rfl, safeMul_fst⟩

/-- The ranges the execute functions touch are those the opcodes ask for, in
`uint64`. -/
theorem accesses_eq_map_needs (op : MemOp) (stack : List Nat) :
    op.accesses stack = (op.needs stack).map fun r => (toUint64 r.1, toUint64 r.2) := by
  cases op <;> rfl

end Xdchain.Vm
