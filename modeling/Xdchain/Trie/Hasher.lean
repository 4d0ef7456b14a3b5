import Xdchain.Trie.Trie
import Xdchain.Rlp.Item

/-! # Hashing a trie

`trie/hasher.go`. Hashing collapses a node bottom-up: a short node's key is
put in compact form and a full node's empty slots become `nilValueNode`;
each child short or full node is replaced by what `hash(child, false)`
returns, its own collapsed form when that encodes to fewer than 32 bytes
(the parent embeds it) and otherwise the hash of the encoding. The root is
hashed whatever its size (`force`). The cached hashes in the node flags are
left out: hashing is taken as computed afresh, which is what a cache that
is kept consistent returns. -/

namespace Xdchain.Trie.Patricia

open Xdchain.Rlp Xdchain.Trie.Encoding

set_option linter.dupNamespace false

section Hasher

variable (keccak : List UInt8 → Vector UInt8 32)

/-- emptyRoot: the root hash of the empty trie. -/
def emptyRoot : Vector UInt8 32 :=
  ⟨#[0x56, 0xe8, 0x1f, 0x17, 0x1b, 0xcc, 0x55, 0xa6, 0xff, 0x83, 0x45, 0xe6, 0x92, 0xc0, 0xf8, 0x6e,
    0x5b, 0x48, 0xe0, 0x1b, 0x99, 0x6c, 0xad, 0xc0, 0x01, 0x62, 0x2f, 0xb5, 0xe3, 0x63, 0xb4, 0x21], rfl⟩

/-- What `shortnodeToHash` and `fullnodeToHash` return for a collapsed node
that encodes as `e`, unforced: the node itself below 32 bytes, else the hash
node of its encoding. -/
def ref (e : Item) : Item := if e.enc.length < 32 then e else .str (keccak e.enc).toList

/-- How a child stands in its collapsed parent, given the child's own
collapsed form: short and full nodes through `hash(child, false)`, values
(and hash nodes) left as they were. -/
def childItem : Node → Item → Item
  | .short _ _, e => ref keccak e
  | .full _, e => ref keccak e
  | _, e => e

/-- The item `rlp.Encode` writes for a collapsed node: a short node as its
compact key and its child, a full node as its seventeen children. The
sixteen nibble slots are collapsed, the value slot is written as it is; an
empty slot is `nilValueNode`, the empty string, and the nil child of a short
node (never built) is the nil interface, written as the empty list. -/
def encodeNode : Node → Item
  | .short k val =>
    .list [.str (Encoding.hexToCompact k), if val.isNil then .list [] else childItem keccak val (encodeNode val)]
  | .full cs =>
    .list (List.ofFn fun i => if i.val < 16 then childItem keccak (cs i) (encodeNode (cs i))
      else encodeNode (cs i))
  | .value v => .str v
  | .nil => .str []

theorem encodeNode_leaf (k v : List UInt8) :
    encodeNode keccak (.short k (.value v)) = .list [.str (Encoding.hexToCompact k), .str v] := rfl

theorem encodeNode_ext (k : List UInt8) (cs : Fin 17 → Node) :
    encodeNode keccak (.short k (.full cs)) =
      .list [.str (Encoding.hexToCompact k), ref keccak (encodeNode keccak (.full cs))] := rfl

/-- hashRoot, as `Hash` reads it: the empty root for no root, the hash of
the collapsed root forced even when short. A lone value at the root hashes
to itself, and the type assertion of `Hash` panics on it. -/
def hashRoot : Node → Option (Vector UInt8 32)
  | .nil => some emptyRoot
  | .value _ => none
  | n => some (keccak (encodeNode keccak n).enc)

def Trie.Hash (t : Trie) : Option (Vector UInt8 32) := hashRoot keccak t.root

end Hasher

end Xdchain.Trie.Patricia
