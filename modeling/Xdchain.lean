import Xdchain.Lib.BigEndian
import Xdchain.Lib.ErrState
import Xdchain.Lib.KeyMap
import Xdchain.Rlp.Item
import Xdchain.Rlp.Encode
import Xdchain.Rlp.Decode
import Xdchain.Rlp.Canonical
import Xdchain.Rlp.Typed
import Xdchain.Rlp.Raw
import Xdchain.Rlp.Integers
import Xdchain.Istanbul.Common
import Xdchain.Istanbul.Validator
import Xdchain.Qbft.Message
import Xdchain.Qbft.MessageCodec
import Xdchain.Qbft.RoundChanges
import Xdchain.Qbft.Core
import Xdchain.Qbft.Node
import Xdchain.Qbft.Network
import Xdchain.Qbft.Acceptance
import Xdchain.Lib.Quorum
import Xdchain.Istanbul.Quorum
import Xdchain.Lib.InsertionSort
import Xdchain.Istanbul.Policy
import Xdchain.Istanbul.CommittedSeals
import Xdchain.Rawdb.FreezerTable
import Xdchain.Rawdb.Freezer
import Xdchain.Lib.Journal
import Xdchain.State.AccessList
import Xdchain.Lib.Search
import Xdchain.State.Journal
import Xdchain.State.Copy
import Xdchain.State.Congruence
import Xdchain.State.WellFormed
import Xdchain.State.Undo
import Xdchain.State.Setters
import Xdchain.State.Snapshot
import Xdchain.Multitenancy.Authorization
import Xdchain.Rpc.Security
import Xdchain.Extension.StateSetter
import Xdchain.Core.BlockChain
import Xdchain.Types.Istanbul
import Xdchain.Types.Signing
import Xdchain.Vm.Memory
import Xdchain.Vm.Gas
import Xdchain.Vm.Interpreter
import Xdchain.Vm.CallGas
import Xdchain.Vm.Analysis
import Xdchain.Vm.Modexp
import Xdchain.Vm.DualState
import Xdchain.Trie.Sync
import Xdchain.Trie.DirtyCache
import Xdchain.Mps.Repository
import Xdchain.State.Commit
import Xdchain.Lib.Lists
import Xdchain.Lib.Epoch
import Xdchain.Clique.Snapshot
import Xdchain.Clique.Voting
import Xdchain.Lib.Heap
import Xdchain.Core.TxList
import Xdchain.Core.TxPool
import Xdchain.Core.TxPoolAccounting
import Xdchain.Lib.HeapOrder
import Xdchain.Core.TxSortedMap
import Xdchain.Core.TxListRuns
import Xdchain.Lib.Bloom
import Xdchain.Snapshot.DiffLayer
import Xdchain.Snapshot.Lookup
import Xdchain.Bitutil.Compress
import Xdchain.Raft.SpeculativeChain
import Xdchain.Trie.Encoding
import Xdchain.Lib.SliceSort
import Xdchain.Core.Forkid
import Xdchain.Lib.KeyedInsert
import Xdchain.Discover.Table
import Xdchain.Lib.Potential
import Xdchain.Vm.Refund
import Xdchain.Lib.HeapInterface
import Xdchain.Common.Prque
import Xdchain.Common.PrqueRuns
import Xdchain.Params.Config
import Xdchain.Netutil.Net
import Xdchain.Discover.Buckets
import Xdchain.Lib.SortedKeys
import Xdchain.Rlp.Values
import Xdchain.Enr.Record
import Xdchain.Enr.Codec
import Xdchain.Lib.Prefix
import Xdchain.Trie.Trie
import Xdchain.Trie.Canonical
import Xdchain.Trie.Store
import Xdchain.Trie.Hasher
import Xdchain.Trie.NodeCodec
import Xdchain.Trie.Proof
import Xdchain.Trie.StackTrie
import Xdchain.Trie.StackTrieSim
import Xdchain.Core.StateTransition
import Xdchain.Core.TransitionGas
