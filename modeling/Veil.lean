import Veil.Lib.TransitionSystem
import Veil.Codec.Decoder
import Veil.Serialize
import Veil.Primitives.Transaction
import Veil.Primitives.TransactionCodec
import Veil.Chainparams
import Veil.Pow
import Veil.Budget
import Veil.Miner
import Veil.Zerocoin.Accumulators
import Veil.Validation.Coinbase
import Veil.Dandelion.Inventory
import Veil.Dandelion.Relay
import Veil.Dandelion.Privacy
import Veil.RingCT.KeyImages
import Veil.Zerocoin.Spend
import Veil.Validation.BlockValue
import Veil.ProofOfStake.Kernel
import Veil.Codec.Base58
import Veil.Codec.Bech32
import Veil.RingCT.Stealth
import Veil.KeyIO
import Veil.Codec.VarInt
import Veil.Pow.Compact
import Veil.ExtKey
import Veil.Lib.MerkleTree
import Veil.Consensus.Merkle
import Veil.TxMemPool.KeyImages
import Veil.Lib.ByteBits
import Veil.Mnemonic
import Veil.Lib.UpdateFold
import Veil.RingCT.Index
import Veil.Lib.Digits
import Veil.Chain.Ancestor
import Veil.Coins.Coin
import Veil.Lib.Commitment
import Veil.Zerocoin.Mint
import Veil.Lib.Worklist
import Veil.TxMemPool.Packages
import Veil.TxMemPool.PackageInvariant
import Veil.Lib.KeyedBatch
import Veil.Coins.ViewCache
import Veil.Coins.CacheLevels
import Veil.Coins.CacheRefinement
import Veil.Lib.UndoLog
import Veil.Coins.Undo
import Veil.Consensus.TxVerify
import Veil.Validation.ConnectBlock
import Veil.Script.Script
import Veil.RingCT.RangeProof
import Veil.Validation.CheckBlock
