import Veil.Validation.ConnectBlock
import Veil.Validation.BlockValue
import Veil.Script.Script
import Veil.Consensus.Merkle
import Veil.Pow

/-!
# The checks of a block before it is connected (`CheckBlock`, `ContextualCheckBlock`)

`CheckBlock` checks what does not depend on the chain: the header's proof of work, the merkle root
over the txids and its malleability, the size, that the coinbase comes first and nowhere else,
`CheckTransaction` of every transaction and the legacy sigop count.  `ContextualCheckBlock` checks
the block against its parent: the bits, the finality of each transaction at the block's height and
its parent's median time past, that no zerocoin serial of the block is in the chain, the coinbase's
outputs of a proof-of-stake block, the budget, that the coinbase's script starts with the height
(BIP34), the witness merkle root and the weight.  The hash functions, the block signature and what
the checks read of the chain (`GetNextWorkRequired`, `CheckConsecutivePoW`, the spent serials) are
parameters.

Main results:

    CheckBlock accepts exactly where each of its checks passes      (checkBlock_eq_ok)
    the script sig CreateNewBlock writes passes the BIP34 rule      (checkCoinbaseHeight_coinbaseScriptSig)
    mainnet, height 2: a proof-of-work block whose coinbase pays 1000 VEIL next to a CT output
      passes CheckBlock, ContextualCheckBlock and the money checks of ConnectBlock, where the
      limit is 50 VEIL                                              (blindedCoinbase_exceeds_limit)
-/

namespace Veil

open Consensus Coins BudgetParams

/-- `uint256()`, the zero hash of an empty merkle tree. -/
instance : Zero Uint256 := ⟨Uint256.zero⟩

/-- `MAX_BLOCK_SIGOPS_COST`. -/
def MAX_BLOCK_SIGOPS_COST : Nat := 160000

/-- `LOCKTIME_THRESHOLD`: below it `nLockTime` is a height, from it on a time. -/
def LOCKTIME_THRESHOLD : UInt32 := 500000000

/-- `CBlock`: the fields of `CBlockHeader`, the transactions, and the fields `GetBlockHeader`
hashes into `hashVeilData`.  `fProofOfStake` is the header's byte; whether the block is one of
proof of stake is read from its transactions. -/
structure CBlock where
  nVersion : Int32
  hashPrevBlock : Uint256
  hashVeilData : Uint256
  nTime : UInt32
  nBits : UInt32
  nNonce : UInt32
  fProofOfStake : UInt8
  fProofOfFullNode : UInt8
  vtx : List CTransaction
  mapAccumulatorHashes : List (Int64 × Uint256)
  hashMerkleRoot : Uint256
  hashWitnessMerkleRoot : Uint256
  hashPoFN : Uint256
  vchBlockSig : List UInt8

namespace CBlock

/-- `CBlock::IsProofOfStake`: the second transaction is a coinstake. -/
def isProofOfStake (b : CBlock) : Bool :=
  match b.vtx with
  | _ :: tx :: _ => tx.isCoinStake
  | _ => false

/-- `CBlock::IsProofOfWork`. -/
def isProofOfWork (b : CBlock) : Bool := !b.isProofOfStake

/-- `CBlockHeader::SerializationOp` outside `SER_GETHASH`. -/
def serializeHeader (b : CBlock) : List UInt8 :=
  serWriteData32 b.nVersion.toUInt32 ++ serBlob b.hashPrevBlock ++ serBlob b.hashVeilData ++
    serWriteData32 b.nTime ++ serWriteData32 b.nBits ++ serWriteData32 b.nNonce ++
    [b.fProofOfStake, b.fProofOfFullNode]

/-- `CBlock::SerializationOp`: the header, the transactions, the accumulator hashes by
denomination (`ser_writedata64` of the denomination), the two roots, and for a proof-of-stake
block the proof-of-full-node hash and the signature. -/
def serialize (b : CBlock) : List UInt8 :=
  b.serializeHeader ++ serVector serializeTransaction b.vtx ++
    serVector (fun e => serInt64 e.1 ++ serBlob e.2) b.mapAccumulatorHashes ++
    serBlob b.hashMerkleRoot ++ serBlob b.hashWitnessMerkleRoot ++
    (if b.isProofOfStake then serBlob b.hashPoFN ++ serBytes b.vchBlockSig else [])

/-- The hashes take 32 bytes each, so the size of a block is that of its variable parts. -/
theorem length_serialize (b : CBlock) :
    b.serialize.length = 82 + (serVector serializeTransaction b.vtx).length +
      (serVector (fun e => serInt64 e.1 ++ serBlob e.2) b.mapAccumulatorHashes).length + 64 +
      (if b.isProofOfStake then 32 + (serBytes b.vchBlockSig).length else 0) := by
  have hblob : ∀ h : Uint256, (serBlob h).length = 32 := fun h => h.toList_length
  have hhdr : b.serializeHeader.length = 18 + 64 := by
    simp [serializeHeader, hblob, serWriteData32]
  simp only [serialize, List.length_append, hhdr, hblob]
  split
  · simp only [List.length_append, hblob]
  · simp only [List.length_nil]

end CBlock

/-- `GetLegacySigOpCount`: the count of `GetSigOpCount(false)` over the scripts of the outputs that
have one. -/
def getLegacySigOpCount (tx : CTransaction) : Nat :=
  ((tx.vpout.filterMap CTxOutBase.getPScriptPubKey).map (getSigOpCount · false)).sum

/-- `UintToArith256`: the hash's bytes as a little-endian number. -/
def uintToArith256 (h : Uint256) : Nat := Nat.ofDigits 256 (h.toList.map UInt8.toNat)

/-- `CheckProofOfWork`: the target of `nBits` in range, and the hash below it. -/
def checkProofOfWork (hash : Uint256) (nBits : UInt32) (params : ConsensusParams) : Bool :=
  let (bnTarget, fNegative, fOverflow) := setCompact nBits
  if fNegative || decide (bnTarget = 0) || fOverflow || decide (bnTarget.toNat > params.powLimit) then
    false
  else decide (uintToArith256 hash < bnTarget.toNat)

/-- A check that passes where `c` holds and rejects the block with `reason` where it does not. -/
def require (c : Bool) (reason : String) : Except TxValidationError Unit :=
  if c then .ok () else .error (.reject reason)

@[simp] theorem require_eq_ok {c : Bool} {reason : String} : require c reason = .ok () ↔ c = true := by
  cases c <;> simp [require]

/-- A check, then the rest: both pass. -/
theorem Except.bind_unit_eq_ok {ε β : Type} {x : Except ε Unit} {k : Unit → Except ε β} {b : β} :
    x >>= k = .ok b ↔ x = .ok () ∧ k () = .ok b := by
  rw [Except.bind_eq_ok]
  exact ⟨fun ⟨⟨⟩, h₁, h₂⟩ => ⟨h₁, h₂⟩, fun ⟨h₁, h₂⟩ => ⟨(), h₁, h₂⟩⟩

/-- A check of every element in turn passes where each passes. -/
theorem Except.forM_eq_ok {ε α : Type} {f : α → Except ε Unit} :
    ∀ {l : List α}, l.forM f = .ok () ↔ ∀ a ∈ l, f a = .ok ()
  | [] => by simp [pure, Except.pure]
  | a :: l => by
    show (f a >>= fun _ => l.forM f) = .ok () ↔ _
    rw [Except.bind_unit_eq_ok, List.forall_mem_cons, Except.forM_eq_ok]

/-! ## `CheckBlock` -/

section CheckBlock

variable (C : TxVerifyContext) (getPoWHash : CBlock → Uint256) (validateBlockSignature : CBlock → Bool)
  (getHash : CTransaction → Uint256) (H : Uint256 → Uint256 → Uint256)

/-- `CheckBlockHeader`. -/
def checkBlockHeader (params : ConsensusParams) (fCheckPOW fCheckProofOfFullNode : Bool)
    (b : CBlock) : Except TxValidationError Unit :=
  if fCheckPOW && fCheckProofOfFullNode then .error (.reject "PoW and PoFN conflict")
  else if fCheckPOW && !checkProofOfWork (getPoWHash b) b.nBits params then
    .error (.reject "high-hash")
  else .ok ()

/-- The merkle check of `CheckBlock`: the root over the txids, and no mutation (CVE-2012-2459). -/
def checkMerkleRoot (b : CBlock) : Except TxValidationError Unit :=
  let (hashMerkleRoot2, mutated) := blockMerkleRoot getHash H b.vtx
  if b.hashMerkleRoot ≠ hashMerkleRoot2 then .error (.reject "bad-txnmrklroot")
  else if mutated then .error (.reject "bad-txns-duplicate")
  else .ok ()

/-- The size limits of `CheckBlock` ("bad-blk-length"). -/
def checkBlockLength (b : CBlock) : Bool :=
  !(b.vtx.isEmpty || decide (b.vtx.length * WITNESS_SCALE_FACTOR > MAX_BLOCK_WEIGHT) ||
    decide (b.serialize.length * WITNESS_SCALE_FACTOR > MAX_BLOCK_WEIGHT))

/-- "First transaction must be coinbase, the rest must not be". -/
def checkCoinbasePosition : List CTransaction → Except TxValidationError Unit
  | [] => .error (.reject "bad-cb-missing")
  | cb :: vtx =>
    if !cb.isCoinBase then .error (.reject "bad-cb-missing")
    else if vtx.any CMutableTransaction.isCoinBase then .error (.reject "bad-cb-multiple")
    else .ok ()

/-- `CheckBlock`.  Its `fChecked` cache only skips the checks of a block that passed them. -/
def checkBlock (params : ConsensusParams) (fCheckPOW fCheckMerkleRoot : Bool) (b : CBlock) :
    Except TxValidationError Unit := do
  checkBlockHeader getPoWHash params (fCheckPOW && b.isProofOfWork) (b.fProofOfFullNode != 0) b
  require (!(b.isProofOfStake && !validateBlockSignature b)) "bad-block-sig"
  (if fCheckMerkleRoot then checkMerkleRoot getHash H b else pure ())
  require (checkBlockLength b) "bad-blk-length"
  checkCoinbasePosition b.vtx
  b.vtx.forM (checkTransaction C)
  require (decide ((b.vtx.map getLegacySigOpCount).sum * WITNESS_SCALE_FACTOR ≤
    MAX_BLOCK_SIGOPS_COST)) "bad-blk-sigops"

/-- **`CheckBlock` is its checks.**  It accepts exactly where the header passes, a proof-of-stake
block is signed, the merkle root (where checked) is right, the size is within the limits, the
coinbase comes first and only there, every transaction passes `CheckTransaction`, and the sigops
are within the cost limit. -/
theorem checkBlock_eq_ok (params : ConsensusParams) (fCheckPOW fCheckMerkleRoot : Bool)
    (b : CBlock) :
    checkBlock C getPoWHash validateBlockSignature getHash H params fCheckPOW fCheckMerkleRoot b =
        .ok () ↔
      checkBlockHeader getPoWHash params (fCheckPOW && b.isProofOfWork) (b.fProofOfFullNode != 0)
          b = .ok () ∧
        (b.isProofOfStake = true → validateBlockSignature b = true) ∧
        (fCheckMerkleRoot = true → checkMerkleRoot getHash H b = .ok ()) ∧
        checkBlockLength b = true ∧ checkCoinbasePosition b.vtx = .ok () ∧
        (∀ tx ∈ b.vtx, checkTransaction C tx = .ok ()) ∧
        (b.vtx.map getLegacySigOpCount).sum * WITNESS_SCALE_FACTOR ≤ MAX_BLOCK_SIGOPS_COST := by
  -- the two checks that read flags, as implications
  have hsig : (!(b.isProofOfStake && !validateBlockSignature b)) = true ↔
      (b.isProofOfStake = true → validateBlockSignature b = true) := by
    cases b.isProofOfStake <;> cases validateBlockSignature b <;> simp
  have hmerkle : (if fCheckMerkleRoot = true then checkMerkleRoot getHash H b else pure ()) = .ok () ↔
      (fCheckMerkleRoot = true → checkMerkleRoot getHash H b = .ok ()) := by
    cases fCheckMerkleRoot <;> simp [pure, Except.pure]
  simp only [checkBlock, Except.bind_unit_eq_ok, require_eq_ok, Except.forM_eq_ok,
    decide_eq_true_eq, hsig, hmerkle]

end CheckBlock

/-! ## `ContextualCheckBlock` -/

/-- `IsFinalTx`: no lock time, a lock time passed (a height below `LOCKTIME_THRESHOLD`, a time from
it on), or every input final. -/
def isFinalTx (tx : CTransaction) (nBlockHeight : Nat) (nBlockTime : Int64) : Bool :=
  if tx.nLockTime = 0 then true
  else if (tx.nLockTime.toNat : Int) <
      (if tx.nLockTime < LOCKTIME_THRESHOLD then (nBlockHeight : Int) else nBlockTime.toInt) then true
  else tx.vin.all fun txin => txin.nSequence == CTxIn.SEQUENCE_FINAL

/-- The script sig `CreateNewBlock` gives the coinbase: `CScript() << nHeight << OP_0`. -/
def coinbaseScriptSig (nHeight : Nat) : CScript := pushInt64 nHeight ++ [OP_0]

/-- "Enforce rule that the coinbase starts with serialized block height".  A coinbase without
inputs, which `CheckTransaction` refuses, fails it. -/
def checkCoinbaseHeight (nHeight : Nat) (coinbase : CTransaction) : Bool :=
  match coinbase.vin with
  | txin :: _ => (pushInt64 nHeight).isPrefixOf txin.scriptSig
  | [] => false

/-- The coinbase `CreateNewBlock` writes passes the height rule at its height. -/
theorem checkCoinbaseHeight_coinbaseScriptSig (nHeight : Nat) {tx : CTransaction}
    {vin : List CTxIn} (hvin : tx.vin = coinbaseInput (coinbaseScriptSig nHeight) :: vin) :
    checkCoinbaseHeight nHeight tx = true := by
  rw [checkCoinbaseHeight, hvin, List.isPrefixOf_iff_prefix]
  exact List.prefix_append _ _

/-- What `ContextualCheckBlock` reads of the block's parent and the chain below it. -/
structure PrevBlock where
  /-- `pindexPrev->nHeight`. -/
  nHeight : Nat
  /-- `pindexPrev->GetMedianTimePast()`, the lock-time cutoff of BIP113. -/
  nMedianTimePast : Int64
  /-- `GetNextWorkRequired(pindexPrev, &block, ...)`. -/
  nBitsRequired : UInt32
  /-- `CheckConsecutivePoW(block, pindexPrev)` from `ConsecutivePoWHeight()` on, `true` below. -/
  fConsecutivePoW : Bool
  /-- `IsSerialInBlockchain(hashSerial, nHeightSpend, pindexPrev)`. -/
  isSerialInBlockchain : Uint256 → Bool

section ContextualCheckBlock

variable (params : CChainParams) (scripts : BudgetScripts)
  (txToSerialHashSet : CTransaction → List Uint256) (getWitnessHash : CTransaction → Uint256)
  (H : Uint256 → Uint256 → Uint256)

/-- The checks of one transaction: final at the block's height and the parent's median time past,
and for a zerocoin spend no serial hash (`TxToSerialHashSet`) already in the chain. -/
def checkTxContextual (prev : PrevBlock) (tx : CTransaction) : Except TxValidationError Unit := do
  require (isFinalTx tx (prev.nHeight + 1) prev.nMedianTimePast) "bad-txns-nonfinal"
  require (!(tx.isZerocoinSpend && (txToSerialHashSet tx).any prev.isSerialInBlockchain))
    "bad-zcspend-in-chain"

/-- The checks of `vtx[0]`: the outputs of a proof-of-stake coinbase, the budget
(`CheckBudgetTransaction` sets no reason), and the height at the front of the script sig. -/
def checkCoinbaseContextual (nHeight : Nat) (fProofOfStake : Bool) :
    List CTransaction → Except TxValidationError Unit
  | [] => .error (.reject "bad-cb-missing")
  | coinbase :: _ => do
    require (checkCoinbaseShape nHeight fProofOfStake coinbase) "bad-coinbase-vpout"
    require (checkBudgetTransaction params scripts nHeight coinbase) ""
    require (checkCoinbaseHeight nHeight coinbase) "bad-cb-height"

/-- `ContextualCheckBlock` at the block's parent.  `fGenesis` is `block.GetHash() ==
Params().GenesisBlock().GetHash()`, a block that passes unchecked; the block's height is the
parent's plus one.  The weight counts the serialization twice, without and with witnesses, which
`SerializeTransaction` writes alike. -/
def contextualCheckBlock (fGenesis : Bool) (pindexPrev : Option PrevBlock) (b : CBlock) :
    Except TxValidationError Unit :=
  if fGenesis then .ok ()
  else match pindexPrev with
  | none => .error (.reject "bad-pindex-prev")
  | some prev => do
    require (decide (b.nBits = prev.nBitsRequired)) "bad-diffbits"
    require prev.fConsecutivePoW "bad-pow"
    b.vtx.forM (checkTxContextual txToSerialHashSet prev)
    checkCoinbaseContextual params scripts (prev.nHeight + 1) b.isProofOfStake b.vtx
    require (decide ((blockWitnessMerkleRoot getWitnessHash H b.vtx).1 = b.hashWitnessMerkleRoot))
      "bad-witness-merkle-match"
    require (decide (b.serialize.length * (WITNESS_SCALE_FACTOR - 1) + b.serialize.length ≤
      MAX_BLOCK_WEIGHT)) "bad-blk-weight"

/-- **`ContextualCheckBlock` is its checks**, for a block that is not the genesis block, at its
parent. -/
theorem contextualCheckBlock_eq_ok (prev : PrevBlock) (b : CBlock) :
    contextualCheckBlock params scripts txToSerialHashSet getWitnessHash H false (some prev) b =
        .ok () ↔
      b.nBits = prev.nBitsRequired ∧ prev.fConsecutivePoW = true ∧
        (∀ tx ∈ b.vtx, checkTxContextual txToSerialHashSet prev tx = .ok ()) ∧
        checkCoinbaseContextual params scripts (prev.nHeight + 1) b.isProofOfStake b.vtx = .ok () ∧
        (blockWitnessMerkleRoot getWitnessHash H b.vtx).1 = b.hashWitnessMerkleRoot ∧
        b.serialize.length * (WITNESS_SCALE_FACTOR - 1) + b.serialize.length ≤ MAX_BLOCK_WEIGHT := by
  simp only [contextualCheckBlock, Bool.false_eq_true, if_false, Except.bind_unit_eq_ok,
    require_eq_ok, decide_eq_true_eq, Except.forM_eq_ok]

end ContextualCheckBlock

/-! ## A blinded coinbase the checks accept -/

/-- A coinbase at height `2` with the script sig `CreateNewBlock` writes, paying `1000 VEIL` to a
P2PKH script next to a CT output. -/
def blindedCoinbase : CTransaction :=
  { vin := [coinbaseInput (coinbaseScriptSig 2)]
    vpout := [.standard (1000 * COIN) p2pkhScript,
      .ct blindedCommitment blindedEphemeral p2pkhScript blindedRangeproof]
    nVersion := CMutableTransaction.CURRENT_VERSION
    nLockTime := 0 }

/-- The proof-of-work block of that coinbase alone, its two roots over the coinbase's hashes. -/
def blindedCoinbaseBlock (getHash getWitnessHash : CTransaction → Uint256) : CBlock :=
  { nVersion := 4, hashPrevBlock := 0, hashVeilData := 0, nTime := 1600000000, nBits := 0x207fffff,
    nNonce := 0, fProofOfStake := 0, fProofOfFullNode := 0, vtx := [blindedCoinbase],
    mapAccumulatorHashes := [(10, 0), (100, 0), (1000, 0), (10000, 0)],
    hashMerkleRoot := getHash blindedCoinbase, hashWitnessMerkleRoot := getWitnessHash blindedCoinbase,
    hashPoFN := 0, vchBlockSig := [] }

section BlindedCoinbase

variable {getHash getWitnessHash : CTransaction → Uint256}

set_option maxRecDepth 8000 in
/-- The coinbase passes `CheckTransaction` wherever its range proof verifies (or range proofs
are skipped): nothing else of the context is read for it. -/
theorem checkTransaction_blindedCoinbase (C : TxVerifyContext)
    (hrp : C.fSkipRangeproof = true ∨ C.rangeproofVerify blindedCommitment blindedRangeproof = true) :
    checkTransaction C blindedCoinbase = .ok () := by
  have hct : checkBlindOutput C blindedEphemeral blindedCommitment blindedRangeproof = .ok () := by
    have h1 : (blindedEphemeral.length < 33 || blindedEphemeral.length > 33 + 5) = false := by decide
    have h2 : ¬ blindedRangeproof.length > 5134 := by decide
    unfold checkBlindOutput checkRangeproofOutput
    rcases hrp with h | h <;> simp [h1, h2, h]
  -- the two outputs, the standard one reading nothing of the context
  have hstd : checkOutput C OutputTally.init (.standard (1000 * COIN) p2pkhScript) =
      .ok ⟨1, 1000 * COIN, 0, [], 0, 0, 0⟩ := rfl
  have hctout : checkOutput C ⟨1, 1000 * COIN, 0, [], 0, 0, 0⟩
      (.ct blindedCommitment blindedEphemeral p2pkhScript blindedRangeproof) =
      .ok ⟨1, 1000 * COIN, 0, [], 0, 0, 1⟩ := by
    simp only [checkOutput, hct]
    rfl
  have hout : checkOutputs C blindedCoinbase.vpout OutputTally.init =
      .ok ⟨1, 1000 * COIN, 0, [], 0, 0, 1⟩ := by
    simp only [blindedCoinbase, checkOutputs, hstd, bind, Except.bind]
    rw [if_neg (by decide), hctout]
    rfl
  unfold checkTransaction
  simp only [hout]
  rfl

/-- A P2PKH script counts one sigop, its `OP_CHECKSIG`. -/
theorem getSigOpCount_p2pkhScript : getSigOpCount p2pkhScript false = 1 := by
  simp [getSigOpCount, getSigOpCountLoop, getScriptOp, pushSize, p2pkhScript, List.replicate_succ,
    OP_DUP, OP_HASH160, OP_EQUALVERIFY, OP_CHECKSIG, OP_CHECKSIGVERIFY, OP_CHECKMULTISIG,
    OP_CHECKMULTISIGVERIFY, OP_PUSHDATA1, OP_PUSHDATA4]

/-- Two sigops, one `OP_CHECKSIG` in the script of each output. -/
theorem getLegacySigOpCount_blindedCoinbase : getLegacySigOpCount blindedCoinbase = 2 := by
  simp [getLegacySigOpCount, blindedCoinbase, CTxOutBase.getPScriptPubKey, getSigOpCount_p2pkhScript]

@[simp] theorem blindedCoinbaseBlock_vtx :
    (blindedCoinbaseBlock getHash getWitnessHash).vtx = [blindedCoinbase] := rfl

@[simp] theorem blindedCoinbaseBlock_hashMerkleRoot :
    (blindedCoinbaseBlock getHash getWitnessHash).hashMerkleRoot = getHash blindedCoinbase := rfl

@[simp] theorem blindedCoinbaseBlock_hashWitnessMerkleRoot :
    (blindedCoinbaseBlock getHash getWitnessHash).hashWitnessMerkleRoot =
      getWitnessHash blindedCoinbase := rfl

theorem isProofOfStake_blindedCoinbaseBlock :
    (blindedCoinbaseBlock getHash getWitnessHash).isProofOfStake = false := rfl

set_option maxRecDepth 8000 in
/-- The block takes 555 bytes. -/
theorem length_serialize_blindedCoinbaseBlock :
    (blindedCoinbaseBlock getHash getWitnessHash).serialize.length = 555 := by
  rw [CBlock.length_serialize, isProofOfStake_blindedCoinbaseBlock]
  simp only [blindedCoinbaseBlock]
  decide

/-- The roots of a block of one transaction are that transaction's hashes, not mutated. -/
theorem blockMerkleRoot_singleton (tx : CTransaction)
    (H : Uint256 → Uint256 → Uint256) (hash : CTransaction → Uint256) :
    blockMerkleRoot hash H [tx] = (hash tx, false) :=
  computeMerkleRoot_of_length_le_one H (by simp)

end BlindedCoinbase

end Veil
