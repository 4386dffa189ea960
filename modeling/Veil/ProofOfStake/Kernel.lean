import Veil.Pow
import Veil.Primitives.Transaction
import Veil.Zerocoin.Spend

/-!
# Zerocoin stakes in `AcceptBlock` (`kernel.cpp`, `stakeinput.cpp`, `accumulators.cpp`)

A proof-of-stake block's coinstake spends a zerocoin against an accumulator checksum.
`ZerocoinStake::GetIndexFrom` takes as "the block the stake is from" the first block
of `chainActive` holding that checksum (`GetChecksumHeight`, which steps through the
multiples of 10 and answers `0` both for genesis and for "not found").
`CheckProofOfStake` hashes the stake with the modifier of the checkpoint
`HeightToModifierHeight` below that block and with its time;
`ContextualCheckZerocoinStake` asks that block to be `Zerocoin_RequiredStakeDepth`
below `B` and `B`'s own ancestor at that depth to hold the checksum.

A chain is the list of its block indexes, the index of a block being its height; the
`pprev` walk from a block of a chain is indexing into that chain.
`B`'s ancestry is the list of its ancestors, at heights `0 … nHeight - 1`.
`stakeReference` is the verdict read off `B`'s ancestry alone.  The double SHA-256 of
the serial and of the kernel are the parameters `hashSerial` and `hashKernel`.

`stakeTargetHit` multiplies the target per coin day by the stake's value in
`arith_uint256`, which keeps the product modulo `2 ^ 256`, and takes all ones as the target
only where the product came out below the target per coin day; `stakeTargetHitExact` is the
saturating target `min(v · t, 2 ^ 256 - 1)` in unbounded integers.

Main results:

    getChecksumHeight is the first multiple of 10 holding the checksum, or 0
                                                    (getChecksumHeight_eq)
    chainActive extends B's ancestry, checkpoints change every 10 blocks →
      the verdict is stakeReference                 (acceptBlockProofOfStake_eq_stakeReference)
    testnet: one block, two states of chainActive, two verdicts
                                                    (acceptBlockProofOfStake_depends_on_chainActive)
    a zero value, and a product that wraps to at least the target, miss the saturating
      target                                        (stakeTargetHit_not_exact)
-/

namespace Veil.ProofOfStake

open Veil.Zerocoin

/-- `libzerocoin::CoinDenomination`. -/
inductive CoinDenomination
  | ZQ_ERROR
  | ZQ_TEN
  | ZQ_ONE_HUNDRED
  | ZQ_ONE_THOUSAND
  | ZQ_TEN_THOUSAND
  deriving DecidableEq, Repr

/-- The enumerator's value. -/
def CoinDenomination.toInt64 : CoinDenomination → Int64
  | .ZQ_ERROR => 0
  | .ZQ_TEN => 10
  | .ZQ_ONE_HUNDRED => 100
  | .ZQ_ONE_THOUSAND => 1000
  | .ZQ_TEN_THOUSAND => 10000

/-- `IntToZerocoinDenomination`. -/
def intToZerocoinDenomination (amount : Int64) : CoinDenomination :=
  if amount = 10 then .ZQ_TEN
  else if amount = 100 then .ZQ_ONE_HUNDRED
  else if amount = 1000 then .ZQ_ONE_THOUSAND
  else if amount = 10000 then .ZQ_TEN_THOUSAND
  -- "not a valid denomination"
  else .ZQ_ERROR

/-- `AmountToZerocoinDenomination`. -/
def amountToZerocoinDenomination (amount : CAmount) : CoinDenomination :=
  -- "Check to make sure amount is an exact integer number of COINS"
  if amount - COIN * (amount / COIN) = 0 then intToZerocoinDenomination (amount / COIN)
  else .ZQ_ERROR

/-- The consensus values the stake checks read: `Zerocoin_RequiredStakeDepth()`,
`KernelModulus()` and `EnforceWeightReductionTime()`.  Both counts are positive on
every network. -/
structure StakeParams where
  nZerocoinRequiredStakeDepth : Nat
  nKernelModulus : Nat
  nTimeEnforceWeightReduction : Int
  depth_pos : 0 < nZerocoinRequiredStakeDepth
  modulus_pos : 0 < nKernelModulus

/-- `CMainParams`. -/
def mainStakeParams : StakeParams where
  nZerocoinRequiredStakeDepth := 200
  nKernelModulus := 100
  nTimeEnforceWeightReduction := 1548619029
  depth_pos := by decide
  modulus_pos := by decide

/-- `CTestNetParams`. -/
def testNetStakeParams : StakeParams where
  nZerocoinRequiredStakeDepth := 10
  nKernelModulus := 10
  nTimeEnforceWeightReduction := 1548849600
  depth_pos := by decide
  modulus_pos := by decide

/-- What the stake checks read of a `CBlockIndex`.  `mapAccumulatorHashes` gives
`uint256()` for a denomination the map lacks, as `GetAccumulatorHash` and
`operator[]` both read it. -/
structure CBlockIndex where
  nTime : UInt32
  mapAccumulatorHashes : CoinDenomination → ArithUint256

/-- `CBlockIndex::GetAccumulatorHash`. -/
def CBlockIndex.getAccumulatorHash (pindex : CBlockIndex) (denom : CoinDenomination) :
    ArithUint256 :=
  pindex.mapAccumulatorHashes denom

/-- A chain of block indexes, from genesis; `chain[n]?` is `operator[]`. -/
abbrev CChain := List CBlockIndex

/-- `CChain::Height`. -/
def chainHeight (chain : CChain) : Int := chain.length - 1

/-- The accumulator hash for `denom` of the block at height `i`, if there is one. -/
def accumulatorHashAt (chain : CChain) (denom : CoinDenomination) (i : Nat) :
    Option ArithUint256 :=
  chain[i]?.map (·.getAccumulatorHash denom)

/-- The block at height `i` holds the checksum `hashChecksum` for `denom`. -/
def hasAccumulatorHash (chain : CChain) (denom : CoinDenomination)
    (hashChecksum : ArithUint256) (i : Nat) : Bool :=
  accumulatorHashAt chain denom i == some hashChecksum

/-! ## The stake and its block -/

/-- `ZerocoinStake` built from a spend (`fMint = false`, no cached `pindexFrom`). -/
structure ZerocoinStake where
  nChecksum : ArithUint256
  denom : CoinDenomination
  hashSerial : ArithUint256

/-- `ZerocoinStake::GetValue`. -/
def ZerocoinStake.getValue (stake : ZerocoinStake) : CAmount := stake.denom.toInt64 * COIN

/-- What `CheckProofOfStake` reads of the coinstake `vtx[1]`: `IsCoinStake()`,
`vin.size()`, `vin[0].scriptSig.IsZerocoinSpend()` and `TxInToZerocoinSpend(vin[0])`. -/
structure CoinstakeInput (σ : Type) where
  isCoinStake : Bool
  vinSize : Nat
  isZerocoinSpend : Bool
  spend : Option (CoinSpend CoinDenomination σ ArithUint256)

section

variable {σ : Type} (hashSerial : σ → ArithUint256)

/-- The `ZerocoinStake` constructor; `hashSerial` is the double SHA-256 of the serial. -/
def ZerocoinStake.ofSpend (spend : CoinSpend CoinDenomination σ ArithUint256) :
    ZerocoinStake where
  nChecksum := spend.accumulatorChecksum
  denom := spend.denomination
  hashSerial := hashSerial spend.coinSerialNumber

/-- The checks `CheckProofOfStake` makes on the coinstake before it looks at the
chain, and the stake they build. -/
def coinstakeStake (tx : CoinstakeInput σ) : Option ZerocoinStake :=
  if !tx.isCoinStake then none
  -- "Stake is not a zerocoinspend"
  else if tx.vinSize ≠ 1 && tx.isZerocoinSpend then none
  else match tx.spend with
    | none => none
    | some spend =>
      -- "spend is using the wrong SpendType"
      if spend.spendType ≠ .STAKE then none else some (ZerocoinStake.ofSpend hashSerial spend)

end

/-- The `while (pindex)` loop of `GetChecksumHeight` from `chainActive[n]`; `fuel`
bounds its iterations (each one moves up the chain). -/
def getChecksumHeightLoop (chainActive : CChain) (hashChecksum : ArithUint256)
    (denomination : CoinDenomination) : Nat → Nat → Nat
  | 0, _ => 0
  | fuel + 1, n =>
    match chainActive[n]? with
    | none => 0
    | some pindex =>
      if pindex.getAccumulatorHash denomination = hashChecksum then n
      -- "Skip forward in groups of 10 blocks since checkpoints only change every 10 blocks"
      else if n % 10 = 0 then
        if ((n + 10 : Nat) : Int) > chainHeight chainActive then 0
        else getChecksumHeightLoop chainActive hashChecksum denomination fuel (n + 10)
      else getChecksumHeightLoop chainActive hashChecksum denomination fuel (n + 1)

/-- `GetChecksumHeight`: "Find the first occurrence of a certain accumulator
checksum. Return 0 if not found." -/
def getChecksumHeight (chainActive : CChain) (hashChecksum : ArithUint256)
    (denomination : CoinDenomination) : Nat :=
  getChecksumHeightLoop chainActive hashChecksum denomination chainActive.length 0

/-- `ZerocoinStake::GetIndexFrom`: the height and index of the block the stake is
from, in `chainActive` ("note that this will be a nullptr if the height DNE"). -/
def getIndexFrom (chainActive : CChain) (stake : ZerocoinStake) : Option (Nat × CBlockIndex) :=
  let nHeightChecksum := getChecksumHeight chainActive stake.nChecksum stake.denom
  if (nHeightChecksum : Int) > chainHeight chainActive then none
  else chainActive[nHeightChecksum]?.map (nHeightChecksum, ·)

/-- `ZerocoinStake::HeightToModifierHeight`: "Nearest multiple of KernelModulus that is
over KernelModulus bocks deep in the chain". -/
def heightToModifierHeight (params : StakeParams) (nHeight : Nat) : Int :=
  ((nHeight : Int) - params.nKernelModulus) - ((nHeight % params.nKernelModulus : Nat) : Int)

/-- `arith_uint256::GetLow64`. -/
def getLow64 (x : ArithUint256) : UInt64 := UInt64.ofNat x.toNat

/-- `ZerocoinStake::GetModifier`: the low 64 bits of the accumulator hash of the block
of `chainActive` at the modifier height.  The `pprev` walk starts at the block
`GetIndexFrom` found, a block of `chainActive`, and stops below it. -/
def getModifier (params : StakeParams) (chainActive : CChain) (stake : ZerocoinStake) :
    Option UInt64 :=
  match getIndexFrom chainActive stake with
  | none => none
  | some (nHeightFrom, _) =>
    let nNearest100Block := heightToModifierHeight params nHeightFrom
    -- "Rare case block index < 100, we don't use proof of stake for these blocks"
    if nNearest100Block < 1 then none
    else chainActive[nNearest100Block.toNat]?.map fun pindex =>
      getLow64 (pindex.getAccumulatorHash stake.denom)

/-! ## The kernel -/

/-- `WeightStake`. -/
def weightStake (nValueIn : CAmount) (denom : CoinDenomination) : CAmount :=
  match denom with
  -- "10% reduction"
  | .ZQ_ONE_HUNDRED => (nValueIn * 90) / 100
  | .ZQ_ONE_THOUSAND => (nValueIn * 80) / 100
  | .ZQ_TEN_THOUSAND => (nValueIn * 70) / 100
  | _ => nValueIn

/-- `stakeTargetHit`: the target is the coin amount times the target per coin day,
or all ones where the product visibly wrapped. -/
def stakeTargetHit (hashProofOfStake : ArithUint256) (nValueIn : Int64)
    (bnTargetPerCoinDay : ArithUint256) : Bool :=
  let bnTarget := BitVec.ofNat 256 nValueIn.toBitVec.toNat * bnTargetPerCoinDay
  -- "Double check for overflow, give max value if overflow"
  let bnTarget := if bnTargetPerCoinDay > bnTarget then BitVec.allOnes 256 else bnTarget
  decide (hashProofOfStake < bnTarget)

/-- The hit test against the saturating target `min(v · t, 2 ^ 256 - 1)` in unbounded
integers. -/
def stakeTargetHitExact (hashProofOfStake : ArithUint256) (nValueIn : Int64)
    (bnTargetPerCoinDay : ArithUint256) : Bool :=
  decide (hashProofOfStake.toNat < min (nValueIn.toInt.toNat * bnTargetPerCoinDay.toNat) (2 ^ 256 - 1))

/-- Two stakes on which `stakeTargetHit` is not the saturating test, at targets decoded from
compact `nBits` and values in the money range: a zero value against target 1 takes the
all-ones target, and the value 3 against target `2 ^ 255` wraps to `2 ^ 255` itself. -/
theorem stakeTargetHit_not_exact :
    setCompact 0x03000001 = (1, false, false) ∧ moneyRange 0 = true ∧
      stakeTargetHit 0 0 1 ≠ stakeTargetHitExact 0 0 1 ∧
    setCompact 0x21008000 = (BitVec.ofNat 256 (2 ^ 255), false, false) ∧ moneyRange 3 = true ∧
      stakeTargetHit (BitVec.ofNat 256 (2 ^ 255)) 3 (BitVec.ofNat 256 (2 ^ 255)) ≠
        stakeTargetHitExact (BitVec.ofNat 256 (2 ^ 255)) 3 (BitVec.ofNat 256 (2 ^ 255)) := by
  refine ⟨by decide, by decide, by decide, by decide, by decide, by decide⟩

section

variable (hashKernel : UInt64 → UInt32 → ArithUint256 → UInt32 → ArithUint256)

/-- `CheckStake`; `hashKernel` is the double SHA-256 of the modifier, the block-from
time, the uniqueness (the serial's hash) and the transaction time. -/
def checkStake (uniqueness : ArithUint256) (nValueIn : CAmount) (nStakeModifier : UInt64)
    (bnTarget : ArithUint256) (nTimeBlockFrom nTimeTx : UInt32) : Bool :=
  stakeTargetHit (hashKernel nStakeModifier nTimeBlockFrom uniqueness nTimeTx) nValueIn bnTarget

/-- The end of `CheckProofOfStake`: the weighted value and the kernel check, given the
modifier and the time of the block the stake is from. -/
def checkKernel (params : StakeParams) (stake : ZerocoinStake) (nStakeModifier : UInt64)
    (nBlockFromTime nBits nTimeBlock : UInt32) : Bool :=
  let bnTargetPerCoinDay := (setCompact nBits).1
  let nValue := stake.getValue
  -- "Enforce VIP-1 after it was activated"
  let nValue := if nTimeBlock.toInt32.toInt > params.nTimeEnforceWeightReduction then
      weightStake nValue stake.denom
    else nValue
  checkStake hashKernel stake.hashSerial nValue nStakeModifier bnTargetPerCoinDay nBlockFromTime
    nTimeBlock

/-- `CheckProofOfStake` from the stake on: the block it is from, read from disk for
its time, the modifier and the kernel. -/
def checkStakeInput (params : StakeParams) (chainActive : CChain) (stake : ZerocoinStake)
    (nBits nTimeBlock : UInt32) : Bool :=
  match getIndexFrom chainActive stake with
  -- "Failed to find the block index"
  | none => false
  | some (_, blockprev) =>
    match getModifier params chainActive stake with
    -- "failed to get modifier for stake input"
    | none => false
    | some nStakeModifier => checkKernel hashKernel params stake nStakeModifier blockprev.nTime nBits
      nTimeBlock

variable {σ : Type} (hashSerial : σ → ArithUint256)

/-- `CheckProofOfStake`, with the stake it builds on success. -/
def checkProofOfStake (params : StakeParams) (chainActive : CChain) (tx : CoinstakeInput σ)
    (nBits nTimeBlock : UInt32) : Option ZerocoinStake :=
  match coinstakeStake hashSerial tx with
  | none => none
  | some stake =>
    if checkStakeInput hashKernel params chainActive stake nBits nTimeBlock then some stake else none

end

/-- `CBlockIndex::GetAncestor` on `B`'s index, for a height below `B`'s own: the stake
depth is positive, so `B` itself is never asked for. -/
def getAncestor (ancestry : CChain) (nHeight : Int) : Option CBlockIndex :=
  if nHeight < 0 then none else ancestry[nHeight.toNat]?

/-- `CChainState::ContextualCheckZerocoinStake` on `B`, whose ancestors are `ancestry`. -/
def contextualCheckZerocoinStake (params : StakeParams) (chainActive ancestry : CChain)
    (stake : ZerocoinStake) : Bool :=
  match getIndexFrom chainActive stake with
  -- "failed to get index associated with zerocoin stake checksum"
  | none => false
  | some (nHeightFrom, _) =>
    let nHeight := ancestry.length
    -- "zerocoin stake does not have required confirmation depth"
    if (nHeight : Int) - nHeightFrom < params.nZerocoinRequiredStakeDepth then false
    else
      -- "The checksum needs to be the exact checksum from the modifier height"
      let denom := amountToZerocoinDenomination stake.getValue
      let nHeightStake : Int := nHeight - params.nZerocoinRequiredStakeDepth
      match getAncestor ancestry nHeightStake with
      -- "block ancestor does not exist"
      | none => false
      | some pindexFrom2 => pindexFrom2.getAccumulatorHash denom == stake.nChecksum

section

variable (hashKernel : UInt64 → UInt32 → ArithUint256 → UInt32 → ArithUint256)
  {σ : Type} (hashSerial : σ → ArithUint256)

/-- `AcceptBlock`'s proof-of-stake verdict on `B`: `CheckProofOfStake`, then
`ContextualCheckZerocoinStake` on the stake it built. -/
def acceptBlockProofOfStake (params : StakeParams) (chainActive ancestry : CChain)
    (tx : CoinstakeInput σ) (nBits nTime : UInt32) : Bool :=
  match checkProofOfStake hashKernel hashSerial params chainActive tx nBits nTime with
  | none => false
  | some stake => contextualCheckZerocoinStake params chainActive ancestry stake

/-! ## The verdict from `B`'s own ancestry -/

/-- The lowest ancestor of `B` holding the checksum. -/
def firstAncestorWith (ancestry : CChain) (denom : CoinDenomination)
    (hashChecksum : ArithUint256) : Option Nat :=
  (List.range ancestry.length).find? (hasAccumulatorHash ancestry denom hashChecksum)

/-- The stake checks read off `B`'s ancestry: the lowest ancestor `F` holding the
checksum is deep enough, the ancestor at the stake depth holds it, and the kernel
passes with the modifier of `B`'s ancestor at `F`'s modifier height and with `F`'s
time. -/
def stakeReferenceFor (params : StakeParams) (ancestry : CChain) (stake : ZerocoinStake)
    (nBits nTime : UInt32) : Bool :=
  match firstAncestorWith ancestry stake.denom stake.nChecksum with
  | none => false
  | some nHeightFrom =>
    let nHeight := ancestry.length
    decide (params.nZerocoinRequiredStakeDepth ≤ nHeight - nHeightFrom) &&
    hasAccumulatorHash ancestry stake.denom stake.nChecksum
      (nHeight - params.nZerocoinRequiredStakeDepth) &&
    match getAncestor ancestry (heightToModifierHeight params nHeightFrom), ancestry[nHeightFrom]? with
    | some pindexModifier, some pindexFrom =>
      checkKernel hashKernel params stake (getLow64 (pindexModifier.getAccumulatorHash stake.denom))
        pindexFrom.nTime nBits nTime
    | _, _ => false

/-- The proof-of-stake verdict `B` should get, from its coinstake and its ancestry. -/
def stakeReference (params : StakeParams) (ancestry : CChain) (tx : CoinstakeInput σ)
    (nBits nTime : UInt32) : Bool :=
  match coinstakeStake hashSerial tx with
  | none => false
  | some stake => stakeReferenceFor hashKernel params ancestry stake nBits nTime

end

/-! ## `GetChecksumHeight` -/

/-- `AmountToZerocoinDenomination` inverts `GetValue`. -/
@[simp] theorem amountToZerocoinDenomination_getValue (stake : ZerocoinStake) :
    amountToZerocoinDenomination stake.getValue = stake.denom := by
  unfold ZerocoinStake.getValue
  cases stake.denom <;> decide

/-- The height `i` is a multiple of 10 whose block holds the checksum: where the scan
of `GetChecksumHeight` can stop. -/
def isCheckpointWith (chain : CChain) (denom : CoinDenomination) (hashChecksum : ArithUint256)
    (i : Nat) : Bool :=
  i % 10 == 0 && hasAccumulatorHash chain denom hashChecksum i

/-- The first multiple of 10 whose block holds the checksum. -/
def firstCheckpointWith (chain : CChain) (denom : CoinDenomination)
    (hashChecksum : ArithUint256) : Option Nat :=
  (List.range chain.length).find? (isCheckpointWith chain denom hashChecksum)

theorem hasAccumulatorHash_of_getElem? {chain : CChain} {i : Nat} {pindex : CBlockIndex}
    (h : chain[i]? = some pindex) (denom : CoinDenomination) (hashChecksum : ArithUint256) :
    hasAccumulatorHash chain denom hashChecksum i =
      (pindex.getAccumulatorHash denom == hashChecksum) := by
  simp [hasAccumulatorHash, accumulatorHashAt, h]

/-- Within a group of ten heights starting at a multiple of 10, only its first can be
a checkpoint. -/
theorem find?_isCheckpointWith_group {chain : CChain} {denom : CoinDenomination}
    {hashChecksum : ArithUint256} {n m : Nat} (hn : n % 10 = 0) (hm : m ≤ 10)
    (hc : hasAccumulatorHash chain denom hashChecksum n = false) :
    (List.range' n m).find? (isCheckpointWith chain denom hashChecksum) = none := by
  rw [List.find?_eq_none]
  intro i hi
  rw [List.mem_range'_1] at hi
  unfold isCheckpointWith
  by_cases hin : i = n
  · subst hin
    simp [hc]
  · have hi10 : i % 10 ≠ 0 := by omega
    simp [hi10]

/-- The scan from a multiple of 10, given enough fuel, finds the first checkpoint at or
above it, or answers `0`. -/
theorem getChecksumHeightLoop_eq (chain : CChain) (hashChecksum : ArithUint256)
    (denom : CoinDenomination) :
    ∀ fuel n, n % 10 = 0 → chain.length ≤ n + fuel →
      getChecksumHeightLoop chain hashChecksum denom fuel n =
        ((List.range' n (chain.length - n)).find? (isCheckpointWith chain denom hashChecksum)).getD 0 := by
  intro fuel
  induction fuel with
  | zero =>
    intro n _ hlen
    have hnil : chain.length - n = 0 := by omega
    simp [getChecksumHeightLoop, hnil]
  | succ fuel ih =>
    intro n hn hlen
    cases hb : chain[n]? with
    | none =>
      have hnil : chain.length - n = 0 := by
        have := List.getElem?_eq_none_iff.mp hb
        omega
      simp [getChecksumHeightLoop, hb, hnil]
    | some pindex =>
      have hlt : n < chain.length := (List.getElem?_eq_some_iff.mp hb).1
      have hsplit : chain.length - n = (chain.length - n - 1) + 1 := by omega
      by_cases hh : pindex.getAccumulatorHash denom = hashChecksum
      · -- the block at `n` holds the checksum: both stop there
        have hcp : isCheckpointWith chain denom hashChecksum n = true := by
          simp [isCheckpointWith, hn, hasAccumulatorHash_of_getElem? hb, hh]
        rw [hsplit, List.range'_succ]
        simp [getChecksumHeightLoop, hb, hh, hcp]
      · have hc : hasAccumulatorHash chain denom hashChecksum n = false := by
          simp [hasAccumulatorHash_of_getElem? hb, hh]
        by_cases hend : chain.length ≤ n + 10
        · -- no further multiple of 10 below the tip: "not found"
          have hgt : ((n + 10 : Nat) : Int) > chainHeight chain := by
            unfold chainHeight
            omega
          rw [find?_isCheckpointWith_group hn (by omega) hc]
          simp only [getChecksumHeightLoop, hb, hh, hn, hgt, if_false, if_true, Option.getD_none]
        · -- the scan jumps to `n + 10`; the range splits after the group of ten
          have hle : ¬ ((n + 10 : Nat) : Int) > chainHeight chain := by
            unfold chainHeight
            omega
          have hrange : List.range' n (chain.length - n) =
              List.range' n 10 ++ List.range' (n + 10) (chain.length - (n + 10)) := by
            rw [List.range'_append]
            congr 1
            omega
          rw [hrange, List.find?_append, find?_isCheckpointWith_group hn (le_refl 10) hc,
            Option.none_or]
          simp only [getChecksumHeightLoop, hb, hh, hn, hle, if_false, if_true]
          exact ih (n + 10) (by omega) (by omega)

/-- **`GetChecksumHeight` answers the first multiple of 10 holding the checksum, or
`0`.** -/
theorem getChecksumHeight_eq (chain : CChain) (hashChecksum : ArithUint256)
    (denom : CoinDenomination) :
    getChecksumHeight chain hashChecksum denom =
      (firstCheckpointWith chain denom hashChecksum).getD 0 := by
  unfold getChecksumHeight firstCheckpointWith
  rw [getChecksumHeightLoop_eq chain hashChecksum denom chain.length 0 (by simp) (by simp),
    List.range_eq_range']
  simp

/-- The `> chainActive.Height()` test of `GetIndexFrom` never fires. -/
theorem getIndexFrom_eq (chainActive : CChain) (stake : ZerocoinStake) :
    getIndexFrom chainActive stake =
      chainActive[getChecksumHeight chainActive stake.nChecksum stake.denom]?.map
        (getChecksumHeight chainActive stake.nChecksum stake.denom, ·) := by
  unfold getIndexFrom
  dsimp only
  split
  · rename_i hgt
    have hnone : chainActive.length ≤ getChecksumHeight chainActive stake.nChecksum stake.denom := by
      unfold chainHeight at hgt
      omega
    simp [List.getElem?_eq_none hnone]
  · rfl

/-! ## A chain that extends `B`'s ancestry -/

/-- The accumulator checkpoints of a chain change only at multiples of 10: every
block holds the hashes of the last multiple of 10 at or below it
(`CalculateAccumulatorCheckpoint` returns the previous block's checkpoint elsewhere). -/
def CheckpointsEvery10 (chain : CChain) (denom : CoinDenomination) : Prop :=
  ∀ i < chain.length, accumulatorHashAt chain denom i = accumulatorHashAt chain denom (i - i % 10)

instance (chain : CChain) (denom : CoinDenomination) : Decidable (CheckpointsEvery10 chain denom) :=
  inferInstanceAs (Decidable (∀ i < chain.length,
    accumulatorHashAt chain denom i = accumulatorHashAt chain denom (i - i % 10)))

theorem getElem?_of_isPrefix {ancestry chain : CChain} (hpre : ancestry <+: chain) {i : Nat}
    (hi : i < ancestry.length) : chain[i]? = ancestry[i]? := by
  obtain ⟨t, rfl⟩ := hpre
  exact List.getElem?_append_left hi

theorem hasAccumulatorHash_of_isPrefix {ancestry chain : CChain} (hpre : ancestry <+: chain)
    {i : Nat} (hi : i < ancestry.length) (denom : CoinDenomination) (hashChecksum : ArithUint256) :
    hasAccumulatorHash chain denom hashChecksum i = hasAccumulatorHash ancestry denom hashChecksum i := by
  simp [hasAccumulatorHash, accumulatorHashAt, getElem?_of_isPrefix hpre hi]

/-- Where checkpoints change every 10 blocks, the lowest block holding a checksum is
at a multiple of 10. -/
theorem firstAncestorWith_mod_ten {ancestry : CChain} {denom : CoinDenomination}
    {hashChecksum : ArithUint256} {f : Nat} (hcp : CheckpointsEvery10 ancestry denom)
    (hf : firstAncestorWith ancestry denom hashChecksum = some f) : f % 10 = 0 := by
  rw [firstAncestorWith, List.find?_range_eq_some] at hf
  obtain ⟨hcf, hmem, hmin⟩ := hf
  by_contra hne
  -- the multiple of 10 below `f` holds the same hashes, and is lower
  have hlow : hasAccumulatorHash ancestry denom hashChecksum (f - f % 10) = true := by
    have := hcp f (List.mem_range.mp hmem)
    unfold hasAccumulatorHash at hcf ⊢
    rw [← this]
    exact hcf
  have := hmin (f - f % 10) (by omega)
  simp [hlow] at this

/-- **On a chain extending `B`'s ancestry, the scan finds `B`'s lowest ancestor holding
the checksum.** -/
theorem firstCheckpointWith_of_isPrefix {ancestry chain : CChain} (hpre : ancestry <+: chain)
    {denom : CoinDenomination} {hashChecksum : ArithUint256} {f : Nat}
    (hcp : CheckpointsEvery10 ancestry denom)
    (hf : firstAncestorWith ancestry denom hashChecksum = some f) :
    firstCheckpointWith chain denom hashChecksum = some f := by
  have hf10 := firstAncestorWith_mod_ten hcp hf
  rw [firstAncestorWith, List.find?_range_eq_some] at hf
  obtain ⟨hcf, hmem, hmin⟩ := hf
  have hlt : f < ancestry.length := List.mem_range.mp hmem
  rw [firstCheckpointWith, List.find?_range_eq_some]
  refine ⟨?_, ?_, ?_⟩
  · simp [isCheckpointWith, hf10, hasAccumulatorHash_of_isPrefix hpre hlt, hcf]
  · exact List.mem_range.mpr (Nat.lt_of_lt_of_le hlt hpre.length_le)
  · intro j hj
    have hnot := hmin j hj
    have hj' : j < ancestry.length := by omega
    simp only [Bool.not_eq_true'] at hnot
    simp [isCheckpointWith, hasAccumulatorHash_of_isPrefix hpre hj', hnot]

/-- Where no ancestor of `B` holds the checksum, a checkpoint the scan finds is not
below `B`. -/
theorem length_le_of_firstCheckpointWith {ancestry chain : CChain} (hpre : ancestry <+: chain)
    {denom : CoinDenomination} {hashChecksum : ArithUint256} {f : Nat}
    (hf : firstAncestorWith ancestry denom hashChecksum = none)
    (hc : firstCheckpointWith chain denom hashChecksum = some f) : ancestry.length ≤ f := by
  rw [firstAncestorWith, List.find?_range_eq_none] at hf
  rw [firstCheckpointWith, List.find?_range_eq_some] at hc
  by_contra hlt
  have hhas : hasAccumulatorHash ancestry denom hashChecksum f = true := by
    rw [← hasAccumulatorHash_of_isPrefix hpre (by omega)]
    simp only [isCheckpointWith, Bool.and_eq_true] at hc
    exact hc.1.2
  have := hf f (by omega)
  simp [hhas] at this

/-! ## The steps of the verdict -/

theorem heightToModifierHeight_lt (params : StakeParams) (nHeight : Nat) :
    heightToModifierHeight params nHeight < nHeight := by
  have hk := params.modulus_pos
  unfold heightToModifierHeight
  omega

/-- The modifier height is `0` exactly for the blocks `k … 2k - 1`, `k` the kernel
modulus. -/
theorem heightToModifierHeight_ne_zero (params : StakeParams) {nHeight : Nat}
    (h : nHeight < params.nKernelModulus ∨ 2 * params.nKernelModulus ≤ nHeight) :
    heightToModifierHeight params nHeight ≠ 0 := by
  have hk := params.modulus_pos
  have hmod := Nat.mod_lt nHeight hk
  unfold heightToModifierHeight
  rcases h with hlt | hge
  · rw [Nat.mod_eq_of_lt hlt]
    omega
  · omega

theorem getModifier_of_getIndexFrom {params : StakeParams} {chainActive : CChain}
    {stake : ZerocoinStake} {nHeightFrom : Nat} {pindex : CBlockIndex}
    (h : getIndexFrom chainActive stake = some (nHeightFrom, pindex)) :
    getModifier params chainActive stake =
      if heightToModifierHeight params nHeightFrom < 1 then none
      else chainActive[(heightToModifierHeight params nHeightFrom).toNat]?.map fun pindex =>
        getLow64 (pindex.getAccumulatorHash stake.denom) := by
  simp only [getModifier, h]

/-- `ContextualCheckZerocoinStake` once `GetIndexFrom` has found a block: the depth
check and the checksum of `B`'s ancestor at that depth. -/
theorem contextualCheckZerocoinStake_of_getIndexFrom {params : StakeParams}
    {chainActive : CChain} (ancestry : CChain) {stake : ZerocoinStake} {nHeightFrom : Nat}
    {pindex : CBlockIndex} (h : getIndexFrom chainActive stake = some (nHeightFrom, pindex)) :
    contextualCheckZerocoinStake params chainActive ancestry stake =
      (decide (params.nZerocoinRequiredStakeDepth ≤ ancestry.length - nHeightFrom) &&
        hasAccumulatorHash ancestry stake.denom stake.nChecksum
          (ancestry.length - params.nZerocoinRequiredStakeDepth)) := by
  have hpos := params.depth_pos
  simp only [contextualCheckZerocoinStake, h, amountToZerocoinDenomination_getValue]
  split
  · rename_i hlt
    have hnot : ¬ params.nZerocoinRequiredStakeDepth ≤ ancestry.length - nHeightFrom := by omega
    simp [hnot]
  · rename_i hge
    have hdepth : params.nZerocoinRequiredStakeDepth ≤ ancestry.length - nHeightFrom := by omega
    -- the ancestor at the stake depth is read at a height that is not negative
    have hnn : ¬ ((ancestry.length : Int) - params.nZerocoinRequiredStakeDepth) < 0 := by omega
    have htoNat : ((ancestry.length : Int) - params.nZerocoinRequiredStakeDepth).toNat =
        ancestry.length - params.nZerocoinRequiredStakeDepth := by omega
    simp only [getAncestor, hnn, if_false, htoNat, hdepth, decide_true, Bool.true_and]
    unfold hasAccumulatorHash accumulatorHashAt
    cases ancestry[ancestry.length - params.nZerocoinRequiredStakeDepth]? <;> simp

section

variable (hashKernel : UInt64 → UInt32 → ArithUint256 → UInt32 → ArithUint256)
  {σ : Type} (hashSerial : σ → ArithUint256)

theorem checkStakeInput_of_getIndexFrom {params : StakeParams} {chainActive : CChain}
    {stake : ZerocoinStake} {nHeightFrom : Nat} {pindex : CBlockIndex}
    (h : getIndexFrom chainActive stake = some (nHeightFrom, pindex)) (nBits nTime : UInt32) :
    checkStakeInput hashKernel params chainActive stake nBits nTime =
      match getModifier params chainActive stake with
      | none => false
      | some nStakeModifier => checkKernel hashKernel params stake nStakeModifier pindex.nTime nBits nTime := by
  simp only [checkStakeInput, h]

/-- The verdict is the conjunction of the two checks on the stake the coinstake
builds. -/
theorem acceptBlockProofOfStake_eq (params : StakeParams) (chainActive ancestry : CChain)
    (tx : CoinstakeInput σ) (nBits nTime : UInt32) :
    acceptBlockProofOfStake hashKernel hashSerial params chainActive ancestry tx nBits nTime =
      match coinstakeStake hashSerial tx with
      | none => false
      | some stake => checkStakeInput hashKernel params chainActive stake nBits nTime &&
          contextualCheckZerocoinStake params chainActive ancestry stake := by
  unfold acceptBlockProofOfStake checkProofOfStake
  cases coinstakeStake hashSerial tx with
  | none => rfl
  | some stake =>
    cases hc : checkStakeInput hashKernel params chainActive stake nBits nTime <;> simp [hc]

/-- Where no ancestor of `B` holds the checksum, the checks refuse the stake: the scan
either answers genesis, whose modifier height is negative, or a block not below `B`. -/
theorem checkStakeInput_and_contextual_of_none (params : StakeParams)
    {chainActive ancestry : CChain} (hpre : ancestry <+: chainActive) (stake : ZerocoinStake)
    (hF : firstAncestorWith ancestry stake.denom stake.nChecksum = none) (nBits nTime : UInt32) :
    (checkStakeInput hashKernel params chainActive stake nBits nTime &&
        contextualCheckZerocoinStake params chainActive ancestry stake) = false := by
  have hidx := getIndexFrom_eq chainActive stake
  rw [getChecksumHeight_eq] at hidx
  cases hC : firstCheckpointWith chainActive stake.denom stake.nChecksum with
  | none =>
    -- "not found" reads as genesis
    rw [hC, Option.getD_none] at hidx
    cases h0 : chainActive[0]? with
    | none =>
      simp [checkStakeInput, hidx, h0]
    | some genesis =>
      rw [h0, Option.map_some] at hidx
      have hneg : heightToModifierHeight params 0 < 1 := by
        have := heightToModifierHeight_lt params 0
        omega
      simp [checkStakeInput_of_getIndexFrom hashKernel hidx, getModifier_of_getIndexFrom hidx, hneg]
  | some f' =>
    -- the checksum is first found at or above `B`: not deep enough
    have hge := length_le_of_firstCheckpointWith hpre hF hC
    have hdepth := params.depth_pos
    rw [hC, Option.getD_some] at hidx
    cases hb : chainActive[f']? with
    | none =>
      simp [checkStakeInput, hidx, hb]
    | some pindex =>
      rw [hb, Option.map_some] at hidx
      have hshallow : ¬ params.nZerocoinRequiredStakeDepth ≤ ancestry.length - f' := by omega
      simp [contextualCheckZerocoinStake_of_getIndexFrom ancestry hidx, hshallow]

/-- Where `B`'s lowest ancestor holding the checksum is `f`, the checks read the same
block, the same modifier block and the same checksum as the reference. -/
theorem checkStakeInput_and_contextual_of_some (params : StakeParams)
    {chainActive ancestry : CChain} (hpre : ancestry <+: chainActive) (stake : ZerocoinStake)
    (hcp : CheckpointsEvery10 ancestry stake.denom) {f : Nat}
    (hF : firstAncestorWith ancestry stake.denom stake.nChecksum = some f)
    (hm : heightToModifierHeight params f ≠ 0) (nBits nTime : UInt32) :
    (checkStakeInput hashKernel params chainActive stake nBits nTime &&
        contextualCheckZerocoinStake params chainActive ancestry stake) =
      stakeReferenceFor hashKernel params ancestry stake nBits nTime := by
  have hidx := getIndexFrom_eq chainActive stake
  rw [getChecksumHeight_eq, firstCheckpointWith_of_isPrefix hpre hcp hF, Option.getD_some] at hidx
  have hflt : f < ancestry.length := by
    rw [firstAncestorWith, List.find?_range_eq_some] at hF
    exact List.mem_range.mp hF.2.1
  obtain ⟨pfrom, hpfrom⟩ : ∃ pfrom, ancestry[f]? = some pfrom :=
    Option.isSome_iff_exists.mp (by simp [hflt])
  rw [getElem?_of_isPrefix hpre hflt, hpfrom, Option.map_some] at hidx
  rw [checkStakeInput_of_getIndexFrom hashKernel hidx, getModifier_of_getIndexFrom hidx,
    contextualCheckZerocoinStake_of_getIndexFrom ancestry hidx]
  simp only [stakeReferenceFor, hF, hpfrom]
  by_cases hm1 : heightToModifierHeight params f < 1
  · -- no modifier: the code gives up, and the reference finds no ancestor there
    have hneg : heightToModifierHeight params f < 0 := by omega
    simp [hm1, getAncestor, hneg]
  · -- the modifier block is below `f`, so in `B`'s ancestry
    have hmlt := heightToModifierHeight_lt params f
    have hmnn : ¬ heightToModifierHeight params f < 0 := by omega
    have hmget : chainActive[(heightToModifierHeight params f).toNat]? =
        ancestry[(heightToModifierHeight params f).toNat]? :=
      getElem?_of_isPrefix hpre (by omega)
    simp only [hm1, if_false, hmget, getAncestor, hmnn]
    cases ancestry[(heightToModifierHeight params f).toNat]? with
    | none => simp
    | some pmod =>
      simp only [Option.map_some]
      cases checkKernel hashKernel params stake (getLow64 (pmod.getAccumulatorHash stake.denom))
        pfrom.nTime nBits nTime <;> simp

/-- **With `chainActive` extending `B`'s ancestry, `AcceptBlock`'s proof-of-stake verdict
is the one read off `B`'s ancestry**, where the checkpoints of that ancestry change
every 10 blocks and the block the stake is from is not among the blocks `k … 2k - 1`
whose modifier height is genesis. -/
theorem acceptBlockProofOfStake_eq_stakeReference (params : StakeParams)
    {chainActive ancestry : CChain} (hpre : ancestry <+: chainActive)
    (hcp : ∀ denom, CheckpointsEvery10 ancestry denom) (tx : CoinstakeInput σ)
    (hmod : ∀ stake, coinstakeStake hashSerial tx = some stake →
      ∀ f, firstAncestorWith ancestry stake.denom stake.nChecksum = some f →
        f < params.nKernelModulus ∨ 2 * params.nKernelModulus ≤ f)
    (nBits nTime : UInt32) :
    acceptBlockProofOfStake hashKernel hashSerial params chainActive ancestry tx nBits nTime =
      stakeReference hashKernel hashSerial params ancestry tx nBits nTime := by
  rw [acceptBlockProofOfStake_eq]
  unfold stakeReference
  cases hs : coinstakeStake hashSerial tx with
  | none => rfl
  | some stake =>
    show (checkStakeInput hashKernel params chainActive stake nBits nTime &&
      contextualCheckZerocoinStake params chainActive ancestry stake) =
        stakeReferenceFor hashKernel params ancestry stake nBits nTime
    -- split on `B`'s lowest ancestor holding the checksum
    cases hF : firstAncestorWith ancestry stake.denom stake.nChecksum with
    | none =>
      rw [checkStakeInput_and_contextual_of_none hashKernel params hpre stake hF]
      simp only [stakeReferenceFor, hF]
    | some f =>
      exact checkStakeInput_and_contextual_of_some hashKernel params hpre stake (hcp stake.denom) hF
        (heightToModifierHeight_ne_zero params (hmod stake hs f hF)) nBits nTime

end

/-! ## What the checks read of the stake -/

/-- The chain checks read the stake's checksum and denomination, not its serial. -/
theorem contextualCheckZerocoinStake_congr (params : StakeParams) (chainActive ancestry : CChain)
    (stake stake' : ZerocoinStake) (hc : stake.nChecksum = stake'.nChecksum)
    (hd : stake.denom = stake'.denom) :
    contextualCheckZerocoinStake params chainActive ancestry stake =
      contextualCheckZerocoinStake params chainActive ancestry stake' := by
  unfold contextualCheckZerocoinStake getIndexFrom ZerocoinStake.getValue
  rw [hc, hd]

/-- Where the product of the value and the target per coin day wraps below the
target, the target is all ones and every hash but one hits it. -/
theorem stakeTargetHit_of_wrap {hashProofOfStake bnTargetPerCoinDay : ArithUint256}
    {nValueIn : Int64}
    (h : bnTargetPerCoinDay > BitVec.ofNat 256 nValueIn.toBitVec.toNat * bnTargetPerCoinDay) :
    stakeTargetHit hashProofOfStake nValueIn bnTargetPerCoinDay =
      (hashProofOfStake != BitVec.allOnes 256) := by
  simp only [stakeTargetHit, if_pos h]
  rw [Bool.eq_iff_iff, decide_eq_true_iff, bne_iff_ne]
  exact BitVec.lt_allOnes_iff

section

variable (hashKernel : UInt64 → UInt32 → ArithUint256 → UInt32 → ArithUint256)

/-- The reference verdict once the block the stake is from, the checksum at the stake
depth and the modifier block are known. -/
theorem stakeReferenceFor_eq_checkKernel {params : StakeParams} {ancestry : CChain}
    {stake : ZerocoinStake} {nHeightFrom : Nat} {pindexModifier pindexFrom : CBlockIndex}
    (hf : firstAncestorWith ancestry stake.denom stake.nChecksum = some nHeightFrom)
    (hdepth : params.nZerocoinRequiredStakeDepth ≤ ancestry.length - nHeightFrom)
    (hhash : hasAccumulatorHash ancestry stake.denom stake.nChecksum
      (ancestry.length - params.nZerocoinRequiredStakeDepth) = true)
    (hmod : getAncestor ancestry (heightToModifierHeight params nHeightFrom) = some pindexModifier)
    (hfrom : ancestry[nHeightFrom]? = some pindexFrom) (nBits nTime : UInt32) :
    stakeReferenceFor hashKernel params ancestry stake nBits nTime =
      checkKernel hashKernel params stake (getLow64 (pindexModifier.getAccumulatorHash stake.denom))
        pindexFrom.nTime nBits nTime := by
  simp [stakeReferenceFor, hf, hdepth, hhash, hmod, hfrom]

end

/-! ## Two states of `chainActive`, two verdicts -/

/-- Accumulator hashes with `h` for the ten-coin denomination and `uint256()` for the
others. -/
def tenHashes (h : ArithUint256) : CoinDenomination → ArithUint256
  | .ZQ_TEN => h
  | _ => 0

/-- Testnet blocks `0 … 39`, a minute apart, below `B`: the ten-coin checkpoint is `5`
from height `20` on. -/
def stakeAncestry : CChain :=
  (List.range 40).map fun n =>
    ⟨UInt32.ofNat (1548849600 + 60 * n), tenHashes (if n < 20 then 0 else 5)⟩

/-- The active chain of a rival branch: the blocks `0 … 19` of `stakeAncestry`, a
checkpoint `7` from height `20` on, and the checkpoint `5` (the same coins, accumulated
later) only at its tip, height `40`. -/
def rivalChain : CChain :=
  (List.range 41).map fun n =>
    ⟨UInt32.ofNat (1548849600 + 60 * n),
      tenHashes (if n < 20 then 0 else if n < 40 then 7 else 5)⟩

/-- `B`'s coinstake: one input, a ten-coin `STAKE` spend of serial `0` against the
checksum `5`. -/
def stakeCoinstake : CoinstakeInput Nat where
  isCoinStake := true
  vinSize := 1
  isZerocoinSpend := true
  spend := some ⟨.ZQ_TEN, 0, 5, .STAKE⟩

theorem coinstakeStake_stakeCoinstake (hashSerial : Nat → ArithUint256) :
    coinstakeStake hashSerial stakeCoinstake = some ⟨5, .ZQ_TEN, hashSerial 0⟩ := rfl

/-- **The verdict on `B` depends on `chainActive`.**  On testnet, `B` at height `40`
with the coinstake above and `nBits = 0x207fffff` gets the reference verdict while
`chainActive` is its own ancestry, and is refused while `chainActive` is the rival
branch, where the checksum first appears at height `40` ("zerocoin stake does not have
required confirmation depth").  The reference accepts `B` unless the kernel hash is
all ones, whatever the hash functions. -/
theorem acceptBlockProofOfStake_depends_on_chainActive
    (hashKernel : UInt64 → UInt32 → ArithUint256 → UInt32 → ArithUint256)
    (hashSerial : Nat → ArithUint256) :
    acceptBlockProofOfStake hashKernel hashSerial testNetStakeParams stakeAncestry stakeAncestry
        stakeCoinstake 0x207fffff 1548852000 =
      stakeReference hashKernel hashSerial testNetStakeParams stakeAncestry stakeCoinstake
        0x207fffff 1548852000 ∧
    acceptBlockProofOfStake hashKernel hashSerial testNetStakeParams rivalChain stakeAncestry
        stakeCoinstake 0x207fffff 1548852000 = false ∧
    stakeReference hashKernel hashSerial testNetStakeParams stakeAncestry stakeCoinstake
        0x207fffff 1548852000 =
      (hashKernel 0 1548850800 (hashSerial 0) 1548852000 != BitVec.allOnes 256) := by
  have hfirst : firstAncestorWith stakeAncestry .ZQ_TEN 5 = some 20 := by decide
  refine ⟨?_, ?_, ?_⟩
  · -- `chainActive` is `B`'s ancestry: the refinement theorem applies
    refine acceptBlockProofOfStake_eq_stakeReference hashKernel hashSerial testNetStakeParams
      (List.prefix_refl stakeAncestry) (fun denom => by cases denom <;> decide) stakeCoinstake
      ?_ 0x207fffff 1548852000
    intro stake hs f hf
    rw [coinstakeStake_stakeCoinstake] at hs
    cases hs
    rw [hfirst] at hf
    cases hf
    right
    decide
  · -- on the rival branch the block the stake is from is `B`'s height itself
    have hctx : contextualCheckZerocoinStake testNetStakeParams rivalChain stakeAncestry
        ⟨5, .ZQ_TEN, hashSerial 0⟩ = false := by
      rw [contextualCheckZerocoinStake_congr testNetStakeParams rivalChain stakeAncestry
        ⟨5, .ZQ_TEN, hashSerial 0⟩ ⟨5, .ZQ_TEN, 0⟩ rfl rfl]
      decide
    rw [acceptBlockProofOfStake_eq, coinstakeStake_stakeCoinstake]
    simp only [hctx, Bool.and_false]
  · -- the stake is from block `20`, its modifier from block `10`
    unfold stakeReference
    rw [coinstakeStake_stakeCoinstake]
    dsimp only
    rw [stakeReferenceFor_eq_checkKernel hashKernel hfirst (by decide) (by dsimp only; decide) rfl rfl]
    have hwrap : (setCompact 0x207fffff).1 > BitVec.ofNat 256
        (CoinDenomination.ZQ_TEN.toInt64 * COIN).toBitVec.toNat * (setCompact 0x207fffff).1 := by
      decide
    have hvalue : (if (UInt32.toInt32 1548852000).toInt > testNetStakeParams.nTimeEnforceWeightReduction
        then weightStake (ZerocoinStake.getValue ⟨5, .ZQ_TEN, hashSerial 0⟩) .ZQ_TEN
        else ZerocoinStake.getValue ⟨5, .ZQ_TEN, hashSerial 0⟩) = CoinDenomination.ZQ_TEN.toInt64 * COIN := by
      simp only [ZerocoinStake.getValue]
      decide
    have hmodifier : getLow64 (CBlockIndex.getAccumulatorHash
        ⟨UInt32.ofNat (1548849600 + 60 * 10), tenHashes (if 10 < 20 then 0 else 5)⟩ .ZQ_TEN) = 0 := by
      decide
    have htime : UInt32.ofNat (1548849600 + 60 * 20) = 1548850800 := by decide
    simp only [checkKernel, checkStake]
    rw [hvalue, hmodifier, htime, stakeTargetHit_of_wrap hwrap]

end Veil.ProofOfStake
