import Veil.Coins.Undo
import Veil.Codec.VarInt
import Veil.Primitives.TransactionCodec
/-!
# The checks of a transaction: `consensus/tx_verify.cpp`

`CheckTransaction` looks at a transaction alone: inputs and outputs present, the serialized size
bounded, each output checked by its kind and the total of the standard ones kept in range, no
outpoint or zerocoin spend given twice. `CheckTxInputs` looks at it over the coins: every input
present (`HaveInputs`), its coins tallied by kind, no two kinds of input mixed, and the fee paid.
The secp256k1 and libzerocoin primitives the two call are the fields of `TxVerifyContext`.

The results are what `ConnectBlock` relies on when it updates the coins (`Veil.Coins.Undo`): a
transaction both checks accept spends distinct outpoints that have coins, mixes no anon input with
others, and has non-null outputs, fewer than `2 ^ 32` (`txConnectable_of_checks`). Neither check
aborts on such a transaction: the `assert(!coin.IsSpent())` of the input loop always holds, and
`GetPlainValueOut` never throws (`checkTxInputs_no_abort`). Where no value is blinded, what the
outputs carry and the fee add up to what the inputs bring (`checkTxInputs_conserves`).

A zerocoin spend input is credited `nSequence & 0xffff` coins, and its proof is checked only when
the transaction `IsZerocoinSpend`, which looks at the first input alone
(`zerocoin_credit_unchecked`).
-/

/-- A bind of `Except` succeeds when both of its parts do. -/
theorem Except.bind_eq_ok {ε α β : Type _} {x : Except ε α} {f : α → Except ε β} {b : β} :
    x >>= f = .ok b ↔ ∃ a, x = .ok a ∧ f a = .ok b := by
  cases x <;> simp [bind, Except.bind]

/-- A bind of `Except` fails where its first part fails, or where its second does. -/
theorem Except.bind_eq_error {ε α β : Type _} {x : Except ε α} {f : α → Except ε β} {e : ε} :
    x >>= f = .error e ↔ x = .error e ∨ ∃ a, x = .ok a ∧ f a = .error e := by
  cases x <;> simp [bind, Except.bind]

/-- A `map` of `Except` succeeds where what it maps does. -/
theorem Except.map_eq_ok {ε α β : Type _} {f : α → β} {x : Except ε α} {b : β} :
    x.map f = .ok b ↔ ∃ a, x = .ok a ∧ f a = b := by
  cases x <;> simp [Except.map]

/-- A `map` of `Except` fails where what it maps does. -/
theorem Except.map_eq_error {ε α β : Type _} {f : α → β} {x : Except ε α} {e : ε} :
    x.map f = .error e ↔ x = .error e := by
  cases x <;> simp [Except.map]

/-- A `mapError` succeeds where what it maps does. -/
theorem Except.mapError_eq_ok {ε ε' α : Type _} {f : ε → ε'} {x : Except ε α} {a : α} :
    x.mapError f = .ok a ↔ x = .ok a := by
  cases x <;> simp [Except.mapError]

namespace Veil

open Coins

namespace Consensus

/-- How a check of this file fails. `reject` is `state.DoS` or `state.Invalid` with a reject
reason; `fail` a `return false` or `return error(...)` that sets none, with what it logs;
`exception` a `std::runtime_error` thrown; `assertion` an `assert` that does not hold;
`nullDereference` a null pointer dereferenced, undefined behaviour. -/
inductive TxValidationError
  | reject (reason : String)
  | fail (log : String)
  | exception (what : String)
  | assertion (expr : String)
  | nullDereference (expr : String)
  deriving DecidableEq, Repr

/-- What the checks read besides the transaction and the coins: chain parameters, the flag
`fSkipRangeproof`, and the primitives of secp256k1 and libzerocoin, left abstract. -/
structure TxVerifyContext where
  /-- `Params().CoinbaseMaturity()`. -/
  coinbaseMaturity : Int
  /-- `Params().Zerocoin_MaxSpendsPerTransaction()`. -/
  zerocoinMaxSpendsPerTransaction : Int
  /-- `Params().Zerocoin_MintFee()`. -/
  zerocoinMintFee : CAmount
  fSkipRangeproof : Bool
  /-- `CheckZerocoinMint`: the value of the public coin of a mint output, `none` where
  `TxOutToPublicCoin` fails or the coin does not validate. -/
  checkZerocoinMint : CTxOut → Option Nat
  /-- `CheckZerocoinSpend`, the whole check of a zerocoin spend transaction. -/
  checkZerocoinSpend : CTransaction → Except TxValidationError Unit
  /-- `secp256k1_rangeproof_verify` of a range proof against a commitment returns `1`. -/
  rangeproofVerify : Blob 33 → List UInt8 → Bool
  /-- `Hash` of a script. -/
  hashScript : CScript → Uint256
  /-- `secp256k1_pedersen_commit` of a value with a zero blinding factor, where it succeeds. -/
  pedersenCommit : UInt64 → Option (Blob 33)
  /-- `secp256k1_pedersen_verify_tally` returns `1`. -/
  verifyTally : List (Blob 33) → List (Blob 33) → Bool

end Consensus

open Consensus

/-! ## What the checks read of outputs and transactions -/

namespace CTxOutBase

@[simp] theorem nVersion_standard (nValue : CAmount) (scriptPubKey : CScript) :
    (standard nValue scriptPubKey).nVersion = OUTPUT_STANDARD := rfl

@[simp] theorem nVersion_ct (commitment : Blob 33) (vData : List UInt8) (scriptPubKey : CScript)
    (vRangeproof : List UInt8) : (ct commitment vData scriptPubKey vRangeproof).nVersion = OUTPUT_CT :=
  rfl

@[simp] theorem nVersion_ringct (pk : Blob 33) (vData : List UInt8) (commitment : Blob 33)
    (vRangeproof : List UInt8) : (ringct pk vData commitment vRangeproof).nVersion = OUTPUT_RINGCT :=
  rfl

@[simp] theorem nVersion_data (vData : List UInt8) : (data vData).nVersion = OUTPUT_DATA := rfl

/-- `IsEmpty`: only a standard output of value `0` with an empty script. -/
def isEmpty : CTxOutBase → Bool
  | standard nValue scriptPubKey => nValue == 0 && scriptPubKey.isEmpty
  | _ => false

/-- `GetPCommitment`: CT and RingCT outputs carry a commitment. -/
def getPCommitment : CTxOutBase → Option (Blob 33)
  | ct commitment .. => some commitment
  | ringct _ _ commitment _ => some commitment
  | _ => none

end CTxOutBase

namespace CMutableTransaction

/-- `CTransaction::IsCoinStake`: one input, spending a zerocoin, and more than one output, the
first empty. -/
def isCoinStake (tx : CMutableTransaction) : Bool :=
  match tx.vin, tx.vpout with
  | [txin], out :: _ :: _ => txin.scriptSig.isZerocoinSpend && out.isEmpty
  | _, _ => false

/-- `CTransaction::GetCTFee`: the fee a first data output of a transaction of two outputs or more
holds, read into `nFee` by `CTxOutData::GetCTFee`. -/
def getCTFee (tx : CMutableTransaction) (nFee : UInt64) : Bool × UInt64 :=
  match tx.vpout with
  | .data vData :: _ :: _ => Veil.getCTFee vData nFee
  | _ => (false, nFee)

/-- `GetPlainValueOut` from the output list on: the total of the standard outputs, carried on from
`nValueOut`, and the counters `nStandard`, `nCT` and `nRingCT`, which it adds to and never clears.
It throws where an output's value or the total leaves `MoneyRange`. -/
def getPlainValueOutLoop :
    List CTxOutBase → CAmount → Nat → Nat → Nat →
      Except TxValidationError (CAmount × Nat × Nat × Nat)
  | [], nValueOut, nStandard, nCT, nRingCT => .ok (nValueOut, nStandard, nCT, nRingCT)
  | out :: vpout, nValueOut, nStandard, nCT, nRingCT =>
    let nCT := if out.isType OUTPUT_CT then nCT + 1 else nCT
    let nRingCT := if !out.isType OUTPUT_CT && out.isType OUTPUT_RINGCT then nRingCT + 1 else nRingCT
    if !out.isStandardOutput then getPlainValueOutLoop vpout nValueOut nStandard nCT nRingCT
    else
      let nValueOut := nValueOut + out.getValue
      if !moneyRange out.getValue || !moneyRange nValueOut then
        .error (.exception "GetPlainValueOut: value out of range")
      else getPlainValueOutLoop vpout nValueOut (nStandard + 1) nCT nRingCT

/-- `CTransaction::GetPlainValueOut(nStandard, nCT, nRingCT)`. -/
def getPlainValueOut (tx : CMutableTransaction) (nStandard nCT nRingCT : Nat) :
    Except TxValidationError (CAmount × Nat × Nat × Nat) :=
  getPlainValueOutLoop tx.vpout 0 nStandard nCT nRingCT

end CMutableTransaction

namespace Coins.CoinsStack

/-- The loop of `HaveInputs`: every input but a zerocoin spend or an anon one has a coin. -/
def haveInputsLoop : List CTxIn → CoinsStack → Bool × CoinsStack
  | [], s => (true, s)
  | txin :: vin, s =>
    if txin.scriptSig.isZerocoinSpend || txin.isAnonInput then haveInputsLoop vin s
    else
      let r := s.haveCoin txin.prevout
      if r.1 then haveInputsLoop vin r.2 else (false, r.2)

/-- `CCoinsViewCache::HaveInputs`: a coinbase has no inputs to look for. -/
def haveInputs (s : CoinsStack) (tx : CTransaction) : Bool × CoinsStack :=
  if !tx.isCoinBase then haveInputsLoop tx.vin s else (true, s)

end Coins.CoinsStack

namespace Consensus

/-- The value a zerocoin spend input claims: `nSequence & SEQUENCE_LOCKTIME_MASK`, as a `CAmount`,
times `COIN`. -/
def zerocoinSpendValue (txin : CTxIn) : CAmount :=
  Int64.ofNat (txin.nSequence &&& CTxIn.SEQUENCE_LOCKTIME_MASK).toNat * COIN

/-! ## `CheckTransaction` -/

section CheckTransaction

variable (C : TxVerifyContext)

/-- `CheckValue`: the output total after a standard output of value `nValue`. -/
def checkValue (nValue nValueOut : CAmount) : Except TxValidationError CAmount :=
  if nValue < 0 then .error (.reject "bad-txns-vout-negative")
  else if nValue > MAX_MONEY then .error (.reject "bad-txns-vout-toolarge")
  else .ok (nValueOut + nValue)

/-- `CheckStandardOutput`: the output total after the output, and `bnPubcoin`, the value of its
public coin if the output is a zerocoin mint and `0` if not. -/
def checkStandardOutput (nValue : CAmount) (scriptPubKey : CScript) (nValueOut : CAmount) :
    Except TxValidationError (CAmount × Nat) := do
  let bnPubcoin ← (if scriptPubKey.isZerocoinMint then
      match C.checkZerocoinMint ⟨nValue, scriptPubKey⟩ with
      | some bn => pure bn
      | none => throw (.fail "CheckStandardOutput: zerocoin mint check failed")
    else pure 0)
  let nValueOut ← checkValue nValue nValueOut
  pure (nValueOut, bnPubcoin)

/-- The checks `CheckBlindOutput` and `CheckAnonOutput` share: the size of the ephemeral data and
of the range proof, then the range proof itself unless `fSkipRangeproof`. -/
def checkRangeproofOutput (ephemSize rangeproofSize rangeproofVerify : String)
    (vData : List UInt8) (commitment : Blob 33) (vRangeproof : List UInt8) :
    Except TxValidationError Unit :=
  if vData.length < 33 || vData.length > 33 + 5 then .error (.reject ephemSize)
  else if vRangeproof.length > 5134 then .error (.reject rangeproofSize)
  else if C.fSkipRangeproof then .ok ()
  else if C.rangeproofVerify commitment vRangeproof then .ok ()
  else .error (.reject rangeproofVerify)

/-- `CheckBlindOutput`, of a CT output. -/
def checkBlindOutput (vData : List UInt8) (commitment : Blob 33) (vRangeproof : List UInt8) :
    Except TxValidationError Unit :=
  checkRangeproofOutput C "bad-ctout-ephem-size" "bad-ctout-rangeproof-size"
    "bad-ctout-rangeproof-verify" vData commitment vRangeproof

/-- `CheckAnonOutput`, of a RingCT output. -/
def checkAnonOutput (vData : List UInt8) (commitment : Blob 33) (vRangeproof : List UInt8) :
    Except TxValidationError Unit :=
  checkRangeproofOutput C "bad-rctout-ephem-size" "bad-rctout-rangeproof-size"
    "bad-rctout-rangeproof-verify" vData commitment vRangeproof

/-- `MAX_DATA_OUTPUT_SIZE`: `DO_STEALTH` 33, `DO_STEALTH_PREFIX` 4, `DO_NARR_CRYPT` at most 32. -/
def MAX_DATA_OUTPUT_SIZE : Nat := 34 + 5 + 34

/-- `CheckDataOutput`. -/
def checkDataOutput (vData : List UInt8) : Except TxValidationError Unit :=
  if vData.length < 1 then .error (.reject "bad-output-data-size")
  else if vData.length > MAX_DATA_OUTPUT_SIZE then .error (.reject "bad-output-data-size")
  else .ok ()

/-- The counters and the total of the output loop of `CheckTransaction`. -/
structure OutputTally where
  nStandardOutputs : Nat
  nValueOut : CAmount
  nDataOutputs : Nat
  setPubCoin : List Nat
  nZerocoinMints : Nat
  nRingCTOut : Nat
  nCTOut : Nat

def OutputTally.init : OutputTally := ⟨0, 0, 0, [], 0, 0, 0⟩

/-- One case of the `switch` on the output's `nVersion`. The model's outputs are of the four
known kinds, so the `default` case, "bad-txns-unknown-output-version", is not reached. -/
def checkOutput (t : OutputTally) : CTxOutBase → Except TxValidationError OutputTally
  | .standard nValue scriptPubKey => do
    let (nValueOut, bnPubCoin) ← checkStandardOutput C nValue scriptPubKey t.nValueOut
    let nZerocoinMints := if scriptPubKey.isZerocoinMint then t.nZerocoinMints + 1
      else t.nZerocoinMints
    let setPubCoin ← (if bnPubCoin ≠ 0 then
        if bnPubCoin ∈ t.setPubCoin then throw (.reject "bad-txns-duplicate-zerocoinmints")
        else pure (bnPubCoin :: t.setPubCoin)
      else pure t.setPubCoin)
    pure { t with nValueOut, nZerocoinMints, setPubCoin,
                  nStandardOutputs := t.nStandardOutputs + 1 }
  | .ct commitment vData _ vRangeproof => do
    checkBlindOutput C vData commitment vRangeproof
    pure { t with nCTOut := t.nCTOut + 1 }
  | .ringct _ vData commitment vRangeproof => do
    checkAnonOutput C vData commitment vRangeproof
    pure { t with nRingCTOut := t.nRingCTOut + 1 }
  | .data vData => do
    checkDataOutput vData
    pure { t with nDataOutputs := t.nDataOutputs + 1 }

/-- The output loop of `CheckTransaction`: each output checked, then the total. -/
def checkOutputs : List CTxOutBase → OutputTally → Except TxValidationError OutputTally
  | [], t => .ok t
  | out :: vpout, t => do
    let t ← checkOutput C t out
    if !moneyRange t.nValueOut then throw (.reject "bad-txns-txouttotal-toolarge")
    else checkOutputs vpout t

/-- The input loop of `CheckTransaction`: the hash of a zerocoin spend's script, else the prevout
of an input that is not anon, must not be in the set of those before it. -/
def checkInputsUnique :
    List CTxIn → List Uint256 → List COutPoint →
      Except TxValidationError (List Uint256 × List COutPoint)
  | [], hashes, outpoints => .ok (hashes, outpoints)
  | txin :: vin, hashes, outpoints =>
    if txin.scriptSig.isZerocoinSpend then
      if C.hashScript txin.scriptSig ∈ hashes then
        .error (.reject "bad-txns-inputs-duplicate-zcspend")
      else checkInputsUnique vin (C.hashScript txin.scriptSig :: hashes) outpoints
    else if !txin.isAnonInput then
      if txin.prevout ∈ outpoints then .error (.reject "bad-txns-inputs-duplicate")
      else checkInputsUnique vin hashes (txin.prevout :: outpoints)
    else checkInputsUnique vin hashes outpoints

/-- The shape of the inputs by the kind of transaction: a coinbase's script is 2 to 100 bytes, a
zerocoin spend has at most `Zerocoin_MaxSpendsPerTransaction` inputs, and no other transaction
has a null prevout but on an anon input. -/
def checkInputShape (tx : CTransaction) : Except TxValidationError Unit :=
  if tx.isCoinBase then
    match tx.vin with
    | txin :: _ =>
      if txin.scriptSig.length < 2 || txin.scriptSig.length > 100 then
        .error (.reject "bad-cb-length")
      else .ok ()
    | [] => .ok ()
  else if tx.isZerocoinSpend then
    if tx.vin.length < 1 || (tx.vin.length : Int) > C.zerocoinMaxSpendsPerTransaction then
      .error (.reject "bad-zerocoinspend")
    else .ok ()
  else if tx.vin.any fun txin => !txin.isAnonInput && txin.prevout.isNull then
    .error (.reject "bad-txns-prevout-null")
  else .ok ()

/-- `CheckTransaction`. The size counts the witness: `SerializeTransaction` ignores
`SERIALIZE_TRANSACTION_NO_WITNESS`. -/
def checkTransaction (tx : CTransaction) : Except TxValidationError Unit :=
  if tx.vin.isEmpty then .error (.reject "bad-txns-vin-empty")
  else if (serializeTransaction tx).length * WITNESS_SCALE_FACTOR > MAX_BLOCK_WEIGHT then
    .error (.reject "bad-txns-oversize")
  else if tx.vpout.isEmpty then .error (.reject "bad-txns-vpout-empty")
  else do
    let t ← checkOutputs C tx.vpout OutputTally.init
    if t.nDataOutputs > 1 + t.nStandardOutputs then throw (.reject "too-many-data-outputs")
    else if t.nRingCTOut ≠ 0 && t.nCTOut ≠ 0 then
      throw (.reject "bad-txns-both-ringctout-and-ctout")
    else do
      let _ ← checkInputsUnique C tx.vin [] []
      checkInputShape C tx
      if tx.isZerocoinSpend then C.checkZerocoinSpend tx else pure ()

end CheckTransaction

/-! ## `HaveInputs` and `CheckTxInputs` -/


section CheckTxInputs

variable (C : TxVerifyContext)

/-- The counters, the total and the commitments of the input loop of `CheckTxInputs`. -/
structure InputTally where
  nBasecoin : Nat
  nCt : Nat
  nRingCT : Nat
  nZerocoin : Nat
  nValueIn : CAmount
  vpCommitsIn : List (Blob 33)
  fHasAnonInput : Bool

def InputTally.init : InputTally := ⟨0, 0, 0, 0, 0, [], false⟩

/-- How many kinds of input the tally has met: `(nBasecoin > 0) + (nCt > 0) + (nRingCT > 0) +
(nZerocoin > 0)`. -/
def InputTally.nKinds (t : InputTally) : Nat :=
  (if t.nBasecoin > 0 then 1 else 0) + (if t.nCt > 0 then 1 else 0) +
    (if t.nRingCT > 0 then 1 else 0) + (if t.nZerocoin > 0 then 1 else 0)

/-- One pass of the input loop of `CheckTxInputs`: an anon input is counted, a zerocoin spend is
credited its claimed value, any other input's coin is read, asserted unspent, checked mature if a
coinbase's, and counted by its kind, its value added if standard, its commitment kept if CT. -/
def checkInput (nSpendHeight : Int) (t : InputTally) (txin : CTxIn) (s : CoinsStack) :
    Except TxValidationError (InputTally × CoinsStack) :=
  if txin.isAnonInput then .ok ({ t with fHasAnonInput := true, nRingCT := t.nRingCT + 1 }, s)
  else if txin.scriptSig.isZerocoinSpend then
    if !moneyRange (zerocoinSpendValue txin) then .error (.fail "")
    else .ok ({ t with nValueIn := t.nValueIn + zerocoinSpendValue txin,
                       nZerocoin := t.nZerocoin + 1 }, s)
  else
    let r := s.accessCoin txin.prevout
    if r.1.isSpent then .error (.assertion "!coin.IsSpent()")
    else if r.1.fCoinBase && nSpendHeight - r.1.nHeight.val < C.coinbaseMaturity then
      .error (.reject "bad-txns-premature-spend-of-coinbase")
    else if r.1.nType = OUTPUT_STANDARD then
      if !moneyRange r.1.out.nValue || !moneyRange (t.nValueIn + r.1.out.nValue) then
        .error (.reject "bad-txns-inputvalues-outofrange")
      else .ok ({ t with nValueIn := t.nValueIn + r.1.out.nValue,
                         nBasecoin := t.nBasecoin + 1 }, r.2)
    else if r.1.nType = OUTPUT_CT then
      .ok ({ t with vpCommitsIn := t.vpCommitsIn ++ [r.1.commitment], nCt := t.nCt + 1 }, r.2)
    else .error (.reject "bad-txns-input-type")

/-- The input loop of `CheckTxInputs`, from the first input. -/
def tallyInputs (nSpendHeight : Int) :
    List CTxIn → InputTally → CoinsStack → Except TxValidationError (InputTally × CoinsStack)
  | [], t, s => .ok (t, s)
  | txin :: vin, t, s => do
    let (t, s) ← checkInput C nSpendHeight t txin s
    tallyInputs nSpendHeight vin t s

/-- The fee of a transaction that is not a coinstake: read from the fee output where a value is
blinded, else the difference of the plain values, which must not be negative. -/
def txFee (tx : CTransaction) (nValueIn nPlainValueOut : CAmount) (fBlinded : Bool) :
    Except TxValidationError CAmount := do
  let txfee ← (if fBlinded then
      match tx.getCTFee 0 with
      | (true, nFee) => pure nFee.toInt64
      | (false, _) => throw (.reject "bad-fee-output")
    else if nValueIn < nPlainValueOut then throw (.reject "bad-txns-in-belowout")
    else pure (nValueIn - nPlainValueOut))
  if txfee < 0 then throw (.reject "bad-txns-fee-negative")
  else if !moneyRange (0 + txfee) then throw (.reject "bad-txns-fee-outofrange")
  else pure txfee

/-- Where a CT coin or output takes part: the plain values, the fee added to the outputs', made
into commitments, which with those of the coins and the outputs must tally. Returns the plain
value out. -/
def checkCommitments (tx : CTransaction) (nValueIn nPlainValueOut txfee : CAmount)
    (vpCommitsIn : List (Blob 33)) : Except TxValidationError CAmount :=
  if !moneyRange (nPlainValueOut + txfee) then .error (.reject "bad-txns-out-outofrange")
  else if !moneyRange nValueIn then .error (.reject "bad-txns-in-outofrange")
  else do
    let vpCommitsIn ← (if nValueIn > 0 then
        match C.pedersenCommit nValueIn.toUInt64 with
        | some c => pure (vpCommitsIn ++ [c])
        | none => throw (.reject "commit-failed")
      else pure vpCommitsIn)
    let vpCommitsOut ← (if nPlainValueOut + txfee > 0 then
        match C.pedersenCommit (nPlainValueOut + txfee).toUInt64 with
        | some c => pure [c]
        | none => throw (.reject "commit-failed")
      else pure [])
    if !C.verifyTally vpCommitsIn (vpCommitsOut ++ tx.vpout.filterMap (·.getPCommitment)) then
      throw (.reject "bad-commitment-sum")
    else pure (nPlainValueOut + txfee)

/-- What `CheckTxInputs` returns through its reference arguments and the validation state. -/
structure TxInputsResult where
  txfee : CAmount
  nValueIn : CAmount
  nValueOut : CAmount
  fHasAnonInput : Bool
  fHasAnonOutput : Bool

/-- The checks of `CheckTxInputs` after its input loop, over the tally `t`: no two kinds of input,
RingCT outputs only from blinded inputs, the fee, the commitments where a CT coin or output takes
part, and the fee of the zerocoin mints. -/
def checkTxValues (tx : CTransaction) (t : InputTally) : Except TxValidationError TxInputsResult :=
  if t.nKinds > 1 then .error (.reject "mixed-input-types")
  else do
    -- `GetPlainValueOut` adds the outputs to the counters of the inputs
    let (nPlainValueOut, _, nCt, nRingCT) ← tx.getPlainValueOut t.nBasecoin t.nCt t.nRingCT
    if nRingCT ≠ 0 && t.nRingCT = 0 && t.nCt = 0 then
      throw (.reject "bad-txns-ringct-output-no-anonin")
    else do
      let txfee ← (if !tx.isCoinStake then
          txFee tx t.nValueIn nPlainValueOut (nCt > 0 || nRingCT > 0)
        else if nCt > 0 || nRingCT > 0 then throw (.reject "bad-coinstake-outputs")
        else pure (nPlainValueOut - t.nValueIn))
      let nPlainValueOut ← (if nCt > 0 then
          checkCommitments C tx t.nValueIn nPlainValueOut txfee t.vpCommitsIn
        else pure nPlainValueOut)
      if txfee < Int64.ofNat (tx.vpout.filter (·.isZerocoinMint)).length * C.zerocoinMintFee then
        throw (.reject "low-zerocoinmint-fee")
      else pure ⟨txfee, t.nValueIn, nPlainValueOut, t.fHasAnonInput, nRingCT > t.nRingCT⟩

/-- `Consensus::CheckTxInputs` at the height `nSpendHeight`. Its reads go through the caches, so
the stack after it is returned. -/
def checkTxInputs (s : CoinsStack) (tx : CTransaction) (nSpendHeight : Int) :
    Except TxValidationError (TxInputsResult × CoinsStack) :=
  if tx.vin.length < 1 then .error (.reject "bad-txn-no-inputs")
  else if !(s.haveInputs tx).1 then .error (.reject "bad-txns-inputs-missingorspent")
  else do
    let (t, s) ← tallyInputs C nSpendHeight tx.vin InputTally.init (s.haveInputs tx).2
    let r ← checkTxValues C tx t
    pure (r, s)

end CheckTxInputs

/-! ## The values of the outputs -/

/-- The values of the standard outputs, in order. -/
def plainValues (vpout : List CTxOutBase) : List CAmount :=
  vpout.filterMap fun out => if out.isStandardOutput then some out.getValue else none

/-- The value of the standard outputs, as an integer. -/
def plainValueOut (vpout : List CTxOutBase) : Int := ((plainValues vpout).map Int64.toInt).sum

theorem plainValues_cons (out : CTxOutBase) (vpout : List CTxOutBase) :
    plainValues (out :: vpout) =
      if out.isStandardOutput then out.getValue :: plainValues vpout else plainValues vpout := by
  unfold plainValues
  split <;> simp [*]

/-- Each value, and each running total from `acc`, is in `MoneyRange`: what `CheckTransaction` and
`GetPlainValueOut` each check of the standard outputs. -/
def MoneyChecked : CAmount → List CAmount → Prop
  | _, [] => True
  | acc, v :: vs => moneyRange v = true ∧ moneyRange (acc + v) = true ∧ MoneyChecked (acc + v) vs

theorem moneyRange_iff (v : CAmount) :
    moneyRange v = true ↔ 0 ≤ v.toInt ∧ v.toInt ≤ 30000000000000000 := by
  have hmax : MAX_MONEY.toInt = 30000000000000000 := by decide
  simp only [moneyRange, Bool.and_eq_true, decide_eq_true_eq]
  rw [Int64.le_iff_toInt_le, Int64.le_iff_toInt_le, Int64.toInt_zero, hmax]

/-- Two amounts in `MoneyRange` add without wrapping. -/
theorem toInt_add_of_moneyRange {a b : CAmount} (ha : moneyRange a = true)
    (hb : moneyRange b = true) : (a + b).toInt = a.toInt + b.toInt := by
  rw [moneyRange_iff] at ha hb
  rw [Int64.toInt_add]
  exact Int.bmod_eq_of_le (by omega) (by omega)

theorem MoneyChecked.moneyRange_of_mem :
    ∀ {acc : CAmount} {vs : List CAmount}, MoneyChecked acc vs → ∀ v ∈ vs, moneyRange v = true
  | _, [], _, _, hv => nomatch hv
  | _, _ :: _, ⟨hv, _, hvs⟩, v, hmem => by
    rcases List.mem_cons.mp hmem with rfl | hmem
    · exact hv
    · exact hvs.moneyRange_of_mem v hmem

/-- Over a checked list the machine total is the integer total. -/
theorem MoneyChecked.toInt_foldl :
    ∀ {acc : CAmount} {vs : List CAmount}, moneyRange acc = true → MoneyChecked acc vs →
      (vs.foldl (· + ·) acc).toInt = acc.toInt + (vs.map Int64.toInt).sum ∧
        moneyRange (vs.foldl (· + ·) acc) = true
  | _, [], hacc, _ => by simp [hacc]
  | acc, v :: vs, hacc, ⟨hv, hsum, hvs⟩ => by
    obtain ⟨ih, hr⟩ := hvs.toInt_foldl hsum
    rw [List.foldl_cons, ih, toInt_add_of_moneyRange hacc hv, List.map_cons, List.sum_cons]
    exact ⟨by ring, hr⟩

/-- `GetPlainValueOut` returns exactly where the standard outputs are checked, the total and the
counters advanced by the kinds of the outputs. -/
theorem getPlainValueOutLoop_eq_ok :
    ∀ {vpout : List CTxOutBase} {acc : CAmount} {a b c : Nat} {r : CAmount × Nat × Nat × Nat},
      CMutableTransaction.getPlainValueOutLoop vpout acc a b c = .ok r ↔
        MoneyChecked acc (plainValues vpout) ∧
          r = ((plainValues vpout).foldl (· + ·) acc, a + (plainValues vpout).length,
            b + (vpout.filter (·.isType OUTPUT_CT)).length,
            c + (vpout.filter (·.isType OUTPUT_RINGCT)).length)
  | [], _, _, _, _, _ => by
    simp only [CMutableTransaction.getPlainValueOutLoop, plainValues, List.filterMap_nil,
      MoneyChecked, List.foldl_nil, List.length_nil, List.filter_nil, Nat.add_zero, true_and,
      Except.ok.injEq]
    exact eq_comm
  | out :: vpout, acc, a, b, c, r => by
    -- the kinds are exclusive: a standard output is neither CT nor RingCT
    cases out <;> simp only [CMutableTransaction.getPlainValueOutLoop, plainValues_cons,
      CTxOutBase.isStandardOutput, CTxOutBase.isType, CTxOutBase.nVersion_standard,
      CTxOutBase.nVersion_ct, CTxOutBase.nVersion_ringct, CTxOutBase.nVersion_data,
      OUTPUT_STANDARD, OUTPUT_CT, OUTPUT_RINGCT, OUTPUT_DATA] <;> simp
    case standard nValue scriptPubKey =>
      split
      · rename_i hbad
        simp only [reduceCtorEq, false_iff, MoneyChecked, not_and]
        intro hv _
        simp only [CTxOutBase.getValue] at hv
        rcases hbad with h | h
        · exact Bool.false_ne_true (h ▸ hv.1)
        · exact Bool.false_ne_true (h ▸ hv.2.1)
      · rename_i hgood
        rw [getPlainValueOutLoop_eq_ok]
        simp only [CTxOutBase.getValue] at hgood ⊢
        simp only [not_or, Bool.not_eq_false] at hgood
        simp [MoneyChecked, CTxOutBase.isType, OUTPUT_STANDARD, OUTPUT_CT, OUTPUT_RINGCT, hgood,
          Nat.add_assoc, Nat.add_comm 1]
    all_goals
      rw [getPlainValueOutLoop_eq_ok]
      simp [CTxOutBase.isType, OUTPUT_CT, OUTPUT_RINGCT, OUTPUT_DATA, Nat.add_assoc, Nat.add_comm 1]


/-! ## What `CheckTransaction` establishes -/

section CheckTransactionSpec

variable {C : TxVerifyContext}

theorem checkTransaction_ok {tx : CTransaction} (h : checkTransaction C tx = .ok ()) :
    tx.vin ≠ [] ∧ (serializeTransaction tx).length * WITNESS_SCALE_FACTOR ≤ MAX_BLOCK_WEIGHT ∧
      (∃ t, checkOutputs C tx.vpout OutputTally.init = .ok t) ∧
      (∃ r, checkInputsUnique C tx.vin [] [] = .ok r) ∧ checkInputShape C tx = .ok () := by
  unfold checkTransaction at h
  split at h
  · cases h
  rename_i hvin
  split at h
  · cases h
  rename_i hsize
  split at h
  · cases h
  obtain ⟨t, ht, h⟩ := Except.bind_eq_ok.mp h
  split at h
  · cases h
  split at h
  · cases h
  obtain ⟨r, hr, h⟩ := Except.bind_eq_ok.mp h
  obtain ⟨u, hu, -⟩ := Except.bind_eq_ok.mp h
  refine ⟨fun he => by simp [he] at hvin, by omega, ⟨t, ht⟩, ⟨r, hr⟩, hu⟩

theorem checkValue_ok {nValue nValueOut r : CAmount} (h : checkValue nValue nValueOut = .ok r) :
    moneyRange nValue = true ∧ r = nValueOut + nValue := by
  unfold checkValue at h
  split at h
  · cases h
  rename_i hneg
  split at h
  · cases h
  rename_i hmax
  cases h
  refine ⟨?_, rfl⟩
  rw [Int64.lt_iff_toInt_lt, Int64.toInt_zero] at hneg
  rw [gt_iff_lt, Int64.lt_iff_toInt_lt] at hmax
  have hMAX : MAX_MONEY.toInt = 30000000000000000 := by decide
  rw [moneyRange_iff]
  omega

/-- One output checked: a standard one has its value in `MoneyRange`, added to the total. -/
theorem checkOutput_ok {t t' : OutputTally} {out : CTxOutBase} (h : checkOutput C t out = .ok t') :
    (out.isStandardOutput = true → moneyRange out.getValue = true) ∧
      t'.nValueOut = if out.isStandardOutput then t.nValueOut + out.getValue else t.nValueOut := by
  cases out with
  | standard nValue scriptPubKey =>
    obtain ⟨⟨nValueOut, bn⟩, hs, h⟩ := Except.bind_eq_ok.mp h
    obtain ⟨bn', -, hs⟩ := Except.bind_eq_ok.mp hs
    obtain ⟨v, hv, hs⟩ := Except.bind_eq_ok.mp hs
    obtain ⟨hr, rfl⟩ := checkValue_ok hv
    cases hs
    obtain ⟨_, -, h⟩ := Except.bind_eq_ok.mp h
    cases h
    exact ⟨fun _ => hr, rfl⟩
  | ct => obtain ⟨_, -, h⟩ := Except.bind_eq_ok.mp h; cases h; exact ⟨nofun, rfl⟩
  | ringct => obtain ⟨_, -, h⟩ := Except.bind_eq_ok.mp h; cases h; exact ⟨nofun, rfl⟩
  | data => obtain ⟨_, -, h⟩ := Except.bind_eq_ok.mp h; cases h; exact ⟨nofun, rfl⟩

/-- The output loop checks the standard outputs as `MoneyChecked` says. -/
theorem checkOutputs_moneyChecked :
    ∀ {vpout : List CTxOutBase} {t t' : OutputTally}, checkOutputs C vpout t = .ok t' →
      MoneyChecked t.nValueOut (plainValues vpout)
  | [], _, _, _ => trivial
  | out :: vpout, t, t', h => by
    obtain ⟨t₁, h₁, h⟩ := Except.bind_eq_ok.mp h
    split at h
    · cases h
    rename_i hrange
    have ih := checkOutputs_moneyChecked h
    obtain ⟨hv, heq⟩ := checkOutput_ok h₁
    rw [plainValues_cons]
    split
    · rename_i hstd
      rw [heq, if_pos hstd] at ih hrange
      exact ⟨hv hstd, by simpa using hrange, ih⟩
    · rename_i hstd
      rwa [heq, if_neg hstd] at ih

/-- The input loop leaves the prevouts that are neither zerocoin spends nor anon distinct, and
distinct from those it started with. -/
theorem checkInputsUnique_nodup :
    ∀ {vin : List CTxIn} {hashes : List Uint256} {outpoints : List COutPoint}
      {r : List Uint256 × List COutPoint},
      outpoints.Nodup → checkInputsUnique C vin hashes outpoints = .ok r →
        (plainPrevouts vin ++ outpoints).Nodup
  | [], _, _, _, hnd, _ => hnd
  | txin :: vin, hashes, outpoints, r, hnd, h => by
    unfold checkInputsUnique at h
    split at h
    · rename_i hz
      split at h
      · cases h
      rw [plainPrevouts_cons_of_zerocoin hz]
      exact checkInputsUnique_nodup hnd h
    · rename_i hz
      split at h
      · rename_i ha
        split at h
        · cases h
        rename_i hmem
        rw [plainPrevouts_cons_of_plain (by simpa using ha) (by simpa using hz), List.cons_append,
          ← List.nodup_middle]
        exact checkInputsUnique_nodup (List.nodup_cons.mpr ⟨hmem, hnd⟩) h
      · rename_i ha
        rw [plainPrevouts_cons_of_anon (by simpa using ha)]
        exact checkInputsUnique_nodup hnd h

theorem le_length_flatMap {α β : Type} {f : α → List β} {k : Nat} (hf : ∀ a, k ≤ (f a).length) :
    ∀ l : List α, k * l.length ≤ (l.flatMap f).length
  | [] => by simp
  | a :: l => by
    have ih := le_length_flatMap hf l
    have ha := hf a
    rw [List.flatMap_cons, List.length_append, List.length_cons, Nat.mul_succ]
    omega

/-- An input takes 41 bytes at least: its outpoint, the size of its script, its sequence. -/
theorem length_serTxIn_ge (txin : CTxIn) : 41 ≤ (serTxIn txin).length := by
  have hsize : 1 ≤ (writeCompactSize txin.scriptSig.length).length := by
    unfold writeCompactSize
    split_ifs <;> simp
  simp only [serTxIn, serOutPoint, serBlob, serBytes, serWriteData32, List.length_append,
    Codec.Decoder.length_leBytes, List.Vector.toList_length]
  omega

theorem length_serializeTransaction_ge (tx : CMutableTransaction) :
    41 * tx.vin.length + tx.vpout.length ≤ (serializeTransaction tx).length := by
  have hin := le_length_flatMap length_serTxIn_ge tx.vin
  have hout : 1 * tx.vpout.length ≤ (tx.vpout.flatMap serTaggedTxOut).length :=
    le_length_flatMap (fun out => by simp [serTaggedTxOut]) tx.vpout
  simp only [serializeTransaction, serVector, List.length_append] at hin hout ⊢
  omega

/-- **What `CheckTransaction` establishes.** The prevouts that are neither zerocoin spends nor anon
are distinct, the standard outputs and their running total are in `MoneyRange`, and inputs and
outputs are few: the serialized size bounds them. -/
theorem checkTransaction_spec {tx : CTransaction} (h : checkTransaction C tx = .ok ()) :
    (plainPrevouts tx.vin).Nodup ∧ MoneyChecked 0 (plainValues tx.vpout) ∧
      41 * tx.vin.length + tx.vpout.length ≤ 2000000 := by
  obtain ⟨-, hsize, ⟨t, ht⟩, ⟨r, hr⟩, -⟩ := checkTransaction_ok h
  refine ⟨?_, checkOutputs_moneyChecked ht, ?_⟩
  · simpa using checkInputsUnique_nodup List.nodup_nil hr
  · have := length_serializeTransaction_ge tx
    simp only [WITNESS_SCALE_FACTOR, MAX_BLOCK_WEIGHT] at hsize
    omega

/-- Checked standard outputs are not null, and the others have value `0`. -/
theorem getValue_ne_of_moneyChecked {acc : CAmount} {vpout : List CTxOutBase}
    (h : MoneyChecked acc (plainValues vpout)) : ∀ out ∈ vpout, out.getValue ≠ -1 := by
  intro out hout
  by_cases hstd : out.isStandardOutput = true
  · have hmem : out.getValue ∈ plainValues vpout :=
      List.mem_filterMap.mpr ⟨out, hout, by simp [hstd]⟩
    have hr := (moneyRange_iff _).mp (h.moneyRange_of_mem _ hmem)
    intro he
    rw [he] at hr
    exact absurd hr.1 (by decide)
  · cases out with
    | standard => exact absurd rfl hstd
    | _ => simp only [CTxOutBase.getValue]; decide

end CheckTransactionSpec

/-! ## What `CheckTxInputs` establishes -/

/-- A failure that is no verdict on the transaction: an exception, which no caller of the checks
catches, an assertion that does not hold, or a null pointer dereferenced. -/
def TxValidationError.isAbort : TxValidationError → Bool
  | .exception _ => true
  | .assertion _ => true
  | .nullDereference _ => true
  | _ => false

/-- The value `CheckTxInputs` credits an input with, over the coins map `V`: a zerocoin spend the
value it claims, a standard coin its value; an anon input and a CT coin show none. -/
def creditedValue (V : CoinsMap) (txin : CTxIn) : Int :=
  if txin.isAnonInput then 0
  else if txin.scriptSig.isZerocoinSpend then (zerocoinSpendValue txin).toInt
  else match V txin.prevout with
    | some c => if c.nType = OUTPUT_STANDARD then c.out.nValue.toInt else 0
    | none => 0

/-- The value the inputs bring, as an integer. -/
def valueIn (V : CoinsMap) (vin : List CTxIn) : Int := (vin.map (creditedValue V)).sum

/-- A zerocoin spend claims at most `0xffff` coins. -/
theorem zerocoinSpendValue_toInt (txin : CTxIn) :
    0 ≤ (zerocoinSpendValue txin).toInt ∧ (zerocoinSpendValue txin).toInt ≤ 6553500000000 := by
  have hmask : (txin.nSequence &&& CTxIn.SEQUENCE_LOCKTIME_MASK).toNat ≤ 65535 := by
    rw [UInt32.toNat_and]
    exact (Nat.and_le_right).trans (by decide)
  have hof : (Int64.ofNat (txin.nSequence &&& CTxIn.SEQUENCE_LOCKTIME_MASK).toNat).toInt =
      (txin.nSequence &&& CTxIn.SEQUENCE_LOCKTIME_MASK).toNat :=
    Int64.toInt_ofNat_of_lt (by omega)
  have hcoin : COIN.toInt = 100000000 := by decide
  rw [zerocoinSpendValue, Int64.toInt_mul, hof, hcoin, Int.bmod_eq_of_le (by omega) (by omega)]
  omega

/-- Two non-negative amounts add without wrapping while their sum stays below `2 ^ 63`. -/
theorem toInt_add_of_nonneg {a b : CAmount} (ha : 0 ≤ a.toInt) (hb : 0 ≤ b.toInt)
    (h : a.toInt + b.toInt < 2 ^ 63) : (a + b).toInt = a.toInt + b.toInt := by
  rw [Int64.toInt_add]
  exact Int.bmod_eq_of_le (by omega) (by omega)

section CheckTxInputsSpec

variable {C : TxVerifyContext} {nSpendHeight : Int}

theorem mem_plainPrevouts_cons {p : COutPoint} {txin : CTxIn} {vin : List CTxIn}
    (h : p ∈ plainPrevouts vin) : p ∈ plainPrevouts (txin :: vin) := by
  unfold plainPrevouts at h ⊢
  rw [List.filter_cons]
  split
  · exact List.mem_cons_of_mem _ h
  · exact h

/-- The loop of `HaveInputs` reads without changing a level, and answers whether every input
that is neither a zerocoin spend nor anon has a coin at the top level. -/
theorem haveInputsLoop_spec :
    ∀ (vin : List CTxIn) (s : CoinsStack),
      (CoinsStack.haveInputsLoop vin s).2.levels = s.levels ∧
        (s.Sound → (CoinsStack.haveInputsLoop vin s).2.Sound) ∧
        ((CoinsStack.haveInputsLoop vin s).1 = true ↔
          ∀ p ∈ plainPrevouts vin, (s.levels.top p).isSome)
  | [], s => by simp [CoinsStack.haveInputsLoop, plainPrevouts]
  | txin :: vin, s => by
    unfold CoinsStack.haveInputsLoop
    split
    · rename_i hskip
      -- a zerocoin spend or an anon input is not looked up
      have hpp : plainPrevouts (txin :: vin) = plainPrevouts vin := by
        rcases Bool.or_eq_true_iff.mp hskip with hz | ha
        · exact plainPrevouts_cons_of_zerocoin hz
        · exact plainPrevouts_cons_of_anon ha
      rw [hpp]
      exact haveInputsLoop_spec vin s
    · rename_i hplain
      simp only [Bool.or_eq_true, not_or, Bool.not_eq_true] at hplain
      have hpp : plainPrevouts (txin :: vin) = txin.prevout :: plainPrevouts vin :=
        plainPrevouts_cons_of_plain hplain.2 hplain.1
      have hlev : (s.haveCoin txin.prevout).2.levels = s.levels :=
        CoinsStack.levels_fetchCoin s txin.prevout
      have hsound : s.Sound → (s.haveCoin txin.prevout).2.Sound :=
        fun hs => CoinsStack.sound_fetchCoin hs txin.prevout
      have hhave := CoinsStack.haveCoin_levels s txin.prevout
      obtain ⟨ih₁, ih₂, ih₃⟩ := haveInputsLoop_spec vin (s.haveCoin txin.prevout).2
      rw [hlev] at ih₃
      dsimp only
      split
      · rename_i hb
        refine ⟨ih₁.trans hlev, fun hs => ih₂ (hsound hs), ?_⟩
        rw [ih₃, hpp, List.forall_mem_cons, ← hhave, hb]
        simp
      · rename_i hb
        refine ⟨hlev, hsound, ?_⟩
        rw [hpp, List.forall_mem_cons, ← hhave]
        simp [hb]

/-- `HaveInputs` reads without changing a level, and answers whether every outpoint the
transaction spends has a coin at the top level. -/
theorem haveInputs_spec (s : CoinsStack) (tx : CTransaction) :
    (s.haveInputs tx).2.levels = s.levels ∧ (s.Sound → (s.haveInputs tx).2.Sound) ∧
      ((s.haveInputs tx).1 = true ↔ ∀ p ∈ spentOutpoints tx, (s.levels.top p).isSome) := by
  unfold CoinsStack.haveInputs spentOutpoints
  cases tx.isCoinBase
  · exact haveInputsLoop_spec tx.vin s
  · simp

/-- **One pass of the input loop.** The stack keeps its levels; an anon input is counted; a
zerocoin spend is credited its claimed value; any other input has a coin at the top level, either
standard, its value in range with the total, or CT. -/
theorem checkInput_ok {t t' : InputTally} {txin : CTxIn} {s s' : CoinsStack}
    (h : checkInput C nSpendHeight t txin s = .ok (t', s')) :
    s'.levels = s.levels ∧ (s.Sound → s'.Sound) ∧
      (txin.isAnonInput = true ∧ t' = { t with fHasAnonInput := true, nRingCT := t.nRingCT + 1 } ∨
        txin.isAnonInput = false ∧ txin.scriptSig.isZerocoinSpend = true ∧
          t' = { t with nValueIn := t.nValueIn + zerocoinSpendValue txin,
                        nZerocoin := t.nZerocoin + 1 } ∨
        txin.isAnonInput = false ∧ txin.scriptSig.isZerocoinSpend = false ∧
          ∃ c, s.levels.top txin.prevout = some c ∧
            (c.nType = OUTPUT_STANDARD ∧ moneyRange c.out.nValue = true ∧
                moneyRange (t.nValueIn + c.out.nValue) = true ∧
                t' = { t with nValueIn := t.nValueIn + c.out.nValue, nBasecoin := t.nBasecoin + 1 } ∨
              c.nType = OUTPUT_CT ∧
                t' = { t with vpCommitsIn := t.vpCommitsIn ++ [c.commitment], nCt := t.nCt + 1 })) := by
  unfold checkInput at h
  split at h
  · rename_i ha
    cases h
    exact ⟨rfl, id, .inl ⟨ha, rfl⟩⟩
  rename_i ha
  rw [Bool.not_eq_true] at ha
  split at h
  · rename_i hz
    split at h
    · cases h
    cases h
    exact ⟨rfl, id, .inr (.inl ⟨ha, hz, rfl⟩)⟩
  rename_i hz
  rw [Bool.not_eq_true] at hz
  dsimp only at h
  split at h
  · cases h
  rename_i hspent
  -- the coin read is the top level's, and it is not spent
  have htop : s.levels.top txin.prevout = some (s.accessCoin txin.prevout).1 := by
    rw [← CoinsStack.accessCoin_levels]
    exact unspent_of_not_isSpent (by simpa using hspent)
  have hlev : (s.accessCoin txin.prevout).2.levels = s.levels :=
    CoinsStack.levels_fetchCoin s txin.prevout
  have hsound : s.Sound → (s.accessCoin txin.prevout).2.Sound :=
    fun hs => CoinsStack.sound_fetchCoin hs txin.prevout
  split at h
  · cases h
  split at h
  · rename_i hstd
    split at h
    · cases h
    rename_i hrange
    simp only [Bool.or_eq_true, Bool.not_eq_true', not_or, Bool.not_eq_false] at hrange
    cases h
    exact ⟨hlev, hsound, .inr (.inr ⟨ha, hz, _, htop, .inl ⟨hstd, hrange.1, hrange.2, rfl⟩⟩)⟩
  · split at h
    · rename_i hct
      cases h
      exact ⟨hlev, hsound, .inr (.inr ⟨ha, hz, _, htop, .inr ⟨hct, rfl⟩⟩)⟩
    · cases h

/-- One pass of the input loop fails only by a verdict where the input's coin is there. -/
theorem checkInput_isAbort {t : InputTally} {txin : CTxIn} {s : CoinsStack}
    {e : TxValidationError}
    (hhave : txin.isAnonInput = false → txin.scriptSig.isZerocoinSpend = false →
      (s.levels.top txin.prevout).isSome)
    (h : checkInput C nSpendHeight t txin s = .error e) : e.isAbort = false := by
  unfold checkInput at h
  split at h
  · cases h
  rename_i ha
  split at h
  · split at h
    · cases h
      rfl
    · cases h
  rename_i hz
  dsimp only at h
  split at h
  · rename_i hspent
    -- `HaveInputs` found the coin, so the assertion holds
    have hsome := hhave (by simpa using ha) (by simpa using hz)
    rw [← CoinsStack.accessCoin_levels, unspent, if_pos (by simpa using hspent)] at hsome
    cases hsome
  split at h
  · cases h
    rfl
  split at h
  · split at h
    · cases h
      rfl
    · cases h
  split at h
  · cases h
  · cases h
    rfl

/-- The input loop reads without changing a level. -/
theorem tallyInputs_levels :
    ∀ {vin : List CTxIn} {t t' : InputTally} {s s' : CoinsStack},
      tallyInputs C nSpendHeight vin t s = .ok (t', s') → s'.levels = s.levels ∧ (s.Sound → s'.Sound)
  | [], _, _, _, _, h => by
    cases h
    exact ⟨rfl, id⟩
  | txin :: vin, t, t', s, s', h => by
    obtain ⟨⟨t₁, s₁⟩, h₁, h⟩ := Except.bind_eq_ok.mp h
    obtain ⟨hlev₁, hsound₁, -⟩ := checkInput_ok h₁
    obtain ⟨hlev, hsound⟩ := tallyInputs_levels h
    exact ⟨hlev.trans hlev₁, fun hs => hsound (hsound₁ hs)⟩

/-- The loop counts the anon inputs as RingCT, and every other input as standard, CT or zerocoin. -/
theorem tallyInputs_counts :
    ∀ {vin : List CTxIn} {t t' : InputTally} {s s' : CoinsStack},
      tallyInputs C nSpendHeight vin t s = .ok (t', s') →
        t'.nRingCT = t.nRingCT + (vin.filter (·.isAnonInput)).length ∧
        t'.nBasecoin + t'.nCt + t'.nZerocoin =
          t.nBasecoin + t.nCt + t.nZerocoin + (vin.filter (!·.isAnonInput)).length
  | [], _, _, _, _, h => by
    cases h
    simp
  | txin :: vin, t, t', s, s', h => by
    obtain ⟨⟨t₁, s₁⟩, h₁, h⟩ := Except.bind_eq_ok.mp h
    obtain ⟨ih₁, ih₂⟩ := tallyInputs_counts h
    obtain ⟨-, -, ⟨ha, rfl⟩ | ⟨ha, -, rfl⟩ | ⟨ha, -, c, -, ⟨-, -, -, rfl⟩ | ⟨-, rfl⟩⟩⟩ :=
      checkInput_ok h₁ <;> simp only [List.filter_cons, ha] at ih₁ ih₂ ⊢ <;> simp at ih₁ ih₂ ⊢ <;>
      omega

/-- Where no coin spent is CT, the loop counts no CT input. -/
theorem tallyInputs_nCt :
    ∀ {vin : List CTxIn} {t t' : InputTally} {s s' : CoinsStack},
      (∀ p ∈ plainPrevouts vin, ∀ c, s.levels.top p = some c → c.nType ≠ OUTPUT_CT) →
      tallyInputs C nSpendHeight vin t s = .ok (t', s') → t'.nCt = t.nCt
  | [], _, _, _, _, _, h => by
    cases h
    rfl
  | txin :: vin, t, t', s, s', hct, h => by
    obtain ⟨⟨t₁, s₁⟩, h₁, h⟩ := Except.bind_eq_ok.mp h
    obtain ⟨hlev₁, -, hcase⟩ := checkInput_ok h₁
    have hrest : ∀ p ∈ plainPrevouts vin, ∀ c, s₁.levels.top p = some c → c.nType ≠ OUTPUT_CT :=
      fun p hp c hc => hct p (mem_plainPrevouts_cons hp) c (hlev₁ ▸ hc)
    rw [tallyInputs_nCt hrest h]
    rcases hcase with ⟨-, rfl⟩ | ⟨-, -, rfl⟩ | ⟨ha, hz, c, hc, ⟨-, -, -, rfl⟩ | ⟨hctc, -⟩⟩
    · rfl
    · rfl
    · rfl
    · exact absurd hctc (hct _ (by rw [plainPrevouts_cons_of_plain ha hz]; exact List.mem_cons_self) c hc)

/-- The total the loop keeps is the integer total of what it credits: a standard coin's value is
checked in range with the total, and the zerocoin claims, which are not, are too few to wrap. -/
theorem tallyInputs_nValueIn :
    ∀ (vin : List CTxIn) {t t' : InputTally} {s s' : CoinsStack},
      tallyInputs C nSpendHeight vin t s = .ok (t', s') →
      0 ≤ t.nValueIn.toInt → t.nValueIn.toInt ≤ 30000000000000000 + t.nZerocoin * 6553500000000 →
      (t.nZerocoin + vin.length) * 6553500000000 + 60000000000000000 < 9223372036854775808 →
        t'.nValueIn.toInt = t.nValueIn.toInt + valueIn s.levels.top vin ∧ 0 ≤ t'.nValueIn.toInt ∧
          t'.nValueIn.toInt ≤ 30000000000000000 + t'.nZerocoin * 6553500000000
  := by
  intro vin
  induction vin with
  | nil =>
    intro t t' s s' h h₀ h₁ _
    cases h
    simp [valueIn, h₀, h₁]
  | cons txin vin ih =>
    intro t t' s s' h h₀ h₁ hn
    obtain ⟨⟨t₁, s₁⟩, hpass, h⟩ := Except.bind_eq_ok.mp h
    obtain ⟨hlev₁, -, hcase⟩ := checkInput_ok hpass
    rw [List.length_cons] at hn
    -- one pass: what it credits, within the bounds
    have hstep : t₁.nValueIn.toInt = t.nValueIn.toInt + creditedValue s.levels.top txin ∧
        0 ≤ t₁.nValueIn.toInt ∧
        t₁.nValueIn.toInt ≤ 30000000000000000 + t₁.nZerocoin * 6553500000000 ∧
        t₁.nZerocoin ≤ t.nZerocoin + 1 := by
      rcases hcase with ⟨ha, rfl⟩ | ⟨ha, hz, rfl⟩ |
          ⟨ha, hz, c, hc, ⟨hstd, hv, hsum, rfl⟩ | ⟨hct, rfl⟩⟩
      · simp [creditedValue, ha, h₀, h₁]
      · obtain ⟨hz₀, hz₁⟩ := zerocoinSpendValue_toInt txin
        have hadd := toInt_add_of_nonneg h₀ hz₀ (by omega)
        simp only [creditedValue, ha, hz, hadd]
        push_cast
        omega
      · rw [moneyRange_iff] at hv hsum
        have hadd := toInt_add_of_nonneg h₀ hv.1 (by omega)
        simp only [creditedValue, ha, hz, hc, hstd, hadd, Bool.false_eq_true, ↓reduceIte]
        refine ⟨trivial, ?_, ?_, Nat.le_succ _⟩ <;> omega
      · have hne : OUTPUT_CT ≠ OUTPUT_STANDARD := by decide
        refine ⟨?_, h₀, h₁, Nat.le_succ _⟩
        simp only [creditedValue, ha, hz, hc, hct, hne, Bool.false_eq_true, ↓reduceIte, add_zero]
    obtain ⟨hv₁, h₀', h₁', hk⟩ := hstep
    have hcount : t₁.nZerocoin + vin.length ≤ t.nZerocoin + (vin.length + 1) := by omega
    have hb := lt_of_le_of_lt (Nat.add_le_add_right (Nat.mul_le_mul_right 6553500000000 hcount) _) hn
    obtain ⟨hrec, hr⟩ := ih h h₀' h₁' hb
    refine ⟨?_, hr⟩
    rw [hrec, hv₁, hlev₁]
    simp only [valueIn, List.map_cons, List.sum_cons]
    ring

/-- Where every coin the inputs spend is there, the loop fails only by a verdict. -/
theorem tallyInputs_isAbort :
    ∀ {vin : List CTxIn} {t : InputTally} {s : CoinsStack} {e : TxValidationError},
      (∀ p ∈ plainPrevouts vin, (s.levels.top p).isSome) →
      tallyInputs C nSpendHeight vin t s = .error e → e.isAbort = false
  | [], _, _, _, _, h => by cases h
  | txin :: vin, t, s, e, hhave, h => by
    rcases Except.bind_eq_error.mp h with hpass | ⟨⟨t₁, s₁⟩, hpass, h⟩
    · refine checkInput_isAbort (fun ha hz => hhave _ ?_) hpass
      rw [plainPrevouts_cons_of_plain ha hz]
      exact List.mem_cons_self
    · obtain ⟨hlev₁, -, -⟩ := checkInput_ok hpass
      exact tallyInputs_isAbort (fun p hp => hlev₁ ▸ hhave p (mem_plainPrevouts_cons hp)) h

/-- The fee fails only by a verdict. -/
theorem txFee_error {tx : CTransaction} {nValueIn nPlainValueOut : CAmount} {fBlinded : Bool}
    {e : TxValidationError} (h : txFee tx nValueIn nPlainValueOut fBlinded = .error e) :
    ∃ reason, e = .reject reason := by
  unfold txFee at h
  rcases Except.bind_eq_error.mp h with h | ⟨_, -, h⟩ <;> (repeat' split at h) <;> cases h <;>
    exact ⟨_, rfl⟩

/-- The fee where no value is blinded: the plain values' difference, in range. -/
theorem txFee_unblinded {tx : CTransaction} {nValueIn nPlainValueOut txfee : CAmount}
    (h : txFee tx nValueIn nPlainValueOut false = .ok txfee) :
    ¬ nValueIn < nPlainValueOut ∧ txfee = nValueIn - nPlainValueOut ∧ moneyRange txfee = true := by
  unfold txFee at h
  obtain ⟨fee, hfee, h⟩ := Except.bind_eq_ok.mp h
  simp only [Bool.false_eq_true, ↓reduceIte] at hfee
  split at hfee
  · cases hfee
  rename_i hlt
  cases hfee
  split at h
  · cases h
  split at h
  · cases h
  rename_i hrange
  cases h
  rw [Int64.zero_add] at hrange
  exact ⟨hlt, rfl, by simpa using hrange⟩

/-- The commitments fail only by a verdict. -/
theorem checkCommitments_error {tx : CTransaction} {nValueIn nPlainValueOut txfee : CAmount}
    {vpCommitsIn : List (Blob 33)} {e : TxValidationError}
    (h : checkCommitments C tx nValueIn nPlainValueOut txfee vpCommitsIn = .error e) :
    ∃ reason, e = .reject reason := by
  unfold checkCommitments at h
  split at h
  · cases h
    exact ⟨_, rfl⟩
  split at h
  · cases h
    exact ⟨_, rfl⟩
  rcases Except.bind_eq_error.mp h with h | ⟨_, -, h⟩
  · (repeat' split at h) <;> cases h
    exact ⟨_, rfl⟩
  rcases Except.bind_eq_error.mp h with h | ⟨_, -, h⟩ <;> (repeat' split at h) <;> cases h <;>
    exact ⟨_, rfl⟩

/-- After the input loop, where the standard outputs are checked, `CheckTxInputs` fails only by a
verdict: `GetPlainValueOut` does not throw. -/
theorem checkTxValues_isAbort {tx : CTransaction} {t : InputTally} {e : TxValidationError}
    (hout : MoneyChecked 0 (plainValues tx.vpout)) (h : checkTxValues C tx t = .error e) :
    e.isAbort = false := by
  unfold checkTxValues at h
  split at h
  · cases h
    rfl
  rcases Except.bind_eq_error.mp h with h | ⟨⟨_, _, _, _⟩, -, h⟩
  · have hok :=
      (@getPlainValueOutLoop_eq_ok tx.vpout 0 t.nBasecoin t.nCt t.nRingCT _).mpr ⟨hout, rfl⟩
    rw [CMutableTransaction.getPlainValueOut, hok] at h
    cases h
  dsimp only at h
  split at h
  · cases h
    rfl
  rcases Except.bind_eq_error.mp h with h | ⟨txfee, -, h⟩
  · split at h
    · obtain ⟨_, rfl⟩ := txFee_error h
      rfl
    · split at h <;> cases h
      rfl
  rcases Except.bind_eq_error.mp h with h | ⟨_, -, h⟩
  · split at h
    · obtain ⟨_, rfl⟩ := checkCommitments_error h
      rfl
    · cases h
  split at h
  · cases h
    rfl
  · cases h

/-- `CheckTxInputs` accepts where `HaveInputs` finds the coins, the input loop passes over the
stack it leaves, and the checks after the loop pass over the tally. -/
theorem checkTxInputs_ok {s s' : CoinsStack} {tx : CTransaction} {r : TxInputsResult}
    (h : checkTxInputs C s tx nSpendHeight = .ok (r, s')) :
    (s.haveInputs tx).1 = true ∧ ∃ t,
      tallyInputs C nSpendHeight tx.vin InputTally.init (s.haveInputs tx).2 = .ok (t, s') ∧
        checkTxValues C tx t = .ok r := by
  unfold checkTxInputs at h
  split at h
  · cases h
  split at h
  · cases h
  rename_i hhave
  obtain ⟨⟨t, s₁⟩, ht, h⟩ := Except.bind_eq_ok.mp h
  obtain ⟨r', hr, h⟩ := Except.bind_eq_ok.mp h
  cases h
  exact ⟨by simpa using hhave, t, ht, hr⟩

/-- `CheckTxInputs` reads the coins without changing a level. -/
theorem checkTxInputs_levels {s s' : CoinsStack} {tx : CTransaction} {r : TxInputsResult}
    (h : checkTxInputs C s tx nSpendHeight = .ok (r, s')) :
    s'.levels = s.levels ∧ (s.Sound → s'.Sound) := by
  obtain ⟨-, t, ht, -⟩ := checkTxInputs_ok h
  obtain ⟨hlev, hsound⟩ := tallyInputs_levels ht
  obtain ⟨hlev₀, hsound₀, -⟩ := haveInputs_spec s tx
  exact ⟨hlev.trans hlev₀, fun hs => hsound (hsound₀ hs)⟩

theorem checkTxValues_nKinds {tx : CTransaction} {t : InputTally} {r : TxInputsResult}
    (h : checkTxValues C tx t = .ok r) : t.nKinds ≤ 1 := by
  unfold checkTxValues at h
  split at h
  · cases h
  · omega

/-- A tally with an anon input and another one has met two kinds of input. -/
theorem InputTally.two_le_nKinds {t : InputTally} (hr : 0 < t.nRingCT)
    (ho : 0 < t.nBasecoin + t.nCt + t.nZerocoin) : 2 ≤ t.nKinds := by
  unfold InputTally.nKinds
  split_ifs <;> omega

/-- "mixed-input-types": an accepted transaction has all its inputs anon, or none. -/
theorem checkTxInputs_notMixed {s s' : CoinsStack} {tx : CTransaction} {r : TxInputsResult}
    (h : checkTxInputs C s tx nSpendHeight = .ok (r, s')) :
    (∀ txin ∈ tx.vin, txin.isAnonInput = false) ∨ ∀ txin ∈ tx.vin, txin.isAnonInput = true := by
  obtain ⟨-, t, ht, hv⟩ := checkTxInputs_ok h
  obtain ⟨hring, hother⟩ := tallyInputs_counts ht
  have hkinds := checkTxValues_nKinds hv
  simp only [InputTally.init, Nat.zero_add] at hring hother
  by_cases hanon : (tx.vin.filter (·.isAnonInput)).length = 0
  · left
    intro txin htxin
    have := List.filter_eq_nil_iff.mp (List.length_eq_zero_iff.mp hanon) txin htxin
    simpa using this
  · right
    -- an anon input is there, so every other kind is absent
    have hnone : (tx.vin.filter (!·.isAnonInput)).length = 0 := by
      by_contra hsome
      have := InputTally.two_le_nKinds (t := t) (by omega) (by omega)
      omega
    intro txin htxin
    have := List.filter_eq_nil_iff.mp (List.length_eq_zero_iff.mp hnone) txin htxin
    simpa using this

theorem vin_eq_singleton_of_isCoinBase {tx : CTransaction} (h : tx.isCoinBase = true) :
    ∃ txin, tx.vin = [txin] := by
  unfold CMutableTransaction.isCoinBase at h
  split at h
  · exact ⟨_, ‹_›⟩
  · simp at h

/-- **What the checks establish of the coins.** A transaction `CheckTransaction` accepts, and
`CheckTxInputs` too unless it is the coinbase, whose outpoints have no coin yet, is connectable
over the top level: the precondition `UpdateCoins` needs. -/
theorem txConnectable_of_checks {s : CoinsStack} {tx : CTransaction} {txid : Uint256}
    (hct : checkTransaction C tx = .ok ())
    (hin : tx.isCoinBase = false → ∃ r, checkTxInputs C s tx nSpendHeight = .ok r)
    (hfresh : ∀ k < tx.vpout.length, s.levels.top ⟨txid, k.toUInt32⟩ = none) :
    TxConnectable s.levels.top tx txid := by
  obtain ⟨hnodup, hout, hsize⟩ := checkTransaction_spec hct
  refine ⟨?notMixed, ?nodup, ?unspent, getValue_ne_of_moneyChecked hout, by omega, hfresh⟩
  case notMixed =>
    cases hcb : tx.isCoinBase
    · obtain ⟨⟨r, s'⟩, h⟩ := hin hcb
      exact checkTxInputs_notMixed h
    · -- a coinbase has its one input
      obtain ⟨txin, hvin⟩ := vin_eq_singleton_of_isCoinBase hcb
      rw [hvin]
      cases ha : txin.isAnonInput
      · exact .inl (by simpa using ha)
      · exact .inr (by simpa using ha)
  case nodup =>
    unfold spentOutpoints
    split
    · exact List.nodup_nil
    · exact hnodup
  case unspent =>
    cases hcb : tx.isCoinBase
    · obtain ⟨⟨r, s'⟩, h⟩ := hin hcb
      obtain ⟨hhave, -⟩ := checkTxInputs_ok h
      exact (haveInputs_spec s tx).2.2.mp hhave
    · simp [spentOutpoints, hcb]

/-- Where no coin, input or output is blinded and the transaction is no coinstake, the checks after
the loop compute the fee as the plain values' difference, in range, with the standard outputs
checked and their total the value out. -/
theorem checkTxValues_unblinded {tx : CTransaction} {t : InputTally} {r : TxInputsResult}
    (h : checkTxValues C tx t = .ok r) (hct : t.nCt = 0) (hrct : t.nRingCT = 0)
    (hstake : tx.isCoinStake = false)
    (hout : ∀ out ∈ tx.vpout, out.isType OUTPUT_CT = false ∧ out.isType OUTPUT_RINGCT = false) :
    MoneyChecked 0 (plainValues tx.vpout) ∧ r.nValueOut = (plainValues tx.vpout).foldl (· + ·) 0 ∧
      ¬ t.nValueIn < r.nValueOut ∧ r.txfee = t.nValueIn - r.nValueOut ∧
      moneyRange r.txfee = true ∧ r.nValueIn = t.nValueIn := by
  have hnct : (tx.vpout.filter (·.isType OUTPUT_CT)).length = 0 :=
    List.length_eq_zero_iff.mpr (List.filter_eq_nil_iff.mpr fun out h => by simp [(hout out h).1])
  have hnrct : (tx.vpout.filter (·.isType OUTPUT_RINGCT)).length = 0 :=
    List.length_eq_zero_iff.mpr (List.filter_eq_nil_iff.mpr fun out h => by simp [(hout out h).2])
  unfold checkTxValues at h
  split at h
  · cases h
  obtain ⟨⟨v, a, b, c⟩, hv, h⟩ := Except.bind_eq_ok.mp h
  obtain ⟨hchecked, hr⟩ := getPlainValueOutLoop_eq_ok.mp hv
  simp only [Prod.mk.injEq, hct, hrct, hnct, hnrct, Nat.add_zero] at hr
  obtain ⟨rfl, -, rfl, rfl⟩ := hr
  simp only [ne_eq, not_true_eq_false, decide_false, ↓reduceIte, hstake, Bool.not_false,
    gt_iff_lt, Nat.lt_irrefl, Bool.or_self] at h
  obtain ⟨txfee, hfee, h⟩ := Except.bind_eq_ok.mp h
  obtain ⟨hle, rfl, hrange⟩ := txFee_unblinded hfee
  obtain ⟨_, hpure, h⟩ := Except.bind_eq_ok.mp h
  cases hpure
  split at h
  · cases h
  cases h
  exact ⟨hchecked, rfl, hle, rfl, hrange, rfl⟩

/-- **`CheckTxInputs` never aborts.** On a transaction `CheckTransaction` accepts, other than a
coinbase, `CheckTxInputs` fails only by a verdict: the `assert(!coin.IsSpent())` of its input loop
holds, since `HaveInputs` found every coin, and `GetPlainValueOut` does not throw, since
`CheckTransaction` checked the same values. -/
theorem checkTxInputs_no_abort {s : CoinsStack} {tx : CTransaction}
    (hct : checkTransaction C tx = .ok ()) (hcb : tx.isCoinBase = false) :
    ∀ e, checkTxInputs C s tx nSpendHeight = .error e → e.isAbort = false := by
  intro e h
  obtain ⟨-, hout, -⟩ := checkTransaction_spec hct
  unfold checkTxInputs at h
  split at h
  · cases h
    rfl
  split at h
  · cases h
    rfl
  rename_i hhave
  obtain ⟨hlev, -, hiff⟩ := haveInputs_spec s tx
  -- every plain prevout has its coin in the stack the loop starts from
  have hpresent : ∀ p ∈ plainPrevouts tx.vin, ((s.haveInputs tx).2.levels.top p).isSome := by
    intro p hp
    rw [hlev]
    exact hiff.mp (by simpa using hhave) p (by simpa [spentOutpoints, hcb] using hp)
  rcases Except.bind_eq_error.mp h with h | ⟨⟨t, s₁⟩, -, h⟩
  · exact tallyInputs_isAbort hpresent h
  rcases Except.bind_eq_error.mp h with h | ⟨r, -, h⟩
  · exact checkTxValues_isAbort hout h
  · cases h

/-- **No value from nothing.** On a transaction both checks accept, no coinstake and with no value
blinded, the value the inputs bring over the top level is what the loop totals, the standard
outputs take the value out, and the fee makes up the difference, in `MoneyRange`. -/
theorem checkTxInputs_conserves {s s' : CoinsStack} {tx : CTransaction} {r : TxInputsResult}
    (hct : checkTransaction C tx = .ok ()) (h : checkTxInputs C s tx nSpendHeight = .ok (r, s'))
    (hstake : tx.isCoinStake = false) (hblind : tx.hasBlindedValues = false)
    (hin : ∀ p ∈ plainPrevouts tx.vin, ∀ c, s.levels.top p = some c → c.nType ≠ OUTPUT_CT) :
    r.nValueIn.toInt = valueIn s.levels.top tx.vin ∧ r.nValueOut.toInt = plainValueOut tx.vpout ∧
      r.nValueOut.toInt + r.txfee.toInt = r.nValueIn.toInt ∧ moneyRange r.txfee = true := by
  obtain ⟨-, -, hsize⟩ := checkTransaction_spec hct
  obtain ⟨-, t, ht, hv⟩ := checkTxInputs_ok h
  obtain ⟨hlev, -, -⟩ := haveInputs_spec s tx
  -- nothing blinded: no anon input, no CT or RingCT output
  simp only [CMutableTransaction.hasBlindedValues, Bool.or_eq_false_iff, List.any_eq_false,
    Bool.not_eq_true, Bool.or_eq_false_iff] at hblind
  obtain ⟨hnoanon, hnoblind⟩ := hblind
  have hring : t.nRingCT = 0 := by
    rw [(tallyInputs_counts ht).1, List.length_eq_zero_iff.mpr
      (List.filter_eq_nil_iff.mpr fun txin h => by simp [hnoanon txin h])]
    rfl
  have hnct : t.nCt = 0 := tallyInputs_nCt (hlev ▸ hin) ht
  obtain ⟨hchecked, hout, hle, hfee, hrange, hin'⟩ :=
    checkTxValues_unblinded hv hnct hring hstake hnoblind
  -- the inputs are too few for the zerocoin claims to wrap
  have hinit : InputTally.init.nZerocoin = 0 ∧ InputTally.init.nValueIn = 0 := ⟨rfl, rfl⟩
  obtain ⟨htotal, -, -⟩ := tallyInputs_nValueIn tx.vin ht (by decide) (by decide)
    (by rw [hinit.1]; omega)
  obtain ⟨hsum, hmoney⟩ := hchecked.toInt_foldl rfl
  have hvalueIn : r.nValueIn.toInt = valueIn s.levels.top tx.vin := by
    rw [hin', htotal, hlev, hinit.2, Int64.toInt_zero, Int.zero_add]
  have hvalueOut : r.nValueOut.toInt = plainValueOut tx.vpout := by
    rw [hout, hsum]
    simp [plainValueOut]
  refine ⟨hvalueIn, hvalueOut, ?_, hrange⟩
  -- the difference of two non-negative amounts does not wrap
  rw [moneyRange_iff, ← hout] at hmoney
  rw [Int64.lt_iff_toInt_lt] at hle
  have hlt := Int64.toInt_lt t.nValueIn
  rw [hfee, hin', Int64.toInt_sub, Int.bmod_eq_of_le (by omega) (by omega)]
  omega

/-! ## Zerocoin spend inputs of a transaction that is not a zerocoin spend -/

/-- The checks of the outputs and inputs do not read `CheckZerocoinSpend`. -/
theorem checkOutputs_checkZerocoinSpend (z : CTransaction → Except TxValidationError Unit) :
    ∀ (vpout : List CTxOutBase) (t : OutputTally),
      checkOutputs { C with checkZerocoinSpend := z } vpout t = checkOutputs C vpout t
  | [], _ => rfl
  | out :: vpout, t => by
    have hout : checkOutput { C with checkZerocoinSpend := z } t out = checkOutput C t out := by
      cases out <;> rfl
    simp only [checkOutputs, hout, checkOutputs_checkZerocoinSpend z vpout]

theorem checkInputsUnique_checkZerocoinSpend (z : CTransaction → Except TxValidationError Unit) :
    ∀ (vin : List CTxIn) (hashes : List Uint256) (outpoints : List COutPoint),
      checkInputsUnique { C with checkZerocoinSpend := z } vin hashes outpoints =
        checkInputsUnique C vin hashes outpoints
  | [], _, _ => rfl
  | _ :: vin, _, _ => by
    simp only [checkInputsUnique, checkInputsUnique_checkZerocoinSpend z vin]

/-- A pass over a zerocoin spend input, anon or not, does not read the coins. -/
theorem checkInput_of_zerocoin {t : InputTally} {txin : CTxIn}
    (hz : txin.scriptSig.isZerocoinSpend = true) :
    ∃ r : Except TxValidationError InputTally,
      ∀ s, checkInput C nSpendHeight t txin s = r.map (·, s) := by
  unfold checkInput
  by_cases ha : txin.isAnonInput = true
  · exact ⟨.ok _, fun s => by simp [ha]; rfl⟩
  · by_cases hr : (!moneyRange (zerocoinSpendValue txin)) = true
    · exact ⟨.error (.fail ""), fun s => by simp [ha, hz, hr]; rfl⟩
    · exact ⟨.ok _, fun s => by simp [ha, hz, hr]; rfl⟩

/-- Over zerocoin spend inputs, the input loop does not read the coins: its verdict and tally are
the same over every stack, and it hands back the stack it was given. -/
theorem tallyInputs_eq_of_zerocoin :
    ∀ {vin : List CTxIn} {t : InputTally}, (∀ txin ∈ vin, txin.scriptSig.isZerocoinSpend = true) →
      ∃ r : Except TxValidationError InputTally,
        ∀ s, tallyInputs C nSpendHeight vin t s = r.map (·, s)
  | [], t, _ => ⟨.ok t, fun _ => rfl⟩
  | txin :: vin, t, hz => by
    obtain ⟨r, hr⟩ := @checkInput_of_zerocoin C nSpendHeight t txin (hz txin List.mem_cons_self)
    cases r with
    | error e => exact ⟨.error e, fun s => by simp only [tallyInputs, hr]; rfl⟩
    | ok t' =>
      obtain ⟨r', hr'⟩ := @tallyInputs_eq_of_zerocoin vin t'
        fun txin' h => hz txin' (List.mem_cons_of_mem _ h)
      exact ⟨r', fun s => by simp only [tallyInputs, hr]; exact hr' s⟩

theorem plainPrevouts_of_zerocoin {vin : List CTxIn}
    (hz : ∀ txin ∈ vin, txin.scriptSig.isZerocoinSpend = true) : plainPrevouts vin = [] := by
  unfold plainPrevouts
  rw [List.map_eq_nil_iff, List.filter_eq_nil_iff]
  intro txin h
  simp [hz txin h]

theorem haveInputs_of_zerocoin {tx : CTransaction}
    (hz : ∀ txin ∈ tx.vin, txin.scriptSig.isZerocoinSpend = true) (s : CoinsStack) :
    s.haveInputs tx = (true, s) := by
  have hloop : ∀ (vin : List CTxIn), (∀ txin ∈ vin, txin.scriptSig.isZerocoinSpend = true) →
      CoinsStack.haveInputsLoop vin s = (true, s) := by
    intro vin
    induction vin with
    | nil => intro _; rfl
    | cons txin vin ih =>
      intro hz'
      simp only [CoinsStack.haveInputsLoop, hz' txin List.mem_cons_self, Bool.true_or,
        ↓reduceIte]
      exact ih fun txin' h => hz' txin' (List.mem_cons_of_mem _ h)
  unfold CoinsStack.haveInputs
  split
  · exact hloop tx.vin hz
  · rfl

/-- `CheckTxInputs` on a transaction whose inputs are all zerocoin spends reads no coin: its
verdict and result are the same over every stack, which it hands back as it was. -/
theorem checkTxInputs_eq_of_zerocoin {tx : CTransaction}
    (hz : ∀ txin ∈ tx.vin, txin.scriptSig.isZerocoinSpend = true) :
    ∃ r : Except TxValidationError TxInputsResult,
      ∀ s, checkTxInputs C s tx nSpendHeight = r.map (·, s) := by
  obtain ⟨rt, hrt⟩ := @tallyInputs_eq_of_zerocoin C nSpendHeight tx.vin InputTally.init hz
  by_cases hlen : tx.vin.length < 1
  · refine ⟨.error (.reject "bad-txn-no-inputs"), fun s => ?_⟩
    simp only [checkTxInputs, hlen, ↓reduceIte]
    rfl
  refine ⟨rt >>= checkTxValues C tx, fun s => ?_⟩
  simp only [checkTxInputs, hlen, haveInputs_of_zerocoin hz, hrt, Bool.not_true,
    Bool.false_eq_true, ↓reduceIte]
  -- the tally is the same over every stack; only the stack handed back is `s`
  cases rt with
  | error e => rfl
  | ok t => cases checkTxValues C tx t <;> rfl

/-- **Zerocoin credits go unchecked.** A transaction whose inputs all carry a zerocoin spend
script, but which `IsZerocoinSpend` does not take for a zerocoin spend (it looks at the first
input only: its prevout hash must be zero and its denomination between 10 and 10000), spends no
coin when connected; `CheckTransaction` does not run `CheckZerocoinSpend` on it, whatever that
check says; and `CheckTxInputs` gives it the same verdict, with the same value in, whatever the
coins, as over no coins at all. The value in is the `nSequence & 0xffff` coins each input claims
(`checkTxInputs_conserves`). -/
theorem zerocoin_credit_unchecked {tx : CTransaction}
    (hz : ∀ txin ∈ tx.vin, txin.scriptSig.isZerocoinSpend = true)
    (hzs : tx.isZerocoinSpend = false) (s : CoinsStack) :
    spentOutpoints tx = [] ∧
      (∀ z, checkTransaction { C with checkZerocoinSpend := z } tx = checkTransaction C tx) ∧
      (checkTxInputs C s tx nSpendHeight).map Prod.fst =
        (checkTxInputs C emptyStack tx nSpendHeight).map Prod.fst := by
  refine ⟨?_, fun z => ?_, ?_⟩
  · unfold spentOutpoints
    split
    · rfl
    · exact plainPrevouts_of_zerocoin hz
  · have hshape : checkInputShape { C with checkZerocoinSpend := z } tx = checkInputShape C tx :=
      rfl
    simp only [checkTransaction, checkOutputs_checkZerocoinSpend,
      checkInputsUnique_checkZerocoinSpend, hshape, hzs, Bool.false_eq_true, ↓reduceIte]
  · obtain ⟨r, hr⟩ := @checkTxInputs_eq_of_zerocoin C nSpendHeight tx hz
    rw [hr s, hr emptyStack]
    cases r <;> rfl

end CheckTxInputsSpec

/-! ## Transactions the theorems are run on -/

/-- Mainnet's parameters, with primitives that accept every proof and commitment. -/
def mainnetAccepting : TxVerifyContext :=
  ⟨100, 20, CENT, false, fun _ => some 1, fun _ => .ok (), fun _ _ => true, fun _ => Uint256.zero,
    fun _ => some (List.Vector.replicate 33 0), fun _ _ => true⟩

theorem checkTxInputs_no_abort_spendTx :
    checkTransaction mainnetAccepting spendTx = .ok () ∧ spendTx.isCoinBase = false ∧
      ∀ e, checkTxInputs mainnetAccepting emptyStack spendTx 1 = .error e → e.isAbort = false :=
  ⟨by decide, rfl, checkTxInputs_no_abort (by decide) rfl⟩

theorem checkTxInputs_conserves_spendTx :
    checkTransaction mainnetAccepting spendTx = .ok () ∧
      checkTxInputs mainnetAccepting fundedStack spendTx 1 =
        .ok (⟨5, 10, 5, false, false⟩,
          ((fundedStack.haveInputs spendTx).2.accessCoin fundedOutpoint).2) ∧
      spendTx.isCoinStake = false ∧ spendTx.hasBlindedValues = false ∧
      (∀ p ∈ plainPrevouts spendTx.vin, ∀ c, fundedStack.levels.top p = some c →
        c.nType ≠ OUTPUT_CT) ∧
      (10 : CAmount).toInt = valueIn fundedStack.levels.top spendTx.vin ∧
      (5 : CAmount).toInt = plainValueOut spendTx.vpout ∧
      (5 : CAmount).toInt + (5 : CAmount).toInt = (10 : CAmount).toInt ∧
      moneyRange 5 = true := by
  have hct : checkTransaction mainnetAccepting spendTx = .ok () := by decide
  have hin : checkTxInputs mainnetAccepting fundedStack spendTx 1 =
      .ok (⟨5, 10, 5, false, false⟩,
        ((fundedStack.haveInputs spendTx).2.accessCoin fundedOutpoint).2) := rfl
  have hnoct : ∀ p ∈ plainPrevouts spendTx.vin, ∀ c, fundedStack.levels.top p = some c →
      c.nType ≠ OUTPUT_CT := by
    intro p hp c hc
    obtain ⟨-, rfl⟩ : _ ∧ fundedOutpoint = p := by simpa [plainPrevouts, spendTx] using hp
    rw [fundedStack_top, if_pos rfl] at hc
    cases hc
    decide
  exact ⟨hct, hin, rfl, rfl, hnoct, checkTxInputs_conserves hct hin rfl rfl hnoct⟩

/-- A transaction whose one input carries a zerocoin spend script and claims `10000` coins, but
whose prevout hash is not zero, paying `9999` coins to an output. -/
def forgedSpendTx : CTransaction :=
  ⟨[⟨⟨List.Vector.replicate 32 1, 0⟩, [OP_ZEROCOINSPEND], 10000, ⟨[]⟩, ⟨[]⟩⟩],
    [.standard (9999 * COIN) [0x51]], 2, 0⟩

/-- The forged spend passes both checks over no coins at all, paying out `9999` coins with a fee
of one, while it spends no coin and no zerocoin check is run on it. -/
theorem zerocoin_credit_unchecked_forgedSpendTx :
    (∀ txin ∈ forgedSpendTx.vin, txin.scriptSig.isZerocoinSpend = true) ∧
      forgedSpendTx.isZerocoinSpend = false ∧
      checkTransaction mainnetAccepting forgedSpendTx = .ok () ∧
      checkTxInputs mainnetAccepting emptyStack forgedSpendTx 1 =
        .ok (⟨COIN, 10000 * COIN, 9999 * COIN, false, false⟩, emptyStack) ∧
      spentOutpoints forgedSpendTx = [] ∧
      (∀ z, checkTransaction { mainnetAccepting with checkZerocoinSpend := z } forgedSpendTx =
        checkTransaction mainnetAccepting forgedSpendTx) ∧
      ∀ s, (checkTxInputs mainnetAccepting s forgedSpendTx 1).map Prod.fst =
        (checkTxInputs mainnetAccepting emptyStack forgedSpendTx 1).map Prod.fst := by
  have hz : ∀ txin ∈ forgedSpendTx.vin, txin.scriptSig.isZerocoinSpend = true := by decide
  refine ⟨hz, rfl, by decide, rfl, ?_⟩
  obtain ⟨hspent, hcheck, -⟩ := @zerocoin_credit_unchecked mainnetAccepting 1 forgedSpendTx hz rfl
    emptyStack
  exact ⟨hspent, hcheck, fun s => (zerocoin_credit_unchecked hz rfl s).2.2⟩

end Consensus

end Veil
