import Veil.Coins.CacheRefinement
import Veil.Lib.UndoLog
/-!
# Connecting and disconnecting the coins of a block (`validation.cpp`)

`ConnectBlock` runs `UpdateCoins` on each transaction of a block: the inputs spent, their coins
moved into the transaction's undo record, then `AddCoins` of the outputs. `DisconnectBlock` takes
the transactions from the last: the outputs spent again, each checked against the coin it finds,
then the inputs put back from the undo record by `ApplyTxInUndo`. The model runs both on a stack
of caches (`Veil.Coins.CacheRefinement`); the RingCT index of the two functions is
`Veil.RingCT.Index`, and the zerocoin database is left out. What `DisconnectBlock` reads back of the
zerocoin data, the spend of a zerocoin input and the public coin of a mint, is the parameter
`ZerocoinDecode`: where a mint cannot be read the block fails to disconnect, and where a spend
cannot, the code dereferences the null pointer `TxInToZerocoinSpend` returned.

What a transaction does to the coins is a run of writes on the plain map of the top cache: its
spent outpoints emptied, then its new coins entered (`txWrites`). On a stack whose flags are sound,
a block whose transactions are each valid over the map they meet (`BlockConnectable`: inputs
distinct and unspent, outputs new and not null) is connected without an assertion or exception,
and the top map moves by the writes of the block (`connectBlock_updates_coins`). Disconnecting it
with the undo data the connect wrote, where its zerocoin data can be read back, is then clean and
puts every map of the stack back (`disconnectBlock_restores_coins`): the writes `DisconnectBlock`
makes are the undo log of the writes `ConnectBlock` made (`UndoLog`).
-/

namespace Veil.Coins

/-- `CTxUndo`: the coins the inputs of a transaction spent. -/
structure CTxUndo where
  vprevout : List Coin

/-- `CBlockUndo`: the undo record of each transaction of a block but the coinbase. -/
structure CBlockUndo where
  vtxundo : List CTxUndo

/-- `DisconnectResult`. -/
inductive DisconnectResult
  | DISCONNECT_OK
  | DISCONNECT_UNCLEAN
  | DISCONNECT_FAILED
  deriving DecidableEq, Repr

namespace DisconnectResult

/-- `fClean ? DISCONNECT_OK : DISCONNECT_UNCLEAN`. -/
def ofClean (fClean : Bool) : DisconnectResult :=
  if fClean then DISCONNECT_OK else DISCONNECT_UNCLEAN

/-- The result so far after one more step returned `res`: `if (res == DISCONNECT_FAILED) return
DISCONNECT_FAILED; fClean = fClean && res != DISCONNECT_UNCLEAN;`. -/
def join : DisconnectResult → DisconnectResult → DisconnectResult
  | _, DISCONNECT_FAILED => DISCONNECT_FAILED
  | DISCONNECT_FAILED, _ => DISCONNECT_FAILED
  | DISCONNECT_OK, DISCONNECT_OK => DISCONNECT_OK
  | _, _ => DISCONNECT_UNCLEAN

@[simp] theorem join_ok : join DISCONNECT_OK DISCONNECT_OK = DISCONNECT_OK := rfl

@[simp] theorem join_ok_left (res : DisconnectResult) : join DISCONNECT_OK res = res := by
  cases res <;> rfl

end DisconnectResult

open DisconnectResult

/-- `WITNESS_SCALE_FACTOR`. -/
def WITNESS_SCALE_FACTOR : Nat := 4

/-- `MAX_BLOCK_WEIGHT`. -/
def MAX_BLOCK_WEIGHT : Nat := 8000000

/-- `MIN_TRANSACTION_OUTPUT_WEIGHT`: `WITNESS_SCALE_FACTOR` times the size of `CTxOut()`, the
eight bytes of `nValue` and the one byte of the empty script's length. -/
def MIN_TRANSACTION_OUTPUT_WEIGHT : Nat := WITNESS_SCALE_FACTOR * 9

/-- `MAX_OUTPUTS_PER_BLOCK`. -/
def MAX_OUTPUTS_PER_BLOCK : Nat := MAX_BLOCK_WEIGHT / MIN_TRANSACTION_OUTPUT_WEIGHT

/-- What `DisconnectBlock` reads of the zerocoin primitives, left abstract: whether
`TxInToZerocoinSpend` deserializes a `CoinSpend` from the script of an input, and whether
`OutputToPublicCoin` reads a valid public coin of a denomination from a mint output. -/
structure ZerocoinDecode where
  txInToZerocoinSpend : CTxIn → Bool
  outputToPublicCoin : CTxOutBase → Bool

/-- A transaction whose zerocoin data `DisconnectBlock` can read back: unless it is the coinbase,
whose inputs are not restored, the spend of every input that is not anon and carries a zerocoin
spend script; and the public coin of every mint output. -/
structure ZerocoinDecodable (zc : ZerocoinDecode) (tx : CTransaction) : Prop where
  spends : tx.isCoinBase = false → ∀ txin ∈ tx.vin, txin.isAnonInput = false →
    txin.scriptSig.isZerocoinSpend = true → zc.txInToZerocoinSpend txin = true
  mints : ∀ out ∈ tx.vpout, out.isZerocoinMint = true → zc.outputToPublicCoin out = true

/-- A transaction, not the coinbase, with an input that is not anon and whose zerocoin spend script
`TxInToZerocoinSpend` cannot read: its disconnect dereferences the null pointer. -/
def HasUnreadableSpend (zc : ZerocoinDecode) (tx : CTransaction) : Prop :=
  tx.isCoinBase = false ∧ ∃ txin ∈ tx.vin, txin.isAnonInput = false ∧
    txin.scriptSig.isZerocoinSpend = true ∧ zc.txInToZerocoinSpend txin = false

/-- Mints that can be read and no spend that cannot: the zerocoin data can be read back. -/
theorem ZerocoinDecodable.of_not_unreadable {zc : ZerocoinDecode} {tx : CTransaction}
    (hmints : ∀ out ∈ tx.vpout, out.isZerocoinMint = true → zc.outputToPublicCoin out = true)
    (h : ¬HasUnreadableSpend zc tx) : ZerocoinDecodable zc tx := by
  refine ⟨fun hcb txin hin ha hz => ?_, hmints⟩
  by_contra hdec
  exact h ⟨hcb, txin, hin, ha, hz, by simpa using hdec⟩

namespace CoinsStack

/-! ## `UpdateCoins` and the loop of `ConnectBlock` -/

/-- The input loop of `UpdateCoins`: an anon input is skipped; any other adds a coin to the undo
record, an empty one for a zerocoin spend, else the coin `SpendCoin` moves out, which it has to
find (`assert(is_spent)`). -/
def updateCoinsInputs : List CTxIn → CoinsStack → List Coin →
    Except CoinsError (CoinsStack × List Coin)
  | [], s, vprevout => .ok (s, vprevout)
  | txin :: vin, s, vprevout =>
    if txin.isAnonInput then updateCoinsInputs vin s vprevout
    else if txin.scriptSig.isZerocoinSpend then updateCoinsInputs vin s (vprevout ++ [coinEmpty])
    else
      match s.spendCoin txin.prevout with
      | (some coin, s) => updateCoinsInputs vin s (vprevout ++ [coin])
      | (none, _) => .error (.assertion "is_spent")

/-- `UpdateCoins(tx, inputs, txundo, nHeight)`, where `txid` is `tx.GetHash()`: the inputs of a
transaction that is not a coinbase spent, then `AddCoins(inputs, tx, nHeight)`, whose `check`
defaults to `false`. -/
def updateCoins (s : CoinsStack) (tx : CTransaction) (txid : Uint256) (nHeight : Nat) :
    Except CoinsError (CoinsStack × CTxUndo) := do
  let (s, vprevout) ← (if tx.isCoinBase then pure (s, []) else updateCoinsInputs tx.vin s [])
  let s ← s.addCoins tx txid nHeight false
  pure (s, ⟨vprevout⟩)

/-- The coins of the loop of `ConnectBlock` over the transactions: `UpdateCoins` on each, `txid`
its hash, with its undo record added to `blockundo` unless it is the coinbase. -/
def connectBlockLoop (hash : CTransaction → Uint256) (nHeight : Nat) :
    List CTransaction → CoinsStack → List CTxUndo → Except CoinsError (CoinsStack × List CTxUndo)
  | [], s, vtxundo => .ok (s, vtxundo)
  | tx :: vtx, s, vtxundo => do
    let (s, txundo) ← s.updateCoins tx (hash tx) nHeight
    connectBlockLoop hash nHeight vtx s (if tx.isCoinBase then vtxundo else vtxundo ++ [txundo])

/-- The coins part of `ConnectBlock`: the loop over the transactions, then
`view.SetBestBlock(pindex->GetBlockHash())`. -/
def connectBlock (s : CoinsStack) (hash : CTransaction → Uint256) (vtx : List CTransaction)
    (nHeight : Nat) (hashBlock : Uint256) : Except CoinsError (CoinsStack × CBlockUndo) := do
  let (s, vtxundo) ← connectBlockLoop hash nHeight vtx s []
  pure (s.setBestBlock hashBlock, ⟨vtxundo⟩)

/-! ## `ApplyTxInUndo` and `DisconnectBlock` -/

/-- The loop of `AccessByTxid` from output `n` on, `fuel` outputs before `MAX_OUTPUTS_PER_BLOCK`:
the first coin of `txid` that is not spent, else `coinEmpty`. -/
def accessByTxidLoop (txid : Uint256) : Nat → Nat → CoinsStack → Coin × CoinsStack
  | 0, _, s => (coinEmpty, s)
  | fuel + 1, n, s =>
    let r := s.accessCoin ⟨txid, n.toUInt32⟩
    if !r.1.isSpent then r else accessByTxidLoop txid fuel (n + 1) r.2

/-- `AccessByTxid(view, txid)`. -/
def accessByTxid (s : CoinsStack) (txid : Uint256) : Coin × CoinsStack :=
  accessByTxidLoop txid MAX_OUTPUTS_PER_BLOCK 0 s

/-- `ApplyTxInUndo(undo, view, out)`: unclean where the view has a coin there already; an undo coin
of height `0`, from the undo records that kept the height only with the last spend of a
transaction, takes its height and coinbase flag from an unspent output of the same transaction and
fails without one; then `AddCoin` with `possible_overwrite` where unclean. -/
def applyTxInUndo (s : CoinsStack) (undo : Coin) (out : COutPoint) :
    Except CoinsError (DisconnectResult × CoinsStack) :=
  let r := s.haveCoin out
  let fClean := !r.1
  let undo? : Option Coin × CoinsStack :=
    if undo.nHeight = 0 then
      let alt := r.2.accessByTxid out.hash
      if !alt.1.isSpent then
        (some { undo with nHeight := alt.1.nHeight, fCoinBase := alt.1.fCoinBase }, alt.2)
      else (none, alt.2)
    else (some undo, r.2)
  match undo? with
  | (none, s) => .ok (DISCONNECT_FAILED, s)
  | (some undo, s) => do
    let s ← s.addCoin out undo !fClean
    pure (ofClean fClean, s)

/-- A standard or CT output that `DisconnectBlock` compares with `txout`: unless its script is
unspendable, its coin is spent, and it is clean when `SpendCoin` found the coin and the coin has
this output, the height and the coinbase flag. -/
def disconnectCoin (s : CoinsStack) (op : COutPoint) (txout : CTxOut) (nHeight : Nat)
    (is_coinbase : Bool) : Bool × CoinsStack :=
  if txout.scriptPubKey.isUnspendable then (true, s)
  else
    match s.spendCoin op with
    | (some coin, s) =>
      (txout == coin.out && nHeight == coin.nHeight.val && is_coinbase == coin.fCoinBase, s)
    | (none, s) => (false, s)

/-- Output `k` of `DisconnectBlock`, as far as the coins go. A zerocoin mint is read back as a
public coin by `OutputToPublicCoin`, and where that fails the block fails to disconnect ("failed to
disconnect zerocoinmint"); the erasing of the mint from the zerocoin database is left out, and so is
the RingCT index a RingCT output goes to. A standard output is compared with `CTxOut(nValue,
script)` and a CT output with `CTxOut(0, script)`. -/
def disconnectOutput (zc : ZerocoinDecode) (s : CoinsStack) (txid : Uint256) (is_coinbase : Bool)
    (nHeight k : Nat) (out : CTxOutBase) : DisconnectResult × CoinsStack :=
  if out.isZerocoinMint then
    (if zc.outputToPublicCoin out then DISCONNECT_OK else DISCONNECT_FAILED, s)
  else
    match out with
    | .standard nValue scriptPubKey =>
      let r := s.disconnectCoin ⟨txid, k.toUInt32⟩ ⟨nValue, scriptPubKey⟩ nHeight is_coinbase
      (ofClean r.1, r.2)
    | .ct _ _ scriptPubKey _ =>
      let r := s.disconnectCoin ⟨txid, k.toUInt32⟩ ⟨0, scriptPubKey⟩ nHeight is_coinbase
      (ofClean r.1, r.2)
    | _ => (DISCONNECT_OK, s)

/-- The output loop of `DisconnectBlock` from output `k` on. The loop runs from the last output, so
the outputs after `k` go first; a `DISCONNECT_FAILED` stops it. -/
def disconnectOutputs (zc : ZerocoinDecode) (txid : Uint256) (is_coinbase : Bool) (nHeight : Nat) :
    Nat → List CTxOutBase → CoinsStack → DisconnectResult × CoinsStack
  | _, [], s => (DISCONNECT_OK, s)
  | k, out :: vpout, s =>
    let r := disconnectOutputs zc txid is_coinbase nHeight (k + 1) vpout s
    if r.1 = DISCONNECT_FAILED then r
    else
      let r' := r.2.disconnectOutput zc txid is_coinbase nHeight k out
      (r.1.join r'.1, r'.2)

/-- The input loop of `DisconnectBlock` from input `j` on, the inputs after `j` first: an anon
input is skipped; of a zerocoin spend, `TxInToZerocoinSpend` reads the spend, and where it fails
and returns a null pointer, only an error is logged and `spend->getCoinSerialNumber()` dereferences
it; a spend read goes to the zerocoin database (left out). Any other input has `ApplyTxInUndo`
with `txundo.vprevout[j]`. A `DISCONNECT_FAILED` stops the loop. Reading past the end of
`vprevout`, undefined in the code, stops it as a failed assertion. -/
def disconnectInputs (zc : ZerocoinDecode) (vprevout : List Coin) :
    Nat → List CTxIn → CoinsStack → Except CoinsError (DisconnectResult × CoinsStack)
  | _, [], s => .ok (DISCONNECT_OK, s)
  | j, txin :: vin, s => do
    let (res, s) ← disconnectInputs zc vprevout (j + 1) vin s
    if res == DISCONNECT_FAILED || txin.isAnonInput then pure (res, s)
    else if txin.scriptSig.isZerocoinSpend then
      if zc.txInToZerocoinSpend txin then pure (res, s)
      else .error (.nullDereference "spend->getCoinSerialNumber()")
    else
      match vprevout[j]? with
      | none => .error (.assertion "j < txundo.vprevout.size()")
      | some undo => do
        let (res', s) ← s.applyTxInUndo undo txin.prevout
        pure (res.join res', s)

/-- One transaction of `DisconnectBlock`, as far as the coins go: its outputs from the last; then,
unless it is the coinbase, the undo record `nVtxundo`, which has to be in range ("transaction undo
data offset out of range") and to hold one coin for each input that is not anon ("transaction and
undo data inconsistent"), and the inputs from the last. `nVtxundo` goes down by one with each
record read. -/
def disconnectTx (zc : ZerocoinDecode) (s : CoinsStack) (blockUndo : CBlockUndo) (txid : Uint256)
    (nHeight : Nat) (tx : CTransaction) (nVtxundo : Int) :
    Except CoinsError (DisconnectResult × CoinsStack × Int) :=
  let is_coinbase := tx.isCoinBase
  let r := disconnectOutputs zc txid is_coinbase nHeight 0 tx.vpout s
  if r.1 = DISCONNECT_FAILED then .ok (DISCONNECT_FAILED, r.2, nVtxundo)
  else if is_coinbase then .ok (r.1, r.2, nVtxundo)
  else if nVtxundo < 0 then .ok (DISCONNECT_FAILED, r.2, nVtxundo)
  else
    match blockUndo.vtxundo[nVtxundo.toNat]? with
    | none => .ok (DISCONNECT_FAILED, r.2, nVtxundo)
    | some txundo =>
      if txundo.vprevout.length ≠ (tx.vin.filter fun txin => !txin.isAnonInput).length then
        .ok (DISCONNECT_FAILED, r.2, nVtxundo - 1)
      else do
        let (res, s) ← disconnectInputs zc txundo.vprevout 0 tx.vin r.2
        pure (r.1.join res, s, nVtxundo - 1)

/-- The loop of `DisconnectBlock` over the transactions from `tx` on. It runs from the last
transaction, so the transactions after `tx` go first; a `DISCONNECT_FAILED` stops it. -/
def disconnectTxs (zc : ZerocoinDecode) (hash : CTransaction → Uint256) (blockUndo : CBlockUndo)
    (nHeight : Nat) :
    List CTransaction → CoinsStack → Int → Except CoinsError (DisconnectResult × CoinsStack × Int)
  | [], s, nVtxundo => .ok (DISCONNECT_OK, s, nVtxundo)
  | tx :: vtx, s, nVtxundo => do
    let (res, s, nVtxundo) ← disconnectTxs zc hash blockUndo nHeight vtx s nVtxundo
    if res = DISCONNECT_FAILED then pure (res, s, nVtxundo)
    else do
      let (res', s, nVtxundo) ← s.disconnectTx zc blockUndo (hash tx) nHeight tx nVtxundo
      pure (res.join res', s, nVtxundo)

/-- The coins part of `DisconnectBlock(block, pindex, view)`, with the undo data `blockUndo` as
read from disk: a record for each transaction, or for each but the coinbase ("block and undo data
inconsistent"); the transactions from the last, starting at the last record; then
`view.SetBestBlock(pindex->pprev->GetBlockHash())`. -/
def disconnectBlock (zc : ZerocoinDecode) (s : CoinsStack) (hash : CTransaction → Uint256)
    (vtx : List CTransaction) (blockUndo : CBlockUndo) (nHeight : Nat) (hashPrev : Uint256) :
    Except CoinsError (DisconnectResult × CoinsStack) :=
  if blockUndo.vtxundo.length ≠ vtx.length ∧
      blockUndo.vtxundo.length ≠ (vtx.filter fun tx => !tx.isCoinBase).length then
    .ok (DISCONNECT_FAILED, s)
  else do
    let (res, s, _) ← disconnectTxs zc hash blockUndo nHeight vtx s (blockUndo.vtxundo.length - 1)
    if res = DISCONNECT_FAILED then pure (res, s) else pure (res, s.setBestBlock hashPrev)

end CoinsStack

/-! ## What a block does to the coins map -/

/-- The prevouts of the inputs that are neither anon nor zerocoin spends: what `UpdateCoins`
spends. -/
def plainPrevouts (vin : List CTxIn) : List COutPoint :=
  (vin.filter fun txin => !txin.isAnonInput && !txin.scriptSig.isZerocoinSpend).map (·.prevout)

/-- The outpoints a transaction spends; a coinbase spends none. -/
def spentOutpoints (tx : CTransaction) : List COutPoint :=
  if tx.isCoinBase then [] else plainPrevouts tx.vin

/-- The coin `AddCoins` stores for an output: the coin it makes, where its script is spendable. -/
def createdCoin (out : CTxOutBase) (nHeight : Nat) (fCoinbase : Bool) : Option Coin :=
  (CoinsStack.coinOfOutput out nHeight fCoinbase).filter fun coin =>
    !coin.out.scriptPubKey.isUnspendable

/-- The coins the outputs from `i` on create, under their outpoints. -/
def createdCoins (txid : Uint256) (fCoinbase : Bool) (nHeight : Nat) :
    Nat → List CTxOutBase → List (COutPoint × Coin)
  | _, [] => []
  | i, out :: vpout =>
    match createdCoin out nHeight fCoinbase with
    | some coin => (⟨txid, i.toUInt32⟩, coin) :: createdCoins txid fCoinbase nHeight (i + 1) vpout
    | none => createdCoins txid fCoinbase nHeight (i + 1) vpout

/-- The writes of a transaction on the coins map: its spent outpoints emptied, then its coins
entered. -/
def txWrites (tx : CTransaction) (txid : Uint256) (nHeight : Nat) :
    List (COutPoint × Option Coin) :=
  (spentOutpoints tx).map (fun p => (p, none)) ++
    (createdCoins txid tx.isCoinBase nHeight 0 tx.vpout).map fun oc => (oc.1, some oc.2)

/-- The writes of the transactions of a block, in order. -/
def blockWrites (hash : CTransaction → Uint256) (nHeight : Nat) (vtx : List CTransaction) :
    List (COutPoint × Option Coin) :=
  vtx.flatMap fun tx => txWrites tx (hash tx) nHeight

theorem blockWrites_cons (hash : CTransaction → Uint256) (nHeight : Nat) (tx : CTransaction)
    (vtx : List CTransaction) :
    blockWrites hash nHeight (tx :: vtx) = txWrites tx (hash tx) nHeight ++ blockWrites hash nHeight vtx :=
  List.flatMap_cons

/-- The undo record of the inputs `vin` over the map `V`: a coin for each input that is not anon,
an empty one for a zerocoin spend, else the coin `V` has under the prevout. -/
def undoCoins (V : CoinsMap) : List CTxIn → List Coin
  | [] => []
  | txin :: vin =>
    if txin.isAnonInput then undoCoins V vin
    else (if txin.scriptSig.isZerocoinSpend then coinEmpty else (V txin.prevout).getD coinEmpty) ::
      undoCoins V vin

/-- The undo record of a transaction over the map `V`; a coinbase spends nothing. -/
def txUndo (V : CoinsMap) (tx : CTransaction) : CTxUndo :=
  ⟨if tx.isCoinBase then [] else undoCoins V tx.vin⟩

/-- The undo records of a block connected to `V`: one for each transaction but the coinbase, over
the map the transactions before it leave. -/
def blockUndos (hash : CTransaction → Uint256) (nHeight : Nat) :
    CoinsMap → List CTransaction → List CTxUndo
  | _, [] => []
  | V, tx :: vtx =>
    (if tx.isCoinBase then [] else [txUndo V tx]) ++
      blockUndos hash nHeight (UndoLog.apply V (txWrites tx (hash tx) nHeight)) vtx

/-- A coin `ApplyTxInUndo` puts back as it was: not spent, with a spendable script, which `AddCoin`
stores, and with a height, so that no other output is asked for one. -/
structure Restorable (c : Coin) : Prop where
  unspent : c.isSpent = false
  spendable : c.out.scriptPubKey.isUnspendable = false
  height : c.nHeight ≠ 0

/-- Every coin of the map is restorable. `AddCoin` stores no other coin of a block above the
genesis block. -/
def WellStored (V : CoinsMap) : Prop := ∀ o c, V o = some c → Restorable c

/-- What `ConnectBlock` has checked of a transaction before `UpdateCoins`, as far as the coins go,
over the map `V` it meets: its inputs are anon or none is ("mixed-input-types"); the outpoints it
spends are distinct ("bad-txns-inputs-duplicate") and have coins (`HaveInputs`); its outputs are
not null, fewer than `2 ^ 32`, and have no coin under their outpoints (the txid is new). -/
structure TxConnectable (V : CoinsMap) (tx : CTransaction) (txid : Uint256) : Prop where
  notMixed : (∀ txin ∈ tx.vin, txin.isAnonInput = false) ∨ ∀ txin ∈ tx.vin, txin.isAnonInput = true
  nodup : (spentOutpoints tx).Nodup
  unspent : ∀ p ∈ spentOutpoints tx, (V p).isSome
  notNull : ∀ out ∈ tx.vpout, out.getValue ≠ -1
  length : tx.vpout.length ≤ 2 ^ 32
  fresh : ∀ k < tx.vpout.length, V ⟨txid, k.toUInt32⟩ = none

/-- Each transaction of the block is connectable over the map the ones before it leave. -/
def BlockConnectable (hash : CTransaction → Uint256) (nHeight : Nat) :
    CoinsMap → List CTransaction → Prop
  | _, [] => True
  | V, tx :: vtx => TxConnectable V tx (hash tx) ∧
      BlockConnectable hash nHeight (UndoLog.apply V (txWrites tx (hash tx) nHeight)) vtx

/-! ## The writes -/

theorem toUInt32_inj {a b : Nat} (ha : a < 2 ^ 32) (hb : b < 2 ^ 32)
    (h : a.toUInt32 = b.toUInt32) : a = b := by
  have hnat := congrArg UInt32.toNat h
  rwa [UInt32.toNat_ofNat', UInt32.toNat_ofNat', Nat.mod_eq_of_lt ha, Nat.mod_eq_of_lt hb] at hnat

section Created

variable {txid : Uint256} {fCoinbase : Bool} {nHeight : Nat}

/-- A created coin belongs to an output from `i` on, under that output's outpoint. -/
theorem mem_createdCoins :
    ∀ {i : Nat} {vpout : List CTxOutBase} {oc : COutPoint × Coin},
      oc ∈ createdCoins txid fCoinbase nHeight i vpout →
        ∃ k, i ≤ k ∧ k < i + vpout.length ∧ oc.1 = ⟨txid, k.toUInt32⟩ ∧
          ∃ out ∈ vpout, createdCoin out nHeight fCoinbase = some oc.2
  | _, [], _, h => by simp [createdCoins] at h
  | i, out :: vpout, oc, h => by
    have hrest : oc ∈ createdCoins txid fCoinbase nHeight (i + 1) vpout →
        ∃ k, i ≤ k ∧ k < i + (out :: vpout).length ∧ oc.1 = ⟨txid, k.toUInt32⟩ ∧
          ∃ out' ∈ out :: vpout, createdCoin out' nHeight fCoinbase = some oc.2 := by
      intro h'
      obtain ⟨k, hk₁, hk₂, hk, out', hout', hc⟩ := mem_createdCoins h'
      exact ⟨k, by omega, by simp only [List.length_cons]; omega, hk, out',
        List.mem_cons_of_mem _ hout', hc⟩
    unfold createdCoins at h
    split at h
    · next coin hc =>
      rcases List.mem_cons.mp h with rfl | h
      · exact ⟨i, Nat.le_refl i, by simp, rfl, out, List.mem_cons_self, hc⟩
      · exact hrest h
    · exact hrest h

/-- The outputs have distinct indices, so the created coins distinct outpoints. -/
theorem createdCoins_nodup :
    ∀ {i : Nat} {vpout : List CTxOutBase}, i + vpout.length ≤ 2 ^ 32 →
      ((createdCoins txid fCoinbase nHeight i vpout).map Prod.fst).Nodup
  | _, [], _ => List.nodup_nil
  | i, out :: vpout, hlen => by
    simp only [List.length_cons] at hlen
    have ih : ((createdCoins txid fCoinbase nHeight (i + 1) vpout).map Prod.fst).Nodup :=
      createdCoins_nodup (by omega)
    unfold createdCoins
    split
    · rw [List.map_cons, List.nodup_cons]
      refine ⟨fun hmem => ?_, ih⟩
      obtain ⟨oc, hoc, heq⟩ := List.mem_map.mp hmem
      obtain ⟨k, hk₁, hk₂, hk, -⟩ := mem_createdCoins hoc
      rw [heq, COutPoint.mk.injEq] at hk
      have := toUInt32_inj (by omega) (by omega) hk.2
      omega
    · exact ih

end Created

namespace TxConnectable

variable {V : CoinsMap} {tx : CTransaction} {txid : Uint256}

/-- The new outpoints of a connectable transaction are distinct. -/
theorem created_nodup (hc : TxConnectable V tx txid) (nHeight : Nat) :
    ((createdCoins txid tx.isCoinBase nHeight 0 tx.vpout).map Prod.fst).Nodup :=
  createdCoins_nodup (by simpa using hc.length)

/-- The writes of its spends have distinct keys. -/
theorem spendWrites_nodup (hc : TxConnectable V tx txid) :
    (((spentOutpoints tx).map fun p => ((p, none) : COutPoint × Option Coin)).map Prod.fst).Nodup := by
  simpa [List.map_map, Function.comp_def] using hc.nodup

/-- The writes of its new coins have distinct keys. -/
theorem createWrites_nodup (hc : TxConnectable V tx txid) (nHeight : Nat) :
    (((createdCoins txid tx.isCoinBase nHeight 0 tx.vpout).map
      fun oc => ((oc.1, some oc.2) : COutPoint × Option Coin)).map Prod.fst).Nodup := by
  simpa [List.map_map, Function.comp_def] using hc.created_nodup nHeight

end TxConnectable

/-- The coin `AddCoins` makes of an output: the output's value and script, `nValue` `0` for a CT
output, the coinbase flag, and the height in its 31 bits. -/
theorem coinOfOutput_eq_some {out : CTxOutBase} {nHeight : Nat} {fCoinbase : Bool} {c : Coin}
    (h : CoinsStack.coinOfOutput out nHeight fCoinbase = some c) :
    c.fCoinBase = fCoinbase ∧ c.nHeight.val = nHeight % 2 ^ 31 ∧
      ∃ script, out.getPScriptPubKey = some script ∧ c.out = ⟨out.getValue, script⟩ := by
  cases out with
  | standard nValue scriptPubKey =>
    cases h
    exact ⟨rfl, Fin.val_ofNat _ _, scriptPubKey, rfl, rfl⟩
  | ct commitment vData scriptPubKey vRangeproof =>
    cases h
    exact ⟨rfl, Fin.val_ofNat _ _, scriptPubKey, rfl, rfl⟩
  | ringct => cases h
  | data => cases h

/-- A coin from a block at a height below `2 ^ 31` other than the genesis block's, of an output
that is not null, is restorable. -/
theorem createdCoin_restorable {out : CTxOutBase} {nHeight : Nat} {fCoinbase : Bool} {c : Coin}
    (h : createdCoin out nHeight fCoinbase = some c) (hval : out.getValue ≠ -1)
    (hh : 0 < nHeight ∧ nHeight < 2 ^ 31) : Restorable c := by
  obtain ⟨hc, hspendable⟩ := Option.filter_eq_some_iff.mp h
  obtain ⟨-, hheight, -⟩ := coinOfOutput_eq_some hc
  refine ⟨coinOfOutput_not_isSpent hc hval, by simpa using hspendable, fun h0 => ?_⟩
  rw [h0, Nat.mod_eq_of_lt hh.2] at hheight
  exact absurd hheight.symm (Nat.pos_iff_ne_zero.mp hh.1)

/-- Connecting a transaction keeps every coin of the map restorable. -/
theorem wellStored_apply_txWrites {V : CoinsMap} (hV : WellStored V) {tx : CTransaction}
    {txid : Uint256} {nHeight : Nat} (hval : ∀ out ∈ tx.vpout, out.getValue ≠ -1)
    (hh : 0 < nHeight ∧ nHeight < 2 ^ 31) : WellStored (UndoLog.apply V (txWrites tx txid nHeight)) := by
  have hwrites : ∀ w ∈ txWrites tx txid nHeight, ∀ c, w.2 = some c → Restorable c := by
    intro w hw c hc
    rcases List.mem_append.mp hw with hw | hw
    · obtain ⟨p, -, rfl⟩ := List.mem_map.mp hw
      cases hc
    · obtain ⟨oc, hoc, rfl⟩ := List.mem_map.mp hw
      cases hc
      obtain ⟨-, -, -, -, out, hout, hcreated⟩ := mem_createdCoins hoc
      exact createdCoin_restorable hcreated (hval out hout) hh
  exact fun o => UndoLog.apply_of_forall (P := fun v => ∀ c, v = some c → Restorable c)
    (fun o => hV o) hwrites o

theorem eq_of_unspent_eq_some {c c' : Coin} (h : unspent c = some c') : c = c' := by
  unfold unspent at h
  split at h
  · cases h
  · exact Option.some.inj h

section Prevouts

variable {txin : CTxIn} {vin : List CTxIn}

theorem plainPrevouts_cons_of_anon (h : txin.isAnonInput = true) :
    plainPrevouts (txin :: vin) = plainPrevouts vin := by
  simp [plainPrevouts, h]

theorem plainPrevouts_cons_of_zerocoin (h : txin.scriptSig.isZerocoinSpend = true) :
    plainPrevouts (txin :: vin) = plainPrevouts vin := by
  simp [plainPrevouts, h]

theorem plainPrevouts_cons_of_plain (ha : txin.isAnonInput = false)
    (hz : txin.scriptSig.isZerocoinSpend = false) :
    plainPrevouts (txin :: vin) = txin.prevout :: plainPrevouts vin := by
  simp [plainPrevouts, ha, hz]

/-- The undo record reads the map only at the plain prevouts. -/
theorem undoCoins_update {V : CoinsMap} {p : COutPoint} {v : Option Coin} :
    ∀ {vin : List CTxIn}, p ∉ plainPrevouts vin →
      undoCoins (Function.update V p v) vin = undoCoins V vin
  | [], _ => rfl
  | txin :: vin, hp => by
    by_cases ha : txin.isAnonInput = true
    · rw [plainPrevouts_cons_of_anon ha] at hp
      simp only [undoCoins, ha, if_true]
      exact undoCoins_update hp
    · by_cases hz : txin.scriptSig.isZerocoinSpend = true
      · rw [plainPrevouts_cons_of_zerocoin hz] at hp
        simp only [undoCoins, ha, hz, if_true]
        rw [undoCoins_update hp]
      · rw [plainPrevouts_cons_of_plain (by simpa using ha) (by simpa using hz), List.mem_cons,
          not_or] at hp
        simp only [undoCoins, ha, hz]
        rw [undoCoins_update hp.2, Function.update_of_ne (Ne.symm hp.1)]

end Prevouts

/-! ## Connecting -/

/-- `AddCoins` without `check` on the plain maps: where no created coin meets a coin, each is
entered. -/
theorem CoinsLevels.addCoinsLoop_eq_apply {txid : Uint256} {fCoinbase : Bool} {nHeight : Nat} :
    ∀ (i : Nat) (vpout : List CTxOutBase) (L : CoinsLevels), (∀ out ∈ vpout, out.getValue ≠ -1) →
      ((createdCoins txid fCoinbase nHeight i vpout).map Prod.fst).Nodup →
      (∀ oc ∈ createdCoins txid fCoinbase nHeight i vpout, L.top oc.1 = none) →
      L.addCoinsLoop txid fCoinbase nHeight false i vpout =
        some { L with top := (UndoLog.apply L.top
          ((createdCoins txid fCoinbase nHeight i vpout).map fun oc => (oc.1, some oc.2))) }
  | _, [], _, _, _, _ => rfl
  | i, out :: vpout, L, hval, hnd, hnone => by
    have hval' : ∀ out ∈ vpout, out.getValue ≠ -1 := fun o h => hval o (List.mem_cons_of_mem _ h)
    simp only [CoinsLevels.addCoinsLoop, Bool.false_eq_true, if_false]
    unfold createdCoins at hnd hnone ⊢
    cases hc : CoinsStack.coinOfOutput out nHeight fCoinbase with
    | none =>
      have hcr : createdCoin out nHeight fCoinbase = none := by simp [createdCoin, hc]
      rw [hcr] at hnd hnone ⊢
      dsimp only
      exact addCoinsLoop_eq_apply (i + 1) vpout L hval' hnd hnone
    | some coin =>
      have hspent := coinOfOutput_not_isSpent hc (hval out List.mem_cons_self)
      cases hun : coin.out.scriptPubKey.isUnspendable
      · -- a spendable coin is entered over no coin
        have hcr : createdCoin out nHeight fCoinbase = some coin := by simp [createdCoin, hc, hun]
        rw [hcr] at hnd hnone ⊢
        dsimp only
        rw [List.map_cons, List.nodup_cons] at hnd
        have htop : L.top ⟨txid, i.toUInt32⟩ = none := hnone _ List.mem_cons_self
        have hadd : L.addCoin ⟨txid, i.toUInt32⟩ coin fCoinbase =
            some { L with top := Function.update L.top ⟨txid, i.toUInt32⟩ (some coin) } := by
          simp [CoinsLevels.addCoin, hspent, hun, htop]
        rw [Option.bind_eq_some_iff]
        refine ⟨_, hadd, ?_⟩
        rw [addCoinsLoop_eq_apply (i + 1) vpout _ hval' hnd.2 fun oc hoc => ?_]
        · rfl
        · -- the later coins have other outpoints
          have hmem : oc.1 ∈ (createdCoins txid fCoinbase nHeight (i + 1) vpout).map Prod.fst :=
            List.mem_map_of_mem hoc
          have hne : oc.1 ≠ ⟨txid, i.toUInt32⟩ := fun h => hnd.1 (h ▸ hmem)
          show Function.update L.top _ _ oc.1 = none
          rw [Function.update_of_ne hne]
          exact hnone oc (List.mem_cons_of_mem _ hoc)
      · -- an unspendable coin is not stored
        have hcr : createdCoin out nHeight fCoinbase = none := by simp [createdCoin, hc, hun]
        rw [hcr] at hnd hnone ⊢
        dsimp only
        have hadd : L.addCoin ⟨txid, i.toUInt32⟩ coin fCoinbase = some L := by
          simp [CoinsLevels.addCoin, hspent, hun]
        rw [hadd, Option.bind_some]
        exact addCoinsLoop_eq_apply (i + 1) vpout L hval' hnd hnone

/-- A new outpoint has no coin, so it is none of the outpoints the transaction spends. -/
theorem createdCoins_not_mem_spent {V : CoinsMap} {tx : CTransaction} {txid : Uint256}
    {nHeight : Nat} (hc : TxConnectable V tx txid) {oc : COutPoint × Coin}
    (hoc : oc ∈ createdCoins txid tx.isCoinBase nHeight 0 tx.vpout) :
    V oc.1 = none ∧ oc.1 ∉ spentOutpoints tx := by
  obtain ⟨k, -, hk, hout, -⟩ := mem_createdCoins hoc
  have hnone : V oc.1 = none := by
    rw [hout]
    exact hc.fresh k (by simpa using hk)
  refine ⟨hnone, fun hmem => ?_⟩
  have hsome := hc.unspent _ hmem
  rw [hnone] at hsome
  cases hsome

namespace CoinsStack

variable {s : CoinsStack}

/-- `SpendCoin` moves out the coin the top map has. -/
theorem spendCoin_fst_of_top {o : COutPoint} {c : Coin} (h : s.levels.top o = some c) :
    (s.spendCoin o).1 = some c := by
  have hl := spendCoin_levels s o
  rw [h] at hl
  cases hr : (s.spendCoin o).1 with
  | none => rw [hr] at hl; cases hl
  | some c' =>
    rw [hr, Option.bind_some] at hl
    rw [eq_of_unspent_eq_some hl]

/-- **The inputs of `UpdateCoins`.** Distinct prevouts with coins are spent one after the other,
their coins going into the undo record. -/
theorem updateCoinsInputs_spec :
    ∀ (vin : List CTxIn) (s : CoinsStack) (vprevout : List Coin), s.Sound →
      (plainPrevouts vin).Nodup → (∀ p ∈ plainPrevouts vin, (s.levels.top p).isSome) →
      ∃ s', updateCoinsInputs vin s vprevout = .ok (s', vprevout ++ undoCoins s.levels.top vin) ∧
        s'.Sound ∧ s'.levels = { s.levels with
          top := (UndoLog.apply s.levels.top ((plainPrevouts vin).map fun p => (p, none))) }
  | [], s, vprevout, hs, _, _ => ⟨s, by simp [updateCoinsInputs, undoCoins], hs, rfl⟩
  | txin :: vin, s, vprevout, hs, hnd, hsome => by
    by_cases ha : txin.isAnonInput = true
    · -- an anon input is skipped
      rw [plainPrevouts_cons_of_anon ha] at hnd hsome ⊢
      obtain ⟨s', h, hs', hl⟩ := updateCoinsInputs_spec vin s vprevout hs hnd hsome
      refine ⟨s', ?_, hs', hl⟩
      simp only [updateCoinsInputs, ha, if_true, undoCoins]
      exact h
    have ha' : txin.isAnonInput = false := by simpa using ha
    by_cases hz : txin.scriptSig.isZerocoinSpend = true
    · -- a zerocoin spend has an empty undo coin
      rw [plainPrevouts_cons_of_zerocoin hz] at hnd hsome ⊢
      obtain ⟨s', h, hs', hl⟩ := updateCoinsInputs_spec vin s (vprevout ++ [coinEmpty]) hs hnd hsome
      refine ⟨s', ?_, hs', hl⟩
      simp only [updateCoinsInputs, ha', hz, Bool.false_eq_true, if_true, if_false, undoCoins]
      rw [h, List.append_assoc, List.singleton_append]
    have hz' : txin.scriptSig.isZerocoinSpend = false := by simpa using hz
    rw [plainPrevouts_cons_of_plain ha' hz'] at hnd hsome ⊢
    rw [List.nodup_cons] at hnd
    obtain ⟨c, hc⟩ := Option.isSome_iff_exists.mp (hsome _ List.mem_cons_self)
    obtain ⟨hs₁, hl₁⟩ := spendCoin_step hs txin.prevout
    -- the later prevouts still have their coins
    have hsome₁ : ∀ p ∈ plainPrevouts vin, ((s.spendCoin txin.prevout).2.levels.top p).isSome := by
      intro p hp
      rw [hl₁]
      show (Function.update s.levels.top txin.prevout none p).isSome
      rw [Function.update_of_ne fun (h : p = txin.prevout) => hnd.1 (h ▸ hp)]
      exact hsome p (List.mem_cons_of_mem _ hp)
    obtain ⟨s', h, hs', hl⟩ := updateCoinsInputs_spec vin _ (vprevout ++ [c]) hs₁ hnd.2 hsome₁
    refine ⟨s', ?_, hs', ?_⟩
    · have hspend : s.spendCoin txin.prevout = (some c, (s.spendCoin txin.prevout).2) :=
        Prod.ext (spendCoin_fst_of_top hc) rfl
      have hundo : undoCoins (s.spendCoin txin.prevout).2.levels.top vin = undoCoins s.levels.top vin := by
        rw [hl₁]
        exact undoCoins_update hnd.1
      simp only [updateCoinsInputs, ha', hz', Bool.false_eq_true, if_false]
      rw [hspend]
      simp only
      rw [h, hundo]
      simp [undoCoins, ha', hz', hc]
    · rw [hl, hl₁]
      rfl

/-- **`UpdateCoins`.** A connectable transaction is connected without an assertion or exception:
the top map takes its writes, and the undo record holds the coins it spent. -/
theorem updateCoins_spec (hs : s.Sound) (nHeight : Nat) {tx : CTransaction} {txid : Uint256}
    (hc : TxConnectable s.levels.top tx txid) :
    ∃ s', s.updateCoins tx txid nHeight = .ok (s', txUndo s.levels.top tx) ∧ s'.Sound ∧
      s'.levels = { s.levels with top := UndoLog.apply s.levels.top (txWrites tx txid nHeight) } := by
  -- the inputs first
  have hin : ∃ s₁, (if tx.isCoinBase then pure (s, []) else updateCoinsInputs tx.vin s []) =
        (.ok (s₁, (txUndo s.levels.top tx).vprevout) : Except CoinsError _) ∧ s₁.Sound ∧
      s₁.levels = { s.levels with
        top := (UndoLog.apply s.levels.top ((spentOutpoints tx).map fun p => (p, none))) } := by
    have hnd := hc.nodup
    have hsome := hc.unspent
    unfold spentOutpoints at hnd hsome ⊢
    unfold txUndo
    cases hcb : tx.isCoinBase
    · simp only [hcb, Bool.false_eq_true, if_false] at hnd hsome ⊢
      simpa using updateCoinsInputs_spec tx.vin s [] hs hnd hsome
    · exact ⟨s, rfl, hs, rfl⟩
  obtain ⟨s₁, h₁, hs₁, hl₁⟩ := hin
  -- then the outputs, none of them over a coin
  have hnone : ∀ oc ∈ createdCoins txid tx.isCoinBase nHeight 0 tx.vpout,
      s₁.levels.top oc.1 = none := by
    intro oc hoc
    obtain ⟨hV, hspent⟩ := createdCoins_not_mem_spent hc hoc
    rw [hl₁]
    show UndoLog.apply _ _ oc.1 = none
    rw [UndoLog.apply_of_not_mem (by simpa using hspent)]
    exact hV
  have habs := CoinsLevels.addCoinsLoop_eq_apply 0 tx.vpout s₁.levels hc.notNull
    (hc.created_nodup nHeight) hnone
  obtain ⟨s', h', hs', hl'⟩ := addCoinsLoop_step 0 tx.vpout s₁ _ hs₁ habs
  refine ⟨s', ?_, hs', ?_⟩
  · unfold updateCoins
    rw [h₁]
    simp only [bind, Except.bind, addCoins, h']
    rfl
  · rw [hl', hl₁, txWrites, UndoLog.apply_append]

/-- **The loop of `ConnectBlock`.** The transactions one after the other, each over the map the
ones before it leave. -/
theorem connectBlockLoop_spec {hash : CTransaction → Uint256} {nHeight : Nat} :
    ∀ (vtx : List CTransaction) (s : CoinsStack) (vtxundo : List CTxUndo), s.Sound →
      BlockConnectable hash nHeight s.levels.top vtx →
      ∃ s', connectBlockLoop hash nHeight vtx s vtxundo =
          .ok (s', vtxundo ++ blockUndos hash nHeight s.levels.top vtx) ∧ s'.Sound ∧
        s'.levels = { s.levels with
          top := (UndoLog.apply s.levels.top (blockWrites hash nHeight vtx)) }
  | [], s, vtxundo, hs, _ => ⟨s, by simp [connectBlockLoop, blockUndos], hs, rfl⟩
  | tx :: vtx, s, vtxundo, hs, hc => by
    obtain ⟨s₁, h₁, hs₁, hl₁⟩ := updateCoins_spec hs nHeight hc.1
    have hc₁ : BlockConnectable hash nHeight s₁.levels.top vtx := by
      rw [hl₁]
      exact hc.2
    obtain ⟨s', h', hs', hl'⟩ := connectBlockLoop_spec vtx s₁
      (if tx.isCoinBase then vtxundo else vtxundo ++ [txUndo s.levels.top tx]) hs₁ hc₁
    refine ⟨s', ?_, hs', ?_⟩
    · simp only [connectBlockLoop, h₁]
      show connectBlockLoop hash nHeight vtx s₁
        (if tx.isCoinBase then vtxundo else vtxundo ++ [txUndo s.levels.top tx]) = _
      rw [h', blockUndos, hl₁]
      cases tx.isCoinBase <;> simp
    · rw [hl', hl₁, blockWrites_cons, UndoLog.apply_append]

end CoinsStack

/-- **`ConnectBlock`, the coins.** On a stack of caches whose flags are sound, the transactions of
a connectable block go through `UpdateCoins` without an assertion or exception: the flags stay
sound, the top map takes the writes of the block (each transaction's spent outpoints emptied, its
new coins entered), the other levels stay, the undo data holds the coins each transaction but the
coinbase spent, and the best block is the block. -/
theorem connectBlock_updates_coins {s : CoinsStack} (hs : s.Sound) {hash : CTransaction → Uint256}
    {vtx : List CTransaction} {nHeight : Nat} (hc : BlockConnectable hash nHeight s.levels.top vtx)
    (hashBlock : Uint256) :
    ∃ s', s.connectBlock hash vtx nHeight hashBlock =
        .ok (s', ⟨blockUndos hash nHeight s.levels.top vtx⟩) ∧ s'.Sound ∧
      s'.levels = { s.levels with
        top := (UndoLog.apply s.levels.top (blockWrites hash nHeight vtx)) } ∧
      s'.top.hashBlock = hashBlock := by
  obtain ⟨s', h', hs', hl'⟩ := CoinsStack.connectBlockLoop_spec vtx s [] hs hc
  refine ⟨s'.setBestBlock hashBlock, ?_, ⟨hs'.top, hs'.below⟩, hl', rfl⟩
  simp only [CoinsStack.connectBlock, h', List.nil_append]
  rfl

/-- A stack of one new cache over an empty coins database. -/
def emptyStack : CoinsStack := ⟨CCoinsViewCache.new, [], ⟨fun _ => none, none, []⟩⟩

theorem emptyStack_wellStored : WellStored emptyStack.levels.top := fun _ _ h => nomatch h

theorem fundedStack_wellStored : WellStored fundedStack.levels.top := by
  intro o c h
  rw [fundedStack_top] at h
  split at h
  · cases h
    exact ⟨rfl, rfl, by decide⟩
  · cases h

/-- A transaction spending the coin of `fundedStack` into an output of value `5`. -/
def spendTx : CTransaction :=
  ⟨[⟨fundedOutpoint, [], CTxIn.SEQUENCE_FINAL, ⟨[]⟩, ⟨[]⟩⟩], [.standard 5 [0x51]], 2, 0⟩

theorem spendTx_connectable :
    BlockConnectable (fun _ => onesHash) 1 fundedStack.levels.top [spendTx] := by
  have hspent : spentOutpoints spendTx = [fundedOutpoint] := by decide
  refine ⟨⟨.inl (by decide), by rw [hspent]; simp, fun p hp => ?_, by decide, by decide,
    fun k hk => ?_⟩, trivial⟩
  · rw [hspent, List.mem_singleton] at hp
    rw [hp, fundedStack_top, if_pos rfl]
    rfl
  · have hne : onesHash ≠ fundedOutpoint.hash := by decide
    rw [fundedStack_top, if_neg]
    exact fun h => hne (congrArg COutPoint.hash h)

theorem connectBlock_updates_coins_spendTx :
    fundedStack.Sound ∧ BlockConnectable (fun _ => onesHash) 1 fundedStack.levels.top [spendTx] ∧
      ∃ s', fundedStack.connectBlock (fun _ => onesHash) [spendTx] 1 onesHash =
          .ok (s', ⟨blockUndos (fun _ => onesHash) 1 fundedStack.levels.top [spendTx]⟩) ∧
        s'.Sound ∧ s'.levels = { fundedStack.levels with
          top := (UndoLog.apply fundedStack.levels.top
            (blockWrites (fun _ => onesHash) 1 [spendTx])) } ∧
        s'.top.hashBlock = onesHash :=
  ⟨sound_new _, spendTx_connectable, connectBlock_updates_coins (sound_new _) spendTx_connectable _⟩

/-! ## Disconnecting -/

theorem isZerocoinMint_of_spendable {script : CScript} (h : script.isUnspendable = false) :
    script.isZerocoinMint = false := by
  simp only [CScript.isUnspendable, Bool.or_eq_false_iff] at h
  exact h.2

theorem length_undoCoins (V : CoinsMap) :
    ∀ vin : List CTxIn, (undoCoins V vin).length = (vin.filter fun txin => !txin.isAnonInput).length
  | [] => rfl
  | txin :: vin => by
    cases ha : txin.isAnonInput <;> simp [undoCoins, ha, length_undoCoins V vin]

theorem length_blockUndos (hash : CTransaction → Uint256) (nHeight : Nat) :
    ∀ (V : CoinsMap) (vtx : List CTransaction),
      (blockUndos hash nHeight V vtx).length = (vtx.filter fun tx => !tx.isCoinBase).length
  | _, [] => rfl
  | V, tx :: vtx => by
    cases hcb : tx.isCoinBase <;>
      simp [blockUndos, hcb, length_blockUndos hash nHeight _ vtx]

/-- With distinct keys, the writes of a transaction are undone by emptying its new outpoints, the
last first, then putting back the coins of its spent outpoints, the last first. -/
theorem undoLog_txWrites {V : CoinsMap} {tx : CTransaction} {txid : Uint256} {nHeight : Nat}
    (hc : TxConnectable V tx txid) :
    UndoLog.undoLog V (txWrites tx txid nHeight) =
      ((createdCoins txid tx.isCoinBase nHeight 0 tx.vpout).map fun oc => (oc.1, none)).reverse ++
        ((spentOutpoints tx).map fun p => (p, V p)).reverse := by
  rw [txWrites, UndoLog.undoLog_append, UndoLog.undoLog_of_nodup _ (hc.createWrites_nodup nHeight),
    UndoLog.undoLog_of_nodup _ hc.spendWrites_nodup, List.map_map, List.map_map]
  congr 2
  -- a new outpoint is not spent, so it has no coin after the spends
  refine List.map_congr_left fun oc hoc => ?_
  obtain ⟨hnone, hns⟩ := createdCoins_not_mem_spent hc hoc
  simp only [Function.comp_apply]
  rw [UndoLog.apply_of_not_mem (by simpa using hns), hnone]

/-- After the writes of a transaction, each new outpoint has its coin. -/
theorem apply_txWrites_created {V : CoinsMap} {tx : CTransaction} {txid : Uint256} {nHeight : Nat}
    (hc : TxConnectable V tx txid) {oc : COutPoint × Coin}
    (hoc : oc ∈ createdCoins txid tx.isCoinBase nHeight 0 tx.vpout) :
    UndoLog.apply V (txWrites tx txid nHeight) oc.1 = some oc.2 := by
  rw [txWrites, UndoLog.apply_append]
  exact UndoLog.apply_of_mem (hc.createWrites_nodup nHeight)
    (List.mem_map_of_mem (f := fun oc => (oc.1, some oc.2)) hoc)

/-- After the writes of a transaction and the emptying of its new outpoints, a spent outpoint has
no coin: the connect emptied it, and no new outpoint is a spent one. -/
theorem apply_undoCreated_spent {V : CoinsMap} {tx : CTransaction} {txid : Uint256}
    {nHeight : Nat} (hc : TxConnectable V tx txid) {p : COutPoint} (hp : p ∈ spentOutpoints tx) :
    UndoLog.apply (UndoLog.apply V (txWrites tx txid nHeight))
      ((createdCoins txid tx.isCoinBase nHeight 0 tx.vpout).map fun oc => (oc.1, none)).reverse p =
      none := by
  have hpc : ∀ c, (p, c) ∉ createdCoins txid tx.isCoinBase nHeight 0 tx.vpout :=
    fun c hmem => (createdCoins_not_mem_spent hc hmem).2 hp
  rw [UndoLog.apply_of_not_mem (by simpa using hpc), txWrites, UndoLog.apply_append,
    UndoLog.apply_of_not_mem (by simpa using hpc)]
  exact UndoLog.apply_of_mem hc.spendWrites_nodup (List.mem_map_of_mem (f := fun p => (p, none)) hp)

namespace CoinsStack

variable {s : CoinsStack}

/-- An output whose coin the top map has is spent and clean. -/
theorem disconnectCoin_of_top {op : COutPoint} {c : Coin} {txout : CTxOut} {nHeight : Nat}
    {is_coinbase : Bool} (htop : s.levels.top op = some c) (hout : txout = c.out)
    (hspendable : txout.scriptPubKey.isUnspendable = false) (hheight : c.nHeight.val = nHeight)
    (hcb : c.fCoinBase = is_coinbase) :
    s.disconnectCoin op txout nHeight is_coinbase = (true, (s.spendCoin op).2) := by
  have hspend : s.spendCoin op = (some c, (s.spendCoin op).2) :=
    Prod.ext (spendCoin_fst_of_top htop) rfl
  unfold disconnectCoin
  rw [if_neg (by simp [hspendable]), hspend]
  simp [hout, hheight, hcb]

/-- An output that created a coin: `DisconnectBlock` spends it, clean. -/
theorem disconnectOutput_created (zc : ZerocoinDecode) {txid : Uint256} {is_coinbase : Bool}
    {nHeight k : Nat} {out : CTxOutBase} {c : Coin} (hc : createdCoin out nHeight is_coinbase = some c)
    (htop : s.levels.top ⟨txid, k.toUInt32⟩ = some c) (hh : nHeight < 2 ^ 31) :
    s.disconnectOutput zc txid is_coinbase nHeight k out =
      (DISCONNECT_OK, (s.spendCoin ⟨txid, k.toUInt32⟩).2) := by
  obtain ⟨hcoin, hspendable⟩ := Option.filter_eq_some_iff.mp hc
  simp only [Bool.not_eq_eq_eq_not, Bool.not_true] at hspendable
  obtain ⟨hcb, hheight, script, hscript, hout⟩ := coinOfOutput_eq_some hcoin
  rw [Nat.mod_eq_of_lt hh] at hheight
  rw [hout] at hspendable
  cases out with
  | standard nValue scriptPubKey =>
    cases hscript
    have hmint := isZerocoinMint_of_spendable hspendable
    simp only [disconnectOutput, CTxOutBase.isZerocoinMint, hmint, Bool.false_eq_true, if_false]
    exact congrArg (fun r => (ofClean r.1, r.2)) (disconnectCoin_of_top htop hout.symm hspendable hheight hcb)
  | ct commitment vData scriptPubKey vRangeproof =>
    cases hscript
    simp only [disconnectOutput, CTxOutBase.isZerocoinMint, Bool.false_eq_true, if_false]
    exact congrArg (fun r => (ofClean r.1, r.2)) (disconnectCoin_of_top htop hout.symm hspendable hheight hcb)
  | ringct => cases hcoin
  | data => cases hcoin

/-- An output that created no coin, and whose public coin can be read if it is a mint:
`DisconnectBlock` leaves the coins alone. -/
theorem disconnectOutput_not_created (zc : ZerocoinDecode) {txid : Uint256} {is_coinbase : Bool}
    {nHeight k : Nat} {out : CTxOutBase} (hc : createdCoin out nHeight is_coinbase = none)
    (hmint : out.isZerocoinMint = true → zc.outputToPublicCoin out = true) :
    s.disconnectOutput zc txid is_coinbase nHeight k out = (DISCONNECT_OK, s) := by
  -- a standard or CT output makes a coin, so its script is unspendable
  cases out with
  | standard nValue scriptPubKey =>
    have hun : scriptPubKey.isUnspendable = true := by
      simpa [createdCoin, coinOfOutput] using hc
    unfold disconnectOutput disconnectCoin
    split
    · next hm => simp [hmint hm]
    · simp [hun, ofClean]
  | ct commitment vData scriptPubKey vRangeproof =>
    have hun : scriptPubKey.isUnspendable = true := by
      simpa [createdCoin, coinOfOutput] using hc
    simp [disconnectOutput, disconnectCoin, CTxOutBase.isZerocoinMint, hun, ofClean]
  | ringct => rfl
  | data => rfl

/-- **The outputs of `DisconnectBlock`.** Where the top map has the coins the outputs created and
every mint's public coin can be read, each output is spent, clean: the new outpoints are emptied,
the last first. -/
theorem disconnectOutputs_spec (zc : ZerocoinDecode) {txid : Uint256} {is_coinbase : Bool}
    {nHeight : Nat} (hh : nHeight < 2 ^ 31) :
    ∀ (k : Nat) (vpout : List CTxOutBase) (s : CoinsStack), s.Sound →
      (∀ out ∈ vpout, out.isZerocoinMint = true → zc.outputToPublicCoin out = true) →
      ((createdCoins txid is_coinbase nHeight k vpout).map Prod.fst).Nodup →
      (∀ oc ∈ createdCoins txid is_coinbase nHeight k vpout, s.levels.top oc.1 = some oc.2) →
      ∃ s', disconnectOutputs zc txid is_coinbase nHeight k vpout s = (DISCONNECT_OK, s') ∧
        s'.Sound ∧ s'.levels = { s.levels with top := (UndoLog.apply s.levels.top
          ((createdCoins txid is_coinbase nHeight k vpout).map fun oc => (oc.1, none)).reverse) }
  | _, [], s, hs, _, _, _ => ⟨s, rfl, hs, rfl⟩
  | k, out :: vpout, s, hs, hmints, hnd, htop => by
    have hmints' : ∀ out ∈ vpout, out.isZerocoinMint = true → zc.outputToPublicCoin out = true :=
      fun out' h' => hmints out' (List.mem_cons_of_mem _ h')
    unfold createdCoins at hnd htop ⊢
    cases hc : createdCoin out nHeight is_coinbase with
    | none =>
      rw [hc] at hnd htop
      obtain ⟨s₁, h₁, hs₁, hl₁⟩ := disconnectOutputs_spec zc hh (k + 1) vpout s hs hmints' hnd htop
      refine ⟨s₁, ?_, hs₁, hl₁⟩
      simp only [disconnectOutputs, h₁, reduceCtorEq, if_false,
        disconnectOutput_not_created zc hc (hmints out List.mem_cons_self), join_ok]
    | some c =>
      rw [hc] at hnd htop
      dsimp only at hnd htop ⊢
      rw [List.map_cons, List.nodup_cons] at hnd
      obtain ⟨s₁, h₁, hs₁, hl₁⟩ := disconnectOutputs_spec zc hh (k + 1) vpout s hs hmints' hnd.2
        fun oc hoc => htop oc (List.mem_cons_of_mem _ hoc)
      -- the later outputs emptied other outpoints, so the top map still has this coin
      have htop₁ : s₁.levels.top ⟨txid, k.toUInt32⟩ = some c := by
        rw [hl₁]
        show UndoLog.apply _ _ _ = _
        rw [UndoLog.apply_of_not_mem (by simpa using hnd.1)]
        exact htop _ List.mem_cons_self
      obtain ⟨hs₂, hl₂⟩ := spendCoin_step hs₁ ⟨txid, k.toUInt32⟩
      refine ⟨_, ?_, hs₂, ?_⟩
      · simp only [disconnectOutputs, h₁, reduceCtorEq, if_false,
          disconnectOutput_created zc hc htop₁ hh, join_ok]
      · rw [hl₂, hl₁, List.map_cons, List.reverse_cons, UndoLog.apply_append]
        rfl

/-- **`ApplyTxInUndo`.** A restorable coin put back where the top map has none: clean. -/
theorem applyTxInUndo_spec (hs : s.Sound) {undo : Coin} {out : COutPoint} (hu : Restorable undo)
    (htop : s.levels.top out = none) :
    ∃ s', s.applyTxInUndo undo out = .ok (DISCONNECT_OK, s') ∧ s'.Sound ∧
      s'.levels = { s.levels with top := Function.update s.levels.top out (some undo) } := by
  have hhave : (s.haveCoin out).1 = false := by rw [haveCoin_levels, htop]; rfl
  have hs₁ : (s.haveCoin out).2.Sound := sound_fetchCoin hs out
  have hl₁ : (s.haveCoin out).2.levels = s.levels := levels_fetchCoin s out
  -- the plain map takes the coin without `possible_overwrite`
  have habs : (s.haveCoin out).2.levels.addCoin out undo false =
      some { s.levels with top := Function.update s.levels.top out (some undo) } := by
    rw [hl₁]
    simp [CoinsLevels.addCoin, hu.unspent, hu.spendable, htop]
  obtain ⟨s', h', hs', hl'⟩ := addCoin_step hs₁ habs
  refine ⟨s', ?_, hs', hl'⟩
  simp only [applyTxInUndo, hhave, hu.height, if_false, Bool.not_false, Bool.not_true, h', bind,
    Except.bind]
  rfl

/-- Every input anon: the input loop of `DisconnectBlock` restores nothing. -/
theorem disconnectInputs_anon (zc : ZerocoinDecode) (vprevout : List Coin) :
    ∀ (j : Nat) (vin : List CTxIn) (s : CoinsStack), (∀ txin ∈ vin, txin.isAnonInput = true) →
      disconnectInputs zc vprevout j vin s = .ok (DISCONNECT_OK, s)
  | _, [], _, _ => rfl
  | j, txin :: vin, s, hanon => by
    have h := disconnectInputs_anon zc vprevout (j + 1) vin s
      fun txin' h' => hanon txin' (List.mem_cons_of_mem _ h')
    simp only [disconnectInputs, h, hanon txin List.mem_cons_self]
    rfl

/-- **The inputs of `DisconnectBlock`.** No input anon, the spend of every zerocoin input
readable, distinct plain prevouts with coins in `V` and none in the top map, and the undo record of
the inputs over `V` after `pre`: each coin is put back, clean, the last first. -/
theorem disconnectInputs_spec (zc : ZerocoinDecode) {V : CoinsMap} (hV : WellStored V) :
    ∀ (vin : List CTxIn) (pre : List Coin) (s : CoinsStack), (∀ txin ∈ vin, txin.isAnonInput = false) →
      (∀ txin ∈ vin, txin.scriptSig.isZerocoinSpend = true → zc.txInToZerocoinSpend txin = true) →
      s.Sound → (plainPrevouts vin).Nodup →
      (∀ p ∈ plainPrevouts vin, (V p).isSome ∧ s.levels.top p = none) →
      ∃ s', disconnectInputs zc (pre ++ undoCoins V vin) pre.length vin s = .ok (DISCONNECT_OK, s') ∧
        s'.Sound ∧ s'.levels = { s.levels with top := (UndoLog.apply s.levels.top
          ((plainPrevouts vin).map fun p => (p, V p)).reverse) }
  | [], _, s, _, _, hs, _, _ => ⟨s, rfl, hs, rfl⟩
  | txin :: vin, pre, s, hanon, hspends, hs, hnd, hprev => by
    have ha : txin.isAnonInput = false := hanon txin List.mem_cons_self
    have hanon' : ∀ txin ∈ vin, txin.isAnonInput = false :=
      fun txin' h' => hanon txin' (List.mem_cons_of_mem _ h')
    have hspends' : ∀ txin ∈ vin, txin.scriptSig.isZerocoinSpend = true →
        zc.txInToZerocoinSpend txin = true :=
      fun txin' h' => hspends txin' (List.mem_cons_of_mem _ h')
    -- the undo coin of this input sits at `pre.length`, the later ones after it
    set u := if txin.scriptSig.isZerocoinSpend then coinEmpty else (V txin.prevout).getD coinEmpty
    have hvprevout : pre ++ undoCoins V (txin :: vin) = (pre ++ [u]) ++ undoCoins V vin := by
      simp [undoCoins, ha, u]
    have hget : (pre ++ undoCoins V (txin :: vin))[pre.length]? = some u := by
      rw [hvprevout, List.append_assoc, List.getElem?_append_right (Nat.le_refl _)]
      simp
    by_cases hz : txin.scriptSig.isZerocoinSpend = true
    · -- a zerocoin spend, read back, restores nothing
      rw [plainPrevouts_cons_of_zerocoin hz] at hnd hprev ⊢
      obtain ⟨s₁, h₁, hs₁, hl₁⟩ :=
        disconnectInputs_spec zc hV vin (pre ++ [u]) s hanon' hspends' hs hnd hprev
      refine ⟨s₁, ?_, hs₁, hl₁⟩
      rw [hvprevout]
      simp only [disconnectInputs]
      rw [show pre.length + 1 = (pre ++ [u]).length by simp, h₁]
      simp [bind, Except.bind, ha, hz, hspends txin List.mem_cons_self hz]
      rfl
    have hz' : txin.scriptSig.isZerocoinSpend = false := by simpa using hz
    rw [plainPrevouts_cons_of_plain ha hz'] at hnd hprev ⊢
    rw [List.nodup_cons] at hnd
    obtain ⟨s₁, h₁, hs₁, hl₁⟩ := disconnectInputs_spec zc hV vin (pre ++ [u]) s hanon' hspends' hs
      hnd.2 fun p hp => hprev p (List.mem_cons_of_mem _ hp)
    obtain ⟨hsome, hnone⟩ := hprev txin.prevout List.mem_cons_self
    obtain ⟨c, hc⟩ := Option.isSome_iff_exists.mp hsome
    have hu : u = c := by simp [u, hz', hc]
    -- the later inputs put back other prevouts, so the top map still has no coin here
    have hnone₁ : s₁.levels.top txin.prevout = none := by
      rw [hl₁]
      show UndoLog.apply _ _ _ = _
      rw [UndoLog.apply_of_not_mem (by simpa using hnd.1)]
      exact hnone
    obtain ⟨s₂, h₂, hs₂, hl₂⟩ := applyTxInUndo_spec hs₁ (hV _ c hc) hnone₁
    refine ⟨s₂, ?_, hs₂, ?_⟩
    · have h₁' : disconnectInputs zc (pre ++ undoCoins V (txin :: vin)) (pre.length + 1) vin s =
          .ok (DISCONNECT_OK, s₁) := by
        rw [hvprevout, show pre.length + 1 = (pre ++ [u]).length by simp]
        exact h₁
      simp only [disconnectInputs, h₁', bind, Except.bind, ha, hz']
      simp only [Bool.or_false, hget, hu, h₂, join_ok]
      rfl
    · rw [hl₂, hl₁, List.map_cons, List.reverse_cons, UndoLog.apply_append, hc]
      rfl

/-- With the inputs `ConnectBlock` allows, all anon or none, the input loop puts back the coins of
the plain prevouts, the last first. -/
theorem disconnectInputs_restores (zc : ZerocoinDecode) {V : CoinsMap} (hV : WellStored V)
    {vin : List CTxIn}
    (hmixed : (∀ txin ∈ vin, txin.isAnonInput = false) ∨ ∀ txin ∈ vin, txin.isAnonInput = true)
    (hspends : ∀ txin ∈ vin, txin.isAnonInput = false → txin.scriptSig.isZerocoinSpend = true →
      zc.txInToZerocoinSpend txin = true)
    (hs : s.Sound) (hnd : (plainPrevouts vin).Nodup)
    (hprev : ∀ p ∈ plainPrevouts vin, (V p).isSome ∧ s.levels.top p = none) :
    ∃ s', disconnectInputs zc (undoCoins V vin) 0 vin s = .ok (DISCONNECT_OK, s') ∧ s'.Sound ∧
      s'.levels = { s.levels with top := (UndoLog.apply s.levels.top
        ((plainPrevouts vin).map fun p => (p, V p)).reverse) } := by
  rcases hmixed with hplain | hanon
  · simpa using disconnectInputs_spec zc hV vin [] s hplain
      (fun txin h => hspends txin h (hplain txin h)) hs hnd hprev
  · -- every input anon: nothing to put back
    have hnil : plainPrevouts vin = [] := by
      simp only [plainPrevouts, List.map_eq_nil_iff, List.filter_eq_nil_iff, Bool.and_eq_true,
        Bool.not_eq_eq_eq_not, Bool.not_true, not_and]
      intro txin h hfalse
      rw [hanon txin h] at hfalse
      cases hfalse
    refine ⟨s, disconnectInputs_anon zc _ 0 vin s hanon, hs, ?_⟩
    rw [hnil]
    rfl

/-- After the outputs of a connected transaction that is not the coinbase are spent again, its
plain prevouts have their coins in `V` and none in the top map. -/
theorem plainPrevouts_after_outputs {V : CoinsMap} {tx : CTransaction} {txid : Uint256}
    {nHeight : Nat} {s₁ : CoinsStack} (hc : TxConnectable V tx txid) (hcb : tx.isCoinBase = false)
    (htop : s.levels.top = UndoLog.apply V (txWrites tx txid nHeight))
    (hl₁ : s₁.levels = { s.levels with top := (UndoLog.apply s.levels.top
      ((createdCoins txid tx.isCoinBase nHeight 0 tx.vpout).map fun oc => (oc.1, none)).reverse) }) :
    ∀ p ∈ plainPrevouts tx.vin, (V p).isSome ∧ s₁.levels.top p = none := by
  have hspent : spentOutpoints tx = plainPrevouts tx.vin := by simp [spentOutpoints, hcb]
  intro p hp
  rw [← hspent] at hp
  refine ⟨hc.unspent p hp, ?_⟩
  rw [hl₁]
  show UndoLog.apply _ _ p = none
  rw [htop]
  exact apply_undoCreated_spent hc hp

/-- A transaction that is not the coinbase, its outputs clean, and its undo record where
`nVtxundo` points: `DisconnectBlock` goes on to its inputs. -/
theorem disconnectTx_of_outputs (zc : ZerocoinDecode) {V : CoinsMap} {tx : CTransaction}
    {txid : Uint256} {nHeight : Nat} {blockUndo : CBlockUndo} {nVtxundo : Int} {s₁ : CoinsStack}
    (hcb : tx.isCoinBase = false)
    (h₁ : disconnectOutputs zc txid false nHeight 0 tx.vpout s = (DISCONNECT_OK, s₁))
    (h0 : 0 ≤ nVtxundo) (hget : blockUndo.vtxundo[nVtxundo.toNat]? = some (txUndo V tx)) :
    s.disconnectTx zc blockUndo txid nHeight tx nVtxundo =
      (disconnectInputs zc (undoCoins V tx.vin) 0 tx.vin s₁).map fun r => (r.1, r.2, nVtxundo - 1) := by
  have hlen : (undoCoins V tx.vin).length =
      (tx.vin.filter fun txin => !txin.isAnonInput).length := length_undoCoins V tx.vin
  simp only [txUndo, hcb, Bool.false_eq_true, if_false] at hget
  simp only [disconnectTx, hcb, h₁, reduceCtorEq, Bool.false_eq_true, if_false, not_lt.mpr h0,
    hget, hlen, ne_eq, not_true_eq_false, bind, Except.bind]
  cases disconnectInputs zc (undoCoins V tx.vin) 0 tx.vin s₁ with
  | error e => rfl
  | ok r => simp [Except.map, pure, Except.pure]

/-- **One transaction, disconnected.** Over the map the connect left, with the transaction's undo
record where `nVtxundo` points, and its zerocoin data readable: the outputs are spent and the
inputs put back, clean, and the top map is again the map `V` the transaction was connected to. -/
theorem disconnectTx_spec (zc : ZerocoinDecode) {V : CoinsMap} (hV : WellStored V) {tx : CTransaction}
    {txid : Uint256} {nHeight : Nat} (hc : TxConnectable V tx txid) (hzc : ZerocoinDecodable zc tx)
    (hh : nHeight < 2 ^ 31) (hs : s.Sound)
    (htop : s.levels.top = UndoLog.apply V (txWrites tx txid nHeight)) {blockUndo : CBlockUndo}
    {nVtxundo : Int} (hundo : tx.isCoinBase = false →
      0 ≤ nVtxundo ∧ blockUndo.vtxundo[nVtxundo.toNat]? = some (txUndo V tx)) :
    ∃ s', s.disconnectTx zc blockUndo txid nHeight tx nVtxundo =
        .ok (DISCONNECT_OK, s', if tx.isCoinBase then nVtxundo else nVtxundo - 1) ∧ s'.Sound ∧
      s'.levels = { s.levels with top := V } := by
  obtain ⟨s₁, h₁, hs₁, hl₁⟩ := disconnectOutputs_spec zc hh 0 tx.vpout s hs hzc.mints
    (hc.created_nodup nHeight) fun oc hoc => by rw [htop]; exact apply_txWrites_created hc hoc
  -- what is left to undo are the spends
  have hundone : UndoLog.apply s₁.levels.top ((spentOutpoints tx).map fun p => (p, V p)).reverse =
      V := by
    rw [hl₁]
    show UndoLog.apply (UndoLog.apply _ _) _ = V
    rw [htop, ← UndoLog.apply_append, ← undoLog_txWrites hc, UndoLog.apply_undoLog]
  cases hcb : tx.isCoinBase
  · -- the inputs go back from the undo record
    have hprev := plainPrevouts_after_outputs hc hcb htop hl₁
    rw [hcb] at h₁
    obtain ⟨h0, hget⟩ := hundo hcb
    have hspent : spentOutpoints tx = plainPrevouts tx.vin := by simp [spentOutpoints, hcb]
    obtain ⟨s₂, h₂, hs₂, hl₂⟩ := disconnectInputs_restores zc hV hc.notMixed (hzc.spends hcb) hs₁
      (hspent ▸ hc.nodup) hprev
    refine ⟨s₂, ?_, hs₂, ?_⟩
    · rw [disconnectTx_of_outputs zc hcb h₁ h0 hget, h₂]
      rfl
    · rw [hl₂, ← hspent, hundone, hl₁]
  · -- a coinbase spends nothing
    rw [hcb] at h₁
    have hspent : spentOutpoints tx = [] := by simp [spentOutpoints, hcb]
    have hV₁ : s₁.levels.top = V := by simpa [hspent] using hundone
    refine ⟨s₁, ?_, hs₁, ?_⟩
    · simp [disconnectTx, hcb, h₁]
    · rw [← hV₁, hl₁]

/-- **The loop of `DisconnectBlock`.** The transactions from the last, each over the map the
connect left after it, with its record where the connect put it: clean, and the top map is again
the map `V` the block was connected to. -/
theorem disconnectTxs_spec (zc : ZerocoinDecode) {hash : CTransaction → Uint256} {nHeight : Nat}
    (hh : 0 < nHeight ∧ nHeight < 2 ^ 31) {blockUndo : CBlockUndo} :
    ∀ (vtx : List CTransaction) (V : CoinsMap) (pre post : List CTxUndo) (s : CoinsStack),
      WellStored V → BlockConnectable hash nHeight V vtx → (∀ tx ∈ vtx, ZerocoinDecodable zc tx) →
      s.Sound → s.levels.top = UndoLog.apply V (blockWrites hash nHeight vtx) →
      blockUndo.vtxundo = pre ++ blockUndos hash nHeight V vtx ++ post →
      ∃ s', disconnectTxs zc hash blockUndo nHeight vtx s
          (((pre ++ blockUndos hash nHeight V vtx).length : Int) - 1) =
          .ok (DISCONNECT_OK, s', (pre.length : Int) - 1) ∧ s'.Sound ∧
        s'.levels = { s.levels with top := V }
  | [], V, pre, _, s, _, _, _, hs, htop, _ => by
    refine ⟨s, by simp [disconnectTxs, blockUndos], hs, ?_⟩
    rw [blockWrites, List.flatMap_nil, UndoLog.apply_nil] at htop
    rw [← htop]
  | tx :: vtx, V, pre, post, s, hV, hc, hzc, hs, htop, hundo => by
    -- the transactions after `tx` first, over the map `tx` left
    set V₁ := UndoLog.apply V (txWrites tx (hash tx) nHeight)
    set pre' := pre ++ (if tx.isCoinBase then [] else [txUndo V tx])
    have hV₁ : WellStored V₁ := wellStored_apply_txWrites hV hc.1.notNull hh
    have htop₁ : s.levels.top = UndoLog.apply V₁ (blockWrites hash nHeight vtx) := by
      rw [htop, blockWrites_cons, UndoLog.apply_append]
    have hundo₁ : blockUndo.vtxundo = pre' ++ blockUndos hash nHeight V₁ vtx ++ post := by
      rw [hundo, blockUndos]
      simp only [pre', V₁, List.append_assoc]
    obtain ⟨s₁, h₁, hs₁, hl₁⟩ := disconnectTxs_spec zc hh vtx V₁ pre' post s hV₁ hc.2
      (fun tx' h' => hzc tx' (List.mem_cons_of_mem _ h')) hs htop₁ hundo₁
    -- then `tx`, with its record at the end of `pre'`
    have hrec : tx.isCoinBase = false →
        0 ≤ (pre'.length : Int) - 1 ∧ blockUndo.vtxundo[((pre'.length : Int) - 1).toNat]? =
          some (txUndo V tx) := by
      intro hcb
      have hlen : pre'.length = pre.length + 1 := by simp [pre', hcb]
      refine ⟨by omega, ?_⟩
      rw [hlen, show ((pre.length + 1 : Nat) : Int) - 1 = (pre.length : Int) by omega,
        Int.toNat_natCast, hundo]
      simp [blockUndos, hcb]
    obtain ⟨s₂, h₂, hs₂, hl₂⟩ := disconnectTx_spec zc hV hc.1 (hzc tx List.mem_cons_self) hh.2 hs₁
      (by rw [hl₁]) hrec
    refine ⟨s₂, ?_, hs₂, ?_⟩
    · have hstart : pre ++ blockUndos hash nHeight V (tx :: vtx) =
          pre' ++ blockUndos hash nHeight V₁ vtx := by
        rw [blockUndos, List.append_assoc]
      have hend : (if tx.isCoinBase then (pre'.length : Int) - 1 else (pre'.length : Int) - 1 - 1) =
          (pre.length : Int) - 1 := by
        cases hcb : tx.isCoinBase <;> simp [pre', hcb]
      rw [hstart]
      simp only [disconnectTxs, h₁, bind, Except.bind, reduceCtorEq, if_false, h₂, join_ok, hend]
      rfl
    · rw [hl₂, hl₁]

/-- **Disconnecting what was connected.** On a stack whose flags are sound and whose top map the
writes of a connectable block moved from `V`, `DisconnectBlock` with the undo data those writes
logged, where the zerocoin data of the block can be read back, is `DISCONNECT_OK`, and puts `V`
back on top. -/
theorem disconnectBlock_of_connected (zc : ZerocoinDecode) {hash : CTransaction → Uint256}
    {vtx : List CTransaction} {nHeight : Nat} {V : CoinsMap} (hh : 0 < nHeight ∧ nHeight < 2 ^ 31)
    (hV : WellStored V) (hc : BlockConnectable hash nHeight V vtx)
    (hzc : ∀ tx ∈ vtx, ZerocoinDecodable zc tx) {s₁ : CoinsStack} (hs₁ : s₁.Sound)
    (htop : s₁.levels.top = UndoLog.apply V (blockWrites hash nHeight vtx)) (hashPrev : Uint256) :
    ∃ s₂, s₁.disconnectBlock zc hash vtx ⟨blockUndos hash nHeight V vtx⟩ nHeight hashPrev =
        .ok (DISCONNECT_OK, s₂) ∧
      s₂.Sound ∧ s₂.levels = { s₁.levels with top := V } ∧ s₂.top.hashBlock = hashPrev := by
  -- the connect wrote one record for each transaction but the coinbase
  have hlen : (blockUndos hash nHeight V vtx).length =
      (vtx.filter fun tx => !tx.isCoinBase).length := length_blockUndos hash nHeight _ vtx
  obtain ⟨s₂, h₂, hs₂, hl₂⟩ := disconnectTxs_spec zc hh vtx V [] [] s₁ hV hc hzc hs₁ htop
    (show (⟨blockUndos hash nHeight V vtx⟩ : CBlockUndo).vtxundo =
      [] ++ blockUndos hash nHeight V vtx ++ [] by simp)
  refine ⟨s₂.setBestBlock hashPrev, ?_, ⟨hs₂.top, hs₂.below⟩, hl₂, rfl⟩
  simp only [List.nil_append, hlen] at h₂
  simp only [disconnectBlock, hlen, ne_eq, not_true_eq_false, and_false, if_false, h₂,
    bind, Except.bind, reduceCtorEq]
  rfl

/-! ## A spend that cannot be read back -/

/-- **The null `CoinSpend`.** No input anon, distinct plain prevouts with coins in `V` and none in
the top map, and one zerocoin spend whose script cannot be read: the input loop, from the last
input, gets through the inputs after the last such spend and then dereferences the null pointer. -/
theorem disconnectInputs_null (zc : ZerocoinDecode) {V : CoinsMap} (hV : WellStored V) :
    ∀ (vin : List CTxIn) (pre : List Coin) (s : CoinsStack), (∀ txin ∈ vin, txin.isAnonInput = false) →
      s.Sound → (plainPrevouts vin).Nodup →
      (∀ p ∈ plainPrevouts vin, (V p).isSome ∧ s.levels.top p = none) →
      (∃ txin ∈ vin, txin.scriptSig.isZerocoinSpend = true ∧ zc.txInToZerocoinSpend txin = false) →
      disconnectInputs zc (pre ++ undoCoins V vin) pre.length vin s =
        .error (.nullDereference "spend->getCoinSerialNumber()")
  | [], _, _, _, _, _, _, ⟨_, h, _⟩ => nomatch h
  | txin :: vin, pre, s, hanon, hs, hnd, hprev, hbad => by
    have ha : txin.isAnonInput = false := hanon txin List.mem_cons_self
    have hanon' : ∀ txin ∈ vin, txin.isAnonInput = false :=
      fun txin' h' => hanon txin' (List.mem_cons_of_mem _ h')
    set u := if txin.scriptSig.isZerocoinSpend then coinEmpty else (V txin.prevout).getD coinEmpty
    have hvprevout : pre ++ undoCoins V (txin :: vin) = (pre ++ [u]) ++ undoCoins V vin := by
      simp [undoCoins, ha, u]
    -- the later inputs meet the prevouts the connect spent
    have htail : (plainPrevouts vin).Nodup ∧
        ∀ p ∈ plainPrevouts vin, (V p).isSome ∧ s.levels.top p = none := by
      cases hz : txin.scriptSig.isZerocoinSpend
      · rw [plainPrevouts_cons_of_plain ha hz, List.nodup_cons] at hnd
        rw [plainPrevouts_cons_of_plain ha hz] at hprev
        exact ⟨hnd.2, fun p hp => hprev p (List.mem_cons_of_mem _ hp)⟩
      · rw [plainPrevouts_cons_of_zerocoin hz] at hnd hprev
        exact ⟨hnd, hprev⟩
    rw [hvprevout]
    simp only [disconnectInputs]
    rw [show pre.length + 1 = (pre ++ [u]).length by simp]
    by_cases hlater : ∃ txin' ∈ vin, txin'.scriptSig.isZerocoinSpend = true ∧
        zc.txInToZerocoinSpend txin' = false
    · -- a later input dereferences it first
      rw [disconnectInputs_null zc hV vin (pre ++ [u]) s hanon' hs htail.1 htail.2 hlater]
      rfl
    · -- every later spend is read, so this input is the one that is not
      obtain ⟨t, ht, hz, hdec⟩ := hbad
      obtain rfl : t = txin := (List.mem_cons.mp ht).resolve_right fun h => hlater ⟨t, h, hz, hdec⟩
      have hspends : ∀ txin' ∈ vin, txin'.scriptSig.isZerocoinSpend = true →
          zc.txInToZerocoinSpend txin' = true := by
        intro txin' h' hz'
        by_contra hn
        exact hlater ⟨txin', h', hz', by simpa using hn⟩
      obtain ⟨s₁, h₁, -, -⟩ :=
        disconnectInputs_spec zc hV vin (pre ++ [u]) s hanon' hspends hs htail.1 htail.2
      rw [h₁]
      simp [bind, Except.bind, ha, hz, hdec]

/-- A connected transaction, not the coinbase, whose mints can be read but one of whose spends
cannot: its disconnect dereferences the null pointer. -/
theorem disconnectTx_null (zc : ZerocoinDecode) {V : CoinsMap} (hV : WellStored V)
    {tx : CTransaction} {txid : Uint256} {nHeight : Nat} (hc : TxConnectable V tx txid)
    (hmints : ∀ out ∈ tx.vpout, out.isZerocoinMint = true → zc.outputToPublicCoin out = true)
    (hbad : HasUnreadableSpend zc tx) (hh : nHeight < 2 ^ 31) (hs : s.Sound)
    (htop : s.levels.top = UndoLog.apply V (txWrites tx txid nHeight)) {blockUndo : CBlockUndo}
    {nVtxundo : Int} (h0 : 0 ≤ nVtxundo)
    (hget : blockUndo.vtxundo[nVtxundo.toNat]? = some (txUndo V tx)) :
    s.disconnectTx zc blockUndo txid nHeight tx nVtxundo =
      .error (.nullDereference "spend->getCoinSerialNumber()") := by
  obtain ⟨hcb, txin, hin, ha, hz, hdec⟩ := hbad
  obtain ⟨s₁, h₁, hs₁, hl₁⟩ := disconnectOutputs_spec zc hh 0 tx.vpout s hs hmints
    (hc.created_nodup nHeight) fun oc hoc => by rw [htop]; exact apply_txWrites_created hc hoc
  have hprev := plainPrevouts_after_outputs hc hcb htop hl₁
  rw [hcb] at h₁
  -- an input that is not anon: none is
  have hplain : ∀ txin ∈ tx.vin, txin.isAnonInput = false :=
    hc.notMixed.resolve_right fun hall => absurd (hall txin hin) (by rw [ha]; decide)
  have hspent : spentOutpoints tx = plainPrevouts tx.vin := by simp [spentOutpoints, hcb]
  have hnull := disconnectInputs_null zc hV tx.vin [] s₁ hplain hs₁ (hspent ▸ hc.nodup) hprev
    ⟨txin, hin, hz, hdec⟩
  rw [List.nil_append, List.length_nil] at hnull
  rw [disconnectTx_of_outputs zc hcb h₁ h0 hget, hnull]
  rfl

/-- **The loop of `DisconnectBlock` meets the null `CoinSpend`.** The transactions from the last,
over the maps the connect left, with their records where the connect put them, every mint
readable, and some transaction with a spend that cannot be read: the loop gets through the
transactions after the last such one and then dereferences the null pointer. -/
theorem disconnectTxs_null (zc : ZerocoinDecode) {hash : CTransaction → Uint256} {nHeight : Nat}
    (hh : 0 < nHeight ∧ nHeight < 2 ^ 31) {blockUndo : CBlockUndo} :
    ∀ (vtx : List CTransaction) (V : CoinsMap) (pre post : List CTxUndo) (s : CoinsStack),
      WellStored V → BlockConnectable hash nHeight V vtx →
      (∀ tx ∈ vtx, ∀ out ∈ tx.vpout, out.isZerocoinMint = true → zc.outputToPublicCoin out = true) →
      (∃ tx ∈ vtx, HasUnreadableSpend zc tx) →
      s.Sound → s.levels.top = UndoLog.apply V (blockWrites hash nHeight vtx) →
      blockUndo.vtxundo = pre ++ blockUndos hash nHeight V vtx ++ post →
      disconnectTxs zc hash blockUndo nHeight vtx s
          (((pre ++ blockUndos hash nHeight V vtx).length : Int) - 1) =
        .error (.nullDereference "spend->getCoinSerialNumber()")
  | [], _, _, _, _, _, _, _, ⟨_, h, _⟩, _, _, _ => nomatch h
  | tx :: vtx, V, pre, post, s, hV, hc, hmints, hbad, hs, htop, hundo => by
    set V₁ := UndoLog.apply V (txWrites tx (hash tx) nHeight)
    set pre' := pre ++ (if tx.isCoinBase then [] else [txUndo V tx])
    have hV₁ : WellStored V₁ := wellStored_apply_txWrites hV hc.1.notNull hh
    have htop₁ : s.levels.top = UndoLog.apply V₁ (blockWrites hash nHeight vtx) := by
      rw [htop, blockWrites_cons, UndoLog.apply_append]
    have hundo₁ : blockUndo.vtxundo = pre' ++ blockUndos hash nHeight V₁ vtx ++ post := by
      rw [hundo, blockUndos]
      simp only [pre', V₁, List.append_assoc]
    have hmints' : ∀ tx' ∈ vtx, ∀ out ∈ tx'.vpout, out.isZerocoinMint = true →
        zc.outputToPublicCoin out = true :=
      fun tx' h' => hmints tx' (List.mem_cons_of_mem _ h')
    have hstart : pre ++ blockUndos hash nHeight V (tx :: vtx) =
        pre' ++ blockUndos hash nHeight V₁ vtx := by
      rw [blockUndos, List.append_assoc]
    rw [hstart]
    by_cases hlater : ∃ tx' ∈ vtx, HasUnreadableSpend zc tx'
    · -- a later transaction dereferences it first
      rw [disconnectTxs, disconnectTxs_null zc hh vtx V₁ pre' post s hV₁ hc.2 hmints' hlater hs
        htop₁ hundo₁]
      rfl
    · -- the later transactions disconnect clean, and `tx` has the spend that cannot be read
      have hzc : ∀ tx' ∈ vtx, ZerocoinDecodable zc tx' :=
        fun tx' h' => .of_not_unreadable (hmints' tx' h') fun hu => hlater ⟨tx', h', hu⟩
      obtain ⟨s₁, h₁, hs₁, hl₁⟩ := disconnectTxs_spec zc hh vtx V₁ pre' post s hV₁ hc.2 hzc hs
        htop₁ hundo₁
      obtain ⟨t, ht, hu⟩ := hbad
      have hu' : HasUnreadableSpend zc tx :=
        (List.mem_cons.mp ht).elim (fun h => h ▸ hu) fun h => absurd ⟨t, h, hu⟩ hlater
      -- its record is the last of `pre'`
      have hlen : pre'.length = pre.length + 1 := by simp [pre', hu'.1]
      have hrec : blockUndo.vtxundo[((pre'.length : Int) - 1).toNat]? = some (txUndo V tx) := by
        rw [hlen, show ((pre.length + 1 : Nat) : Int) - 1 = (pre.length : Int) by omega,
          Int.toNat_natCast, hundo]
        simp [blockUndos, hu'.1]
      have hnull := disconnectTx_null zc hV hc.1 (hmints tx List.mem_cons_self) hu' hh.2 hs₁
        (by rw [hl₁]) (by omega) hrec
      simp only [disconnectTxs, h₁, bind, Except.bind, reduceCtorEq, if_false, hnull]

/-- **`DisconnectBlock` of what was connected, with a spend that cannot be read.** As in
`disconnectBlock_of_connected`, with every mint readable but some transaction's zerocoin spend not:
`DisconnectBlock` dereferences the null `CoinSpend` where `DISCONNECT_OK` was due. -/
theorem disconnectBlock_null_of_connected (zc : ZerocoinDecode) {hash : CTransaction → Uint256}
    {vtx : List CTransaction} {nHeight : Nat} {V : CoinsMap} (hh : 0 < nHeight ∧ nHeight < 2 ^ 31)
    (hV : WellStored V) (hc : BlockConnectable hash nHeight V vtx)
    (hmints : ∀ tx ∈ vtx, ∀ out ∈ tx.vpout, out.isZerocoinMint = true → zc.outputToPublicCoin out = true)
    (hbad : ∃ tx ∈ vtx, HasUnreadableSpend zc tx) {s₁ : CoinsStack} (hs₁ : s₁.Sound)
    (htop : s₁.levels.top = UndoLog.apply V (blockWrites hash nHeight vtx)) (hashPrev : Uint256) :
    s₁.disconnectBlock zc hash vtx ⟨blockUndos hash nHeight V vtx⟩ nHeight hashPrev =
      .error (.nullDereference "spend->getCoinSerialNumber()") := by
  have hlen : (blockUndos hash nHeight V vtx).length =
      (vtx.filter fun tx => !tx.isCoinBase).length := length_blockUndos hash nHeight _ vtx
  have h₂ := disconnectTxs_null zc hh vtx V [] [] s₁ hV hc hmints hbad hs₁ htop
    (show (⟨blockUndos hash nHeight V vtx⟩ : CBlockUndo).vtxundo =
      [] ++ blockUndos hash nHeight V vtx ++ [] by simp)
  simp only [List.nil_append, hlen] at h₂
  simp only [disconnectBlock, hlen, ne_eq, not_true_eq_false, and_false, if_false, h₂,
    bind, Except.bind]

end CoinsStack

/-- **`DisconnectBlock` undoes `ConnectBlock`, the coins.** On a stack of caches whose flags are
sound and whose top map holds only restorable coins, connect a connectable block at a height below
`2 ^ 31`, other than the genesis block's, whose zerocoin spends and mints can be read back, then
disconnect it with the undo data the connect wrote:
the disconnect is `DISCONNECT_OK`, the flags are sound, every map of the stack is back as it was
before the block, and the best block is the block's parent. -/
theorem disconnectBlock_restores_coins (zc : ZerocoinDecode) {s : CoinsStack} (hs : s.Sound)
    {hash : CTransaction → Uint256} {vtx : List CTransaction} {nHeight : Nat}
    (hh : 0 < nHeight ∧ nHeight < 2 ^ 31) (hV : WellStored s.levels.top)
    (hc : BlockConnectable hash nHeight s.levels.top vtx) (hzc : ∀ tx ∈ vtx, ZerocoinDecodable zc tx)
    (hashBlock hashPrev : Uint256) :
    ∃ s₁ blockUndo, s.connectBlock hash vtx nHeight hashBlock = .ok (s₁, blockUndo) ∧
      ∃ s₂, s₁.disconnectBlock zc hash vtx blockUndo nHeight hashPrev = .ok (DISCONNECT_OK, s₂) ∧
        s₂.Sound ∧ s₂.levels = s.levels ∧ s₂.top.hashBlock = hashPrev := by
  obtain ⟨s₁, h₁, hs₁, hl₁⟩ := CoinsStack.connectBlockLoop_spec vtx s [] hs hc
  have hconn : s.connectBlock hash vtx nHeight hashBlock =
      .ok (s₁.setBestBlock hashBlock, ⟨blockUndos hash nHeight s.levels.top vtx⟩) := by
    simp only [CoinsStack.connectBlock, h₁, List.nil_append]
    rfl
  obtain ⟨s₂, h₂, hs₂, hl₂, hb₂⟩ := CoinsStack.disconnectBlock_of_connected zc hh hV hc hzc
    (show (s₁.setBestBlock hashBlock).Sound from ⟨hs₁.top, hs₁.below⟩)
    (by rw [show (s₁.setBestBlock hashBlock).levels.top = s₁.levels.top from rfl, hl₁]) hashPrev
  refine ⟨_, _, hconn, s₂, h₂, hs₂, ?_, hb₂⟩
  rw [hl₂]
  show { s₁.levels with top := s.levels.top } = s.levels
  rw [hl₁]

/-- `spendTx` has no zerocoin input and no mint, so it disconnects whatever the zerocoin
primitives read. -/
theorem zerocoinDecodable_spendTx (zc : ZerocoinDecode) : ZerocoinDecodable zc spendTx := by
  constructor
  · intro _ txin h _ hz
    rw [show spendTx.vin = [⟨fundedOutpoint, [], CTxIn.SEQUENCE_FINAL, ⟨[]⟩, ⟨[]⟩⟩] from rfl,
      List.mem_singleton] at h
    subst h
    cases hz
  · intro out h hm
    rw [show spendTx.vpout = [.standard 5 [0x51]] from rfl, List.mem_singleton] at h
    subst h
    cases hm

/-- The block of `spendTx`, connected over `fundedStack` and disconnected with primitives that
read no zerocoin data, puts the funded coin back. -/
theorem disconnectBlock_restores_coins_spendTx :
    fundedStack.Sound ∧ (0 < 1 ∧ 1 < 2 ^ 31) ∧ WellStored fundedStack.levels.top ∧
      BlockConnectable (fun _ => onesHash) 1 fundedStack.levels.top [spendTx] ∧
      (∀ tx ∈ [spendTx], ZerocoinDecodable ⟨fun _ => false, fun _ => false⟩ tx) ∧
      ∃ s₁ blockUndo,
        fundedStack.connectBlock (fun _ => onesHash) [spendTx] 1 onesHash = .ok (s₁, blockUndo) ∧
        ∃ s₂, s₁.disconnectBlock ⟨fun _ => false, fun _ => false⟩ (fun _ => onesHash) [spendTx]
            blockUndo 1 Uint256.zero = .ok (DISCONNECT_OK, s₂) ∧
          s₂.Sound ∧ s₂.levels = fundedStack.levels ∧ s₂.top.hashBlock = Uint256.zero := by
  have hzc : ∀ tx ∈ [spendTx], ZerocoinDecodable ⟨fun _ => false, fun _ => false⟩ tx := by
    intro tx h
    rw [List.mem_singleton.mp h]
    exact zerocoinDecodable_spendTx _
  exact ⟨sound_new _, by decide, fundedStack_wellStored, spendTx_connectable, hzc,
    disconnectBlock_restores_coins _ (sound_new _) (by decide) fundedStack_wellStored
      spendTx_connectable hzc _ _⟩

end Veil.Coins
