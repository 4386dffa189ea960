import Veil.Consensus.TxVerify
/-!
# The coins of `ConnectBlock`, with the checks it makes (`validation.cpp`)

`ConnectBlock` scans the view for a coin under any output of the block's transactions (BIP30),
then, transaction after transaction, runs `CheckTxInputs` on all but the coinbase and
`UpdateCoins` on each. Its other checks (scripts, sequence locks, sigops, zerocoin serials, the
RingCT index, the block's value) read the coins and do not write them, and are left out.

On a block whose transactions `CheckBlock` accepted (`CheckTransaction`) and whose txids are
distinct, the checks `ConnectBlock` makes are the precondition its updates need: each transaction
is connectable over the map the ones before it leave (`connectTxsChecked_spec`). So the coins
code never aborts on such a block (`connectBlockChecked_no_abort`), and once it is connected,
`DisconnectBlock` with the undo data written restores the coins (`connectBlockChecked_disconnect`).

The distinct txids are needed. A transaction whose inputs are all zerocoin spends reads no coin
and spends none, so the checks let a block hold it twice, and then `AddCoin` throws on the second
copy (`connectTxsChecked_repeat_aborts`).
-/

namespace Veil

open Coins Consensus DisconnectResult

/-- `BIP34_IMPLIES_BIP30_LIMIT`: from this height on the BIP30 scan is made whatever BIP34 says. -/
def BIP34_IMPLIES_BIP30_LIMIT : Nat := 1983702

/-- A failure of the coins code, as `ConnectBlock` meets it: a failed assertion, the
`std::logic_error` `AddCoin` throws, or a null pointer dereferenced. -/
def TxValidationError.ofCoinsError : CoinsError → TxValidationError
  | .assertion expr => .assertion expr
  | .logicError what => .exception what
  | .nullDereference expr => .nullDereference expr

namespace Coins.CoinsStack

/-- The BIP30 scan of the outputs of one transaction, from output `o` on. -/
def bip30Outputs (txid : Uint256) : Nat → List CTxOutBase → CoinsStack →
    Except TxValidationError CoinsStack
  | _, [], s => .ok s
  | o, _ :: vpout, s =>
    if (s.haveCoin ⟨txid, o.toUInt32⟩).1 then .error (.reject "bad-txns-BIP30")
    else bip30Outputs txid (o + 1) vpout (s.haveCoin ⟨txid, o.toUInt32⟩).2

/-- The BIP30 scan of `ConnectBlock`: no output of a transaction of the block has a coin in the
view the block meets. -/
def bip30Check (hash : CTransaction → Uint256) :
    List CTransaction → CoinsStack → Except TxValidationError CoinsStack
  | [], s => .ok s
  | tx :: vtx, s => do
    let s ← bip30Outputs (hash tx) 0 tx.vpout s
    bip30Check hash vtx s

/-- The loop of `ConnectBlock` over the transactions, as far as the coins go: `CheckTxInputs` at
the block's height unless the transaction is the coinbase, then `UpdateCoins`, its undo record
kept unless it is the coinbase. -/
def connectTxsChecked (C : TxVerifyContext) (hash : CTransaction → Uint256) (nHeight : Nat) :
    List CTransaction → CoinsStack → List CTxUndo →
      Except TxValidationError (CoinsStack × List CTxUndo)
  | [], s, vtxundo => .ok (s, vtxundo)
  | tx :: vtx, s, vtxundo => do
    let s ← (if tx.isCoinBase then pure s else (checkTxInputs C s tx nHeight).map Prod.snd)
    let (s, txundo) ← (s.updateCoins tx (hash tx) nHeight).mapError TxValidationError.ofCoinsError
    connectTxsChecked C hash nHeight vtx s
      (if tx.isCoinBase then vtxundo else vtxundo ++ [txundo])

/-- The coins part of `ConnectBlock`, with its checks: the BIP30 scan where it is enforced, the
loop over the transactions, then `view.SetBestBlock(pindex->GetBlockHash())`. `fEnforceBIP30` is
whether the block's ancestor at `BIP34Height` is not `BIP34Hash`. -/
def connectBlockChecked (C : TxVerifyContext) (s : CoinsStack) (hash : CTransaction → Uint256)
    (vtx : List CTransaction) (nHeight : Nat) (hashBlock : Uint256) (fEnforceBIP30 : Bool) :
    Except TxValidationError (CoinsStack × CBlockUndo) := do
  let s ← (if fEnforceBIP30 || nHeight ≥ BIP34_IMPLIES_BIP30_LIMIT then bip30Check hash vtx s
    else pure s)
  let (s, vtxundo) ← connectTxsChecked C hash nHeight vtx s []
  pure (s.setBestBlock hashBlock, ⟨vtxundo⟩)

/-! ## The BIP30 scan -/

/-- The scan of one transaction's outputs reads without changing a level, and passes only where
none of the outputs from `o` on has a coin at the top level. -/
theorem bip30Outputs_spec {txid : Uint256} :
    ∀ {o : Nat} {vpout : List CTxOutBase} {s s' : CoinsStack},
      bip30Outputs txid o vpout s = .ok s' →
        s'.levels = s.levels ∧ (s.Sound → s'.Sound) ∧
          ∀ k < vpout.length, s.levels.top ⟨txid, (o + k).toUInt32⟩ = none
  | _, [], s, s', h => by
    cases h
    exact ⟨rfl, id, fun k hk => absurd hk (Nat.not_lt_zero k)⟩
  | o, _ :: vpout, s, s', h => by
    unfold bip30Outputs at h
    split at h
    · cases h
    rename_i hnone
    have hlev₁ : (s.haveCoin ⟨txid, o.toUInt32⟩).2.levels = s.levels :=
      levels_fetchCoin s _
    obtain ⟨hlev, hsound, hrest⟩ := bip30Outputs_spec h
    refine ⟨hlev.trans hlev₁, fun hs => hsound (sound_fetchCoin hs _), ?_⟩
    intro k hk
    cases k with
    | zero =>
      rw [haveCoin_levels] at hnone
      simpa using hnone
    | succ k =>
      have hk' := hrest k (by simpa using hk)
      rwa [hlev₁, Nat.add_right_comm, Nat.add_assoc] at hk'

theorem bip30Outputs_error {txid : Uint256} :
    ∀ {o : Nat} {vpout : List CTxOutBase} {s : CoinsStack} {e : TxValidationError},
      bip30Outputs txid o vpout s = .error e → e = .reject "bad-txns-BIP30"
  | _, [], _, _, h => by cases h
  | _, _ :: _, _, _, h => by
    unfold bip30Outputs at h
    split at h
    · cases h
      rfl
    · exact bip30Outputs_error h

/-- The BIP30 scan reads without changing a level, and passes only where no output of a
transaction of the block has a coin at the top level. -/
theorem bip30Check_spec {hash : CTransaction → Uint256} :
    ∀ {vtx : List CTransaction} {s s' : CoinsStack}, bip30Check hash vtx s = .ok s' →
      s'.levels = s.levels ∧ (s.Sound → s'.Sound) ∧
        ∀ tx ∈ vtx, ∀ k < tx.vpout.length, s.levels.top ⟨hash tx, k.toUInt32⟩ = none
  | [], s, s', h => by
    cases h
    exact ⟨rfl, id, fun _ h => nomatch h⟩
  | tx :: vtx, s, s', h => by
    obtain ⟨s₁, h₁, h⟩ := Except.bind_eq_ok.mp h
    obtain ⟨hlev₁, hsound₁, hfresh₁⟩ := bip30Outputs_spec h₁
    obtain ⟨hlev, hsound, hfresh⟩ := bip30Check_spec h
    refine ⟨hlev.trans hlev₁, fun hs => hsound (hsound₁ hs), ?_⟩
    refine List.forall_mem_cons.mpr ⟨fun k hk => ?_, fun tx' htx' k hk => ?_⟩
    · simpa using hfresh₁ k hk
    · rw [← hlev₁]
      exact hfresh tx' htx' k hk

theorem bip30Check_error {hash : CTransaction → Uint256} :
    ∀ {vtx : List CTransaction} {s : CoinsStack} {e : TxValidationError},
      bip30Check hash vtx s = .error e → e = .reject "bad-txns-BIP30"
  | [], _, _, h => by cases h
  | _ :: _, _, _, h => by
    rcases Except.bind_eq_error.mp h with h | ⟨_, -, h⟩
    · exact bip30Outputs_error h
    · exact bip30Check_error h

end Coins.CoinsStack

/-- A transaction's writes leave an outpoint of another txid as they found it without a coin:
they empty outpoints that had coins, and enter coins under their own txid. -/
theorem apply_txWrites_fresh {V : CoinsMap} {tx : CTransaction} {txid txid' : Uint256}
    {nHeight k : Nat} (hne : txid' ≠ txid) (hV : V ⟨txid', k.toUInt32⟩ = none) :
    UndoLog.apply V (txWrites tx txid nHeight) ⟨txid', k.toUInt32⟩ = none := by
  refine UndoLog.apply_of_forall_key hV fun w hw hk => ?_
  rcases List.mem_append.mp hw with hw | hw
  · obtain ⟨p, -, rfl⟩ := List.mem_map.mp hw
    rfl
  · -- a created coin's outpoint has the transaction's own txid
    obtain ⟨oc, hoc, rfl⟩ := List.mem_map.mp hw
    obtain ⟨j, -, -, hj, -⟩ := mem_createdCoins hoc
    rw [hj, COutPoint.mk.injEq] at hk
    exact absurd hk.1.symm hne

namespace Coins.CoinsStack

/-! ## The loop over the transactions -/

section Loop

variable {C : TxVerifyContext} {hash : CTransaction → Uint256} {nHeight : Nat}

/-- No output of the transactions `vtx` has a coin in `V`. -/
def OutputsFresh (hash : CTransaction → Uint256) (V : CoinsMap) (vtx : List CTransaction) : Prop :=
  ∀ tx ∈ vtx, ∀ k < tx.vpout.length, V ⟨hash tx, k.toUInt32⟩ = none

/-- The outputs of the transactions after `tx`, which have other txids, stay fresh over its
writes. -/
theorem OutputsFresh.txWrites {V : CoinsMap} {tx : CTransaction} {vtx : List CTransaction}
    (hf : OutputsFresh hash V (tx :: vtx)) (hid : ((tx :: vtx).map hash).Nodup) :
    OutputsFresh hash (UndoLog.apply V (txWrites tx (hash tx) nHeight)) vtx := by
  intro tx' htx' k hk
  rw [List.map_cons, List.nodup_cons] at hid
  have hne : hash tx' ≠ hash tx := fun he => hid.1 (he ▸ List.mem_map_of_mem htx')
  exact apply_txWrites_fresh hne (hf tx' (List.mem_cons_of_mem _ htx') k hk)

/-- The checks before `UpdateCoins`, on a transaction `CheckTransaction` accepted whose outputs
are fresh: they keep the stack's levels and sound flags, and where they pass the transaction is
connectable over the top level. -/
theorem checkedInputs_spec {tx : CTransaction} {s s₁ : CoinsStack} (hs : s.Sound)
    (hct : checkTransaction C tx = .ok ())
    (hfresh : ∀ k < tx.vpout.length, s.levels.top ⟨hash tx, k.toUInt32⟩ = none)
    (h : (if tx.isCoinBase then pure s else (checkTxInputs C s tx nHeight).map Prod.snd) =
      (.ok s₁ : Except TxValidationError CoinsStack)) :
    s₁.Sound ∧ s₁.levels = s.levels ∧ TxConnectable s₁.levels.top tx (hash tx) := by
  have hin : tx.isCoinBase = false → ∃ r, checkTxInputs C s tx nHeight = .ok (r, s₁) := by
    intro hcb
    rw [hcb, if_neg Bool.false_ne_true] at h
    obtain ⟨⟨r, s'⟩, hr, h⟩ := Except.map_eq_ok.mp h
    cases h
    exact ⟨r, hr⟩
  have hlev : s₁.Sound ∧ s₁.levels = s.levels := by
    cases hcb : tx.isCoinBase
    · obtain ⟨r, hr⟩ := hin hcb
      obtain ⟨hlev, hsound⟩ := checkTxInputs_levels hr
      exact ⟨hsound hs, hlev⟩
    · rw [hcb, if_pos rfl] at h
      cases h
      exact ⟨hs, rfl⟩
  refine ⟨hlev.1, hlev.2, ?_⟩
  rw [hlev.2]
  refine @txConnectable_of_checks C nHeight s tx (hash tx) hct (fun hcb => ?_) hfresh
  obtain ⟨r, hr⟩ := hin hcb
  exact ⟨(r, s₁), hr⟩

/-- **One transaction of the loop.** Where the checks before `UpdateCoins` pass on a transaction
`CheckTransaction` accepted whose outputs are fresh, it was connectable over the top level, and
`UpdateCoins` connects it: no assertion, no exception, the top map takes its writes and the undo
record holds the coins it spent. -/
theorem connectTxChecked_step {tx : CTransaction} {s s₁ : CoinsStack} (hs : s.Sound)
    (hct : checkTransaction C tx = .ok ())
    (hfresh : ∀ k < tx.vpout.length, s.levels.top ⟨hash tx, k.toUInt32⟩ = none)
    (h₁ : (if tx.isCoinBase then pure s else (checkTxInputs C s tx nHeight).map Prod.snd) =
      (.ok s₁ : Except TxValidationError CoinsStack)) :
    TxConnectable s.levels.top tx (hash tx) ∧ ∃ s₂,
      (s₁.updateCoins tx (hash tx) nHeight).mapError TxValidationError.ofCoinsError =
        .ok (s₂, txUndo s.levels.top tx) ∧ s₂.Sound ∧
      s₂.levels = { s.levels with top := UndoLog.apply s.levels.top (txWrites tx (hash tx) nHeight) } := by
  obtain ⟨hs₁, hl₁, hconn⟩ := checkedInputs_spec hs hct hfresh h₁
  obtain ⟨s₂, hu, hs₂, hl₂⟩ := updateCoins_spec hs₁ nHeight hconn
  rw [hl₁] at hconn hu hl₂
  exact ⟨hconn, s₂, Except.mapError_eq_ok.mpr hu, hs₂, hl₂⟩

/-- **The loop of `ConnectBlock`, with its checks.** Over a sound stack, on transactions
`CheckTransaction` accepted with distinct txids whose outputs have no coin, a run of the loop that
passes has connected a connectable block: the flags stay sound, the top map has taken the writes of
the block, and the undo records are the block's. -/
theorem connectTxsChecked_spec :
    ∀ (vtx : List CTransaction) (s : CoinsStack) (vtxundo : List CTxUndo) {s' : CoinsStack}
      {vtxundo' : List CTxUndo}, s.Sound → (∀ tx ∈ vtx, checkTransaction C tx = .ok ()) →
      (vtx.map hash).Nodup → OutputsFresh hash s.levels.top vtx →
      connectTxsChecked C hash nHeight vtx s vtxundo = .ok (s', vtxundo') →
        BlockConnectable hash nHeight s.levels.top vtx ∧
          vtxundo' = vtxundo ++ blockUndos hash nHeight s.levels.top vtx ∧ s'.Sound ∧
          s'.levels = { s.levels with
            top := UndoLog.apply s.levels.top (blockWrites hash nHeight vtx) }
  | [], s, vtxundo, _, _, hs, _, _, _, h => by
    cases h
    exact ⟨trivial, by simp [blockUndos], hs, rfl⟩
  | tx :: vtx, s, vtxundo, s', vtxundo', hs, hct, hid, hfresh, h => by
    obtain ⟨s₁, h₁, h⟩ := Except.bind_eq_ok.mp h
    obtain ⟨hconn, s₂, hu, hs₂, hl₂⟩ := connectTxChecked_step hs (hct tx List.mem_cons_self)
      (hfresh tx List.mem_cons_self) h₁
    obtain ⟨⟨s₂', txundo⟩, hu', h⟩ := Except.bind_eq_ok.mp h
    rw [hu] at hu'
    cases hu'
    -- the rest of the block, over the map this transaction leaves
    have hfresh₂ : OutputsFresh hash s₂.levels.top vtx := by
      rw [hl₂]
      exact hfresh.txWrites hid
    obtain ⟨hc, hundo, hs', hl'⟩ := connectTxsChecked_spec vtx s₂ _ hs₂
      (fun tx' h => hct tx' (List.mem_cons_of_mem _ h)) (List.nodup_cons.mp hid).2 hfresh₂ h
    rw [hl₂] at hc hundo hl'
    refine ⟨⟨hconn, hc⟩, ?_, hs', ?_⟩
    · rw [hundo, blockUndos]
      cases tx.isCoinBase <;> simp
    · rw [hl', blockWrites_cons, UndoLog.apply_append]

/-- The loop of `ConnectBlock`, on the same transactions, fails only by a verdict. -/
theorem connectTxsChecked_isAbort :
    ∀ (vtx : List CTransaction) (s : CoinsStack) (vtxundo : List CTxUndo) {e : TxValidationError},
      s.Sound → (∀ tx ∈ vtx, checkTransaction C tx = .ok ()) → (vtx.map hash).Nodup →
      OutputsFresh hash s.levels.top vtx →
      connectTxsChecked C hash nHeight vtx s vtxundo = .error e → e.isAbort = false
  | [], _, _, _, _, _, _, _, h => by cases h
  | tx :: vtx, s, vtxundo, e, hs, hct, hid, hfresh, h => by
    rcases Except.bind_eq_error.mp h with h₁ | ⟨s₁, h₁, h⟩
    · -- `CheckTxInputs` failed: a verdict
      split at h₁
      · cases h₁
      · rename_i hcb
        exact checkTxInputs_no_abort (hct tx List.mem_cons_self) (by simpa using hcb) e
          (Except.map_eq_error.mp h₁)
    obtain ⟨-, s₂, hu, hs₂, hl₂⟩ := connectTxChecked_step hs (hct tx List.mem_cons_self)
      (hfresh tx List.mem_cons_self) h₁
    rcases Except.bind_eq_error.mp h with hu' | ⟨⟨s₂', txundo⟩, hu', h⟩
    · -- `UpdateCoins` passes
      rw [hu] at hu'
      cases hu'
    rw [hu] at hu'
    cases hu'
    have hfresh₂ : OutputsFresh hash s₂.levels.top vtx := by
      rw [hl₂]
      exact hfresh.txWrites hid
    exact connectTxsChecked_isAbort vtx s₂ _ hs₂ (fun tx' h => hct tx' (List.mem_cons_of_mem _ h))
      (List.nodup_cons.mp hid).2 hfresh₂ h

end Loop

/-! ## The block -/

section Block

variable {C : TxVerifyContext} {hash : CTransaction → Uint256} {nHeight : Nat} {s : CoinsStack}
  {vtx : List CTransaction} {hashBlock : Uint256} {fEnforceBIP30 : Bool}

/-- Where BIP30 is enforced, `ConnectBlock` scans the view. -/
theorem connectBlockChecked_bip30
    (hbip : fEnforceBIP30 = true ∨ BIP34_IMPLIES_BIP30_LIMIT ≤ nHeight) :
    connectBlockChecked C s hash vtx nHeight hashBlock fEnforceBIP30 =
      (do
        let s ← bip30Check hash vtx s
        let (s, vtxundo) ← connectTxsChecked C hash nHeight vtx s []
        pure (s.setBestBlock hashBlock, ⟨vtxundo⟩)) := by
  unfold connectBlockChecked
  rw [if_pos (by simpa using hbip)]

/-- **`ConnectBlock`, with its checks, the coins.** Where BIP30 is enforced, on a sound stack and
transactions `CheckTransaction` accepted with distinct txids, a `ConnectBlock` that passes has
connected a connectable block: its writes on the top map, its undo records, the flags sound and
the best block the block. -/
theorem connectBlockChecked_spec (hs : s.Sound)
    (hbip : fEnforceBIP30 = true ∨ BIP34_IMPLIES_BIP30_LIMIT ≤ nHeight)
    (hct : ∀ tx ∈ vtx, checkTransaction C tx = .ok ()) (hid : (vtx.map hash).Nodup)
    {s₁ : CoinsStack} {blockUndo : CBlockUndo}
    (h : connectBlockChecked C s hash vtx nHeight hashBlock fEnforceBIP30 = .ok (s₁, blockUndo)) :
    BlockConnectable hash nHeight s.levels.top vtx ∧
      blockUndo = ⟨blockUndos hash nHeight s.levels.top vtx⟩ ∧ s₁.Sound ∧
      s₁.levels = { s.levels with
        top := UndoLog.apply s.levels.top (blockWrites hash nHeight vtx) } ∧
      s₁.top.hashBlock = hashBlock := by
  rw [connectBlockChecked_bip30 hbip] at h
  obtain ⟨s₀, h₀, h⟩ := Except.bind_eq_ok.mp h
  obtain ⟨hl₀, hs₀, hfresh⟩ := bip30Check_spec h₀
  obtain ⟨⟨s₂, vtxundo⟩, h₂, h⟩ := Except.bind_eq_ok.mp h
  cases h
  -- the scan leaves the levels, so the outputs are fresh over the stack the loop starts from
  rw [← hl₀] at hfresh
  obtain ⟨hc, hundo, hs₂, hl₂⟩ := connectTxsChecked_spec vtx s₀ [] (hs₀ hs) hct hid hfresh h₂
  rw [hl₀] at hc hundo hl₂
  exact ⟨hc, by rw [hundo, List.nil_append], ⟨hs₂.top, hs₂.below⟩, hl₂, rfl⟩

/-- **`ConnectBlock` never aborts on the coins.** Where BIP30 is enforced, on a sound stack and
transactions `CheckTransaction` accepted with distinct txids, the coins part of `ConnectBlock`
fails only by a verdict on the block: the BIP30 scan, or `CheckTxInputs`. No `assert` of the coins
code fails, and `AddCoin` throws no `std::logic_error`. -/
theorem connectBlockChecked_no_abort (hs : s.Sound)
    (hbip : fEnforceBIP30 = true ∨ BIP34_IMPLIES_BIP30_LIMIT ≤ nHeight)
    (hct : ∀ tx ∈ vtx, checkTransaction C tx = .ok ()) (hid : (vtx.map hash).Nodup) :
    ∀ e, connectBlockChecked C s hash vtx nHeight hashBlock fEnforceBIP30 = .error e →
      e.isAbort = false := by
  intro e h
  rw [connectBlockChecked_bip30 hbip] at h
  rcases Except.bind_eq_error.mp h with h₀ | ⟨s₀, h₀, h⟩
  · rw [bip30Check_error h₀]
    rfl
  obtain ⟨hl₀, hs₀, hfresh⟩ := bip30Check_spec h₀
  rw [← hl₀] at hfresh
  rcases Except.bind_eq_error.mp h with h₂ | ⟨_, -, h⟩
  · exact connectTxsChecked_isAbort vtx s₀ [] (hs₀ hs) hct hid hfresh h₂
  · cases h

/-- **`DisconnectBlock` undoes a checked `ConnectBlock`.** Where BIP30 is enforced, on a sound
stack whose top map holds only restorable coins, at a height above the genesis block's and below
`2 ^ 31`, a `ConnectBlock` of transactions `CheckTransaction` accepted with distinct txids that
passes has connected a connectable block and written its writes on the top map; where the block's
zerocoin spends and mints can be read back, `DisconnectBlock` with the undo data it wrote is then
`DISCONNECT_OK`, puts back every map of the stack, and makes the parent the best block. -/
theorem connectBlockChecked_disconnect (zc : ZerocoinDecode) (hs : s.Sound)
    (hbip : fEnforceBIP30 = true ∨ BIP34_IMPLIES_BIP30_LIMIT ≤ nHeight)
    (hct : ∀ tx ∈ vtx, checkTransaction C tx = .ok ()) (hid : (vtx.map hash).Nodup)
    (hh : 0 < nHeight ∧ nHeight < 2 ^ 31) (hV : WellStored s.levels.top)
    (hzc : ∀ tx ∈ vtx, ZerocoinDecodable zc tx) {s₁ : CoinsStack} {blockUndo : CBlockUndo}
    (h : connectBlockChecked C s hash vtx nHeight hashBlock fEnforceBIP30 = .ok (s₁, blockUndo))
    (hashPrev : Uint256) :
    BlockConnectable hash nHeight s.levels.top vtx ∧
      s₁.levels = { s.levels with
        top := UndoLog.apply s.levels.top (blockWrites hash nHeight vtx) } ∧
      ∃ s₂, s₁.disconnectBlock zc hash vtx blockUndo nHeight hashPrev = .ok (DISCONNECT_OK, s₂) ∧
        s₂.Sound ∧ s₂.levels = s.levels ∧ s₂.top.hashBlock = hashPrev := by
  obtain ⟨hc, rfl, hs₁, hl₁, -⟩ := connectBlockChecked_spec hs hbip hct hid h
  obtain ⟨s₂, h₂, hs₂, hl₂, hb₂⟩ :=
    disconnectBlock_of_connected zc hh hV hc hzc hs₁ (by rw [hl₁]) hashPrev
  refine ⟨hc, hl₁, s₂, h₂, hs₂, ?_, hb₂⟩
  rw [hl₂, hl₁]

/-- **A checked block whose disconnect dereferences a null pointer.** Under the assumptions of
`connectBlockChecked_disconnect`, with every mint of the block readable but a transaction, not the
coinbase, with an input that is not anon whose zerocoin spend script cannot be read: `ConnectBlock`
accepts such an input without reading it (its zerocoin checks run only where the first input is a
zerocoin spend), and `DisconnectBlock` with the undo data it wrote dereferences the null
`CoinSpend` that `TxInToZerocoinSpend` returns. -/
theorem connectBlockChecked_disconnect_null (zc : ZerocoinDecode) (hs : s.Sound)
    (hbip : fEnforceBIP30 = true ∨ BIP34_IMPLIES_BIP30_LIMIT ≤ nHeight)
    (hct : ∀ tx ∈ vtx, checkTransaction C tx = .ok ()) (hid : (vtx.map hash).Nodup)
    (hh : 0 < nHeight ∧ nHeight < 2 ^ 31) (hV : WellStored s.levels.top)
    (hmints : ∀ tx ∈ vtx, ∀ out ∈ tx.vpout, out.isZerocoinMint = true → zc.outputToPublicCoin out = true)
    (hbad : ∃ tx ∈ vtx, HasUnreadableSpend zc tx) {s₁ : CoinsStack} {blockUndo : CBlockUndo}
    (h : connectBlockChecked C s hash vtx nHeight hashBlock fEnforceBIP30 = .ok (s₁, blockUndo))
    (hashPrev : Uint256) :
    s₁.disconnectBlock zc hash vtx blockUndo nHeight hashPrev =
      .error (.nullDereference "spend->getCoinSerialNumber()") := by
  obtain ⟨hc, rfl, hs₁, hl₁, -⟩ := connectBlockChecked_spec hs hbip hct hid h
  exact disconnectBlock_null_of_connected zc hh hV hc hmints hbad hs₁ (by rw [hl₁]) hashPrev

end Block

/-! ## A transaction connected twice -/

section Repeat

variable {C : TxVerifyContext} {hash : CTransaction → Uint256} {nHeight : Nat}

/-- `AddCoin` leaves the entries under other outpoints as they were. -/
theorem addCoin_lookup_of_ne {s s' : CoinsStack} {o k : COutPoint} {coin : Coin} {po : Bool}
    (h : s.addCoin o coin po = .ok s') (hk : k ≠ o) :
    s'.top.cacheCoins.lookup k = s.top.cacheCoins.lookup k := by
  unfold addCoin at h
  split at h
  · cases h
  split at h
  · cases h
    rfl
  dsimp only at h
  split at h
  · cases h
  · cases h
    exact AList.lookup_insert_ne hk

/-- A spendable coin `AddCoin` takes is the coin of the top cache's entry under its outpoint. -/
theorem addCoin_lookup_self {s s' : CoinsStack} {o : COutPoint} {coin : Coin} {po : Bool}
    (h : s.addCoin o coin po = .ok s') (hspend : coin.out.scriptPubKey.isUnspendable = false) :
    (s'.top.cacheCoins.lookup o).map (·.coin) = some coin := by
  unfold addCoin at h
  split at h
  · cases h
  rw [if_neg (by simp [hspend])] at h
  dsimp only at h
  split at h
  · cases h
  · cases h
    simp [AList.lookup_insert]

/-- `AddCoin` without `possible_overwrite`, over an entry of the top cache whose coin is unspent,
throws. -/
theorem addCoin_of_lookup {s : CoinsStack} {o : COutPoint} {coin : Coin} {e : CCoinsCacheEntry}
    (he : s.top.cacheCoins.lookup o = some e) (hspent : e.coin.isSpent = false)
    (hcoin : coin.isSpent = false) (hspend : coin.out.scriptPubKey.isUnspendable = false) :
    s.addCoin o coin false =
      .error (.logicError "Adding new coin that replaces non-pruned entry") := by
  simp [addCoin, hcoin, hspend, he, hspent]

/-- The outputs `AddCoins` enters from `i` on leave the entries under the outpoints of other
outputs as they were. -/
theorem addCoinsLoop_lookup_of_ne {txid : Uint256} {fCoinbase : Bool} {k : COutPoint} :
    ∀ {i : Nat} {vpout : List CTxOutBase} {s s' : CoinsStack},
      addCoinsLoop txid fCoinbase nHeight false i vpout s = .ok s' →
      (∀ j, i ≤ j → j < i + vpout.length → k ≠ ⟨txid, j.toUInt32⟩) →
      s'.top.cacheCoins.lookup k = s.top.cacheCoins.lookup k
  | _, [], _, _, h, _ => by
    cases h
    rfl
  | i, _ :: vpout, s, s', h, hk => by
    have hrest : ∀ j, i + 1 ≤ j → j < i + 1 + vpout.length → k ≠ ⟨txid, j.toUInt32⟩ :=
      fun j h₁ h₂ => hk j (by omega) (by simp only [List.length_cons]; omega)
    unfold addCoinsLoop at h
    simp only [Bool.false_eq_true, ↓reduceIte] at h
    split at h
    · exact addCoinsLoop_lookup_of_ne h hrest
    · obtain ⟨s₁, h₁, h⟩ := Except.bind_eq_ok.mp h
      rw [addCoinsLoop_lookup_of_ne h hrest]
      exact addCoin_lookup_of_ne h₁ (hk i (Nat.le_refl i) (by simp))

/-- The input loop of `UpdateCoins` over zerocoin spends spends nothing. -/
theorem updateCoinsInputs_of_zerocoin :
    ∀ {vin : List CTxIn} (s : CoinsStack) (vprevout : List Coin),
      (∀ txin ∈ vin, txin.scriptSig.isZerocoinSpend = true) →
      ∃ vprevout', updateCoinsInputs vin s vprevout = .ok (s, vprevout')
  | [], _, vprevout, _ => ⟨vprevout, rfl⟩
  | txin :: vin, s, vprevout, hz => by
    have hz' : ∀ txin' ∈ vin, txin'.scriptSig.isZerocoinSpend = true :=
      fun txin' h => hz txin' (List.mem_cons_of_mem _ h)
    unfold updateCoinsInputs
    split
    · exact updateCoinsInputs_of_zerocoin s vprevout hz'
    · rw [if_pos (hz txin List.mem_cons_self)]
      exact updateCoinsInputs_of_zerocoin s _ hz'

/-- `UpdateCoins` of a transaction other than a coinbase whose inputs are all zerocoin spends is
`AddCoins` of its outputs. -/
theorem updateCoins_of_zerocoin {tx : CTransaction} (s : CoinsStack) (txid : Uint256)
    (hz : ∀ txin ∈ tx.vin, txin.scriptSig.isZerocoinSpend = true) (hcb : tx.isCoinBase = false) :
    ∃ vprevout, s.updateCoins tx txid nHeight =
      (s.addCoins tx txid nHeight false).map (·, ⟨vprevout⟩) := by
  obtain ⟨vprevout, hv⟩ := updateCoinsInputs_of_zerocoin s [] hz
  refine ⟨vprevout, ?_⟩
  simp only [updateCoins, hcb, Bool.false_eq_true, ↓reduceIte, hv, bind, Except.bind]
  cases s.addCoins tx txid nHeight false <;> rfl

/-- The checks before `UpdateCoins` on a transaction other than a coinbase whose inputs are all
zerocoin spends, and which `CheckTxInputs` accepts over no coins: they pass over every stack and
hand it back as it was. -/
theorem checkedInputs_of_zerocoin {tx : CTransaction}
    (hz : ∀ txin ∈ tx.vin, txin.scriptSig.isZerocoinSpend = true) (hcb : tx.isCoinBase = false)
    (hin : ∃ r, checkTxInputs C emptyStack tx nHeight = .ok r) (s : CoinsStack) :
    (∃ r, checkTxInputs C s tx nHeight = .ok r) ∧
      (if tx.isCoinBase then pure s else (checkTxInputs C s tx nHeight).map Prod.snd) =
        (.ok s : Except TxValidationError CoinsStack) := by
  obtain ⟨r, hr⟩ := @checkTxInputs_eq_of_zerocoin C nHeight tx hz
  obtain ⟨⟨r₀, s₀⟩, h₀⟩ := hin
  rw [hr] at h₀
  -- the verdict over no coins is the verdict over every stack
  cases r with
  | error e => cases h₀
  | ok r₁ =>
    refine ⟨⟨(r₁, s), hr s⟩, ?_⟩
    rw [hcb, if_neg Bool.false_ne_true, hr s]
    rfl

/-- One transaction of the loop whose checks and `UpdateCoins` pass: the loop goes on with the
rest of the block. -/
theorem connectTxsChecked_cons_of_ok {tx : CTransaction} {vtx : List CTransaction}
    {s s₁ s₂ : CoinsStack} {vtxundo : List CTxUndo} {txundo : CTxUndo}
    (h₁ : (if tx.isCoinBase then pure s else (checkTxInputs C s tx nHeight).map Prod.snd) =
      (.ok s₁ : Except TxValidationError CoinsStack))
    (h₂ : s₁.updateCoins tx (hash tx) nHeight = .ok (s₂, txundo)) :
    connectTxsChecked C hash nHeight (tx :: vtx) s vtxundo =
      connectTxsChecked C hash nHeight vtx s₂
        (if tx.isCoinBase then vtxundo else vtxundo ++ [txundo]) := by
  rw [connectTxsChecked.eq_2, h₁]
  simp only [bind, Except.bind, h₂, Except.mapError]

/-- One transaction of the loop whose checks pass and whose `UpdateCoins` fails: the loop fails
with the coins code's failure. -/
theorem connectTxsChecked_cons_of_error {tx : CTransaction} {vtx : List CTransaction}
    {s s₁ : CoinsStack} {vtxundo : List CTxUndo} {e : CoinsError}
    (h₁ : (if tx.isCoinBase then pure s else (checkTxInputs C s tx nHeight).map Prod.snd) =
      (.ok s₁ : Except TxValidationError CoinsStack))
    (h₂ : s₁.updateCoins tx (hash tx) nHeight = .error e) :
    connectTxsChecked C hash nHeight (tx :: vtx) s vtxundo =
      .error (TxValidationError.ofCoinsError e) := by
  rw [connectTxsChecked.eq_2, h₁]
  simp only [bind, Except.bind, h₂, Except.mapError]

/-- **A zerocoin credit connected twice aborts `ConnectBlock`.** A transaction other than a
coinbase whose inputs all carry a zerocoin spend script, which `CheckTransaction` accepts and
`CheckTxInputs` accepts over no coins, and whose first output is a standard one with a spendable
script, spends no coin, so no input check stops a block from holding it twice. Over a sound stack
where its outputs have no coin, the loop of `ConnectBlock` connects the first copy, then `AddCoins`
of the second finds the first copy's coin in the top cache, and `AddCoin` throws its
`std::logic_error`: no verdict on the block. (The zerocoin checks left out of the model, which
reject a serial spent twice in a block, run only where `IsZerocoinSpend` holds, which looks at the
first input alone.) -/
theorem connectTxsChecked_repeat_aborts {tx : CTransaction} {v : CAmount} {script : CScript}
    {rest : List CTxOutBase}
    (hz : ∀ txin ∈ tx.vin, txin.scriptSig.isZerocoinSpend = true) (hcb : tx.isCoinBase = false)
    (hct : checkTransaction C tx = .ok ()) (hin : ∃ r, checkTxInputs C emptyStack tx nHeight = .ok r)
    (hout : tx.vpout = .standard v script :: rest) (hspend : script.isUnspendable = false)
    {s : CoinsStack} (hs : s.Sound)
    (hfresh : ∀ k < tx.vpout.length, s.levels.top ⟨hash tx, k.toUInt32⟩ = none)
    (vtx : List CTransaction) (vtxundo : List CTxUndo) :
    connectTxsChecked C hash nHeight (tx :: tx :: vtx) s vtxundo =
      .error (.exception "Adding new coin that replaces non-pruned entry") := by
  obtain ⟨hin₀, hcheck₀⟩ := checkedInputs_of_zerocoin hz hcb hin s
  have hconn := @txConnectable_of_checks C nHeight s tx (hash tx) hct (fun _ => hin₀) hfresh
  -- the coin the first output makes, unspent and spendable
  obtain ⟨coin, hcoin⟩ : ∃ coin, coinOfOutput (.standard v script) nHeight false = some coin :=
    ⟨_, rfl⟩
  have hunspent : coin.isSpent = false :=
    coinOfOutput_not_isSpent hcoin (hconn.notNull _ (by rw [hout]; exact List.mem_cons_self))
  have hspend' : coin.out.scriptPubKey.isUnspendable = false := by
    cases hcoin
    exact hspend
  -- the first copy: `AddCoins` enters the coin under output `0`, and the later outputs leave it
  obtain ⟨s₁, hu₁, -, -⟩ := updateCoins_spec hs nHeight hconn
  obtain ⟨vp₁, hv₁⟩ := updateCoins_of_zerocoin s (hash tx) hz hcb
  rw [hv₁] at hu₁
  obtain ⟨s₁', ha₁, he₁⟩ := Except.map_eq_ok.mp hu₁
  have hl₁ : (s₁'.top.cacheCoins.lookup ⟨hash tx, (0 : Nat).toUInt32⟩).map (·.coin) = some coin := by
    rw [addCoins, hout, hcb] at ha₁
    simp only [addCoinsLoop, Bool.false_eq_true, ↓reduceIte, hcoin] at ha₁
    obtain ⟨s₀, h₀, hrest⟩ := Except.bind_eq_ok.mp ha₁
    have hlen : rest.length + 1 ≤ 2 ^ 32 := by
      have := hconn.length
      rwa [hout, List.length_cons] at this
    have hne : ∀ j, 0 + 1 ≤ j → j < 0 + 1 + rest.length →
        (⟨hash tx, (0 : Nat).toUInt32⟩ : COutPoint) ≠ ⟨hash tx, j.toUInt32⟩ := by
      intro j hj₁ hj₂ heq
      rw [COutPoint.mk.injEq] at heq
      have := toUInt32_inj (by norm_num) (by omega) heq.2
      omega
    rw [addCoinsLoop_lookup_of_ne hrest hne]
    exact addCoin_lookup_self h₀ hspend'
  obtain ⟨e, he, hec⟩ := Option.map_eq_some_iff.mp hl₁
  have hu₁' : s.updateCoins tx (hash tx) nHeight = .ok (s₁', ⟨vp₁⟩) := by
    rw [hv₁, ha₁]
    rfl
  -- the second copy: its checks pass again, and `AddCoin` meets the entry
  obtain ⟨-, hcheck₁⟩ := checkedInputs_of_zerocoin hz hcb hin s₁'
  obtain ⟨vp₂, hv₂⟩ := updateCoins_of_zerocoin s₁' (hash tx) hz hcb
  have ha₂ : s₁'.addCoins tx (hash tx) nHeight false =
      .error (.logicError "Adding new coin that replaces non-pruned entry") := by
    rw [addCoins, hout, hcb]
    simp only [addCoinsLoop, Bool.false_eq_true, ↓reduceIte, hcoin,
      addCoin_of_lookup he (by rw [hec]; exact hunspent) hunspent hspend']
    rfl
  rw [ha₂] at hv₂
  rw [connectTxsChecked_cons_of_ok hcheck₀ hu₁', connectTxsChecked_cons_of_error hcheck₁ hv₂]
  rfl

end Repeat

end Coins.CoinsStack

/-! ## A block the theorems are run on -/

/-- The block of `spendTx` over `fundedStack` fails, if it fails, only by a verdict. -/
theorem connectBlockChecked_no_abort_spendTx :
    fundedStack.Sound ∧ (∀ tx ∈ [spendTx], checkTransaction mainnetAccepting tx = .ok ()) ∧
      ([spendTx].map fun _ => onesHash).Nodup ∧
      ∀ e, fundedStack.connectBlockChecked mainnetAccepting (fun _ => onesHash) [spendTx] 1 onesHash
        true = .error e → e.isAbort = false :=
  ⟨sound_new _, by decide, by decide,
    CoinsStack.connectBlockChecked_no_abort (sound_new _) (.inl rfl) (by decide) (by decide)⟩

/-- The block of `spendTx` connects over `fundedStack`, and disconnects back with primitives that
read no zerocoin data. -/
theorem connectBlockChecked_disconnect_spendTx :
    fundedStack.Sound ∧ WellStored fundedStack.levels.top ∧
      (∀ tx ∈ [spendTx], ZerocoinDecodable ⟨fun _ => false, fun _ => false⟩ tx) ∧ ∃ s₁ blockUndo,
      fundedStack.connectBlockChecked mainnetAccepting (fun _ => onesHash) [spendTx] 1 onesHash
          true = .ok (s₁, blockUndo) ∧
        BlockConnectable (fun _ => onesHash) 1 fundedStack.levels.top [spendTx] ∧
        s₁.levels = { fundedStack.levels with
          top := UndoLog.apply fundedStack.levels.top
            (blockWrites (fun _ => onesHash) 1 [spendTx]) } ∧
        ∃ s₂, s₁.disconnectBlock ⟨fun _ => false, fun _ => false⟩ (fun _ => onesHash) [spendTx]
            blockUndo 1 Uint256.zero = .ok (DISCONNECT_OK, s₂) ∧
          s₂.Sound ∧ s₂.levels = fundedStack.levels ∧ s₂.top.hashBlock = Uint256.zero := by
  have hzc : ∀ tx ∈ [spendTx], ZerocoinDecodable ⟨fun _ => false, fun _ => false⟩ tx := by
    intro tx h
    rw [List.mem_singleton.mp h]
    exact zerocoinDecodable_spendTx _
  have hok : (fundedStack.connectBlockChecked mainnetAccepting (fun _ => onesHash) [spendTx] 1
      onesHash true).isOk = true := by decide
  cases hc : fundedStack.connectBlockChecked mainnetAccepting (fun _ => onesHash) [spendTx] 1
      onesHash true with
  | error e =>
    rw [hc] at hok
    cases hok
  | ok r =>
    exact ⟨sound_new _, fundedStack_wellStored, hzc, r.1, r.2, rfl,
      CoinsStack.connectBlockChecked_disconnect _ (sound_new _) (.inl rfl) (by decide) (by decide)
        (by decide) fundedStack_wellStored hzc hc Uint256.zero⟩

/-- The forged spend at height `20000`: its one input carries a zerocoin spend script of one byte,
from which `TxInToZerocoinSpend` reads no `CoinSpend`, and the transaction is no zerocoin spend
(its prevout hash is not zero). The coins part of `ConnectBlock` accepts the block of it over no
coins, and its disconnect dereferences the null pointer. -/
theorem connectBlockChecked_disconnect_null_forgedSpendTx :
    emptyStack.Sound ∧ (∀ tx ∈ [forgedSpendTx], checkTransaction mainnetAccepting tx = .ok ()) ∧
      HasUnreadableSpend ⟨fun _ => false, fun _ => false⟩ forgedSpendTx ∧ ∃ s₁ blockUndo,
      emptyStack.connectBlockChecked mainnetAccepting (fun _ => onesHash) [forgedSpendTx] 20000
          onesHash true = .ok (s₁, blockUndo) ∧
        s₁.disconnectBlock ⟨fun _ => false, fun _ => false⟩ (fun _ => onesHash) [forgedSpendTx]
            blockUndo 20000 Uint256.zero =
          .error (.nullDereference "spend->getCoinSerialNumber()") := by
  have hct : ∀ tx ∈ [forgedSpendTx], checkTransaction mainnetAccepting tx = .ok () := by decide
  have hbad : HasUnreadableSpend ⟨fun _ => false, fun _ => false⟩ forgedSpendTx :=
    ⟨rfl, _, List.mem_singleton_self _, rfl, rfl, rfl⟩
  have hmints : ∀ tx ∈ [forgedSpendTx], ∀ out ∈ tx.vpout, out.isZerocoinMint = true →
      (⟨fun _ => false, fun _ => false⟩ : ZerocoinDecode).outputToPublicCoin out = true := by
    decide
  have hok : (emptyStack.connectBlockChecked mainnetAccepting (fun _ => onesHash) [forgedSpendTx]
      20000 onesHash true).isOk = true := by decide
  cases hc : emptyStack.connectBlockChecked mainnetAccepting (fun _ => onesHash) [forgedSpendTx]
      20000 onesHash true with
  | error e =>
    rw [hc] at hok
    cases hok
  | ok r =>
    exact ⟨sound_new _, hct, hbad, r.1, r.2, rfl,
      CoinsStack.connectBlockChecked_disconnect_null _ (sound_new _) (.inl rfl) hct (by decide)
        (by decide) emptyStack_wellStored hmints ⟨_, List.mem_singleton_self _, hbad⟩ hc Uint256.zero⟩

/-- Two copies of the forged spend, at a height where its sequence lock of `10000` blocks has
passed: the first connects over no coins, the second aborts the loop. -/
theorem connectTxsChecked_repeat_aborts_forgedSpendTx :
    (∀ txin ∈ forgedSpendTx.vin, txin.scriptSig.isZerocoinSpend = true) ∧
      forgedSpendTx.isCoinBase = false ∧ forgedSpendTx.isZerocoinSpend = false ∧
      checkTransaction mainnetAccepting forgedSpendTx = .ok () ∧
      (∃ r, checkTxInputs mainnetAccepting emptyStack forgedSpendTx (20000 : Nat) = .ok r) ∧
      emptyStack.Sound ∧
      CoinsStack.connectTxsChecked mainnetAccepting (fun _ => onesHash) 20000
          [forgedSpendTx, forgedSpendTx] emptyStack [] =
        .error (.exception "Adding new coin that replaces non-pruned entry") := by
  have hz : ∀ txin ∈ forgedSpendTx.vin, txin.scriptSig.isZerocoinSpend = true := by decide
  have hct : checkTransaction mainnetAccepting forgedSpendTx = .ok () := by decide
  have hin : ∃ r, checkTxInputs mainnetAccepting emptyStack forgedSpendTx (20000 : Nat) = .ok r :=
    ⟨_, rfl⟩
  exact ⟨hz, rfl, rfl, hct, hin, sound_new _,
    CoinsStack.connectTxsChecked_repeat_aborts hz rfl hct hin rfl (by decide) (sound_new _)
      (fun _ _ => rfl) [] []⟩

end Veil
