import Mathlib.Data.List.Nodup

/-!
# Zerocoin spends in `ConnectBlock` (`validation.cpp`, `libzerocoin/CoinSpend.cpp`)

A zerocoin spend proves three things: `commitmentPoK` links the serial commitment to
the accumulator commitment, `accumulatorPoK` proves the coin is in the accumulator,
`smallSoK` proves knowledge of the serial.  `CoinSpend::Verify` checks all three.
`ContextualCheckZerocoinSpend` checks the signature, the spend type, the serial
against the chain and its range, looks the accumulator up by its checksum, and runs
`Verify` only when `fSkipSignatureVerify` is false.  `ConnectBlock` keeps the serials
and spends of the block, calls `ContextualCheckZerocoinSpend` with
`fSkipVerify = true`, and batch-verifies the `smallSoK` proofs of transactions not
verified before.

The verifiers and the other predicates on a spend are opaque (`SpendVerifiers`);
spends, serials, checksums, accumulator values and txids are arbitrary types.

Main results:

    connectBlockZerocoin's verdict does not depend on commitmentPoK or accumulatorPoK
                                      (connectBlockZerocoin_congr)
    what it does check: serials distinct, not in the chain, in range, accumulator
      found, smallSoK unless batch-verified before   (connectBlockZerocoin_sound)
    a spend whose accumulator proof fails is connected
                                      (connectBlockZerocoin_accepts_unproven_spend)
-/

namespace Veil.Zerocoin

/-- `libzerocoin::SpendType`. -/
inductive SpendType
  | SPEND
  | MINT
  | STAKE
  deriving DecidableEq, Repr

/-- The fields of a `CoinSpend` the checks read. -/
structure CoinSpend (δ σ χ : Type) where
  denomination : δ
  coinSerialNumber : σ
  accumulatorChecksum : χ
  spendType : SpendType
  deriving DecidableEq, Repr

/-- The checks on a spend that are computations of its proofs and keys. -/
structure SpendVerifiers (δ σ ρ χ : Type) where
  /-- `HasValidSignature`: the pubkey's signature over the signature hash. -/
  hasValidSignature : CoinSpend δ σ χ → Bool
  /-- `HasValidSerial`: the serial is in range for the zerocoin parameters. -/
  hasValidSerial : CoinSpend δ σ χ → Bool
  commitmentPoK : CoinSpend δ σ χ → Bool
  /-- `accumulatorPoK.Verify(a, ...)` for the accumulator value `a`. -/
  accumulatorPoK : ρ → CoinSpend δ σ χ → Bool
  smallSoK : CoinSpend δ σ χ → Bool

/-- A transaction with its zerocoin spends (the inputs `TxInToZerocoinSpend` reads). -/
structure ZerocoinTx (δ σ χ τ : Type) where
  txid : τ
  fCoinStake : Bool
  /-- `CTransaction::IsZerocoinSpend`: the first input spends the null txid with a zerocoin
  spend script and a denomination in `[10, 10000]`; such a transaction is no coinbase. -/
  fZerocoinSpend : Bool
  spends : List (CoinSpend δ σ χ)
  deriving DecidableEq, Repr

/-- What the chain up to `pindex->pprev` answers. -/
structure SpendContext (σ ρ χ τ : Type) where
  /-- `IsSerialInBlockchain`. -/
  isSerialInBlockchain : σ → Bool
  /-- `IsTransactionInChain` at a height below the block's. -/
  isTransactionInChainBelow : τ → Bool
  /-- `pzerocoinDB->ReadAccumulatorValue`. -/
  readAccumulatorValue : χ → Option ρ
  fVerifying : Bool
  fReindex : Bool
  /-- `setBatchVerified`. -/
  setBatchVerified : τ → Bool
  fSkipComputation : Bool

variable {δ σ ρ χ τ : Type}

/-- `CoinSpend::Verify(a, strError, verifySoK)` for the accumulator of `denomination`
with value `value`. -/
def coinSpendVerify (v : SpendVerifiers δ σ ρ χ) [DecidableEq δ] (denomination : δ) (value : ρ)
    (spend : CoinSpend δ σ χ) (verifySoK : Bool) : Bool :=
  -- "Double check that the version is the same as marked in the serial"
  if denomination ≠ spend.denomination then false
  else if !v.commitmentPoK spend then false
  else if !v.accumulatorPoK value spend then false
  else if verifySoK && !v.smallSoK spend then false
  else true

/-- `ContextualCheckZerocoinSpend`. -/
def contextualCheckZerocoinSpend [DecidableEq δ] (ctx : SpendContext σ ρ χ τ)
    (v : SpendVerifiers δ σ ρ χ) (tx : ZerocoinTx δ σ χ τ) (spend : CoinSpend δ σ χ)
    (fSkipSignatureVerify : Bool) : Bool :=
  if !v.hasValidSignature spend then false
  else
    let expectedType := if tx.fCoinStake then SpendType.STAKE else SpendType.SPEND
    if spend.spendType ≠ expectedType then false
    -- "Reject serial's that are already in the blockchain"
    else if !ctx.fVerifying && !ctx.fReindex && ctx.isSerialInBlockchain spend.coinSerialNumber then
      false
    -- "Reject serial's that are not in the acceptable value range"
    else if !ctx.fVerifying && !ctx.fReindex && !v.hasValidSerial spend then false
    else match ctx.readAccumulatorValue spend.accumulatorChecksum with
      | none => false
      | some bnAccumulatorValue =>
        if !fSkipSignatureVerify then
          coinSpendVerify v spend.denomination bnAccumulatorValue spend true
        else true

/-- The zerocoin-spend loop of `ConnectBlock` over the spends of the block in order:
`setSerialsInBlock`, `mapSpends` (ordered by serial) and the proofs to batch-verify,
or `none` when a spend is rejected. -/
def spendLoop [DecidableEq δ] [DecidableEq σ] (ctx : SpendContext σ ρ χ τ)
    (v : SpendVerifiers δ σ ρ χ) (tx : ZerocoinTx δ σ χ τ) :
    List σ → List (CoinSpend δ σ χ) → List (CoinSpend δ σ χ) → List (CoinSpend δ σ χ) →
      Option (List σ × List (CoinSpend δ σ χ) × List (CoinSpend δ σ χ))
  | setSerialsInBlock, mapSpends, vProofs, [] => some (setSerialsInBlock, mapSpends, vProofs)
  | setSerialsInBlock, mapSpends, vProofs, spend :: spends =>
    if spend.coinSerialNumber ∈ setSerialsInBlock then none
    -- `mapSpends` is ordered by `CoinSpend::operator<`, which compares serials
    else if mapSpends.any (fun s => s.coinSerialNumber = spend.coinSerialNumber) then none
    else if !contextualCheckZerocoinSpend ctx v tx spend true then none
    else
      let vProofs := if !ctx.setBatchVerified tx.txid then vProofs ++ [spend] else vProofs
      spendLoop ctx v tx (setSerialsInBlock ++ [spend.coinSerialNumber]) (mapSpends ++ [spend])
        vProofs spends

/-- The transaction loop: of a transaction whose first input is a zerocoin spend, one already
in the chain below this block is rejected, then its spends go through `spendLoop`; the spends
of any other transaction are not looked at. -/
def txLoop [DecidableEq δ] [DecidableEq σ] (ctx : SpendContext σ ρ χ τ)
    (v : SpendVerifiers δ σ ρ χ) :
    List σ → List (CoinSpend δ σ χ) → List (CoinSpend δ σ χ) → List (ZerocoinTx δ σ χ τ) →
      Option (List (CoinSpend δ σ χ))
  | _, _, vProofs, [] => some vProofs
  | setSerialsInBlock, mapSpends, vProofs, tx :: vtx =>
    if !tx.fZerocoinSpend then txLoop ctx v setSerialsInBlock mapSpends vProofs vtx
    else if ctx.isTransactionInChainBelow tx.txid then none
    else match spendLoop ctx v tx setSerialsInBlock mapSpends vProofs tx.spends with
      | none => none
      | some (setSerialsInBlock, mapSpends, vProofs) =>
        txLoop ctx v setSerialsInBlock mapSpends vProofs vtx

/-- The spends the loop looks at: those of a transaction whose first input is a zerocoin
spend. -/
def ZerocoinTx.checkedSpends (tx : ZerocoinTx δ σ χ τ) : List (CoinSpend δ σ χ) :=
  if tx.fZerocoinSpend then tx.spends else []

/-- The zerocoin part of `ConnectBlock`'s verdict: the loop, then
`ThreadedBatchVerify` of the collected `smallSoK` proofs unless `fSkipComputation`.
The batch is taken to accept exactly when every proof verifies. -/
def connectBlockZerocoin [DecidableEq δ] [DecidableEq σ]
    (ctx : SpendContext σ ρ χ τ) (v : SpendVerifiers δ σ ρ χ) (vtx : List (ZerocoinTx δ σ χ τ)) :
    Bool :=
  match txLoop ctx v [] [] [] vtx with
  | none => false
  | some vProofs =>
    if !ctx.fSkipComputation && !vProofs.isEmpty then vProofs.all v.smallSoK else true

/-- A chain where the checksum `3` names the accumulator value `42`, no serial is
spent and nothing was batch-verified. -/
def freshSpendContext : SpendContext Nat Nat Nat Nat where
  isSerialInBlockchain _ := false
  isTransactionInChainBelow _ := false
  readAccumulatorValue c := if c = 3 then some 42 else none
  fVerifying := false
  fReindex := false
  setBatchVerified _ := false
  fSkipComputation := false

/-- Every spend signed, with a serial in range and a valid `smallSoK`, and no spend
with a valid commitment or accumulator proof: a spend of a coin never minted. -/
def forgedMembership : SpendVerifiers Nat Nat Nat Nat where
  hasValidSignature _ := true
  hasValidSerial _ := true
  commitmentPoK _ := false
  accumulatorPoK _ _ := false
  smallSoK _ := true

/-! ## What the checks establish -/

section Checks

variable [DecidableEq δ] (ctx : SpendContext σ ρ χ τ)

/-- Two bundles of verifiers that agree on what `ConnectBlock` actually consults. -/
structure SameOutsideProofs (v v' : SpendVerifiers δ σ ρ χ) : Prop where
  hasValidSignature : v.hasValidSignature = v'.hasValidSignature
  hasValidSerial : v.hasValidSerial = v'.hasValidSerial
  smallSoK : v.smallSoK = v'.smallSoK

variable {v v' : SpendVerifiers δ σ ρ χ} (hv : SameOutsideProofs v v')
include hv

/-- With `fSkipSignatureVerify = true` the check reads none of the three proofs. -/
theorem contextualCheckZerocoinSpend_skip_congr (tx : ZerocoinTx δ σ χ τ)
    (spend : CoinSpend δ σ χ) :
    contextualCheckZerocoinSpend ctx v tx spend true =
      contextualCheckZerocoinSpend ctx v' tx spend true := by
  simp only [contextualCheckZerocoinSpend, hv.hasValidSignature, hv.hasValidSerial]
  rfl

variable [DecidableEq σ]

theorem spendLoop_congr (tx : ZerocoinTx δ σ χ τ) :
    ∀ (setSerialsInBlock : List σ) (mapSpends vProofs spends : List (CoinSpend δ σ χ)),
      spendLoop ctx v tx setSerialsInBlock mapSpends vProofs spends =
        spendLoop ctx v' tx setSerialsInBlock mapSpends vProofs spends
  | _, _, _, [] => rfl
  | setSerialsInBlock, mapSpends, vProofs, spend :: spends => by
    simp only [spendLoop, contextualCheckZerocoinSpend_skip_congr ctx hv tx spend,
      spendLoop_congr tx]

theorem txLoop_congr :
    ∀ (setSerialsInBlock : List σ) (mapSpends vProofs : List (CoinSpend δ σ χ))
      (vtx : List (ZerocoinTx δ σ χ τ)),
      txLoop ctx v setSerialsInBlock mapSpends vProofs vtx =
        txLoop ctx v' setSerialsInBlock mapSpends vProofs vtx
  | _, _, _, [] => rfl
  | setSerialsInBlock, mapSpends, vProofs, tx :: vtx => by
    simp only [txLoop, spendLoop_congr ctx hv tx, txLoop_congr]

/-- **`ConnectBlock` does not look at the membership proofs.**  Its verdict on the
zerocoin spends of a block is the same for any `commitmentPoK` and any
`accumulatorPoK`. -/
theorem connectBlockZerocoin_congr (vtx : List (ZerocoinTx δ σ χ τ)) :
    connectBlockZerocoin ctx v vtx = connectBlockZerocoin ctx v' vtx := by
  simp only [connectBlockZerocoin, txLoop_congr ctx hv, hv.smallSoK]

omit hv in
/-- `forgedMembership` and the verifiers that accept every membership proof agree on the block of
one spend of serial `77`. -/
theorem connectBlockZerocoin_congr_forgedMembership :
    connectBlockZerocoin freshSpendContext forgedMembership [⟨1, false, true, [⟨10, 77, 3, .SPEND⟩]⟩] =
      connectBlockZerocoin freshSpendContext
        { forgedMembership with commitmentPoK := fun _ => true, accumulatorPoK := fun _ _ => true }
        [⟨1, false, true, [⟨10, 77, 3, .SPEND⟩]⟩] :=
  have hsame : SameOutsideProofs forgedMembership
      { forgedMembership with commitmentPoK := fun _ => true, accumulatorPoK := fun _ _ => true } :=
    ⟨rfl, rfl, rfl⟩
  connectBlockZerocoin_congr freshSpendContext hsame _

omit hv in
theorem spendLoop_eq_some {tx : ZerocoinTx δ σ χ τ} :
    ∀ {setSerialsInBlock : List σ} {mapSpends vProofs spends : List (CoinSpend δ σ χ)}
      {r : List σ × List (CoinSpend δ σ χ) × List (CoinSpend δ σ χ)},
      spendLoop ctx v tx setSerialsInBlock mapSpends vProofs spends = some r →
      r.1 = setSerialsInBlock ++ spends.map CoinSpend.coinSerialNumber ∧
      r.2.2 = vProofs ++ (if ctx.setBatchVerified tx.txid then [] else spends) ∧
      (∀ s ∈ spends, s.coinSerialNumber ∉ setSerialsInBlock) ∧
      (spends.map CoinSpend.coinSerialNumber).Nodup ∧
      ∀ s ∈ spends, contextualCheckZerocoinSpend ctx v tx s true = true
  | _, _, _, [], r, h => by
    simp only [spendLoop, Option.some.injEq] at h
    subst h
    simp
  | setSerialsInBlock, mapSpends, vProofs, spend :: spends, r, h => by
    rw [spendLoop] at h
    -- the three rejections, then the recursive call
    split at h
    · cases h
    rename_i hser
    split at h
    · cases h
    split at h
    · cases h
    rename_i hcheck
    dsimp only at h
    obtain ⟨hr₁, hr₂, hfresh, hnd, hchecks⟩ := spendLoop_eq_some h
    refine ⟨by simp [hr₁], ?_, ?_, ?_, ?_⟩
    · -- the proof is queued unless the transaction was batch-verified before
      rw [hr₂]
      cases ctx.setBatchVerified tx.txid <;> simp
    · intro s hs
      rcases List.mem_cons.mp hs with rfl | hs
      · exact hser
      · exact fun hin => hfresh s hs (List.mem_append_left _ hin)
    · rw [List.map_cons, List.nodup_cons]
      refine ⟨fun hin => ?_, hnd⟩
      obtain ⟨s, hs, heq⟩ := List.mem_map.mp hin
      exact hfresh s hs (by rw [heq]; exact List.mem_append_right _ (List.mem_singleton_self _))
    · intro s hs
      rcases List.mem_cons.mp hs with rfl | hs
      · simpa using hcheck
      · exact hchecks s hs

omit hv in
theorem txLoop_eq_some :
    ∀ {setSerialsInBlock : List σ} {mapSpends vProofs : List (CoinSpend δ σ χ)}
      {vtx : List (ZerocoinTx δ σ χ τ)} {r : List (CoinSpend δ σ χ)},
      txLoop ctx v setSerialsInBlock mapSpends vProofs vtx = some r →
      r = vProofs ++ vtx.flatMap (fun tx => if ctx.setBatchVerified tx.txid then [] else tx.checkedSpends) ∧
      (∀ s ∈ vtx.flatMap ZerocoinTx.checkedSpends, s.coinSerialNumber ∉ setSerialsInBlock) ∧
      ((vtx.flatMap ZerocoinTx.checkedSpends).map CoinSpend.coinSerialNumber).Nodup ∧
      ∀ tx ∈ vtx, ∀ s ∈ tx.checkedSpends, ctx.isTransactionInChainBelow tx.txid = false ∧
        contextualCheckZerocoinSpend ctx v tx s true = true
  | _, _, _, [], r, h => by
    simp only [txLoop, Option.some.injEq] at h
    subst h
    simp
  | setSerialsInBlock, mapSpends, vProofs, tx :: vtx, r, h => by
    rw [txLoop] at h
    split_ifs at h with hzc hchain
    · -- a transaction whose first input is no zerocoin spend is passed over
      have hnil : tx.checkedSpends = [] := by rw [ZerocoinTx.checkedSpends, if_neg (by simpa using hzc)]
      obtain ⟨hr, hfresh, hnd, hchecks⟩ := txLoop_eq_some h
      refine ⟨by simp [hr, hnil], by simpa [hnil] using hfresh, by simpa [hnil] using hnd, ?_⟩
      intro tx' htx' s hs
      rcases List.mem_cons.mp htx' with rfl | htx'
      · rw [hnil] at hs
        cases hs
      · exact hchecks tx' htx' s hs
    · have hspends : tx.checkedSpends = tx.spends := by
        rw [ZerocoinTx.checkedSpends, if_pos (by simpa using hzc)]
      cases hloop : spendLoop ctx v tx setSerialsInBlock mapSpends vProofs tx.spends with
      | none => rw [hloop] at h; cases h
      | some r' =>
        rw [hloop] at h
        rw [← hspends] at hloop
        obtain ⟨hr₁, hr₂, hfresh₁, hnd₁, hchecks₁⟩ := spendLoop_eq_some ctx hloop
        obtain ⟨hr, hfresh, hnd, hchecks⟩ := txLoop_eq_some h
        rw [hr₁] at hfresh
        refine ⟨by rw [hr, hr₂, List.flatMap_cons, List.append_assoc], ?_, ?_, ?_⟩
        · intro s hs
          rcases List.mem_append.mp (List.flatMap_cons ▸ hs) with hs | hs
          · exact hfresh₁ s hs
          · exact fun hin => hfresh s hs (List.mem_append_left _ hin)
        · rw [List.flatMap_cons, List.map_append, List.nodup_append]
          refine ⟨hnd₁, hnd, fun a ha b hb hab => ?_⟩
          obtain ⟨s, hs, rfl⟩ := List.mem_map.mp hb
          exact hfresh s hs (List.mem_append_right _ (hab ▸ ha))
        · intro tx' htx' s hs
          rcases List.mem_cons.mp htx' with rfl | htx'
          · exact ⟨by simpa using hchain, hchecks₁ s hs⟩
          · exact hchecks tx' htx' s hs

omit hv in
/-- **What `ConnectBlock` does check** of the zerocoin spends of a block it accepts:
their serials are distinct, each passes `ContextualCheckZerocoinSpend` without its
`Verify`, and each proves knowledge of its serial unless the batch was skipped or
its transaction was batch-verified before. -/
theorem connectBlockZerocoin_sound {vtx : List (ZerocoinTx δ σ χ τ)}
    (h : connectBlockZerocoin ctx v vtx = true) :
    ((vtx.flatMap ZerocoinTx.checkedSpends).map CoinSpend.coinSerialNumber).Nodup ∧
    ∀ tx ∈ vtx, tx.fZerocoinSpend = true → ∀ s ∈ tx.spends, ctx.isTransactionInChainBelow tx.txid = false ∧
      contextualCheckZerocoinSpend ctx v tx s true = true ∧
      (ctx.fSkipComputation = false → ctx.setBatchVerified tx.txid = false →
        v.smallSoK s = true) := by
  unfold connectBlockZerocoin at h
  cases hloop : txLoop ctx v [] [] [] vtx with
  | none => rw [hloop] at h; cases h
  | some vProofs =>
    rw [hloop] at h
    obtain ⟨hr, -, hnd, hchecks⟩ := txLoop_eq_some ctx hloop
    refine ⟨hnd, fun tx htx hzc s hs => ?_⟩
    have hs' : s ∈ tx.checkedSpends := by simpa [ZerocoinTx.checkedSpends, hzc] using hs
    refine ⟨(hchecks tx htx s hs').1, (hchecks tx htx s hs').2, fun hskip hbatch => ?_⟩
    -- the spend's proof was queued, and the batch verified every queued proof
    have hqueued : s ∈ vProofs := by
      rw [hr, List.nil_append]
      exact List.mem_flatMap.mpr ⟨tx, htx, by simpa [hbatch] using hs'⟩
    have hne : vProofs.isEmpty = false := by
      cases vProofs with
      | nil => cases hqueued
      | cons => rfl
    simp only [hskip, hne, Bool.not_false, Bool.and_self, if_true, List.all_eq_true] at h
    exact h s hqueued

omit hv in
/-- The block of one spend of serial `77` is accepted under `forgedMembership`: the spend passes
`ContextualCheckZerocoinSpend` without `Verify`, and its `smallSoK` holds. -/
theorem connectBlockZerocoin_sound_forgedMembership :
    connectBlockZerocoin freshSpendContext forgedMembership
        [⟨1, false, true, [⟨10, 77, 3, .SPEND⟩]⟩] = true ∧
      contextualCheckZerocoinSpend freshSpendContext forgedMembership
        ⟨1, false, true, [⟨10, 77, 3, .SPEND⟩]⟩ ⟨10, 77, 3, .SPEND⟩ true = true ∧
      forgedMembership.smallSoK ⟨10, 77, 3, .SPEND⟩ = true := by
  have h : connectBlockZerocoin freshSpendContext forgedMembership
      [⟨1, false, true, [⟨10, 77, 3, .SPEND⟩]⟩] = true := by decide
  obtain ⟨-, hchecks⟩ := connectBlockZerocoin_sound freshSpendContext h
  obtain ⟨-, hcheck, hsmallSoK⟩ := hchecks _ List.mem_cons_self rfl _ List.mem_cons_self
  exact ⟨h, hcheck, hsmallSoK rfl rfl⟩

end Checks

/-- **A spend without a membership proof is connected.**  The block with one spend
of denomination `10`, serial `77` and checksum `3` is accepted, although `Verify`
fails against every accumulator value. -/
theorem connectBlockZerocoin_accepts_unproven_spend :
    connectBlockZerocoin freshSpendContext forgedMembership
      [⟨1, false, true, [⟨10, 77, 3, .SPEND⟩]⟩] = true ∧
    freshSpendContext.readAccumulatorValue 3 = some 42 ∧
    ∀ value, coinSpendVerify forgedMembership 10 value ⟨10, 77, 3, .SPEND⟩ true = false :=
  ⟨by decide, rfl, fun _ => rfl⟩

end Veil.Zerocoin
