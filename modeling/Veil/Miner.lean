import Veil.Budget

/-!
# The coinbase of `BlockAssembler::CreateNewBlock` (`miner.cpp`)

`CreateNewBlock` sizes `coinbaseTx.vpout` by which budget payments are due and by
the proof type, then fills its slots: the miner's output (proof of work only), the
budget and lab outputs and the founder output when there is one.  A proof-of-stake
block without a budget payment gets one empty standard output.

The slots are `Option CTxOutBase` (`vpout.resize(n)` makes null pointers);
`createCoinbaseOutputs_eq` shows that every slot is filled, and which output each
holds.
-/

namespace Veil

open BudgetParams

/-- `MAKE_OUTPUT<CTxOutStandard>()`.  Its `nValue` is left uninitialised by the
constructor; every path below overwrites the output or sets both fields. -/
def makeStandardOutput : CTxOutBase := .standard 0 []

/-- The size `coinbaseTx.vpout.resize` is given. -/
def coinbaseOutputCount (r : BlockRewards) (fProofOfStake : Bool) : Nat :=
  if r.nBudgetPayment > 0 ∧ r.nFounderPayment > 0 then (if fProofOfStake then 3 else 4)
  else if r.nBudgetPayment > 0 then (if fProofOfStake then 2 else 3)
  else 1

/-- The slots of `coinbaseTx.vpout` as `CreateNewBlock` leaves them.  `nNetworkReward`
is the reserve capped at `MaxNetworkReward()`. -/
def createCoinbaseOutputs (params : CChainParams) (scripts : BudgetScripts) (nHeight : Nat)
    (fProofOfStake : Bool) (scriptPubKeyIn : CScript) (nNetworkReward : CAmount) :
    List (Option CTxOutBase) :=
  let r := getBlockRewards params nHeight
  let vpout : List (Option CTxOutBase) :=
    (List.replicate (coinbaseOutputCount r fProofOfStake) none).set 0 (some makeStandardOutput)
  -- the miner gets the block reward and any network reward
  let vpout := if !fProofOfStake then
      vpout.set 0 (some (.standard (r.nBlockReward + nNetworkReward) scriptPubKeyIn))
    else vpout
  let vpout := if r.nBudgetPayment ≠ 0 then
      let vpout := vpout.set (if fProofOfStake then 0 else 1)
        (some (.standard r.nBudgetPayment scripts.budgetScript))
      let vpout := vpout.set (if fProofOfStake then 1 else 2)
        (some (.standard r.nLabPayment scripts.labScript))
      -- "Founder payment will eventually hit 0"
      if r.nFounderPayment ≠ 0 then
        vpout.set (if fProofOfStake then 2 else 3)
          (some (.standard r.nFounderPayment scripts.founderScript))
      else vpout
    else vpout
  if fProofOfStake ∧ r.nBudgetPayment = 0 then
    vpout.modify 0 (Option.map fun o => (o.setValue 0).setScriptPubKey [])
  else vpout

/-- The coinbase input: `prevout.SetNull()` and the script sig, `CScript() << nHeight << OP_0`
where `CreateNewBlock` writes it (`coinbaseScriptSig`, which `ContextualCheckBlock`'s height rule
reads). -/
def coinbaseInput (scriptSig : CScript) : CTxIn :=
  { prevout := COutPoint.null, scriptSig, nSequence := CTxIn.SEQUENCE_FINAL, scriptData := ⟨[]⟩,
    scriptWitness := ⟨[]⟩ }

/-- The coinbase transaction `CreateNewBlock` puts at `vtx[0]`.  A null slot has no
counterpart in a `CTransaction`; by `createCoinbaseOutputs_eq` there is none. -/
def createCoinbase (params : CChainParams) (scripts : BudgetScripts) (nHeight : Nat)
    (fProofOfStake : Bool) (scriptPubKeyIn scriptSig : CScript) (nNetworkReward : CAmount) :
    CTransaction :=
  { vin := [coinbaseInput scriptSig]
    vpout := (createCoinbaseOutputs params scripts nHeight fProofOfStake scriptPubKeyIn
      nNetworkReward).reduceOption
    nVersion := CMutableTransaction.CURRENT_VERSION
    nLockTime := 0 }

/-- The outputs of the coinbase, slot by slot: the miner's (or the empty one), then
the budget, lab and founder payments that are due. -/
def minerOutputs (scripts : BudgetScripts) (r : BlockRewards) (fProofOfStake : Bool)
    (scriptPubKeyIn : CScript) (nNetworkReward : CAmount) : List CTxOutBase :=
  (if fProofOfStake then (if r.nBudgetPayment = 0 then [.standard 0 []] else [])
    else [.standard (r.nBlockReward + nNetworkReward) scriptPubKeyIn]) ++
  (if r.nBudgetPayment ≠ 0 then
    [.standard r.nBudgetPayment scripts.budgetScript, .standard r.nLabPayment scripts.labScript] ++
      (if r.nFounderPayment ≠ 0 then [.standard r.nFounderPayment scripts.founderScript] else [])
  else [])

/-! ## Every slot is filled -/

section

variable (params : CChainParams) (scripts : BudgetScripts) (nHeight : Nat)
  (scriptPubKeyIn : CScript) (nNetworkReward : CAmount)

theorem amount_pos_iff {a : CAmount} (h : 0 ≤ a) : 0 < a ↔ a ≠ 0 := by
  rw [Int64.lt_iff_toInt_lt, ne_eq, ← Int64.toInt_inj]
  rw [Int64.le_iff_toInt_le] at h
  simp only [Int64.toInt_zero] at *
  omega

/-- The slot count matches the payments due: `resize` uses `> 0` where the slots are
filled on `≠ 0`, and the table has no negative amount. -/
theorem coinbaseOutputCount_eq {r : BlockRewards} (hr : r.WellFormed) (fProofOfStake : Bool) :
    coinbaseOutputCount r fProofOfStake =
      (if fProofOfStake then 0 else 1) +
        (if r.nBudgetPayment ≠ 0 then 2 + (if r.nFounderPayment ≠ 0 then 1 else 0)
          else if fProofOfStake then 1 else 0) := by
  have hb : r.nBudgetPayment > 0 ↔ r.nBudgetPayment ≠ 0 := amount_pos_iff hr.budget_nonneg
  have hf : r.nFounderPayment > 0 ↔ r.nFounderPayment ≠ 0 := amount_pos_iff hr.founder_nonneg
  simp only [coinbaseOutputCount, hb, hf]
  by_cases h1 : r.nBudgetPayment ≠ 0 <;> by_cases h2 : r.nFounderPayment ≠ 0 <;>
    cases fProofOfStake <;> simp [h1, h2]

theorem createCoinbaseOutputs_eq (fProofOfStake : Bool) :
    createCoinbaseOutputs params scripts nHeight fProofOfStake scriptPubKeyIn nNetworkReward =
      (minerOutputs scripts (getBlockRewards params nHeight) fProofOfStake scriptPubKeyIn
        nNetworkReward).map some := by
  have hr := getBlockRewards_wellFormed params nHeight
  simp only [createCoinbaseOutputs, minerOutputs, coinbaseOutputCount_eq hr]
  -- one case per slot layout: proof type, budget due, founder due
  by_cases h1 : (getBlockRewards params nHeight).nBudgetPayment = 0
  · cases fProofOfStake <;>
      simp [h1, makeStandardOutput, CTxOutBase.setValue, CTxOutBase.setScriptPubKey]
  · by_cases h2 : (getBlockRewards params nHeight).nFounderPayment = 0 <;>
      cases fProofOfStake <;> simp [h1, h2, List.replicate]

theorem createCoinbase_vpout (fProofOfStake : Bool) (scriptSig : CScript) :
    (createCoinbase params scripts nHeight fProofOfStake scriptPubKeyIn scriptSig nNetworkReward).vpout =
      minerOutputs scripts (getBlockRewards params nHeight) fProofOfStake scriptPubKeyIn
        nNetworkReward := by
  rw [createCoinbase, createCoinbaseOutputs_eq]
  simp [List.reduceOption]

end

end Veil
