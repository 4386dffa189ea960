import Veil.Chainparams
import Veil.Primitives.Transaction

/-!
# The budget: `veil/budget.cpp`

`GetBlockRewards` gives each height its block reward and, on a superblock, the
founder, lab and budget payments; `CheckBudgetTransaction` demands, at every
height that is a multiple of `nBlocksPerPeriod`, coinbase outputs that pay those
amounts to the three budget scripts.

The scripts are those of the decoded budget, lab and founder addresses
(`GetScriptForDestination(DecodeDestination(...))`); they are parameters here,
with the source's requirement that they differ (`BudgetScripts.Distinct`).

Main results:

    (getBlockRewards params h).WellFormed                      (getBlockRewards_wellFormed)
    mainnet, 1 ≤ h ≤ stop:  nBudgetPayment ≠ 0 ↔ h % nBlocksPerPeriod = 0
                                                     (getBlockRewards_main_nBudgetPayment_ne_zero)
    checkBudgetTransaction = true ↔ the three payments are found  (checkBudgetTransaction_iff)
-/

namespace Veil

namespace BudgetParams

/-- `BudgetParams::nBlocksPerPeriod`. -/
def nBlocksPerPeriod : Nat := 43200

/-- `BudgetParams::IsSuperBlock`. -/
def isSuperBlock (params : CChainParams) (nBlockHeight : Nat) : Bool :=
  (params.strNetworkID == .main && nBlockHeight % nBlocksPerPeriod == 0) ||
    (params.strNetworkID == .test &&
      (nBlockHeight % nBlocksPerPeriod == 20000 || nBlockHeight == 1))

end BudgetParams

open BudgetParams

/-- The four amounts `GetBlockRewards` writes to its out-parameters. -/
structure BlockRewards where
  nBlockReward : CAmount
  nFounderPayment : CAmount
  nLabPayment : CAmount
  nBudgetPayment : CAmount
  deriving DecidableEq, Repr

/-- One era of the reward table: the block reward, and on a superblock the founder,
lab and budget payments per block of the period, all then multiplied by `COIN`. -/
def rewardEra (fSuperBlock : Bool) (nBlockReward kFounder kLab kBudget : CAmount) : BlockRewards :=
  if fSuperBlock then
    { nBlockReward := nBlockReward * COIN
      nFounderPayment := kFounder * Int64.ofNat nBlocksPerPeriod * COIN
      nLabPayment := kLab * Int64.ofNat nBlocksPerPeriod * COIN
      nBudgetPayment := kBudget * Int64.ofNat nBlocksPerPeriod * COIN }
  else
    { nBlockReward := nBlockReward * COIN, nFounderPayment := 0, nLabPayment := 0,
      nBudgetPayment := 0 }

/-- `BudgetParams::GetBlockRewards`. -/
def getBlockRewards (params : CChainParams) (nBlockHeight : Nat) : BlockRewards :=
  let fSuperBlock := isSuperBlock params nBlockHeight
  if nBlockHeight ≤ 0 ∨ nBlockHeight > params.nHeightSupplyCreationStop then
    { nBlockReward := 0, nFounderPayment := 0, nLabPayment := 0, nBudgetPayment := 0 }
  else if nBlockHeight ≥ 1 ∧ nBlockHeight ≤ 518399 then rewardEra fSuperBlock 50 10 10 30
  else if nBlockHeight ≥ 518400 ∧ nBlockHeight ≤ 1036799 then rewardEra fSuperBlock 40 8 8 24
  else if nBlockHeight ≥ 1036800 ∧ nBlockHeight ≤ 1555199 then rewardEra fSuperBlock 30 6 6 18
  else if nBlockHeight ≥ 1555200 ∧ nBlockHeight ≤ 2073599 then rewardEra fSuperBlock 20 4 4 12
  else if nBlockHeight ≥ 2073600 ∧ nBlockHeight ≤ 2591999 then rewardEra fSuperBlock 10 2 2 6
  else rewardEra fSuperBlock 10 0 2 8

/-- The decoded budget, lab and founder scripts. -/
structure BudgetScripts where
  budgetScript : CScript
  labScript : CScript
  founderScript : CScript
  deriving DecidableEq, Repr

/-- "Addresses must decode to be different, otherwise `CheckBudgetTransaction()`
will fail." -/
structure BudgetScripts.Distinct (scripts : BudgetScripts) : Prop where
  budget_lab : scripts.budgetScript ≠ scripts.labScript
  budget_founder : scripts.budgetScript ≠ scripts.founderScript
  lab_founder : scripts.labScript ≠ scripts.founderScript

/-- The three flags of `CheckBudgetTransaction`'s loop. -/
structure PaymentFlags where
  fBudgetPayment : Bool
  fLabPayment : Bool
  fFounderPayment : Bool
  deriving DecidableEq, Repr

/-- One pass of the loop over `tx.vpout`: a standard output paying one of the
scripts the expected amount sets that script's flag; the scripts are tried in the
source's `if … else if` order. -/
def scanPayment (scripts : BudgetScripts) (r : BlockRewards) (flags : PaymentFlags) :
    CTxOutBase → PaymentFlags
  | .standard nValue scriptPubKey =>
    if scriptPubKey = scripts.budgetScript then
      if nValue = r.nBudgetPayment then { flags with fBudgetPayment := true } else flags
    else if scriptPubKey = scripts.labScript then
      if nValue = r.nLabPayment then { flags with fLabPayment := true } else flags
    else if scriptPubKey = scripts.founderScript then
      if nValue = r.nFounderPayment then { flags with fFounderPayment := true } else flags
    else flags
  -- `if (pOut->nVersion != OUTPUT_STANDARD) continue;`
  | _ => flags

/-- `veil::CheckBudgetTransaction` (its `CValidationState` is only logged to). -/
def checkBudgetTransaction (params : CChainParams) (scripts : BudgetScripts) (nHeight : Nat)
    (tx : CTransaction) : Bool :=
  if nHeight % nBlocksPerPeriod ≠ 0 then true
  else
    let r := getBlockRewards params nHeight
    let flags := tx.vpout.foldl (scanPayment scripts r) ⟨false, false, r.nFounderPayment == 0⟩
    flags.fBudgetPayment && flags.fLabPayment && flags.fFounderPayment

/-! ## The reward table -/

/-- What the miner relies on: no negative amount, and a founder payment only with a
budget payment. -/
structure BlockRewards.WellFormed (r : BlockRewards) : Prop where
  budget_nonneg : 0 ≤ r.nBudgetPayment
  founder_nonneg : 0 ≤ r.nFounderPayment
  budget_of_founder : r.nFounderPayment ≠ 0 → r.nBudgetPayment ≠ 0
  lab_of_budget : r.nBudgetPayment ≠ 0 → r.nLabPayment ≠ 0

instance (r : BlockRewards) : Decidable r.WellFormed :=
  decidable_of_iff (0 ≤ r.nBudgetPayment ∧ 0 ≤ r.nFounderPayment ∧
      (r.nFounderPayment ≠ 0 → r.nBudgetPayment ≠ 0) ∧ (r.nBudgetPayment ≠ 0 → r.nLabPayment ≠ 0))
    ⟨fun ⟨h1, h2, h3, h4⟩ => ⟨h1, h2, h3, h4⟩, fun ⟨h1, h2, h3, h4⟩ => ⟨h1, h2, h3, h4⟩⟩

/-- The six eras of `GetBlockRewards`, in the table's order. -/
def rewardEras : List (CAmount × CAmount × CAmount × CAmount) :=
  [(50, 10, 10, 30), (40, 8, 8, 24), (30, 6, 6, 18), (20, 4, 4, 12), (10, 2, 2, 6), (10, 0, 2, 8)]

/-- Outside the supply window every amount is zero; inside it the amounts are one
era's, on a superblock or not. -/
theorem getBlockRewards_cases (params : CChainParams) (h : Nat) :
    (getBlockRewards params h = ⟨0, 0, 0, 0⟩ ∧ (h ≤ 0 ∨ h > params.nHeightSupplyCreationStop)) ∨
    (1 ≤ h ∧ h ≤ params.nHeightSupplyCreationStop ∧
      ∃ e ∈ rewardEras, getBlockRewards params h =
        rewardEra (isSuperBlock params h) e.1 e.2.1 e.2.2.1 e.2.2.2) := by
  unfold getBlockRewards
  dsimp only
  split
  · exact Or.inl ⟨rfl, by assumption⟩
  · rename_i hwin
    refine Or.inr ⟨by omega, by omega, ?_⟩
    -- one branch per era; each names its row of `rewardEras`
    split
    · exact ⟨(50, 10, 10, 30), by decide, rfl⟩
    split
    · exact ⟨(40, 8, 8, 24), by decide, rfl⟩
    split
    · exact ⟨(30, 6, 6, 18), by decide, rfl⟩
    split
    · exact ⟨(20, 4, 4, 12), by decide, rfl⟩
    split
    · exact ⟨(10, 2, 2, 6), by decide, rfl⟩
    · exact ⟨(10, 0, 2, 8), by decide, rfl⟩

theorem rewardEra_wellFormed (fSuperBlock : Bool) {e : CAmount × CAmount × CAmount × CAmount}
    (he : e ∈ rewardEras) : (rewardEra fSuperBlock e.1 e.2.1 e.2.2.1 e.2.2.2).WellFormed := by
  simp only [rewardEras, List.mem_cons, List.not_mem_nil, or_false] at he
  rcases he with rfl | rfl | rfl | rfl | rfl | rfl <;> cases fSuperBlock <;> decide

theorem getBlockRewards_wellFormed (params : CChainParams) (h : Nat) :
    (getBlockRewards params h).WellFormed := by
  rcases getBlockRewards_cases params h with ⟨hr, -⟩ | ⟨-, -, e, he, hr⟩
  · rw [hr]
    decide
  · rw [hr]
    exact rewardEra_wellFormed _ he

/-- In every era the superblock's budget payment is non-zero. -/
theorem rewardEra_nBudgetPayment_ne_zero_iff (fSuperBlock : Bool)
    {e : CAmount × CAmount × CAmount × CAmount} (he : e ∈ rewardEras) :
    (rewardEra fSuperBlock e.1 e.2.1 e.2.2.1 e.2.2.2).nBudgetPayment ≠ 0 ↔ fSuperBlock = true := by
  simp only [rewardEras, List.mem_cons, List.not_mem_nil, or_false] at he
  rcases he with rfl | rfl | rfl | rfl | rfl | rfl <;> cases fSuperBlock <;> decide

/-- Inside the supply window the budget is paid exactly on superblocks. -/
theorem getBlockRewards_nBudgetPayment_ne_zero_iff (params : CChainParams) {h : Nat}
    (h1 : 1 ≤ h) (hstop : h ≤ params.nHeightSupplyCreationStop) :
    (getBlockRewards params h).nBudgetPayment ≠ 0 ↔ isSuperBlock params h = true := by
  rcases getBlockRewards_cases params h with ⟨-, hout⟩ | ⟨-, -, e, he, hr⟩
  · omega
  · rw [hr]
    exact rewardEra_nBudgetPayment_ne_zero_iff _ he

/-- On mainnet a superblock is a multiple of `nBlocksPerPeriod`. -/
theorem getBlockRewards_main_nBudgetPayment_ne_zero {h : Nat} (h1 : 1 ≤ h)
    (hstop : h ≤ mainParams.nHeightSupplyCreationStop) :
    (getBlockRewards mainParams h).nBudgetPayment ≠ 0 ↔ h % nBlocksPerPeriod = 0 := by
  rw [getBlockRewards_nBudgetPayment_ne_zero_iff mainParams h1 hstop]
  simp [isSuperBlock, mainParams]

/-! ## The payment loop -/

/-- The output that sets `fBudgetPayment`. -/
def paysBudget (scripts : BudgetScripts) (r : BlockRewards) : CTxOutBase → Bool
  | .standard nValue scriptPubKey =>
    decide (scriptPubKey = scripts.budgetScript) && decide (nValue = r.nBudgetPayment)
  | _ => false

/-- The output that sets `fLabPayment`: the budget script is tried first. -/
def paysLab (scripts : BudgetScripts) (r : BlockRewards) : CTxOutBase → Bool
  | .standard nValue scriptPubKey =>
    !decide (scriptPubKey = scripts.budgetScript) && decide (scriptPubKey = scripts.labScript) &&
      decide (nValue = r.nLabPayment)
  | _ => false

/-- The output that sets `fFounderPayment`: the budget and lab scripts are tried first. -/
def paysFounder (scripts : BudgetScripts) (r : BlockRewards) : CTxOutBase → Bool
  | .standard nValue scriptPubKey =>
    !decide (scriptPubKey = scripts.budgetScript) && !decide (scriptPubKey = scripts.labScript) &&
      decide (scriptPubKey = scripts.founderScript) && decide (nValue = r.nFounderPayment)
  | _ => false

/-- One pass sets each flag whose output it sees, and clears none. -/
theorem scanPayment_eq (scripts : BudgetScripts) (r : BlockRewards) (flags : PaymentFlags)
    (o : CTxOutBase) :
    scanPayment scripts r flags o =
      ⟨flags.fBudgetPayment || paysBudget scripts r o, flags.fLabPayment || paysLab scripts r o,
        flags.fFounderPayment || paysFounder scripts r o⟩ := by
  obtain ⟨fBudgetPayment, fLabPayment, fFounderPayment⟩ := flags
  cases o with
  | standard nValue scriptPubKey =>
    -- the source's `if … else if` chain, one script at a time
    by_cases hb : scriptPubKey = scripts.budgetScript
    · by_cases hv : nValue = r.nBudgetPayment <;>
        simp [scanPayment, paysBudget, paysLab, paysFounder, eq_true hb, hv]
    by_cases hl : scriptPubKey = scripts.labScript
    · by_cases hv : nValue = r.nLabPayment <;>
        simp [scanPayment, paysBudget, paysLab, paysFounder, hb, eq_true hl, hv]
    by_cases hf : scriptPubKey = scripts.founderScript
    · by_cases hv : nValue = r.nFounderPayment <;>
        simp [scanPayment, paysBudget, paysLab, paysFounder, hb, hl, eq_true hf, hv]
    · simp [scanPayment, paysBudget, paysLab, paysFounder, hb, hl, hf]
  | ct => simp [scanPayment, paysBudget, paysLab, paysFounder]
  | ringct => simp [scanPayment, paysBudget, paysLab, paysFounder]
  | data => simp [scanPayment, paysBudget, paysLab, paysFounder]

/-- The loop over all outputs: a flag ends set iff it started set or some output
sets it. -/
theorem foldl_scanPayment (scripts : BudgetScripts) (r : BlockRewards) (vpout : List CTxOutBase)
    (flags : PaymentFlags) :
    vpout.foldl (scanPayment scripts r) flags =
      ⟨flags.fBudgetPayment || vpout.any (paysBudget scripts r),
        flags.fLabPayment || vpout.any (paysLab scripts r),
        flags.fFounderPayment || vpout.any (paysFounder scripts r)⟩ := by
  induction vpout generalizing flags with
  | nil => simp
  | cons o vpout ih =>
    rw [List.foldl_cons, ih, scanPayment_eq]
    simp [Bool.or_assoc]

/-- **`CheckBudgetTransaction`.** Off the period boundary it accepts; on it, it
demands the budget and lab payments and the founder payment when there is one. -/
theorem checkBudgetTransaction_iff (params : CChainParams) (scripts : BudgetScripts) (h : Nat)
    (tx : CTransaction) :
    checkBudgetTransaction params scripts h tx = true ↔
      (h % nBlocksPerPeriod = 0 →
        tx.vpout.any (paysBudget scripts (getBlockRewards params h)) = true ∧
        tx.vpout.any (paysLab scripts (getBlockRewards params h)) = true ∧
        ((getBlockRewards params h).nFounderPayment = 0 ∨
          tx.vpout.any (paysFounder scripts (getBlockRewards params h)) = true)) := by
  unfold checkBudgetTransaction
  by_cases hp : h % nBlocksPerPeriod = 0
  · rw [if_neg (not_not.mpr hp)]
    dsimp only
    rw [foldl_scanPayment]
    simp [hp, and_assoc]
  · rw [if_pos hp]
    simp [hp]

end Veil
