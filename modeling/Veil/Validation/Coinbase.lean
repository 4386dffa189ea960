import Veil.Miner

/-!
# The coinbase rules of `ContextualCheckBlock` and `ConnectBlock` (`validation.cpp`)

Three rules decide whether a block's coinbase is acceptable at height `h`:

* `ConnectBlock` refuses proof-of-work blocks above `LAST_POW_BLOCK()`
  (`pow-after-cutoff`);
* `ContextualCheckBlock` demands of a proof-of-stake block one empty standard
  output, unless `h == nBlocksPerPeriod` (or `h == 1`), where it allows up to three
  outputs (`bad-coinbase-vpout`);
* `CheckBudgetTransaction` demands the budget payments at every multiple of
  `nBlocksPerPeriod`.

Main results, for the coinbase `CreateNewBlock` builds (`createCoinbase`):

    coinbaseAccepted (createCoinbase …) ↔ (h > LAST_POW_BLOCK → PoS)
        ∧ (PoS → h = nBlocksPerPeriod ∨ no budget payment) ∧ (h % nBlocksPerPeriod = 0 → budget payment)
                                                              (createCoinbase_accepted_iff)

The shape rule tests the single height `nBlocksPerPeriod` where the budget is paid at
every multiple of it.  On mainnet, inside the supply window, the miner's proof-of-stake
coinbase is refused at every budget height but the first (`createCoinbase_accepted_main_iff`),
and above `LAST_POW_BLOCK` no coinbase at all is accepted at a budget height
(`coinbaseAccepted_main_2030400`).
-/

namespace Veil

open BudgetParams

/-- `ContextualCheckBlock`'s rule on the coinbase outputs of a proof-of-stake block.
The exemption tests `pindexPrev->nHeight + 1 != nBlocksPerPeriod &&
pindexPrev->nHeight != 0`, with `nHeight = pindexPrev->nHeight + 1`. -/
def checkCoinbaseShape (nHeight : Nat) (fProofOfStake : Bool) (coinbase : CTransaction) : Bool :=
  if fProofOfStake ∧ (nHeight ≠ nBlocksPerPeriod ∧ nHeight - 1 ≠ 0) then
    -- "PoS non-superblock has invalid coinbase out"
    match coinbase.vpout with
    | [.standard nValue scriptPubKey] => decide (nValue = 0) && decide (scriptPubKey = [])
    | _ => false
  else if fProofOfStake then
    -- "PoS superblock has invalid coinbase out"
    decide (coinbase.vpout.length ≤ 3)
  else true

/-- `ConnectBlock`: "Do not accept PoW blocks after the last pow height". -/
def powAfterCutoff (params : CChainParams) (nHeight : Nat) (fProofOfStake : Bool) : Bool :=
  decide (nHeight > params.LAST_POW_BLOCK) && !fProofOfStake

/-- The three coinbase rules a block at `nHeight` must pass (the genesis block is
never checked against them). -/
def coinbaseAccepted (params : CChainParams) (scripts : BudgetScripts) (nHeight : Nat)
    (fProofOfStake : Bool) (coinbase : CTransaction) : Bool :=
  !powAfterCutoff params nHeight fProofOfStake && checkCoinbaseShape nHeight fProofOfStake coinbase &&
    checkBudgetTransaction params scripts nHeight coinbase

/-! ## The shape rule against the miner -/

section

variable (params : CChainParams) (scripts : BudgetScripts) (nHeight : Nat)
  (scriptPubKeyIn scriptSig : CScript) (nNetworkReward : CAmount)

/-- The miner's proof-of-stake coinbase has one empty output exactly when no
budget payment is due, and never more than three. -/
theorem checkCoinbaseShape_createCoinbase (h2 : 2 ≤ nHeight) (fProofOfStake : Bool) :
    checkCoinbaseShape nHeight fProofOfStake
        (createCoinbase params scripts nHeight fProofOfStake scriptPubKeyIn scriptSig nNetworkReward) =
      true ↔
      (fProofOfStake = true →
        nHeight = nBlocksPerPeriod ∨ (getBlockRewards params nHeight).nBudgetPayment = 0) := by
  have hprev : nHeight - 1 ≠ 0 := by omega
  unfold checkCoinbaseShape
  rw [createCoinbase_vpout]
  cases fProofOfStake with
  | false => simp
  | true =>
    by_cases hP : nHeight = nBlocksPerPeriod
    · -- the exempt height: at most three outputs
      subst hP
      by_cases h1 : (getBlockRewards params nBlocksPerPeriod).nBudgetPayment = 0 <;>
        by_cases h3 : (getBlockRewards params nBlocksPerPeriod).nFounderPayment = 0 <;>
        simp [h1, h3, minerOutputs]
    · -- every other height: the single empty output
      by_cases h1 : (getBlockRewards params nHeight).nBudgetPayment = 0 <;>
        by_cases h3 : (getBlockRewards params nHeight).nFounderPayment = 0 <;>
        simp [hP, hprev, h1, h3, minerOutputs]

/-! ## The budget check against the miner -/

/-- No output pays both the budget and the lab: the lab is tried only after the
budget script fails to match. -/
theorem paysBudget_paysLab (r : BlockRewards) (o : CTxOutBase)
    (hb : paysBudget scripts r o = true) : paysLab scripts r o = false := by
  cases o with
  | standard nValue scriptPubKey =>
    simp only [paysBudget, Bool.and_eq_true, decide_eq_true_eq] at hb
    simp [paysLab, hb.1]
  | ct => simp [paysBudget] at hb
  | ringct => simp [paysBudget] at hb
  | data => simp [paysBudget] at hb

/-- A coinbase of one output never passes the budget check on a period boundary. -/
theorem checkBudgetTransaction_single (o : CTxOutBase) (tx : CTransaction) (hv : tx.vpout = [o])
    (hp : nHeight % nBlocksPerPeriod = 0) : checkBudgetTransaction params scripts nHeight tx = false := by
  rw [← Bool.not_eq_true, checkBudgetTransaction_iff]
  intro h
  obtain ⟨hb, hl, -⟩ := h hp
  rw [hv, List.any_cons, List.any_nil, Bool.or_false] at hb hl
  rw [paysBudget_paysLab scripts _ o hb] at hl
  exact Bool.false_ne_true hl

/-- With budget payments due, the miner's outputs carry each of them to its script. -/
theorem minerOutputs_pays (hs : scripts.Distinct) {r : BlockRewards} (hb : r.nBudgetPayment ≠ 0)
    (fProofOfStake : Bool) :
    (minerOutputs scripts r fProofOfStake scriptPubKeyIn nNetworkReward).any (paysBudget scripts r) ∧
    (minerOutputs scripts r fProofOfStake scriptPubKeyIn nNetworkReward).any (paysLab scripts r) ∧
    (r.nFounderPayment = 0 ∨
      (minerOutputs scripts r fProofOfStake scriptPubKeyIn nNetworkReward).any (paysFounder scripts r)) := by
  have hbl := hs.budget_lab
  have hbf := hs.budget_founder
  have hlf := hs.lab_founder
  refine ⟨?_, ?_, ?_⟩
  · simp [minerOutputs, hb, paysBudget]
  · simp [minerOutputs, hb, paysLab, Ne.symm hbl]
  · by_cases hf : r.nFounderPayment = 0
    · exact Or.inl hf
    · right
      simp [minerOutputs, hb, hf, paysFounder, Ne.symm hbf, Ne.symm hlf]

/-- The miner's coinbase passes `CheckBudgetTransaction` exactly when a budget
payment is due at every period boundary it sits on. -/
theorem checkBudgetTransaction_createCoinbase (hs : scripts.Distinct) (fProofOfStake : Bool) :
    checkBudgetTransaction params scripts nHeight
        (createCoinbase params scripts nHeight fProofOfStake scriptPubKeyIn scriptSig nNetworkReward) =
      true ↔
      (nHeight % nBlocksPerPeriod = 0 → (getBlockRewards params nHeight).nBudgetPayment ≠ 0) := by
  constructor
  · intro h hp hzero
    -- without a budget payment the miner writes a single output
    have hv : (createCoinbase params scripts nHeight fProofOfStake scriptPubKeyIn scriptSig
        nNetworkReward).vpout = [match fProofOfStake with
          | true => .standard 0 []
          | false => .standard ((getBlockRewards params nHeight).nBlockReward + nNetworkReward)
              scriptPubKeyIn] := by
      rw [createCoinbase_vpout]
      cases fProofOfStake <;> simp [minerOutputs, hzero]
    rw [checkBudgetTransaction_single params scripts nHeight _ _ hv hp] at h
    exact Bool.false_ne_true h
  · intro hdue
    rw [checkBudgetTransaction_iff, createCoinbase_vpout]
    intro hp
    exact minerOutputs_pays scripts scriptPubKeyIn nNetworkReward hs (hdue hp) fProofOfStake

/-- **Miner against validator.** At every height from 2 on, the coinbase
`CreateNewBlock` builds is accepted exactly when proof of work is still allowed, the
shape rule's exemption covers a proof-of-stake budget payment, and a budget payment
is due at every period boundary. -/
theorem createCoinbase_accepted_iff (hs : scripts.Distinct) (h2 : 2 ≤ nHeight)
    (fProofOfStake : Bool) :
    coinbaseAccepted params scripts nHeight fProofOfStake
        (createCoinbase params scripts nHeight fProofOfStake scriptPubKeyIn scriptSig nNetworkReward) =
      true ↔
      (nHeight > params.LAST_POW_BLOCK → fProofOfStake = true) ∧
      (fProofOfStake = true →
        nHeight = nBlocksPerPeriod ∨ (getBlockRewards params nHeight).nBudgetPayment = 0) ∧
      (nHeight % nBlocksPerPeriod = 0 → (getBlockRewards params nHeight).nBudgetPayment ≠ 0) := by
  have hcut : (!powAfterCutoff params nHeight fProofOfStake) = true ↔
      (nHeight > params.LAST_POW_BLOCK → fProofOfStake = true) := by
    cases fProofOfStake <;> simp [powAfterCutoff]
  rw [coinbaseAccepted, Bool.and_eq_true, Bool.and_eq_true, hcut,
    checkCoinbaseShape_createCoinbase params scripts nHeight scriptPubKeyIn scriptSig nNetworkReward
      h2 fProofOfStake,
    checkBudgetTransaction_createCoinbase params scripts nHeight scriptPubKeyIn scriptSig
      nNetworkReward hs fProofOfStake, and_assoc]

end

/-! ## Mainnet -/

/-- On mainnet, inside the supply window, the miner's coinbase is accepted exactly
when proof of work is still allowed and a proof-of-stake block does not sit on a
budget height other than the first. -/
theorem createCoinbase_accepted_main_iff (scripts : BudgetScripts) (hs : scripts.Distinct)
    {nHeight : Nat} (h2 : 2 ≤ nHeight) (hstop : nHeight ≤ mainParams.nHeightSupplyCreationStop)
    (fProofOfStake : Bool) (scriptPubKeyIn scriptSig : CScript) (nNetworkReward : CAmount) :
    coinbaseAccepted mainParams scripts nHeight fProofOfStake
        (createCoinbase mainParams scripts nHeight fProofOfStake scriptPubKeyIn scriptSig
          nNetworkReward) = true ↔
      (nHeight > mainParams.LAST_POW_BLOCK → fProofOfStake = true) ∧
      (fProofOfStake = true → nHeight = nBlocksPerPeriod ∨ nHeight % nBlocksPerPeriod ≠ 0) := by
  have hpay := getBlockRewards_main_nBudgetPayment_ne_zero (by omega : 1 ≤ nHeight) hstop
  rw [createCoinbase_accepted_iff mainParams scripts nHeight scriptPubKeyIn scriptSig nNetworkReward
    hs h2 fProofOfStake]
  constructor
  · rintro ⟨hcut, hshape, -⟩
    refine ⟨hcut, fun hpos => ?_⟩
    rcases hshape hpos with hP | hzero
    · exact Or.inl hP
    · exact Or.inr fun hp => hpay.mpr hp hzero
  · rintro ⟨hcut, hshape⟩
    refine ⟨hcut, fun hpos => ?_, hpay.mpr⟩
    rcases hshape hpos with hP | hp
    · exact Or.inl hP
    · exact Or.inr (not_not.mp (mt hpay.mp hp))

/-- At the second mainnet budget height, `86400`, the miner's proof-of-stake coinbase is refused:
the shape rule exempts only `nBlocksPerPeriod`. -/
theorem createCoinbase_accepted_main_iff_86400 :
    coinbaseAccepted mainParams ⟨[1], [2], [3]⟩ 86400 true
      (createCoinbase mainParams ⟨[1], [2], [3]⟩ 86400 true [] [] 0) = false := by
  rw [Bool.eq_false_iff, ne_eq, createCoinbase_accepted_main_iff ⟨[1], [2], [3]⟩
    ⟨by decide, by decide, by decide⟩ (by decide) (by decide) true [] [] 0]
  rintro ⟨-, hshape⟩
  rcases hshape rfl with h | h <;> simp [nBlocksPerPeriod] at h

/-- Height `2030400 = 47 · nBlocksPerPeriod` on mainnet: proof of work is past
`LAST_POW_BLOCK`, and a proof-of-stake coinbase cannot be both the single empty output
the shape rule demands and pay the budget; no coinbase whatever is accepted. -/
theorem coinbaseAccepted_main_2030400 (scripts : BudgetScripts) (fProofOfStake : Bool)
    (coinbase : CTransaction) :
    coinbaseAccepted mainParams scripts 2030400 fProofOfStake coinbase = false := by
  have hpay : (getBlockRewards mainParams 2030400).nBudgetPayment ≠ 0 := by decide
  cases fProofOfStake with
  | false => simp [coinbaseAccepted, powAfterCutoff, mainParams, CChainParams.LAST_POW_BLOCK]
  | true =>
    rw [coinbaseAccepted, Bool.and_eq_false_iff, Bool.and_eq_false_iff]
    -- the shape rule applies here, and leaves one empty output, which pays no budget
    by_cases hshape : checkCoinbaseShape 2030400 true coinbase = true
    · right
      have hv : coinbase.vpout = [.standard 0 []] := by
        unfold checkCoinbaseShape at hshape
        rw [if_pos (by decide)] at hshape
        split at hshape
        · rename_i nValue scriptPubKey hv
          simp only [Bool.and_eq_true, decide_eq_true_eq] at hshape
          rw [hv, hshape.1, hshape.2]
        · exact absurd hshape Bool.false_ne_true
      rw [← Bool.not_eq_true, checkBudgetTransaction_iff]
      intro h
      obtain ⟨hb, -, -⟩ := h (by decide)
      rw [hv] at hb
      simp [paysBudget, Ne.symm hpay] at hb
    · left
      right
      exact Bool.eq_false_iff.mpr hshape

end Veil
