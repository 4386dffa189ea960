import Mathlib

/-!
# Zerocoin accumulator checkpoints and witnesses (`veil/zerocoin/accumulators.cpp`)

An accumulator is modelled as the multiset of the coin values it has accumulated
(the RSA accumulator `A ↦ A^v mod N` is commutative, and only which values went in
matters); an `AccumulatorMap` holds one per denomination.  The chain is given by
the pubcoins each block mints (`BlockToPubcoinList` at each height).

* `CalculateAccumulatorCheckpoint` gives every height that is a multiple of 10
  (other than 10) a checkpoint: the previous block's, plus the pubcoins of the ten
  blocks from `h - 20` to `h - 11`.  Every other block carries its parent's
  (`ValidateAccumulatorCheckpoint`).
* `GenerateAccumulatorWitness` starts a coin's witness from the checkpoint right
  after its mint (`SetHeightMintAdded`), adds the pubcoins of the blocks up to the
  stop height `S` (`AccumulateRange`), skipping the coin itself in its own block, and
  checks it against the checkpoint at `S + 10`.

Main results:

    blockCheckpoint h d = the mints of blocks below checkpointEnd h       (blockCheckpoint_eq)
    witness + (copies of c in block m) = checkpoint (S + 10)        (generateAccumulatorWitness_eq)

The skip rule drops every copy of the coin's value in its block, so the witness
matches its checkpoint exactly when the block holds the coin once.
-/

namespace Veil.Zerocoin

/-- `libzerocoin::PublicCoin`: a coin value and its denomination. -/
structure PublicCoin (α δ : Type) where
  value : α
  denomination : δ
  deriving DecidableEq, Repr

/-- `AccumulatorMap`: one accumulator per denomination. -/
abbrev AccumulatorMap (α δ : Type) := δ → Multiset α

/-- The pubcoins `BlockToPubcoinList` finds in the block at each height. -/
abbrev BlockMints (α δ : Type) := Nat → List (PublicCoin α δ)

section

variable {α δ : Type} [DecidableEq α] [DecidableEq δ]

/-- `AccumulatorMap::Reset`: every accumulator empty. -/
def AccumulatorMap.empty : AccumulatorMap α δ := fun _ => 0

/-- `AccumulatorMap::Accumulate`: the coin goes into its denomination's accumulator. -/
def AccumulatorMap.accumulate (m : AccumulatorMap α δ) (c : PublicCoin α δ) : AccumulatorMap α δ :=
  Function.update m c.denomination (c.value ::ₘ m c.denomination)

/-! ## Checkpoints -/

/-- The loop of `CalculateAccumulatorCheckpoint` over the blocks `[nStart, nEnd)`:
their pubcoins accumulated in order, and `nTotalMintsFound`. -/
def accumulateBlocks (blockMints : BlockMints α δ) (nStart nEnd : Nat) (acc : AccumulatorMap α δ) :
    AccumulatorMap α δ × Nat :=
  (List.range' nStart (nEnd - nStart)).foldl
    (fun p h => ((blockMints h).foldl AccumulatorMap.accumulate p.1, p.2 + (blockMints h).length))
    (acc, 0)

/-- `CalculateAccumulatorCheckpoint`, from the checkpoint `prev` of the block at
`nHeight - 1` (`InitializeAccumulators` loads it; its height guard `nHeight < 20`
never fires on the heights that reach it). -/
def calculateAccumulatorCheckpoint (blockMints : BlockMints α δ) (nHeight : Nat)
    (prev : AccumulatorMap α δ) : AccumulatorMap α δ :=
  if nHeight % 10 ≠ 0 ∨ nHeight = 10 then prev
  else
    -- "height - 20 through height - 11"
    let r := accumulateBlocks blockMints (nHeight - 20) (nHeight - 10) prev
    -- "if there were no new mints found, the accumulator checkpoint will be the same"
    if r.2 = 0 then prev else r.1

/-- The checkpoint each block of the chain carries; the genesis block's hashes are
null, which `InitializeAccumulators` reads as empty accumulators. -/
def blockCheckpoint (blockMints : BlockMints α δ) : Nat → AccumulatorMap α δ
  | 0 => AccumulatorMap.empty
  | h + 1 => calculateAccumulatorCheckpoint blockMints (h + 1) (blockCheckpoint blockMints h)

/-! ## Witnesses -/

/-- `CoinWitnessData`, with its accumulator as a multiset. -/
structure CoinWitnessData (α δ : Type) where
  coin : PublicCoin α δ
  accumulator : Multiset α
  nMintsAdded : Nat
  nHeightMintAdded : Nat
  nHeightCheckpoint : Nat
  nHeightAccStart : Nat
  nHeightAccEnd : Nat
  deriving DecidableEq

/-- `CoinWitnessData(CZerocoinMint&)`: an empty witness for a mint at `nHeight`. -/
def CoinWitnessData.ofMint (coin : PublicCoin α δ) (nHeight : Nat) : CoinWitnessData α δ :=
  { coin, accumulator := 0, nMintsAdded := 0, nHeightMintAdded := 0, nHeightCheckpoint := 0,
    nHeightAccStart := nHeight, nHeightAccEnd := 0 }

/-- `CoinWitnessData::SetHeightMintAdded`. -/
def CoinWitnessData.setHeightMintAdded (w : CoinWitnessData α δ) (nHeight : Nat) :
    CoinWitnessData α δ :=
  { w with nHeightMintAdded := nHeight, nHeightCheckpoint := nHeight + (10 - nHeight % 10),
           nHeightAccStart := nHeight - nHeight % 10 }

/-- One pubcoin of `AddBlockMintsToAccumulator`'s loop: a pubcoin of another
denomination is passed over, and so, for a witness, is every pubcoin of the coin's
value in the block the coin was added in. -/
def addMint (coin : PublicCoin α δ) (nHeightMintAdded nHeight : Nat) (isWitness : Bool)
    (r : Multiset α × Nat) (pubcoin : PublicCoin α δ) : Multiset α × Nat :=
  if pubcoin.denomination ≠ coin.denomination then r
  else if isWitness ∧ nHeight = nHeightMintAdded ∧ pubcoin.value = coin.value then r
  else (pubcoin.value ::ₘ r.1, r.2 + 1)

/-- `AddBlockMintsToAccumulator`: the accumulator after the block's pubcoins, and how
many were added. -/
def addBlockMintsToAccumulator (coin : PublicCoin α δ) (nHeightMintAdded nHeight : Nat)
    (pubcoins : List (PublicCoin α δ)) (acc : Multiset α) (isWitness : Bool) : Multiset α × Nat :=
  -- `if (!pindex->MintedDenomination(coin.getDenomination())) return 0;`
  if ¬pubcoins.any (fun p => decide (p.denomination = coin.denomination)) then (acc, 0)
  else pubcoins.foldl (addMint coin nHeightMintAdded nHeight isWitness) (acc, 0)

/-- One block of `AccumulateRange`'s loop. -/
def accumulateBlock (blockMints : BlockMints α δ) (w : CoinWitnessData α δ) (nHeight : Nat) :
    CoinWitnessData α δ :=
  let r := addBlockMintsToAccumulator w.coin w.nHeightMintAdded nHeight (blockMints nHeight)
    w.accumulator true
  { w with accumulator := r.1, nMintsAdded := w.nMintsAdded + r.2, nHeightAccEnd := nHeight }

/-- `AccumulateRange`: the blocks from `max(nHeightAccStart, nHeightAccEnd + 1)` to
`nHeightEnd`, or to the tip `nChainHeight` where the chain ends first. -/
def accumulateRange (blockMints : BlockMints α δ) (nChainHeight : Nat) (w : CoinWitnessData α δ)
    (nHeightEnd : Nat) : CoinWitnessData α δ :=
  let nHeightStart := max w.nHeightAccStart (w.nHeightAccEnd + 1)
  (List.range' nHeightStart (min nHeightEnd nChainHeight + 1 - nHeightStart)).foldl
    (accumulateBlock blockMints) w

/-- The stop height: two checkpoints below the tip, or ten blocks below a chosen
checkpoint block, rounded down to a multiple of 10.  A negative height of the source
is `0` here, which the `nHeightStop <= nHeightAccEnd` guard refuses all the same. -/
def witnessStopHeight (nChainHeight : Nat) (pindexCheckpoint : Option Nat) : Nat :=
  match pindexCheckpoint with
  | none => nChainHeight - nChainHeight % 10 - 20
  | some nHeight => (nHeight - 10) - (nHeight - 10) % 10

/-- The first part of `GenerateAccumulatorWitness` for a fresh witness of `coin`
minted in the block at `nHeightMinted`: `SetHeightMintAdded`, then the accumulator of
the checkpoint at `nHeightCheckpoint` (`GetAccumulatorValue` fails above the tip and
leaves the accumulator empty). -/
def startAccumulatorWitness (blockMints : BlockMints α δ) (nChainHeight : Nat)
    (coin : PublicCoin α δ) (nHeightMinted : Nat) : CoinWitnessData α δ :=
  let w := (CoinWitnessData.ofMint coin nHeightMinted).setHeightMintAdded nHeightMinted
  if w.nHeightAccEnd = 0 ∧ w.nHeightCheckpoint ≤ nChainHeight then
    { w with accumulator := blockCheckpoint blockMints w.nHeightCheckpoint coin.denomination }
  else w

/-- `AccumulatorWitness::VerifyWitness`: the witness with the coin added is the
accumulator of the coin's denomination. -/
def verifyWitness (mapAccumulators : AccumulatorMap α δ) (w : CoinWitnessData α δ) : Bool :=
  decide (w.coin.value ::ₘ w.accumulator = mapAccumulators w.coin.denomination)

/-- `GenerateAccumulatorWitness` for a fresh witness: `none` where the source returns
an error (a bad block range, a checkpoint block past the tip, or a witness that fails
`VerifyWitness`). -/
def generateAccumulatorWitness (blockMints : BlockMints α δ) (nChainHeight : Nat)
    (coin : PublicCoin α δ) (nHeightMinted : Nat) (pindexCheckpoint : Option Nat) :
    Option (CoinWitnessData α δ) :=
  let w := startAccumulatorWitness blockMints nChainHeight coin nHeightMinted
  let nHeightStop := witnessStopHeight nChainHeight pindexCheckpoint
  if nHeightStop ≤ w.nHeightAccEnd then none
  -- `chainActive[nHeightStop + 10]` must exist
  else if nChainHeight < nHeightStop + 10 then none
  else
    let w := accumulateRange blockMints nChainHeight w (nHeightStop - 1)
    if verifyWitness (blockCheckpoint blockMints (nHeightStop + 10)) w then some w else none

/-! ## What the loops accumulate -/

/-- The values of the pubcoins of denomination `d` in a list. -/
def denomValues (d : δ) (pubcoins : List (PublicCoin α δ)) : List α :=
  (pubcoins.filter fun p => decide (p.denomination = d)).map (·.value)

/-- The values of denomination `d` minted in the blocks at heights `hs`. -/
def mintsOf (blockMints : BlockMints α δ) (d : δ) (hs : List Nat) : Multiset α :=
  ↑(hs.flatMap fun h => denomValues d (blockMints h))

omit [DecidableEq α] in
@[simp] theorem mintsOf_nil (blockMints : BlockMints α δ) (d : δ) : mintsOf blockMints d [] = 0 :=
  rfl

omit [DecidableEq α] in
theorem mintsOf_append (blockMints : BlockMints α δ) (d : δ) (hs hs' : List Nat) :
    mintsOf blockMints d (hs ++ hs') = mintsOf blockMints d hs + mintsOf blockMints d hs' := by
  simp [mintsOf, List.flatMap_append]

omit [DecidableEq α] in
theorem mintsOf_singleton (blockMints : BlockMints α δ) (d : δ) (h : Nat) :
    mintsOf blockMints d [h] = ↑(denomValues d (blockMints h)) := by
  simp [mintsOf]

omit [DecidableEq α] in
/-- The blocks `[a, c)` are the blocks `[a, b)` and then `[b, c)`. -/
theorem mintsOf_range'_split (blockMints : BlockMints α δ) (d : δ) {a b c : Nat} (hab : a ≤ b)
    (hbc : b ≤ c) :
    mintsOf blockMints d (List.range' a (c - a)) =
      mintsOf blockMints d (List.range' a (b - a)) + mintsOf blockMints d (List.range' b (c - b)) := by
  have hsplit : List.range' a (c - a) = List.range' a (b - a) ++ List.range' b (c - b) := by
    have := @List.range'_append a (b - a) (c - b) 1
    rw [Nat.one_mul, Nat.add_sub_cancel' hab] at this
    rw [this]
    congr 1
    omega
  rw [hsplit, mintsOf_append]

omit [DecidableEq α] in
theorem accumulate_apply (m : AccumulatorMap α δ) (c : PublicCoin α δ) (d : δ) :
    m.accumulate c d = if c.denomination = d then c.value ::ₘ m d else m d := by
  by_cases hd : c.denomination = d
  · subst hd
    simp [AccumulatorMap.accumulate]
  · simp [AccumulatorMap.accumulate, Function.update_of_ne (Ne.symm hd), hd]

omit [DecidableEq α] in
/-- Accumulating a block adds its values of each denomination. -/
theorem foldl_accumulate (pubcoins : List (PublicCoin α δ)) (acc : AccumulatorMap α δ) (d : δ) :
    pubcoins.foldl AccumulatorMap.accumulate acc d = acc d + ↑(denomValues d pubcoins) := by
  induction pubcoins generalizing acc with
  | nil => simp [denomValues]
  | cons c pubcoins ih =>
    rw [List.foldl_cons, ih, accumulate_apply]
    by_cases hd : c.denomination = d
    · simp only [denomValues, hd, decide_true, if_true, List.filter_cons_of_pos, List.map_cons,
        ← Multiset.cons_coe, Multiset.cons_add, Multiset.add_cons]
    · simp [denomValues, hd]

omit [DecidableEq α] in
/-- The checkpoint loop over any list of heights: the accumulators gain those blocks'
values, and the count is the number of pubcoins seen. -/
theorem foldl_accumulateBlocks (blockMints : BlockMints α δ) (hs : List Nat)
    (p : AccumulatorMap α δ × Nat) :
    hs.foldl (fun p h => ((blockMints h).foldl AccumulatorMap.accumulate p.1,
        p.2 + (blockMints h).length)) p =
      (fun d => p.1 d + mintsOf blockMints d hs, p.2 + (hs.map fun h => (blockMints h).length).sum) := by
  induction hs generalizing p with
  | nil =>
    obtain ⟨acc, n⟩ := p
    simp
  | cons h hs ih =>
    rw [List.foldl_cons, ih]
    refine Prod.ext (funext fun d => ?_) ?_
    · simp only [foldl_accumulate, add_assoc]
      rw [← mintsOf_singleton, ← mintsOf_append]
      rfl
    · simp [add_assoc]

omit [DecidableEq α] in
theorem accumulateBlocks_eq (blockMints : BlockMints α δ) (nStart nEnd : Nat)
    (acc : AccumulatorMap α δ) :
    accumulateBlocks blockMints nStart nEnd acc =
      (fun d => acc d + mintsOf blockMints d (List.range' nStart (nEnd - nStart)),
        ((List.range' nStart (nEnd - nStart)).map fun h => (blockMints h).length).sum) := by
  rw [accumulateBlocks, foldl_accumulateBlocks]
  simp

omit [DecidableEq α] in
/-- A stretch of blocks without pubcoins mints nothing. -/
theorem mintsOf_eq_zero_of_length (blockMints : BlockMints α δ) (d : δ) (hs : List Nat)
    (h0 : (hs.map fun h => (blockMints h).length).sum = 0) : mintsOf blockMints d hs = 0 := by
  have hnil : ∀ h ∈ hs, blockMints h = [] := by
    intro h hh
    have := List.sum_eq_zero_iff.mp h0 _ (List.mem_map_of_mem hh)
    exact List.length_eq_zero_iff.mp this
  simp only [mintsOf, Multiset.coe_eq_zero, List.flatMap_eq_nil_iff]
  intro h hh
  simp [denomValues, hnil h hh]

/-! ## The checkpoint of every block -/

/-- The first height whose mints a block's checkpoint does not hold: the last
multiple of 10 at or below it, less 10; nothing below height 20. -/
def checkpointEnd (h : Nat) : Nat := if h < 20 then 0 else h - h % 10 - 10

omit [DecidableEq α] in
/-- **Checkpoints.** The checkpoint of the block at height `h` holds, per
denomination, exactly the pubcoins of the blocks below `checkpointEnd h`. -/
theorem blockCheckpoint_eq (blockMints : BlockMints α δ) (h : Nat) (d : δ) :
    blockCheckpoint blockMints h d = mintsOf blockMints d (List.range' 0 (checkpointEnd h)) := by
  induction h with
  | zero => rfl
  | succ h ih =>
    rw [blockCheckpoint, calculateAccumulatorCheckpoint]
    by_cases hskip : (h + 1) % 10 ≠ 0 ∨ h + 1 = 10
    · -- no new checkpoint: the parent's, and the same end height
      have hend : checkpointEnd (h + 1) = checkpointEnd h := by
        unfold checkpointEnd
        split <;> split <;> omega
      rw [if_pos hskip, ih, hend]
    · -- a new checkpoint at `h + 1 ≥ 20`: the parent's ends at `h + 1 - 20`
      rw [if_neg hskip]
      have hend : checkpointEnd (h + 1) = h + 1 - 10 := by
        unfold checkpointEnd
        split <;> omega
      have hprev : checkpointEnd h = h + 1 - 20 := by
        unfold checkpointEnd
        split <;> omega
      have hnew : mintsOf blockMints d (List.range' 0 (h + 1 - 10)) =
          mintsOf blockMints d (List.range' 0 (h + 1 - 20)) +
            mintsOf blockMints d (List.range' (h + 1 - 20) (h + 1 - 10 - (h + 1 - 20))) := by
        have := mintsOf_range'_split blockMints d (Nat.zero_le (h + 1 - 20))
          (by omega : h + 1 - 20 ≤ h + 1 - 10)
        simpa using this
      rw [hend, hnew, ← hprev, ← ih, accumulateBlocks_eq]
      dsimp only
      split
      · rename_i h0
        rw [mintsOf_eq_zero_of_length blockMints d _ h0, add_zero]
      · rfl

/-! ## What a witness accumulates -/

/-- The values a witness takes from the blocks at heights `hs`: each block's values
of the coin's denomination, less, in the block the coin was added in, every copy of
the coin's value. -/
def witnessMintsOf (blockMints : BlockMints α δ) (coin : PublicCoin α δ) (nHeightMintAdded : Nat)
    (hs : List Nat) : Multiset α :=
  ↑(hs.flatMap fun h => (denomValues coin.denomination (blockMints h)).filter
    fun v => !(decide (h = nHeightMintAdded) && decide (v = coin.value)))

theorem witnessMintsOf_append (blockMints : BlockMints α δ) (coin : PublicCoin α δ) (m : Nat)
    (hs hs' : List Nat) :
    witnessMintsOf blockMints coin m (hs ++ hs') =
      witnessMintsOf blockMints coin m hs + witnessMintsOf blockMints coin m hs' := by
  simp [witnessMintsOf, List.flatMap_append]

omit [DecidableEq α] in
theorem denomValues_cons (d : δ) (p : PublicCoin α δ) (pubcoins : List (PublicCoin α δ)) :
    denomValues d (p :: pubcoins) =
      if p.denomination = d then p.value :: denomValues d pubcoins else denomValues d pubcoins := by
  by_cases hd : p.denomination = d <;> simp [denomValues, hd]

theorem foldl_addMint (coin : PublicCoin α δ) (nHeightMintAdded nHeight : Nat)
    (pubcoins : List (PublicCoin α δ)) (r : Multiset α × Nat) :
    (pubcoins.foldl (addMint coin nHeightMintAdded nHeight true) r).1 =
      r.1 + ↑((denomValues coin.denomination pubcoins).filter
        fun v => !(decide (nHeight = nHeightMintAdded) && decide (v = coin.value))) := by
  induction pubcoins generalizing r with
  | nil => simp [denomValues]
  | cons p pubcoins ih =>
    rw [List.foldl_cons, ih, denomValues_cons]
    by_cases hd : p.denomination = coin.denomination
    · have hne : ¬p.denomination ≠ coin.denomination := not_not.mpr hd
      by_cases hskip : nHeight = nHeightMintAdded ∧ p.value = coin.value
      · -- the coin itself, in its own block: passed over
        rw [addMint, if_neg hne, if_pos ⟨rfl, hskip⟩, if_pos hd, List.filter_cons_of_neg (by simp [hskip])]
      · have hkeep : (fun v => !(decide (nHeight = nHeightMintAdded) && decide (v = coin.value)))
            p.value = true := by
          rw [Bool.not_eq_true', Bool.and_eq_false_iff, decide_eq_false_iff_not,
            decide_eq_false_iff_not]
          exact not_and_or.mp hskip
        rw [addMint, if_neg hne, if_neg fun h => hskip h.2, if_pos hd, List.filter_cons, if_pos hkeep,
          ← Multiset.cons_coe, Multiset.add_cons, Multiset.cons_add]
    · rw [addMint, if_pos hd, if_neg hd]

theorem addBlockMintsToAccumulator_fst (coin : PublicCoin α δ) (nHeightMintAdded nHeight : Nat)
    (pubcoins : List (PublicCoin α δ)) (acc : Multiset α) :
    (addBlockMintsToAccumulator coin nHeightMintAdded nHeight pubcoins acc true).1 =
      acc + ↑((denomValues coin.denomination pubcoins).filter
        fun v => !(decide (nHeight = nHeightMintAdded) && decide (v = coin.value))) := by
  unfold addBlockMintsToAccumulator
  split
  · -- no pubcoin of the denomination: nothing to add either way
    rename_i hnone
    have hnil : denomValues coin.denomination pubcoins = [] := by
      simp only [List.any_eq_true, decide_eq_true_eq, not_exists, not_and] at hnone
      simp only [denomValues, List.map_eq_nil_iff, List.filter_eq_nil_iff, decide_eq_true_eq]
      exact fun p hp => hnone p hp
    simp [hnil]
  · exact foldl_addMint coin nHeightMintAdded nHeight pubcoins (acc, 0)

/-- `AccumulateRange`'s loop keeps the coin and its mint height, and adds the
witness values of the blocks it passes. -/
theorem foldl_accumulateBlock (blockMints : BlockMints α δ) (hs : List Nat) (w : CoinWitnessData α δ) :
    (hs.foldl (accumulateBlock blockMints) w).coin = w.coin ∧
    (hs.foldl (accumulateBlock blockMints) w).nHeightMintAdded = w.nHeightMintAdded ∧
    (hs.foldl (accumulateBlock blockMints) w).accumulator =
      w.accumulator + witnessMintsOf blockMints w.coin w.nHeightMintAdded hs := by
  induction hs generalizing w with
  | nil => simp [witnessMintsOf]
  | cons h hs ih =>
    obtain ⟨hc, hm, ha⟩ := ih (accumulateBlock blockMints w h)
    refine ⟨hc, hm, ?_⟩
    rw [List.foldl_cons, ha]
    simp only [accumulateBlock, addBlockMintsToAccumulator_fst, add_assoc]
    rw [← List.singleton_append, witnessMintsOf_append]
    simp [witnessMintsOf]

/-- Away from the coin's block a witness takes every value. -/
theorem witnessMintsOf_of_not_mem (blockMints : BlockMints α δ) (coin : PublicCoin α δ) {m : Nat}
    {hs : List Nat} (hm : m ∉ hs) :
    witnessMintsOf blockMints coin m hs = mintsOf blockMints coin.denomination hs := by
  unfold witnessMintsOf mintsOf
  congr 1
  apply List.flatMap_congr
  intro h hh
  have hne : h ≠ m := fun he => hm (he ▸ hh)
  simp [hne]

/-- In the coin's block a witness takes every value but the coin's. -/
theorem witnessMintsOf_self (blockMints : BlockMints α δ) (coin : PublicCoin α δ) (m : Nat) :
    witnessMintsOf blockMints coin m [m] +
        Multiset.replicate ((denomValues coin.denomination (blockMints m)).count coin.value) coin.value =
      mintsOf blockMints coin.denomination [m] := by
  rw [mintsOf_singleton]
  simp only [witnessMintsOf, List.flatMap_cons, List.flatMap_nil, List.append_nil, decide_true,
    Bool.true_and, ← decide_not]
  rw [← Multiset.coe_count, ← Multiset.filter_eq', ← Multiset.filter_coe]
  have := Multiset.filter_add_not (fun v => v = coin.value)
    (↑(denomValues coin.denomination (blockMints m)) : Multiset α)
  rw [add_comm] at this
  convert this using 2

/-- The heights `[a, S)` around a height `m` inside them. -/
theorem range'_eq_around {a m S : Nat} (ham : a ≤ m) (hmS : m < S) :
    List.range' a (S - a) = List.range' a (m - a) ++ m :: List.range' (m + 1) (S - (m + 1)) := by
  have := @List.range'_append a (m - a) (S - m) 1
  have hS : S - m = S - (m + 1) + 1 := by omega
  rw [Nat.one_mul, Nat.add_sub_cancel' ham, hS, List.range'_succ] at this
  rw [this]
  congr 1
  omega

/-- Over blocks `[a, S)` holding the coin's block, a witness misses exactly the copies
of the coin's value in that block. -/
theorem witnessMintsOf_range' (blockMints : BlockMints α δ) (coin : PublicCoin α δ) {a m S : Nat}
    (ham : a ≤ m) (hmS : m < S) :
    witnessMintsOf blockMints coin m (List.range' a (S - a)) +
        Multiset.replicate ((denomValues coin.denomination (blockMints m)).count coin.value) coin.value =
      mintsOf blockMints coin.denomination (List.range' a (S - a)) := by
  have hlo : m ∉ List.range' a (m - a) := by
    simp only [List.mem_range'_1]
    omega
  have hhi : m ∉ List.range' (m + 1) (S - (m + 1)) := by
    simp only [List.mem_range'_1]
    omega
  rw [range'_eq_around ham hmS, ← List.singleton_append, witnessMintsOf_append,
    witnessMintsOf_append, mintsOf_append, mintsOf_append,
    witnessMintsOf_of_not_mem blockMints coin hlo, witnessMintsOf_of_not_mem blockMints coin hhi,
    ← witnessMintsOf_self blockMints coin m]
  abel

/-! ## The witness against the checkpoint -/

omit [DecidableEq α] in
/-- `SetHeightMintAdded` then `GetAccumulatorValue`: the witness starts from the
checkpoint right after the mint, which holds the blocks below `nHeightAccStart`. -/
theorem startAccumulatorWitness_eq (blockMints : BlockMints α δ) (coin : PublicCoin α δ)
    {nChainHeight m : Nat} (hK : m + (10 - m % 10) ≤ nChainHeight) :
    startAccumulatorWitness blockMints nChainHeight coin m =
      { coin, accumulator := mintsOf blockMints coin.denomination (List.range' 0 (m - m % 10)),
        nMintsAdded := 0, nHeightMintAdded := m, nHeightCheckpoint := m + (10 - m % 10),
        nHeightAccStart := m - m % 10, nHeightAccEnd := 0 } := by
  have hend : checkpointEnd (m + (10 - m % 10)) = m - m % 10 := by
    unfold checkpointEnd
    split <;> omega
  rw [startAccumulatorWitness, if_pos ⟨rfl, hK⟩]
  simp only [CoinWitnessData.ofMint, CoinWitnessData.setHeightMintAdded, blockCheckpoint_eq, hend]

omit [DecidableEq α] in
/-- The checkpoint of a block ten above a multiple of 10 holds the blocks below
that multiple. -/
theorem blockCheckpoint_add_ten (blockMints : BlockMints α δ) {S : Nat} (hS : S % 10 = 0)
    (h10 : 10 ≤ S) (d : δ) :
    blockCheckpoint blockMints (S + 10) d = mintsOf blockMints d (List.range' 0 S) := by
  have hend : checkpointEnd (S + 10) = S := by
    unfold checkpointEnd
    split <;> omega
  rw [blockCheckpoint_eq, hend]

/-- The checkpoint's blocks below `nHeightAccStart` and the witness's blocks from
`max(nHeightAccStart, 1)` to `S` cover `[0, S)`, less the copies of the coin in its
block, when the genesis block mints nothing. -/
theorem witness_cover (blockMints : BlockMints α δ) (coin : PublicCoin α δ) {m S : Nat}
    (hgen : denomValues coin.denomination (blockMints 0) = []) (hmS : m < S) :
    mintsOf blockMints coin.denomination (List.range' 0 (m - m % 10)) +
        witnessMintsOf blockMints coin m
          (List.range' (max (m - m % 10) 1) (S - max (m - m % 10) 1)) +
        Multiset.replicate ((denomValues coin.denomination (blockMints m)).count coin.value)
          coin.value =
      mintsOf blockMints coin.denomination (List.range' 0 S) := by
  have hgen' : mintsOf blockMints coin.denomination (List.range' 0 1) = 0 := by
    simp [mintsOf, hgen]
  by_cases hA : 1 ≤ m - m % 10
  · -- the witness starts at `nHeightAccStart`, which the checkpoint ends at
    rw [max_eq_left hA, add_assoc, witnessMintsOf_range' blockMints coin (Nat.sub_le m _) hmS]
    have := mintsOf_range'_split blockMints coin.denomination (Nat.zero_le (m - m % 10))
      (by omega : m - m % 10 ≤ S)
    simpa using this.symm
  · -- a mint in the first ten blocks: the witness starts at height 1, past the genesis block
    have hA0 : m - m % 10 = 0 := by omega
    rw [hA0, max_eq_right (Nat.zero_le 1)]
    have hsplit := mintsOf_range'_split blockMints coin.denomination (Nat.zero_le 1)
      (by omega : 1 ≤ S)
    simp only [Nat.sub_zero, hgen', zero_add] at hsplit
    rw [hsplit]
    simp only [List.range'_zero, mintsOf_nil, zero_add]
    by_cases hm0 : m = 0
    · subst hm0
      rw [hgen, List.count_nil, Multiset.replicate_zero, add_zero,
        witnessMintsOf_of_not_mem blockMints coin (by simp)]
    · exact witnessMintsOf_range' blockMints coin (by omega) hmS

/-- **The witness.** For a coin minted at height `m` and a stop height `S` above it
that the chain is ten blocks past, the witness `GenerateAccumulatorWitness` builds is
the checkpoint at `S + 10` less every copy of the coin's value in block `m`. -/
theorem accumulateRange_startAccumulatorWitness (blockMints : BlockMints α δ)
    (coin : PublicCoin α δ) {nChainHeight m S : Nat}
    (hgen : denomValues coin.denomination (blockMints 0) = []) (hS : S % 10 = 0) (hmS : m < S)
    (htip : S + 10 ≤ nChainHeight) :
    (accumulateRange blockMints nChainHeight (startAccumulatorWitness blockMints nChainHeight coin m)
        (S - 1)).accumulator +
      Multiset.replicate ((denomValues coin.denomination (blockMints m)).count coin.value) coin.value =
      blockCheckpoint blockMints (S + 10) coin.denomination := by
  rw [startAccumulatorWitness_eq blockMints coin (by omega), blockCheckpoint_add_ten blockMints hS
    (by omega)]
  have hend : min (S - 1) nChainHeight + 1 = S := by omega
  rw [accumulateRange]
  dsimp only
  rw [hend, (foldl_accumulateBlock blockMints _ _).2.2]
  dsimp only
  rw [Nat.zero_add]
  exact witness_cover blockMints coin hgen hmS

theorem witnessStopHeight_mod (nChainHeight : Nat) (pindexCheckpoint : Option Nat) :
    witnessStopHeight nChainHeight pindexCheckpoint % 10 = 0 := by
  cases pindexCheckpoint with
  | none =>
    simp only [witnessStopHeight]
    omega
  | some nHeight =>
    simp only [witnessStopHeight]
    omega

/-- The stop height lies ten blocks below the tip, or below the chosen checkpoint
block. -/
theorem witnessStopHeight_add_ten_le {nChainHeight : Nat} {pindexCheckpoint : Option Nat}
    (hpos : 0 < witnessStopHeight nChainHeight pindexCheckpoint)
    (hin : ∀ h, pindexCheckpoint = some h → h ≤ nChainHeight) :
    witnessStopHeight nChainHeight pindexCheckpoint + 10 ≤ nChainHeight := by
  cases pindexCheckpoint with
  | none =>
    simp only [witnessStopHeight] at hpos ⊢
    omega
  | some nHeight =>
    have := hin nHeight rfl
    simp only [witnessStopHeight] at hpos ⊢
    omega

/-- **`GenerateAccumulatorWitness` past its guards.** For a coin minted at height `m` below the
stop height, with the genesis block minting nothing of its denomination, the witness is the one
`AccumulateRange` builds, which with the copies of the coin's value in block `m` is the checkpoint
at `S + 10`; it is returned exactly where `VerifyWitness` passes. -/
theorem generateAccumulatorWitness_eq (blockMints : BlockMints α δ) (coin : PublicCoin α δ)
    {nChainHeight m : Nat} {pindexCheckpoint : Option Nat}
    (hgen : denomValues coin.denomination (blockMints 0) = [])
    (hmS : m < witnessStopHeight nChainHeight pindexCheckpoint)
    (hin : ∀ h, pindexCheckpoint = some h → h ≤ nChainHeight) :
    (accumulateRange blockMints nChainHeight (startAccumulatorWitness blockMints nChainHeight coin m)
        (witnessStopHeight nChainHeight pindexCheckpoint - 1)).accumulator +
      Multiset.replicate ((denomValues coin.denomination (blockMints m)).count coin.value) coin.value =
      blockCheckpoint blockMints (witnessStopHeight nChainHeight pindexCheckpoint + 10)
        coin.denomination ∧
    generateAccumulatorWitness blockMints nChainHeight coin m pindexCheckpoint =
      if coin.value ::ₘ (accumulateRange blockMints nChainHeight
          (startAccumulatorWitness blockMints nChainHeight coin m)
          (witnessStopHeight nChainHeight pindexCheckpoint - 1)).accumulator =
        blockCheckpoint blockMints (witnessStopHeight nChainHeight pindexCheckpoint + 10)
          coin.denomination
      then some (accumulateRange blockMints nChainHeight
        (startAccumulatorWitness blockMints nChainHeight coin m)
        (witnessStopHeight nChainHeight pindexCheckpoint - 1))
      else none := by
  have hS := witnessStopHeight_mod nChainHeight pindexCheckpoint
  have htip := witnessStopHeight_add_ten_le (by omega) hin
  have hstart := startAccumulatorWitness_eq blockMints coin (by omega : m + (10 - m % 10) ≤ nChainHeight)
  -- the loop keeps the coin
  have hcoin : (accumulateRange blockMints nChainHeight (startAccumulatorWitness blockMints nChainHeight coin m)
      (witnessStopHeight nChainHeight pindexCheckpoint - 1)).coin = coin := by
    rw [accumulateRange, (foldl_accumulateBlock blockMints _ _).1, hstart]
  have hend : (startAccumulatorWitness blockMints nChainHeight coin m).nHeightAccEnd = 0 := by
    rw [hstart]
  refine ⟨accumulateRange_startAccumulatorWitness blockMints coin hgen hS hmS htip, ?_⟩
  -- both guards pass
  rw [generateAccumulatorWitness]
  dsimp only
  rw [hend, if_neg (by omega), if_neg (by omega), verifyWitness, hcoin]
  simp only [decide_eq_true_eq]

/-- A fresh witness passes `VerifyWitness` exactly when the coin's block holds its value once:
with `k` copies the witness is the checkpoint less `k` copies, and `VerifyWitness` adds one back. -/
theorem generateAccumulatorWitness_isSome_iff (blockMints : BlockMints α δ) (coin : PublicCoin α δ)
    {nChainHeight m : Nat} {pindexCheckpoint : Option Nat}
    (hgen : denomValues coin.denomination (blockMints 0) = [])
    (hmS : m < witnessStopHeight nChainHeight pindexCheckpoint)
    (hin : ∀ h, pindexCheckpoint = some h → h ≤ nChainHeight) :
    (generateAccumulatorWitness blockMints nChainHeight coin m pindexCheckpoint).isSome ↔
      (denomValues coin.denomination (blockMints m)).count coin.value = 1 := by
  obtain ⟨hacc, hgenw⟩ := generateAccumulatorWitness_eq blockMints coin hgen hmS hin
  have hcond : coin.value ::ₘ (accumulateRange blockMints nChainHeight
      (startAccumulatorWitness blockMints nChainHeight coin m)
      (witnessStopHeight nChainHeight pindexCheckpoint - 1)).accumulator =
      blockCheckpoint blockMints (witnessStopHeight nChainHeight pindexCheckpoint + 10)
        coin.denomination ↔ (denomValues coin.denomination (blockMints m)).count coin.value = 1 := by
    rw [← hacc, ← Multiset.singleton_add, add_comm _ (Multiset.replicate _ _), add_left_inj]
    constructor
    · intro h
      have hcard := congrArg Multiset.card h
      rw [Multiset.card_singleton, Multiset.card_replicate] at hcard
      exact hcard.symm
    · intro h
      rw [h, Multiset.replicate_one]
  rw [hgenw, ← hcond]
  split
  · next h => simp [h]
  · next h => simp [h]

/-- A transaction as the mint checks read it: whether it is the coinbase, and the public coins of
its zerocoin mint outputs, in order. -/
structure MintTx (α δ : Type) where
  fCoinBase : Bool
  mints : List (PublicCoin α δ)
  deriving DecidableEq

/-- `BlockToPubcoinList`: the public coins of the mint outputs of every transaction, the
coinbase's included. -/
def blockToPubcoinList (vtx : List (MintTx α δ)) : List (PublicCoin α δ) :=
  vtx.flatMap MintTx.mints

/-- `CheckTransaction`'s "bad-txns-duplicate-zerocoinmints": no pubcoin value twice in one
transaction. -/
def checkTransactionMints (tx : MintTx α δ) : Bool :=
  decide (tx.mints.map PublicCoin.value).Nodup

/-- The mints of one transaction in `ConnectBlock`'s loop: each passes `ContextualCheckZerocoinMint`
(`isMintInChain`: the zerocoin database holds it from a transaction of the chain) and is not in
`mapMints` yet ("zerocoin mint included within the same block twice"; `mapMints` is ordered by
value), then goes into it. -/
def connectTxMints (isMintInChain : PublicCoin α δ → Bool) :
    List (PublicCoin α δ) → List (PublicCoin α δ) → Option (List (PublicCoin α δ))
  | [], mapMints => some mapMints
  | coin :: mints, mapMints =>
    if isMintInChain coin then none
    else if mapMints.any (fun c => decide (c.value = coin.value)) then none
    else connectTxMints isMintInChain mints (mapMints ++ [coin])

/-- The mint checks of `ConnectBlock`'s loop over the transactions: those of every transaction but
the coinbase, which goes through the coinbase branch, so that its mints are neither checked nor
entered into `mapMints`. -/
def connectBlockMints (isMintInChain : PublicCoin α δ → Bool) :
    List (MintTx α δ) → List (PublicCoin α δ) → Bool
  | [], _ => true
  | tx :: vtx, mapMints =>
    if tx.fCoinBase then connectBlockMints isMintInChain vtx mapMints
    else match connectTxMints isMintInChain tx.mints mapMints with
      | none => false
      | some mapMints => connectBlockMints isMintInChain vtx mapMints

end

/-- A proof-of-work block whose coinbase mints the coin of value `7` that a transaction of the same
block mints too. -/
def coinbaseDuplicateBlock : List (MintTx Nat Unit) := [⟨true, [⟨7, ()⟩]⟩, ⟨false, [⟨7, ()⟩]⟩]

/-- **A coin the block mints twice has no witness.** The block passes `CheckTransaction`'s
duplicate check and `ConnectBlock`'s `mapMints` check, which does not see the coinbase; its pubcoin
list holds the coin twice, and at height 15 of a chain 40 blocks long `GenerateAccumulatorWitness`
fails for it: the witness skips both copies and `VerifyWitness` refuses it. -/
theorem accumulator_witness_duplicate_mint :
    (∀ tx ∈ coinbaseDuplicateBlock, checkTransactionMints tx = true) ∧
      connectBlockMints (fun _ => false) coinbaseDuplicateBlock [] = true ∧
      blockToPubcoinList coinbaseDuplicateBlock = [⟨7, ()⟩, ⟨7, ()⟩] ∧
      generateAccumulatorWitness (fun h => if h = 15 then blockToPubcoinList coinbaseDuplicateBlock else [])
        40 ⟨7, ()⟩ 15 none = none := by
  refine ⟨by decide, by decide, by decide, ?_⟩
  -- the block holds the value twice, so the witness fails to verify
  have hiff : (generateAccumulatorWitness
      (fun h => if h = 15 then blockToPubcoinList coinbaseDuplicateBlock else []) 40
      (⟨7, ()⟩ : PublicCoin Nat Unit) 15 none).isSome ↔
      (denomValues () (blockToPubcoinList coinbaseDuplicateBlock)).count 7 = 1 :=
    generateAccumulatorWitness_isSome_iff _ _ (by decide) (by decide) (fun _ h => nomatch h)
  have htwo : (denomValues () (blockToPubcoinList coinbaseDuplicateBlock)).count 7 = 2 := by decide
  rw [htwo] at hiff
  exact Option.not_isSome_iff_eq_none.mp fun h => absurd (hiff.mp h) (by decide)

end Veil.Zerocoin
