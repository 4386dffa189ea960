import Veil.Chainparams

/-!
# Difficulty: `arith_uint256` compact targets and `DarkGravityWave` (`pow.cpp`)

`arith_uint256` is `BitVec 256`: `operator*=` (by a 32-bit word or by another
number) keeps the low 256 bits of the product, `operator/=` is the floor quotient.
`SetCompact` and `GetCompact` convert between a number and its 32-bit compact form
(a byte size, a sign bit and a 23-bit mantissa).

`DarkGravityWave` averages the targets of the last `nDgwPastBlocks` blocks of the
block's proof type by the running recurrence `avg ← (avg · n + target) / (n + 1)`,
scales the average by the clamped timespan and caps it at `powLimit`.
`darkGravityWaveExact` is the same computation in unbounded arithmetic: the value
the code is meant to compute.

Main results:

    every target ≤ M, params.DgwFits M (M · nDgwPastBlocks, M · 3 · T₀ < 2^256) →
      darkGravityWave = darkGravityWaveExact              (darkGravityWave_eq_exact)
    testnet: every target ≤ powLimit → darkGravityWave = darkGravityWaveExact
                                                          (darkGravityWave_test_eq_exact)
    mainnet: thirty proof-of-work blocks at the compact `0x207fffff` make the sums
      wrap, and the two differ                            (darkGravityWave_main_wraps)
-/

namespace Veil

/-- `arith_uint256`. -/
abbrev ArithUint256 := BitVec 256

/-- The highest set bit's position plus one, scanning down from bit `k - 1`
(`base_uint::bits` scans the limbs from the top). -/
def bitsBelow : Nat → Nat → Nat
  | 0, _ => 0
  | k + 1, x => if 2 ^ k ≤ x then k + 1 else bitsBelow k x

/-- `base_uint::bits`. -/
def ArithUint256.bits (x : ArithUint256) : Nat := bitsBelow 256 x.toNat

/-- `arith_uint256::SetCompact`: the number, and the `pfNegative` and `pfOverflow`
flags. -/
def setCompact (nCompact : UInt32) : ArithUint256 × Bool × Bool :=
  let nSize := (nCompact >>> 24).toNat
  -- `nWord >>= 8 * (3 - nSize)` shifts the word in place, before the flags read it
  let nWord := if nSize ≤ 3 then (nCompact &&& 0x007fffff).toNat >>> (8 * (3 - nSize))
    else (nCompact &&& 0x007fffff).toNat
  let value : ArithUint256 :=
    if nSize ≤ 3 then BitVec.ofNat 256 nWord
    else BitVec.ofNat 256 nWord <<< (8 * (nSize - 3))
  let fNegative := nWord ≠ 0 ∧ (nCompact &&& 0x00800000) ≠ 0
  let fOverflow := nWord ≠ 0 ∧ (nSize > 34 ∨ (nWord > 0xff ∧ nSize > 33) ∨ (nWord > 0xffff ∧ nSize > 32))
  (value, decide fNegative, decide fOverflow)

/-- The sign bit of a one-byte compact whose byte is shifted out does not make it negative. -/
example : setCompact 0x01803456 = (0, false, false) := by decide

/-- `arith_uint256::GetCompact` (with `fNegative = false`). -/
def getCompact (x : ArithUint256) : UInt32 :=
  let nSize := (x.bits + 7) / 8
  -- `GetLow64()` of the shifted number, stored in a `uint32_t`
  let nCompact := if nSize ≤ 3 then (x.toNat % 2 ^ 64) <<< (8 * (3 - nSize)) % 2 ^ 32
    else (x >>> (8 * (nSize - 3))).toNat % 2 ^ 32
  -- "if it is already set, divide the mantissa by 256 and increase the exponent"
  let (nCompact, nSize) := if nCompact &&& 0x00800000 ≠ 0 then (nCompact >>> 8, nSize + 1)
    else (nCompact, nSize)
  UInt32.ofNat (nCompact ||| (nSize <<< 24))

/-- The fields of a `CBlockIndex` that `DarkGravityWave` reads. -/
structure CBlockIndexPow where
  fProofOfStake : Bool
  nBits : UInt32
  nTime : UInt32
  deriving DecidableEq, Repr

/-- The averaging loop of `DarkGravityWave` over `pindex` and its ancestors: `none`
when the chain runs out ("return pow limit"), else the average and the block the
loop stopped at. -/
def dgwAverage (fProofOfStake : Bool) (nDgwPastBlocks : Nat) :
    List CBlockIndexPow → Nat → ArithUint256 → Option (ArithUint256 × CBlockIndexPow)
  | [], _, _ => none
  | pindex :: pprev, nCountBlocks, bnPastTargetAvg =>
    -- "Only consider PoW or PoS blocks but not both"
    if pindex.fProofOfStake ≠ fProofOfStake then
      dgwAverage fProofOfStake nDgwPastBlocks pprev nCountBlocks bnPastTargetAvg
    else
      let bnTarget := (setCompact pindex.nBits).1
      let bnPastTargetAvg := (bnPastTargetAvg * BitVec.ofNat 256 nCountBlocks + bnTarget) /
        BitVec.ofNat 256 (nCountBlocks + 1)
      if nCountBlocks + 1 ≠ nDgwPastBlocks then
        dgwAverage fProofOfStake nDgwPastBlocks pprev (nCountBlocks + 1) bnPastTargetAvg
      else some (bnPastTargetAvg, pindex)

/-- The timespan clamp: at least a third of the target timespan, at most three times it. -/
def clampTimespan (nActualTimespan nTargetTimespan : Int) : Int :=
  let t := if nActualTimespan < nTargetTimespan / 3 then nTargetTimespan / 3 else nActualTimespan
  if t > nTargetTimespan * 3 then nTargetTimespan * 3 else t

/-- `DarkGravityWave` for the block after `pindexLast`, whose ancestors are
`ancestors` (parent first).  `pindexLastMatchingProof` is always reset to
`pindexLast`, so the timespan runs from the last block. -/
def darkGravityWave (params : ConsensusParams) (pindexLast : CBlockIndexPow)
    (ancestors : List CBlockIndexPow) (fProofOfStake : Bool) : UInt32 :=
  let bnPowLimit : ArithUint256 := BitVec.ofNat 256 params.powLimit
  match dgwAverage fProofOfStake params.nDgwPastBlocks (pindexLast :: ancestors) 0 0 with
  | none => getCompact bnPowLimit
  | some (bnPastTargetAvg, pindex) =>
    let nTargetTimespan : Int := params.nDgwPastBlocks * params.nPowTargetSpacing
    let nActualTimespan := clampTimespan ((pindexLast.nTime.toNat : Int) - pindex.nTime.toNat)
      nTargetTimespan
    -- `bnNew *= nActualTimespan` goes through `operator*=(uint32_t)`
    let bnNew := bnPastTargetAvg * BitVec.ofNat 256 (nActualTimespan.toNat % 2 ^ 32)
    let bnNew := bnNew / BitVec.ofNat 256 nTargetTimespan.toNat
    let bnNew := if bnNew > bnPowLimit then bnPowLimit else bnNew
    getCompact bnNew

/-! ## The intended computation, without wrapping -/

/-- The averaging recurrence in unbounded arithmetic. -/
def dgwAverageExact (fProofOfStake : Bool) (nDgwPastBlocks : Nat) :
    List CBlockIndexPow → Nat → Nat → Option (Nat × CBlockIndexPow)
  | [], _, _ => none
  | pindex :: pprev, nCountBlocks, avg =>
    if pindex.fProofOfStake ≠ fProofOfStake then
      dgwAverageExact fProofOfStake nDgwPastBlocks pprev nCountBlocks avg
    else
      let avg := (avg * nCountBlocks + (setCompact pindex.nBits).1.toNat) / (nCountBlocks + 1)
      if nCountBlocks + 1 ≠ nDgwPastBlocks then
        dgwAverageExact fProofOfStake nDgwPastBlocks pprev (nCountBlocks + 1) avg
      else some (avg, pindex)

/-- `GetCompact(min(powLimit, ⌊A · clamp(T) / T₀⌋))` with `A` the exact running
average. -/
def darkGravityWaveExact (params : ConsensusParams) (pindexLast : CBlockIndexPow)
    (ancestors : List CBlockIndexPow) (fProofOfStake : Bool) : UInt32 :=
  match dgwAverageExact fProofOfStake params.nDgwPastBlocks (pindexLast :: ancestors) 0 0 with
  | none => getCompact (BitVec.ofNat 256 params.powLimit)
  | some (avg, pindex) =>
    let nTargetTimespan : Int := params.nDgwPastBlocks * params.nPowTargetSpacing
    let nActualTimespan := clampTimespan ((pindexLast.nTime.toNat : Int) - pindex.nTime.toNat)
      nTargetTimespan
    getCompact (BitVec.ofNat 256
      (min params.powLimit (avg * nActualTimespan.toNat / nTargetTimespan.toNat)))

/-! ## Without wrapping the two agree -/

section

variable (fProofOfStake : Bool) (nDgwPastBlocks M : Nat)

/-- One step of the average: below the bound the wrapped sum is the exact one, and
the average stays below the bound. -/
theorem avg_step_toNat {a bnTarget : ArithUint256} {n : Nat} (ht : bnTarget.toNat ≤ M)
    (ha : a.toNat ≤ M) (hbound : M * (n + 1) < 2 ^ 256) (hn : n + 1 < 2 ^ 256) :
    ((a * BitVec.ofNat 256 n + bnTarget) / BitVec.ofNat 256 (n + 1)).toNat =
      (a.toNat * n + bnTarget.toNat) / (n + 1) ∧ (a.toNat * n + bnTarget.toNat) / (n + 1) ≤ M := by
  have hmul : a.toNat * n ≤ M * n := Nat.mul_le_mul_right n ha
  have hsplit : M * (n + 1) = M * n + M := by ring
  have hsum : a.toNat * n + bnTarget.toNat ≤ M * (n + 1) := by omega
  refine ⟨?_, Nat.div_le_of_le_mul (by rw [Nat.mul_comm (n + 1)]; exact hsum)⟩
  rw [BitVec.toNat_udiv, BitVec.toNat_add, BitVec.toNat_mul, BitVec.toNat_ofNat, BitVec.toNat_ofNat,
    Nat.mod_eq_of_lt (by omega : n < 2 ^ 256), Nat.mod_eq_of_lt hn,
    Nat.mod_eq_of_lt (by omega : a.toNat * n < 2 ^ 256), Nat.mod_eq_of_lt (by omega)]

/-- **The loop.** While every target of the block's proof type is at most `M` and
`M · nDgwPastBlocks` fits in 256 bits, the wrapped average is the exact one, and at
most `M`. -/
theorem dgwAverage_eq_exact (hM : M * nDgwPastBlocks < 2 ^ 256) (hN : nDgwPastBlocks < 2 ^ 256)
    (chain : List CBlockIndexPow)
    (ht : ∀ b ∈ chain, b.fProofOfStake = fProofOfStake → (setCompact b.nBits).1.toNat ≤ M)
    (n : Nat) (a : ArithUint256) (hn : n < nDgwPastBlocks) (ha : a.toNat ≤ M) :
    (dgwAverage fProofOfStake nDgwPastBlocks chain n a).map (fun p => (p.1.toNat, p.2)) =
      dgwAverageExact fProofOfStake nDgwPastBlocks chain n a.toNat ∧
    ∀ p ∈ dgwAverage fProofOfStake nDgwPastBlocks chain n a, p.1.toNat ≤ M := by
  induction chain generalizing n a with
  | nil => simp [dgwAverage, dgwAverageExact]
  | cons pindex pprev ih =>
    have htail : ∀ b ∈ pprev, b.fProofOfStake = fProofOfStake → (setCompact b.nBits).1.toNat ≤ M :=
      fun b hb => ht b (List.mem_cons_of_mem _ hb)
    by_cases hproof : pindex.fProofOfStake ≠ fProofOfStake
    · -- a block of the other proof type is passed over
      rw [dgwAverage, dgwAverageExact, if_pos hproof, if_pos hproof]
      exact ih htail n a hn ha
    · -- a matching block: one step of the average
      have hmatch : pindex.fProofOfStake = fProofOfStake := not_not.mp hproof
      have hbound : M * (n + 1) < 2 ^ 256 :=
        lt_of_le_of_lt (Nat.mul_le_mul_left M (by omega)) hM
      obtain ⟨hstep, hle⟩ := avg_step_toNat M (ht pindex List.mem_cons_self hmatch) ha hbound
        (by omega)
      rw [dgwAverage, dgwAverageExact, if_neg hproof, if_neg hproof]
      dsimp only
      by_cases hlast : n + 1 ≠ nDgwPastBlocks
      · rw [if_pos hlast, if_pos hlast, ← hstep]
        exact ih htail (n + 1) _ (by omega) (hstep ▸ hle)
      · rw [if_neg hlast, if_neg hlast, ← hstep]
        refine ⟨rfl, ?_⟩
        intro p hp
        rw [Option.mem_some_iff] at hp
        rw [← hp]
        exact hstep ▸ hle

theorem clampTimespan_le (nActualTimespan nTargetTimespan : Int) :
    clampTimespan nActualTimespan nTargetTimespan ≤ nTargetTimespan * 3 := by
  unfold clampTimespan
  dsimp only
  split_ifs <;> omega

/-- The retarget `bnNew *= nActualTimespan; bnNew /= nTargetTimespan` without wrapping. -/
theorem retarget_toNat {avg : ArithUint256} {c T : Nat} (hc : c < 2 ^ 32)
    (hprod : avg.toNat * c < 2 ^ 256) (hT : T < 2 ^ 256) :
    ((avg * BitVec.ofNat 256 (c % 2 ^ 32)) / BitVec.ofNat 256 T).toNat = avg.toNat * c / T := by
  rw [Nat.mod_eq_of_lt hc, BitVec.toNat_udiv, BitVec.toNat_mul, BitVec.toNat_ofNat,
    BitVec.toNat_ofNat, Nat.mod_eq_of_lt (by omega : c < 2 ^ 256), Nat.mod_eq_of_lt hprod,
    Nat.mod_eq_of_lt hT]

/-- The cap at `bnPowLimit` is a minimum. -/
theorem cap_eq_ofNat_min {p : Nat} (hp : p < 2 ^ 256) (x : ArithUint256) :
    (if x > BitVec.ofNat 256 p then BitVec.ofNat 256 p else x) = BitVec.ofNat 256 (min p x.toNat) := by
  apply BitVec.eq_of_toNat_eq
  have hmin : min p x.toNat < 2 ^ 256 := lt_of_le_of_lt (Nat.min_le_left _ _) hp
  rw [BitVec.toNat_ofNat, Nat.mod_eq_of_lt hmin]
  split_ifs with h
  · rw [gt_iff_lt, BitVec.lt_def, BitVec.toNat_ofNat, Nat.mod_eq_of_lt hp] at h
    rw [BitVec.toNat_ofNat, Nat.mod_eq_of_lt hp]
    omega
  · rw [gt_iff_lt, BitVec.lt_def, BitVec.toNat_ofNat, Nat.mod_eq_of_lt hp] at h
    omega

end

/-- The sizes under which no step of `DarkGravityWave` wraps, for targets at most `M`:
the running sums `M · nDgwPastBlocks`, the clamped timespan as a `uint32_t`, and the
product of the average with three target timespans. -/
structure ConsensusParams.DgwFits (params : ConsensusParams) (M : Nat) : Prop where
  past_pos : 0 < params.nDgwPastBlocks
  past_lt : params.nDgwPastBlocks < 2 ^ 256
  sum_lt : M * params.nDgwPastBlocks < 2 ^ 256
  timespan_lt : 3 * (params.nDgwPastBlocks * params.nPowTargetSpacing) < 2 ^ 32
  retarget_lt : M * (3 * (params.nDgwPastBlocks * params.nPowTargetSpacing)) < 2 ^ 256
  powLimit_lt : params.powLimit < 2 ^ 256

/-- **No wrapping, no difference.** Where the parameters fit, `DarkGravityWave` is the
exact computation. -/
theorem darkGravityWave_eq_exact (params : ConsensusParams) {M : Nat} (hfits : params.DgwFits M)
    (pindexLast : CBlockIndexPow) (ancestors : List CBlockIndexPow) (fProofOfStake : Bool)
    (ht : ∀ b ∈ pindexLast :: ancestors, b.fProofOfStake = fProofOfStake →
      (setCompact b.nBits).1.toNat ≤ M) :
    darkGravityWave params pindexLast ancestors fProofOfStake =
      darkGravityWaveExact params pindexLast ancestors fProofOfStake := by
  obtain ⟨hmap, hle⟩ := dgwAverage_eq_exact fProofOfStake params.nDgwPastBlocks M hfits.sum_lt
    hfits.past_lt _ ht 0 0 hfits.past_pos (by simp)
  have h0 : (0 : ArithUint256).toNat = 0 := rfl
  rw [h0] at hmap
  unfold darkGravityWave darkGravityWaveExact
  rw [← hmap]
  cases hres : dgwAverage fProofOfStake params.nDgwPastBlocks (pindexLast :: ancestors) 0 0 with
  | none => rfl
  | some p =>
    obtain ⟨avg, pindex⟩ := p
    have havg : avg.toNat ≤ M := hle _ (by rw [hres]; rfl)
    dsimp only [Option.map_some]
    have hT0 : ((params.nDgwPastBlocks : Int) * params.nPowTargetSpacing).toNat =
        params.nDgwPastBlocks * params.nPowTargetSpacing := by
      rw [← Nat.cast_mul, Int.toNat_natCast]
    -- the clamped timespan lies in `[0, 3 · T₀]`
    have hclamp := clampTimespan_le ((pindexLast.nTime.toNat : Int) - pindex.nTime.toNat)
      ((params.nDgwPastBlocks : Int) * params.nPowTargetSpacing)
    have hc : (clampTimespan ((pindexLast.nTime.toNat : Int) - pindex.nTime.toNat)
        ((params.nDgwPastBlocks : Int) * params.nPowTargetSpacing)).toNat ≤
          3 * (params.nDgwPastBlocks * params.nPowTargetSpacing) := by
      rw [← hT0]
      omega
    have hprod := Nat.mul_le_mul havg hc
    rw [cap_eq_ofNat_min hfits.powLimit_lt, retarget_toNat (by have := hfits.timespan_lt; omega)
      (by have := hfits.retarget_lt; omega) (by rw [hT0]; have := hfits.timespan_lt; omega), hT0]

theorem testNet_dgwFits : testNetParams.consensus.DgwFits powLimitTest :=
  ⟨by decide, by decide, by decide, by decide, by decide, by decide⟩

/-- On testnet (`powLimit = 2^240 - 1`, sixty blocks) targets within the pow limit
never make `DarkGravityWave` wrap. -/
theorem darkGravityWave_test_eq_exact (pindexLast : CBlockIndexPow)
    (ancestors : List CBlockIndexPow) (fProofOfStake : Bool)
    (ht : ∀ b ∈ pindexLast :: ancestors, b.fProofOfStake = fProofOfStake →
      (setCompact b.nBits).1.toNat ≤ powLimitTest) :
    darkGravityWave testNetParams.consensus pindexLast ancestors fProofOfStake =
      darkGravityWaveExact testNetParams.consensus pindexLast ancestors fProofOfStake :=
  darkGravityWave_eq_exact _ testNet_dgwFits pindexLast ancestors fProofOfStake ht

/-- The first testnet block after genesis, at the compact `0x1e0fffff`. -/
theorem darkGravityWave_test_eq_exact_oneBlock :
    (setCompact 0x1e0fffff).1.toNat ≤ powLimitTest ∧
    darkGravityWave testNetParams.consensus ⟨false, 0x1e0fffff, 600⟩ [] false =
      darkGravityWaveExact testNetParams.consensus ⟨false, 0x1e0fffff, 600⟩ [] false := by
  have hfit : (setCompact 0x1e0fffff).1.toNat ≤ powLimitTest := by decide
  refine ⟨hfit, darkGravityWave_test_eq_exact _ [] false fun b hb _ => ?_⟩
  rw [List.mem_singleton.mp hb]
  exact hfit

set_option maxRecDepth 20000 in
/-- On mainnet (`powLimit = 2^255 - 1`, thirty blocks) thirty proof-of-work blocks at
the compact `0x207fffff`, a valid target below the pow limit, spaced two minutes
apart: from the third block on `bnPastTargetAvg * nCountBlocks + bnTarget` passes
`2^256`, and `DarkGravityWave` returns `0x1f12335f` where the exact average gives
`0x207bbbba`. -/
theorem darkGravityWave_main_wraps :
    setCompact 0x207fffff = (BitVec.ofNat 256 ((2 ^ 23 - 1) * 2 ^ 232), false, false) ∧
    (2 ^ 23 - 1) * 2 ^ 232 ≤ powLimitMain ∧
    darkGravityWave mainParams.consensus ⟨false, 0x207fffff, 3600⟩
      ((List.range 29).map fun i => ⟨false, 0x207fffff, UInt32.ofNat (3600 - 120 * (i + 1))⟩)
      false = 0x1f12335f ∧
    darkGravityWaveExact mainParams.consensus ⟨false, 0x207fffff, 3600⟩
      ((List.range 29).map fun i => ⟨false, 0x207fffff, UInt32.ofNat (3600 - 120 * (i + 1))⟩)
      false = 0x207bbbba :=
  ⟨by decide, by decide, by decide, by decide⟩

end Veil
