import Veil.Primitives.Transaction

/-!
# The header of a range proof (`secp256k1_rangeproof_info`, `GetRangeProofInfo`)

`ConnectBlock` takes the largest value a CT or RingCT output of a coinbase may hold from the
header of its range proof, which it reads without verifying the proof: `GetRangeProofInfo`
calls `secp256k1_rangeproof_info`, which runs `secp256k1_rangeproof_getheader_impl` from offset
`0`.  The first byte holds the two flags `has_nz_range` (64) and `has_min` (32) and the exponent,
the next one (with a range) the mantissa less one, and the eight after them (with a minimum)
the minimum, big-endian.  A proof shorter than 65 bytes or with the top bit set, an exponent
above 18, a mantissa above 64, a maximum that would pass `UINT64_MAX` when scaled or when the
minimum is added, is refused.  `GetRangeProofInfo` writes the minimum and the maximum through
`(uint64_t*)` casts into `CAmount`s.

Main result:

    the maximum is the minimum plus (2 ^ mantissa - 1) * 10 ^ exp, with no wrap
                                                  (rangeproofGetheader_maxValue)
-/

namespace Veil

/-- `UINT64_MAX`. -/
def UINT64_MAX : UInt64 := 0xFFFFFFFFFFFFFFFF

/-- What the header gives: `*exp`, `*mantissa`, `*scale`, `*min_value` and `*max_value`. -/
structure RangeProofHeader where
  exp : Int
  mantissa : Nat
  scale : UInt64
  minValue : UInt64
  maxValue : UInt64
  deriving DecidableEq, Repr

/-- The loop `for (i = 0; i < *exp; i++)`: the maximum and the scale times ten, refused where the
maximum is above `UINT64_MAX / 10`. -/
def scaleLoop : Nat → UInt64 → UInt64 → Option (UInt64 × UInt64)
  | 0, maxValue, scale => some (maxValue, scale)
  | i + 1, maxValue, scale =>
    if maxValue > UINT64_MAX / 10 then none
    else scaleLoop i (maxValue * 10) (scale * 10)

/-- The minimum: with `has_min`, the eight bytes at the offset read big-endian. -/
def readMinValue (hasMin : Bool) (proof : List UInt8) : Option UInt64 :=
  if !hasMin then some 0
  else if proof.length < 8 then none
  else some ((proof.take 8).foldl (fun v b => (v <<< 8) ||| b.toUInt64) 0)

/-- The exponent, the mantissa and the unscaled maximum the first bytes give, with the bytes
after them. -/
def readRange (b0 : UInt8) (proof : List UInt8) : Option (Int × Nat × UInt64 × List UInt8) :=
  if (b0 &&& 64) != 0 then
    let exp := (b0 &&& 31).toNat
    if exp > 18 then none
    else match proof with
      | [] => none
      | b1 :: proof =>
        let mantissa := b1.toNat + 1
        if mantissa > 64 then none
        else some (exp, mantissa, UINT64_MAX >>> (64 - mantissa).toUInt64, proof)
  else some (-1, 0, 0, proof)

/-- `secp256k1_rangeproof_getheader_impl` at offset `0`, `none` where it returns `0`. -/
def rangeproofGetheader (proof : List UInt8) : Option RangeProofHeader :=
  match proof with
  | [] => none
  | b0 :: rest =>
    if proof.length < 65 || (b0 &&& 128) != 0 then none
    else match readRange b0 rest with
      | none => none
      | some (exp, mantissa, maxValue, rest) =>
        match scaleLoop exp.toNat maxValue 1 with
        | none => none
        | some (maxValue, scale) =>
          match readMinValue ((b0 &&& 32) != 0) rest with
          | none => none
          | some minValue =>
            if maxValue > UINT64_MAX - minValue then none
            else some ⟨exp, mantissa, scale, minValue, maxValue + minValue⟩

/-- What `GetRangeProofInfo` hands back through its references. -/
structure RangeProofInfo where
  rexp : Int
  rmantissa : Int
  minValue : CAmount
  maxValue : CAmount
  deriving DecidableEq, Repr

/-- `GetRangeProofInfo`, `none` where it returns non-zero. -/
def getRangeProofInfo (vRangeproof : List UInt8) : Option RangeProofInfo :=
  (rangeproofGetheader vRangeproof).map fun h =>
    ⟨h.exp, h.mantissa, h.minValue.toInt64, h.maxValue.toInt64⟩

/-! ## The maximum -/

/-- The scaling loop multiplies by ten without wrapping. -/
theorem scaleLoop_maxValue : ∀ (i : Nat) {maxValue scale maxValue' scale' : UInt64},
    scaleLoop i maxValue scale = some (maxValue', scale') →
      maxValue'.toNat = maxValue.toNat * 10 ^ i
  | 0, _, _, _, _, h => by
    simp only [scaleLoop, Option.some.injEq, Prod.mk.injEq] at h
    rw [← h.1, pow_zero, Nat.mul_one]
  | i + 1, maxValue, scale, _, _, h => by
    unfold scaleLoop at h
    split at h
    · cases h
    · next hle =>
      -- below `UINT64_MAX / 10` the product is the product of the numbers
      have hfit : maxValue.toNat * 10 < 2 ^ 64 := by
        have : maxValue.toNat ≤ (2 ^ 64 - 1) / 10 := by
          simpa [UINT64_MAX, UInt64.le_iff_toNat_le] using hle
        omega
      rw [scaleLoop_maxValue i h, UInt64.toNat_mul, show (10 : UInt64).toNat = 10 from rfl,
        Nat.mod_eq_of_lt hfit, pow_succ]
      ring

/-- The unscaled maximum of a mantissa of `m` bits is `2 ^ m - 1`. -/
theorem uint64Max_shiftRight (m : Nat) (h1 : 1 ≤ m) (h64 : m ≤ 64) :
    (UINT64_MAX >>> (64 - m).toUInt64).toNat = 2 ^ m - 1 := by
  obtain ⟨k, rfl⟩ : ∃ k : Fin 64, m = k.val + 1 := ⟨⟨m - 1, by omega⟩, by simp; omega⟩
  revert k
  decide

/-- The first bytes give an unscaled maximum of `2 ^ mantissa - 1`. -/
theorem readRange_maxValue {b0 : UInt8} {proof rest : List UInt8} {exp : Int} {mantissa : Nat}
    {m0 : UInt64} (h : readRange b0 proof = some (exp, mantissa, m0, rest)) :
    m0.toNat = 2 ^ mantissa - 1 := by
  unfold readRange at h
  by_cases hnz : (b0 &&& 64 != 0) = true
  · simp only [if_pos hnz] at h
    by_cases he : (b0 &&& 31).toNat > 18
    · rw [if_pos he] at h
      cases h
    rw [if_neg he] at h
    cases proof with
    | nil => cases h
    | cons b1 proof =>
      simp only at h
      by_cases hm : b1.toNat + 1 > 64
      · rw [if_pos hm] at h
        cases h
      · simp only [if_neg hm, Option.some.injEq, Prod.mk.injEq] at h
        obtain ⟨-, rfl, rfl, -⟩ := h
        exact uint64Max_shiftRight _ (by omega) (by omega)
  · simp only [hnz, Bool.false_eq_true, if_false, Option.some.injEq, Prod.mk.injEq] at h
    obtain ⟨-, rfl, rfl, -⟩ := h
    rfl

/-- **The maximum of a header.** Where the header is read, the maximum it reports is the
minimum plus `(2 ^ mantissa - 1) * 10 ^ exp` (without a range, the minimum alone), as numbers. -/
theorem rangeproofGetheader_maxValue {proof : List UInt8} {h : RangeProofHeader}
    (hh : rangeproofGetheader proof = some h) :
    h.maxValue.toNat = h.minValue.toNat + (2 ^ h.mantissa - 1) * 10 ^ h.exp.toNat := by
  match proof, hh with
  | b0 :: rest, hh =>
    simp only [rangeproofGetheader] at hh
    split at hh
    · cases hh
    -- the range, the scaling and the minimum, each read in turn
    cases hr : readRange b0 rest with
    | none => simp [hr] at hh
    | some r =>
      obtain ⟨exp, mantissa, m0, rest'⟩ := r
      cases hs : scaleLoop exp.toNat m0 1 with
      | none => simp [hr, hs] at hh
      | some sc =>
        obtain ⟨maxValue, scale⟩ := sc
        cases hm : readMinValue ((b0 &&& 32) != 0) rest' with
        | none => simp [hr, hs, hm] at hh
        | some minValue =>
          simp only [hr, hs, hm] at hh
          split at hh
          · cases hh
          · next hfit =>
            cases hh
            -- the final sum stays below `2 ^ 64`
            have hno : maxValue.toNat + minValue.toNat < 2 ^ 64 := by
              have hmax : UINT64_MAX.toNat = 2 ^ 64 - 1 := rfl
              have hmin : minValue ≤ UINT64_MAX := by
                rw [UInt64.le_iff_toNat_le, hmax]
                have := minValue.toNat_lt
                omega
              have hle : maxValue ≤ UINT64_MAX - minValue := UInt64.not_lt.mp hfit
              rw [UInt64.le_iff_toNat_le, UInt64.toNat_sub_of_le _ _ hmin, hmax] at hle
              have := minValue.toNat_lt
              omega
            simp only
            rw [UInt64.toNat_add, Nat.mod_eq_of_lt hno, scaleLoop_maxValue _ hs, readRange_maxValue hr]
            ring

/-- A header with a range of `4` bits and the exponent `1`, and no minimum: the maximum is
`15 * 10 = 150`. -/
theorem rangeproofGetheader_maxValue_150 :
    rangeproofGetheader (0x41 :: 3 :: List.replicate 63 0) = some ⟨1, 4, 10, 0, 150⟩ ∧
      (150 : UInt64).toNat = (0 : UInt64).toNat + (2 ^ 4 - 1) * 10 ^ (1 : Int).toNat :=
  have hh : rangeproofGetheader (0x41 :: 3 :: List.replicate 63 0) = some ⟨1, 4, 10, 0, 150⟩ := by
    decide
  ⟨hh, rangeproofGetheader_maxValue hh⟩

end Veil
