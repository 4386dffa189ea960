import Veil.Pow

/-!
# The compact round trip (`arith_uint256.cpp`)

`GetCompact(x)` keeps the top bits of `x`: a byte size `e` and a 23-bit mantissa holding
the bits of `x` from position `8 · (e - 3)` on.  `e` is `⌈bits(x) / 8⌉`, bumped by one when
the mantissa's `0x00800000` bit would be set, which is when `bits(x)` is a positive
multiple of 8 (`compactExponent`).  `SetCompact` of the result is `x` with the bits below
`8 · (e - 3)` cleared, neither negative nor overflowing, and `GetCompact` of that is the
same compact again, with or without the sign.

    getCompact x = mantissa + e · 2 ^ 24                         (getCompact_eq)
    setCompact (getCompact x) = (x with its low 8 · (e - 3) bits cleared, false, false)
                                                                 (setCompact_getCompact)
-/

namespace Veil

/-- `arith_uint256::GetCompact(fNegative)`: the sign bit is set when asked for and the
mantissa is not zero. -/
def getCompactWith (x : ArithUint256) (fNegative : Bool) : UInt32 :=
  let nCompact := getCompact x
  nCompact ||| (if fNegative && (nCompact &&& 0x007fffff ≠ 0) then 0x00800000 else 0)

/-- The exponent byte of the compact form of `x`: zero for zero, else `bits(x) / 8 + 1`, which
is `⌈bits(x) / 8⌉` when `bits(x)` is not a multiple of 8 and one more when it is. -/
def compactExponent (x : ArithUint256) : Nat := if x.bits = 0 then 0 else x.bits / 8 + 1

/-- The mantissa of the compact form: the bits of `x` from position `8 · (e - 3)` on. -/
def compactMantissa (x : ArithUint256) : Nat := x.toNat * 2 ^ 24 / 2 ^ (8 * compactExponent x)

/-! ## Bit counts -/

theorem bitsBelow_eq_size : ∀ (k x : Nat), x < 2 ^ k → bitsBelow k x = Nat.size x
  | 0, x, h => by
    have : x = 0 := by simpa using h
    subst this
    simp [bitsBelow]
  | k + 1, x, h => by
    rw [bitsBelow]
    split
    · next hk =>
      have h1 := Nat.size_le.mpr h
      have h2 := Nat.lt_size.mpr hk
      omega
    · next hk => exact bitsBelow_eq_size k x (by omega)

theorem bits_eq_size (x : ArithUint256) : x.bits = Nat.size x.toNat :=
  bitsBelow_eq_size 256 _ x.isLt

theorem lt_two_pow_bits (x : ArithUint256) : x.toNat < 2 ^ x.bits := by
  rw [bits_eq_size]; exact Nat.lt_size_self _

theorem two_pow_bits_le {x : ArithUint256} (h : x.bits ≠ 0) : 2 ^ (x.bits - 1) ≤ x.toNat := by
  rw [bits_eq_size] at h ⊢
  exact Nat.lt_size.mp (by omega)

theorem bits_le (x : ArithUint256) : x.bits ≤ 256 := by
  rw [bits_eq_size]; exact Nat.size_le.mpr x.isLt

/-! ## The shifted value `X · 2 ^ 24 / 2 ^ (8 k)` -/

section
variable {X k : Nat}

theorem mul_div_two_pow_of_le (hk : k ≤ 3) : X * 2 ^ 24 / 2 ^ (8 * k) = X * 2 ^ (8 * (3 - k)) := by
  have : (2 : Nat) ^ 24 = 2 ^ (8 * (3 - k)) * 2 ^ (8 * k) := by rw [← pow_add]; congr 1; omega
  rw [this, ← Nat.mul_assoc, Nat.mul_div_cancel _ (by positivity)]

theorem mul_div_two_pow_of_ge (hk : 3 ≤ k) : X * 2 ^ 24 / 2 ^ (8 * k) = X / 2 ^ (8 * (k - 3)) := by
  have : (2 : Nat) ^ (8 * k) = 2 ^ (8 * (k - 3)) * 2 ^ 24 := by rw [← pow_add]; congr 1; omega
  rw [this, Nat.mul_div_mul_right _ _ (by positivity)]

theorem mul_div_two_pow_succ : X * 2 ^ 24 / 2 ^ (8 * (k + 1)) = X * 2 ^ 24 / 2 ^ (8 * k) / 256 := by
  rw [Nat.div_div_eq_div_mul, show 8 * (k + 1) = 8 * k + 8 by ring, pow_add]
  rfl

theorem mul_div_two_pow_lt {j : Nat} (hjk : 24 ≤ j + 8 * k) (h : X < 2 ^ (j + 8 * k - 24)) :
    X * 2 ^ 24 / 2 ^ (8 * k) < 2 ^ j := by
  rw [Nat.div_lt_iff_lt_mul (by positivity)]
  calc X * 2 ^ 24 < 2 ^ (j + 8 * k - 24) * 2 ^ 24 := Nat.mul_lt_mul_of_pos_right h (by positivity)
    _ = 2 ^ j * 2 ^ (8 * k) := by rw [← pow_add, ← pow_add]; congr 1; omega

theorem le_mul_div_two_pow {j : Nat} (hjk : 24 ≤ j + 8 * k) (h : 2 ^ (j + 8 * k - 24) ≤ X) :
    2 ^ j ≤ X * 2 ^ 24 / 2 ^ (8 * k) := by
  rw [Nat.le_div_iff_mul_le (by positivity)]
  calc 2 ^ j * 2 ^ (8 * k) = 2 ^ (j + 8 * k - 24) * 2 ^ 24 := by rw [← pow_add, ← pow_add]; congr 1; omega
    _ ≤ X * 2 ^ 24 := Nat.mul_le_mul_right _ h

end

/-! ## `GetCompact` -/

/-- The sign-bit test on a mantissa below `2 ^ 24` is its top bit. -/
theorem and_sign_bit_ne_zero_iff {c : Nat} (hc : c < 2 ^ 24) : c &&& 0x00800000 ≠ 0 ↔ 2 ^ 23 ≤ c := by
  rw [show (0x00800000 : Nat) = 2 ^ 23 from rfl, Nat.and_comm, Nat.two_pow_and,
    Nat.testBit_eq_decide_div_mod_eq]
  simp
  omega

/-- The mantissa `GetCompact` reads before its sign-bit test, in both branches. -/
theorem getCompact_mantissa (x : ArithUint256) :
    (if (x.bits + 7) / 8 ≤ 3 then (x.toNat % 2 ^ 64) <<< (8 * (3 - (x.bits + 7) / 8)) % 2 ^ 32
      else (x >>> (8 * ((x.bits + 7) / 8 - 3))).toNat % 2 ^ 32) =
      x.toNat * 2 ^ 24 / 2 ^ (8 * ((x.bits + 7) / 8)) := by
  have hX : x.toNat < 2 ^ (8 * ((x.bits + 7) / 8)) :=
    lt_of_lt_of_le (lt_two_pow_bits x) (Nat.pow_le_pow_right (by decide) (by omega))
  have hlt : x.toNat * 2 ^ 24 / 2 ^ (8 * ((x.bits + 7) / 8)) < 2 ^ 24 :=
    mul_div_two_pow_lt (by omega) (by rwa [show 24 + 8 * ((x.bits + 7) / 8) - 24 = 8 * ((x.bits + 7) / 8) by omega])
  split
  · next hn =>
    have hsmall : x.toNat < 2 ^ 64 := lt_of_lt_of_le hX (Nat.pow_le_pow_right (by decide) (by omega))
    rw [mul_div_two_pow_of_le hn] at hlt ⊢
    rw [Nat.mod_eq_of_lt hsmall, Nat.shiftLeft_eq, Nat.mod_eq_of_lt (by omega)]
  · next hn =>
    rw [mul_div_two_pow_of_ge (by omega)] at hlt ⊢
    rw [BitVec.toNat_ushiftRight, Nat.shiftRight_eq_div_pow, Nat.mod_eq_of_lt (by omega)]

/-- The mantissa and exponent `GetCompact` writes, after its sign-bit adjustment. -/
theorem getCompact_adjust (x : ArithUint256) :
    (if x.toNat * 2 ^ 24 / 2 ^ (8 * ((x.bits + 7) / 8)) &&& 0x00800000 ≠ 0 then
        ((x.toNat * 2 ^ 24 / 2 ^ (8 * ((x.bits + 7) / 8))) >>> 8, (x.bits + 7) / 8 + 1)
      else (x.toNat * 2 ^ 24 / 2 ^ (8 * ((x.bits + 7) / 8)), (x.bits + 7) / 8)) =
      (compactMantissa x, compactExponent x) := by
  have hX := lt_two_pow_bits x
  have hlt : x.toNat * 2 ^ 24 / 2 ^ (8 * ((x.bits + 7) / 8)) < 2 ^ 24 :=
    mul_div_two_pow_lt (by omega) (lt_of_lt_of_le hX (Nat.pow_le_pow_right (by decide) (by omega)))
  unfold compactMantissa compactExponent
  by_cases h0 : x.bits = 0
  · have hx0 : x.toNat = 0 := by rw [h0] at hX; simpa using hX
    simp [h0, hx0]
  · rw [if_neg h0]
    by_cases h8 : x.bits % 8 = 0
    · -- the top bit of `x` is the mantissa's top bit: shift it out into one more byte
      have hge : 2 ^ 23 ≤ x.toNat * 2 ^ 24 / 2 ^ (8 * ((x.bits + 7) / 8)) :=
        le_mul_div_two_pow (by omega)
          (le_trans (Nat.pow_le_pow_right (by decide) (by omega)) (two_pow_bits_le h0))
      rw [if_pos ((and_sign_bit_ne_zero_iff hlt).mpr hge), Nat.shiftRight_eq_div_pow,
        ← mul_div_two_pow_succ, show (x.bits + 7) / 8 + 1 = x.bits / 8 + 1 by omega]
    · have hlt23 : x.toNat * 2 ^ 24 / 2 ^ (8 * ((x.bits + 7) / 8)) < 2 ^ 23 :=
        mul_div_two_pow_lt (by omega) (lt_of_lt_of_le hX (Nat.pow_le_pow_right (by decide) (by omega)))
      rw [if_neg (by rw [and_sign_bit_ne_zero_iff hlt]; omega), show (x.bits + 7) / 8 = x.bits / 8 + 1 by omega]

theorem compactMantissa_lt (x : ArithUint256) : compactMantissa x < 2 ^ 23 := by
  have hX := lt_two_pow_bits x
  unfold compactMantissa compactExponent
  by_cases h0 : x.bits = 0
  · have hx0 : x.toNat = 0 := by rw [h0] at hX; simpa using hX
    simp [hx0]
  · rw [if_neg h0]
    exact mul_div_two_pow_lt (by omega) (lt_of_lt_of_le hX (Nat.pow_le_pow_right (by decide) (by omega)))

theorem compactExponent_le (x : ArithUint256) : compactExponent x ≤ 33 := by
  have := bits_le x
  unfold compactExponent
  split <;> omega

/-- `GetCompact` puts the exponent byte above the mantissa. -/
theorem getCompact_eq (x : ArithUint256) :
    getCompact x = UInt32.ofNat (compactMantissa x + compactExponent x * 2 ^ 24) := by
  unfold getCompact
  dsimp only
  rw [getCompact_mantissa, getCompact_adjust]
  dsimp only
  congr 1
  rw [Nat.shiftLeft_eq, Nat.or_comm, Nat.mul_comm,
    ← Nat.two_pow_add_eq_or_of_lt (lt_trans (compactMantissa_lt x) (by decide)), Nat.add_comm]

/-! ## `SetCompact` of a compact given by its fields -/

/-- `SetCompact` of the compact with mantissa `m`, sign bit `s` and exponent `e`. -/
theorem setCompact_fields {m e : Nat} (s : Bool) (hm : m < 2 ^ 23) (he : e < 128) :
    setCompact (UInt32.ofNat (m + s.toNat * 2 ^ 23 + e * 2 ^ 24)) =
      (if e ≤ 3 then BitVec.ofNat 256 (m >>> (8 * (3 - e))) else BitVec.ofNat 256 m <<< (8 * (e - 3)),
        decide ((if e ≤ 3 then m >>> (8 * (3 - e)) else m) ≠ 0 ∧ s = true),
        decide ((if e ≤ 3 then m >>> (8 * (3 - e)) else m) ≠ 0 ∧
          (e > 34 ∨ (m > 0xff ∧ e > 33) ∨ (m > 0xffff ∧ e > 32)))) := by
  have hs : s.toNat ≤ 1 := Bool.toNat_le s
  have hN : (UInt32.ofNat (m + s.toNat * 2 ^ 23 + e * 2 ^ 24)).toNat = m + s.toNat * 2 ^ 23 + e * 2 ^ 24 :=
    UInt32.toNat_ofNat_of_lt' (by rw [UInt32.size]; omega)
  have hsize : (UInt32.ofNat (m + s.toNat * 2 ^ 23 + e * 2 ^ 24) >>> 24).toNat = e := by
    rw [UInt32.toNat_shiftRight, hN]
    show (m + s.toNat * 2 ^ 23 + e * 2 ^ 24) >>> 24 = e
    rw [Nat.shiftRight_eq_div_pow]
    omega
  have hword : (UInt32.ofNat (m + s.toNat * 2 ^ 23 + e * 2 ^ 24) &&& 0x007fffff).toNat = m := by
    rw [UInt32.toNat_and, hN, show (0x007fffff : UInt32).toNat = 2 ^ 23 - 1 from rfl,
      Nat.and_two_pow_sub_one_eq_mod]
    omega
  have hsign : (UInt32.ofNat (m + s.toNat * 2 ^ 23 + e * 2 ^ 24) &&& 0x00800000 ≠ 0) ↔ s = true := by
    rw [ne_eq, ← UInt32.toNat_inj, UInt32.toNat_and, hN, show (0x00800000 : UInt32).toNat = 2 ^ 23 from rfl,
      Nat.and_comm, Nat.two_pow_and, Nat.testBit_eq_decide_div_mod_eq]
    cases s <;> simp <;> omega
  unfold setCompact
  simp only [hsize, hword, hsign]
  -- the word is shifted only for `e ≤ 3`, where no overflow condition can hold
  by_cases he3 : e ≤ 3
  · have hno : ¬(e > 34 ∨ e > 33 ∨ e > 32) := by omega
    simp only [he3, if_true, Prod.mk.injEq, true_and]
    grind
  · simp only [he3, if_false]

/-- `GetCompact` puts the exponent byte above the mantissa and, when asked for and the
mantissa is not zero, the sign bit between them. -/
theorem getCompactWith_eq (x : ArithUint256) (fNegative : Bool) :
    getCompactWith x fNegative = UInt32.ofNat (compactMantissa x +
      (fNegative && compactMantissa x ≠ 0).toNat * 2 ^ 23 + compactExponent x * 2 ^ 24) := by
  have hm := compactMantissa_lt x
  have he := compactExponent_le x
  have hN : (UInt32.ofNat (compactMantissa x + compactExponent x * 2 ^ 24)).toNat =
      compactMantissa x + compactExponent x * 2 ^ 24 :=
    UInt32.toNat_ofNat_of_lt' (by rw [UInt32.size]; omega)
  have hword : (getCompact x &&& 0x007fffff ≠ 0) ↔ compactMantissa x ≠ 0 := by
    rw [ne_eq, ← UInt32.toNat_inj, getCompact_eq, UInt32.toNat_and, hN,
      show (0x007fffff : UInt32).toNat = 2 ^ 23 - 1 from rfl, Nat.and_two_pow_sub_one_eq_mod]
    simp only [UInt32.toNat_zero]
    omega
  unfold getCompactWith
  simp only [hword]
  cases fNegative
  · simp [getCompact_eq]
  · by_cases h0 : compactMantissa x = 0
    · simp [h0, getCompact_eq]
    · simp only [h0, ne_eq, not_false_eq_true, decide_true, Bool.and_self, if_true, Bool.toNat_true,
        one_mul]
      apply UInt32.toNat_inj.mp
      rw [UInt32.toNat_or, getCompact_eq, hN, show (0x00800000 : UInt32).toNat = 2 ^ 23 from rfl,
        UInt32.toNat_ofNat_of_lt' (by rw [UInt32.size]; omega), Nat.add_comm _ (compactExponent x * 2 ^ 24),
        Nat.mul_comm _ (2 ^ 24), Nat.two_pow_add_eq_or_of_lt (by omega), Nat.or_assoc,
        Nat.or_two_pow_eq_add_of_lt hm, ← Nat.two_pow_add_eq_or_of_lt (by omega)]
      omega

/-! ## The round trip -/

/-- The value `SetCompact` decodes from the compact of `x`: `x` with its bits below
`8 · (e - 3)` cleared. -/
theorem setCompact_value (x : ArithUint256) :
    (if compactExponent x ≤ 3 then BitVec.ofNat 256 (compactMantissa x >>> (8 * (3 - compactExponent x)))
      else BitVec.ofNat 256 (compactMantissa x) <<< (8 * (compactExponent x - 3))) =
      BitVec.ofNat 256 (x.toNat / 2 ^ (8 * (compactExponent x - 3)) * 2 ^ (8 * (compactExponent x - 3))) := by
  unfold compactMantissa
  split
  · next he =>
    rw [mul_div_two_pow_of_le he, Nat.shiftRight_eq_div_pow, Nat.mul_div_cancel _ (by positivity),
      show compactExponent x - 3 = 0 by omega]
    simp
  · next he =>
    rw [mul_div_two_pow_of_ge (by omega)]
    apply BitVec.eq_of_toNat_eq
    rw [BitVec.toNat_shiftLeft, BitVec.toNat_ofNat, BitVec.toNat_ofNat, Nat.shiftLeft_eq,
      Nat.mod_eq_of_lt (lt_of_le_of_lt (Nat.div_le_self _ _) x.isLt)]

theorem compactMantissa_lt_of_exponent (x : ArithUint256) (he : compactExponent x = 33) :
    compactMantissa x < 2 ^ 16 := by
  have hb := bits_le x
  unfold compactMantissa
  rw [he]
  unfold compactExponent at he
  split at he
  · omega
  · exact mul_div_two_pow_lt (by omega) (by simpa using x.isLt)

/-- `SetCompact(GetCompact(x))` is `x` with its bits below `8 · (e - 3)` cleared, and neither
negative nor overflowing. -/
theorem setCompact_getCompact (x : ArithUint256) :
    setCompact (getCompact x) =
      (BitVec.ofNat 256 (x.toNat / 2 ^ (8 * (compactExponent x - 3)) * 2 ^ (8 * (compactExponent x - 3))),
        false, false) := by
  have hm := compactMantissa_lt x
  have he := compactExponent_le x
  have h33 := compactMantissa_lt_of_exponent x
  have hfields := setCompact_fields false hm (show compactExponent x < 128 by omega)
  simp only [Bool.toNat_false, Nat.zero_mul, Nat.add_zero] at hfields
  rw [getCompact_eq, hfields, setCompact_value]
  simp only [Prod.mk.injEq, true_and, decide_eq_false_iff_not, Bool.false_eq_true, and_false,
    not_false_eq_true]
  intro _
  by_cases h : compactExponent x = 33
  · have := h33 h; omega
  · omega

/-- The sign bit does not change the value `SetCompact` decodes. -/
theorem setCompact_getCompactWith (x : ArithUint256) (fNegative : Bool) :
    (setCompact (getCompactWith x fNegative)).1 = (setCompact (getCompact x)).1 := by
  have hm := compactMantissa_lt x
  have he := compactExponent_le x
  rw [getCompactWith_eq, getCompact_eq,
    congrArg Prod.fst (setCompact_fields _ hm (show compactExponent x < 128 by omega))]
  have h0 := congrArg Prod.fst (setCompact_fields false hm (show compactExponent x < 128 by omega))
  simp only [Bool.toNat_false, Nat.zero_mul, Nat.add_zero] at h0
  rw [h0]

theorem compactExponent_congr {x y : ArithUint256} (h : x.bits = y.bits) :
    compactExponent x = compactExponent y := by
  unfold compactExponent; rw [h]

theorem size_div_mul_two_pow {X s : Nat} (h : s < Nat.size X) : Nat.size (X / 2 ^ s * 2 ^ s) = Nat.size X := by
  apply le_antisymm (Nat.size_le_size (Nat.div_mul_le_self X _))
  have htop : 2 ^ (Nat.size X - 1) ≤ X := Nat.lt_size.mp (by omega)
  have hq : 2 ^ (Nat.size X - 1 - s) ≤ X / 2 ^ s := by
    rw [Nat.le_div_iff_mul_le (by positivity), ← pow_add, show Nat.size X - 1 - s + s = Nat.size X - 1 by omega]
    exact htop
  have : 2 ^ (Nat.size X - 1) ≤ X / 2 ^ s * 2 ^ s := by
    calc 2 ^ (Nat.size X - 1) = 2 ^ (Nat.size X - 1 - s) * 2 ^ s := by
          rw [← pow_add, show Nat.size X - 1 - s + s = Nat.size X - 1 by omega]
      _ ≤ X / 2 ^ s * 2 ^ s := Nat.mul_le_mul_right _ hq
  have := Nat.lt_size.mpr this
  omega

/-- Clearing the bits below the mantissa keeps the compact form. -/
theorem getCompact_truncate (x : ArithUint256) :
    getCompact (BitVec.ofNat 256 (x.toNat / 2 ^ (8 * (compactExponent x - 3)) * 2 ^ (8 * (compactExponent x - 3)))) =
      getCompact x := by
  have htoNat : (BitVec.ofNat 256 (x.toNat / 2 ^ (8 * (compactExponent x - 3)) * 2 ^ (8 * (compactExponent x - 3)))).toNat =
      x.toNat / 2 ^ (8 * (compactExponent x - 3)) * 2 ^ (8 * (compactExponent x - 3)) := by
    rw [BitVec.toNat_ofNat, Nat.mod_eq_of_lt (lt_of_le_of_lt (Nat.div_mul_le_self _ _) x.isLt)]
  by_cases hsmall : compactExponent x ≤ 3
  · rw [show compactExponent x - 3 = 0 by omega]
    simp
  · -- the cleared bits lie below the top bit, so the bit count and the mantissa stay
    have hb : x.bits ≠ 0 := by unfold compactExponent at hsmall; split at hsmall <;> omega
    have hexp : compactExponent x = x.bits / 8 + 1 := by unfold compactExponent; rw [if_neg hb]
    have hbits : ArithUint256.bits (BitVec.ofNat 256 (x.toNat / 2 ^ (8 * (compactExponent x - 3)) *
        2 ^ (8 * (compactExponent x - 3)))) = x.bits := by
      rw [bits_eq_size, bits_eq_size, htoNat, size_div_mul_two_pow]
      rw [← bits_eq_size]; omega
    have hexp' := compactExponent_congr hbits
    rw [getCompact_eq, getCompact_eq]
    unfold compactMantissa
    rw [hexp', htoNat, mul_div_two_pow_of_ge (by omega), mul_div_two_pow_of_ge (by omega),
      Nat.mul_div_cancel _ (by positivity)]

/-- The compact round trip: `SetCompact(GetCompact(x))` is neither negative nor overflowing and
is `x` with its bits below byte `e - 3` cleared, `e` being the exponent `GetCompact` writes
(`⌈bits(x) / 8⌉`, one more when the mantissa's `0x00800000` bit would be set); so it is at most
`x` and within `2 ^ (8 · (e - 3))` of it, and with either sign the compact is a fixed point. -/
theorem setCompact_getCompact_round_trip (x : ArithUint256) :
    (getCompact x).toNat / 2 ^ 24 = compactExponent x ∧
    compactExponent x = (x.bits + 7) / 8 +
      (if x.toNat * 2 ^ 24 / 2 ^ (8 * ((x.bits + 7) / 8)) &&& 0x00800000 ≠ 0 then 1 else 0) ∧
    (setCompact (getCompact x)).2 = (false, false) ∧
    (setCompact (getCompact x)).1.toNat =
      x.toNat / 2 ^ (8 * (compactExponent x - 3)) * 2 ^ (8 * (compactExponent x - 3)) ∧
    (setCompact (getCompact x)).1 ≤ x ∧
    x.toNat - (setCompact (getCompact x)).1.toNat < 2 ^ (8 * (compactExponent x - 3)) ∧
    ∀ fNegative : Bool, getCompactWith (setCompact (getCompactWith x fNegative)).1 fNegative =
      getCompactWith x fNegative := by
  have hm := compactMantissa_lt x
  have he := compactExponent_le x
  have hval : (setCompact (getCompact x)).1.toNat =
      x.toNat / 2 ^ (8 * (compactExponent x - 3)) * 2 ^ (8 * (compactExponent x - 3)) := by
    rw [setCompact_getCompact, BitVec.toNat_ofNat,
      Nat.mod_eq_of_lt (lt_of_le_of_lt (Nat.div_mul_le_self _ _) x.isLt)]
  have hsplit := Nat.mod_add_div' x.toNat (2 ^ (8 * (compactExponent x - 3)))
  have hmod := Nat.mod_lt x.toNat (show 0 < 2 ^ (8 * (compactExponent x - 3)) by positivity)
  refine ⟨?_, ?_, by rw [setCompact_getCompact], hval, ?_, by omega, fun fNegative => ?_⟩
  · rw [getCompact_eq, UInt32.toNat_ofNat_of_lt' (by rw [UInt32.size]; omega)]
    omega
  · have hexp := congrArg Prod.snd (getCompact_adjust x)
    split at hexp
    · next h => rw [if_pos h]; exact hexp.symm
    · next h => rw [if_neg h]; exact hexp.symm
  · rw [BitVec.le_def, hval]
    exact Nat.div_mul_le_self _ _
  · rw [setCompact_getCompactWith, setCompact_getCompact]
    unfold getCompactWith
    rw [getCompact_truncate]

end Veil
