import Mathlib.Data.Nat.Bitwise
import Mathlib.Data.List.GetD
/-!
# Byte strings read as bit strings, most significant bit first

A list of bytes is read as a string of `8 * length` bits: bit `i` is bit `7 - i % 8` of byte
`i / 8` (`msbBit`), the order in which BIP-39 and most network formats number the bits of a
buffer. A bit is set by or-ing the byte with its mask (`msbMask`) and tested by and-ing with it.

Natural numbers stored in a fixed number of bits are built most significant bit first
(`bitsValue`), so that `testBit_bitsValue` reads the bits back in the order they were put in.
Two byte lists of one length with the same bits are equal (`eq_of_msbBit`), which is how a
decoder that rebuilds a buffer bit by bit is shown to return its input.
-/

namespace ByteBits

/-! ## Bits of a byte list -/

/-- Bit `i` of `data`, most significant bit of each byte first; `false` past the end. -/
def msbBit (data : List UInt8) (i : Nat) : Bool :=
  (data.getD (i / 8) 0).toNat.testBit (7 - i % 8)

/-- The mask of bit `i` in its byte. -/
def msbMask (i : Nat) : UInt8 := (2 ^ (7 - i % 8) : Nat).toUInt8

theorem toNat_msbMask (i : Nat) : (msbMask i).toNat = 2 ^ (7 - i % 8) := by
  have hlt : 2 ^ (7 - i % 8) < 2 ^ 8 := Nat.pow_lt_pow_right (by decide) (by omega)
  simp only [msbMask, Nat.toUInt8_eq]
  exact Nat.mod_eq_of_lt hlt

theorem testBit_toNat_of_le {b : UInt8} {t : Nat} (ht : 8 ≤ t) : b.toNat.testBit t = false :=
  Nat.testBit_lt_two_pow (Nat.lt_of_lt_of_le b.toNat_lt (Nat.pow_le_pow_right (by decide) ht))

/-- And-ing a byte with the mask of bit `i` tests that bit. -/
theorem and_msbMask_pos (b : UInt8) (i : Nat) :
    0 < b &&& msbMask i ↔ b.toNat.testBit (7 - i % 8) = true := by
  rw [UInt8.lt_iff_toNat_lt, UInt8.toNat_and, toNat_msbMask, Nat.and_two_pow]
  cases b.toNat.testBit (7 - i % 8)
  · simp
  · simp only [Bool.toNat_true, Nat.one_mul, iff_true]
    exact Nat.two_pow_pos _

/-- Where byte `i / 8` exists, the mask test reads bit `i`. -/
theorem msbBit_of_getElem? {data : List UInt8} {i : Nat} {b : UInt8} (h : data[i / 8]? = some b) :
    msbBit data i = true ↔ 0 < b &&& msbMask i := by
  rw [msbBit, List.getD_eq_getElem?_getD, h, Option.getD_some, and_msbMask_pos]

theorem msbBit_append_left {a b : List UInt8} {i : Nat} (h : i < 8 * a.length) :
    msbBit (a ++ b) i = msbBit a i := by
  rw [msbBit, List.getD_append _ _ _ _ (by omega), msbBit]

theorem msbBit_take {data : List UInt8} {n i : Nat} (h : i < 8 * n) :
    msbBit (data.take n) i = msbBit data i := by
  rw [msbBit, msbBit, List.getD_eq_getElem?_getD, List.getD_eq_getElem?_getD, List.getElem?_take,
    if_pos (by omega)]

@[simp]
theorem msbBit_replicate_zero (n i : Nat) : msbBit (List.replicate n 0) i = false := by
  rw [msbBit, List.getD_eq_getElem?_getD, List.getElem?_replicate]
  split <;> simp

/-- Or-ing byte `i / 8` with the mask of bit `i` sets bit `i` and no other. -/
theorem msbBit_modify_or {data : List UInt8} {i : Nat} (hi : i / 8 < data.length) (j : Nat) :
    msbBit (data.modify (i / 8) (· ||| msbMask i)) j = (msbBit data j || decide (j = i)) := by
  rw [msbBit, msbBit, List.getD_eq_getElem?_getD, List.getD_eq_getElem?_getD, List.getElem?_modify]
  by_cases hj : j / 8 = i / 8
  · -- the byte of bit `i`: the mask adds exactly the bit at offset `i % 8`
    rw [hj, List.getElem?_eq_getElem hi]
    simp only [if_true, Option.map_eq_map, Option.map_some, Option.getD_some]
    rw [UInt8.toNat_or, Nat.testBit_or, toNat_msbMask, Nat.testBit_two_pow]
    congr 1
    apply decide_eq_decide.mpr
    omega
  · have hne : j ≠ i := fun h => hj (congrArg (· / 8) h)
    cases data[j / 8]? <;> simp [Ne.symm hj, hne]

/-- Byte lists of one length with the same bits are equal. -/
theorem eq_of_msbBit {a b : List UInt8} (hlen : a.length = b.length)
    (h : ∀ i < 8 * a.length, msbBit a i = msbBit b i) : a = b := by
  apply List.ext_getElem hlen
  intro n ha hb
  apply UInt8.toNat_inj.mp
  apply Nat.eq_of_testBit_eq
  intro t
  by_cases ht : t < 8
  · -- bit `t` of byte `n` is bit `8 * n + (7 - t)` of the list
    have hbit := h (8 * n + (7 - t)) (by omega)
    rw [msbBit, msbBit, show (8 * n + (7 - t)) / 8 = n by omega,
      show 7 - (8 * n + (7 - t)) % 8 = t by omega, List.getD_eq_getElem?_getD,
      List.getD_eq_getElem?_getD, List.getElem?_eq_getElem ha, List.getElem?_eq_getElem hb] at hbit
    exact hbit
  · rw [testBit_toNat_of_le (by omega), testBit_toNat_of_le (by omega)]

/-! ## Numbers written most significant bit first -/

/-- The number whose `n` bits, most significant first, are `f 0, …, f (n - 1)`. -/
def bitsValue (f : Nat → Bool) : Nat → Nat
  | 0 => 0
  | n + 1 => 2 * bitsValue f n + (f n).toNat

theorem bitsValue_lt (f : Nat → Bool) (n : Nat) : bitsValue f n < 2 ^ n := by
  induction n with
  | zero => simp [bitsValue]
  | succ n ih =>
    have hb : (f n).toNat ≤ 1 := Bool.toNat_le (f n)
    rw [bitsValue, Nat.pow_succ]
    omega

/-- Bit `n - 1 - j` of `bitsValue f n`, counted from the least significant, is `f j`. -/
theorem testBit_bitsValue (f : Nat → Bool) {n j : Nat} (hj : j < n) :
    (bitsValue f n).testBit (n - 1 - j) = f j := by
  induction n with
  | zero => omega
  | succ n ih =>
    have hb : (f n).toNat ≤ 1 := Bool.toNat_le (f n)
    rw [bitsValue]
    by_cases hjn : j = n
    · -- the bit put in last is the least significant one
      subst hjn
      rw [show j + 1 - 1 - j = 0 by omega, Nat.testBit_zero]
      cases f j <;> simp
    · rw [show n + 1 - 1 - j = (n - 1 - j) + 1 by omega, Nat.testBit_succ,
        show (2 * bitsValue f n + (f n).toNat) / 2 = bitsValue f n by omega]
      exact ih (by omega)

/-- A single-bit mask test on a natural number. -/
theorem and_one_shiftLeft_ne_zero (n k : Nat) : n &&& (1 <<< k) ≠ 0 ↔ n.testBit k = true := by
  rw [Nat.one_shiftLeft, Nat.and_two_pow]
  cases n.testBit k
  · simp
  · simp

end ByteBits
