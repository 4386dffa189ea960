import Mathlib
import Veil.Lib.Digits
import Veil.Lib.ByteBits

/-!
# Bech32 (`bech32.cpp`) and `ConvertBits` (`utilstrencodings.h`)

A Bech32 string is a human-readable part, the separator `1`, and 5-bit values with a
six-value BCH checksum over the expanded part and the values (`PolyMod`).
`ConvertBits` regroups a stream of `frombits`-bit values into `tobits`-bit values;
with `pad` it flushes the last bits padded with zeroes, without it it refuses a tail
of `frombits` bits or more, or one that is not zero.

`ConvertBits` keeps the stream read so far as `ConvertState`: the accumulator holds its last
`frombits + tobits - 1` bits, fewer than `tobits` are pending, and the values put out spell the
rest.  Regrouping bytes into 5-bit values with padding and back without it returns the bytes
(`convertBits_round_trip`), and `ConvertBits<5, 8, false>` refuses exactly a tail of five bits or
more, or one that is not zero (`convertBits_5_8_eq_none`).

`PolyMod` is linear over GF(2) in its register and its values together (`polyModStep_xor`), and
from a zero register it reads six 5-bit values back as the register they spell
(`foldl_checksumGroups`); so the checksum `CreateChecksum` appends always verifies
(`verifyChecksum_createChecksum`), and `Decode` inverts `Encode` for every non-empty printable
human-readable part without upper-case letters within the 122-character limit
(`decode_encode`).

A `std::string` is the list of its characters; every character here is below 128.
-/

namespace Veil

/-! ## `ConvertBits` -/

/-- The inner `while (bits >= tobits)` loop of `ConvertBits`, with `fuel` bounding its
iterations: the bits left and the values put out so far. -/
def convertBitsDrain (acc tobits maxv : Nat) : Nat → Nat → List Nat → Nat × List Nat
  | 0, bits, out => (bits, out)
  | fuel + 1, bits, out =>
    if tobits ≤ bits then
      convertBitsDrain acc tobits maxv fuel (bits - tobits) (out ++ [(acc >>> (bits - tobits)) &&& maxv])
    else (bits, out)

/-- `ConvertBits<frombits, tobits, pad>`: the values put out, or `none` where it returns
`false`. -/
def convertBits (frombits tobits : Nat) (pad : Bool) (input : List Nat) : Option (List Nat) :=
  let maxv := (1 <<< tobits) - 1
  let max_acc := (1 <<< (frombits + tobits - 1)) - 1
  let r := input.foldl (fun (st : Nat × Nat × List Nat) v =>
      let acc := ((st.1 <<< frombits) ||| v) &&& max_acc
      let bits := st.2.1 + frombits
      let d := convertBitsDrain acc tobits maxv bits bits st.2.2
      (acc, d.1, d.2)) (0, 0, [])
  let acc := r.1
  let bits := r.2.1
  let out := r.2.2
  if pad then some (if bits ≠ 0 then out ++ [(acc <<< (tobits - bits)) &&& maxv] else out)
  else if frombits ≤ bits ∨ ((acc <<< (tobits - bits)) &&& maxv) ≠ 0 then none
  else some out

/-- Bytes regrouped into 5-bit values, padded: `ConvertBits<8, 5, true>`, whose result
the encoders do not test. -/
def toBase32 (bytes : List UInt8) : List UInt8 :=
  ((convertBits 8 5 true (bytes.map UInt8.toNat)).getD []).map UInt8.ofNat

/-! ## `ConvertBits` as a regrouping of bits -/

open Nat (ofDigits)

/-- One input value of `ConvertBits`: shifted into the accumulator, then drained. -/
def convertBitsStep (frombits tobits : Nat) (st : Nat × Nat × List Nat) (v : Nat) :
    Nat × Nat × List Nat :=
  let acc := ((st.1 <<< frombits) ||| v) &&& ((1 <<< (frombits + tobits - 1)) - 1)
  let d := convertBitsDrain acc tobits ((1 <<< tobits) - 1) (st.2.1 + frombits) (st.2.1 + frombits) st.2.2
  (acc, d.1, d.2)

/-- The end of `ConvertBits`, after its loop: the padding or the tail check. -/
def convertBitsFinish (frombits tobits : Nat) (pad : Bool) (r : Nat × Nat × List Nat) :
    Option (List Nat) :=
  if pad then some (if r.2.1 ≠ 0 then r.2.2 ++ [(r.1 <<< (tobits - r.2.1)) &&& ((1 <<< tobits) - 1)]
    else r.2.2)
  else if frombits ≤ r.2.1 ∨ ((r.1 <<< (tobits - r.2.1)) &&& ((1 <<< tobits) - 1)) ≠ 0 then none
  else some r.2.2

theorem convertBits_eq (frombits tobits : Nat) (pad : Bool) (input : List Nat) :
    convertBits frombits tobits pad input =
      convertBitsFinish frombits tobits pad (input.foldl (convertBitsStep frombits tobits) (0, 0, [])) :=
  rfl

/-- What the loop of `ConvertBits` keeps after reading input that spells `value` in `length`
bits, most significant first: the accumulator holds the last `frombits + tobits - 1` bits,
`bits` of them are pending, and the values put out spell the bits before those. -/
structure ConvertState (frombits tobits value length : Nat) (st : Nat × Nat × List Nat) : Prop where
  acc : st.1 = value % 2 ^ (frombits + tobits - 1)
  bits_le : st.2.1 ≤ frombits + tobits - 1
  length : tobits * st.2.2.length + st.2.1 = length
  out_lt : ∀ o ∈ st.2.2, o < 2 ^ tobits
  out : ofDigits (2 ^ tobits) st.2.2.reverse = value / 2 ^ st.2.1

/-- The inner loop puts out every whole `tobits`-bit value the accumulator holds. -/
theorem convertBitsDrain_state {frombits tobits value length : Nat} (hto : 0 < tobits) {acc : Nat}
    (fuel : Nat) {bits : Nat} {out : List Nat}
    (h : ConvertState frombits tobits value length (acc, bits, out))
    (hfuel : bits < tobits * (fuel + 1)) :
    ConvertState frombits tobits value length
        (acc, (convertBitsDrain acc tobits ((1 <<< tobits) - 1) fuel bits out).1,
          (convertBitsDrain acc tobits ((1 <<< tobits) - 1) fuel bits out).2) ∧
      (convertBitsDrain acc tobits ((1 <<< tobits) - 1) fuel bits out).1 < tobits := by
  induction fuel generalizing bits out with
  | zero =>
    simp only [convertBitsDrain]
    exact ⟨h, by omega⟩
  | succ fuel ih =>
    rw [convertBitsDrain]
    split
    · -- the value put out is bits `bits - tobits` to `bits` of the input, read off the accumulator
      rename_i hle
      obtain ⟨hacc, hbits, hlen, hlt, hout⟩ := h
      have hdigit : (acc >>> (bits - tobits)) &&& ((1 <<< tobits) - 1) =
          value / 2 ^ (bits - tobits) % 2 ^ tobits := by
        rw [Nat.one_shiftLeft, Nat.and_two_pow_sub_one_eq_mod, Nat.shiftRight_eq_div_pow]
        rw [show acc = value % 2 ^ (frombits + tobits - 1) from hacc]
        exact Digits.mod_two_pow_div_mod (by simp only at hbits; omega)
      apply ih
      · refine ⟨hacc, by simp only at hbits ⊢; omega, ?_, ?_, ?_⟩
        · simp only [List.length_append, List.length_singleton] at hlen ⊢
          rw [Nat.mul_add, Nat.mul_one]
          omega
        · intro o ho
          rcases List.mem_append.mp ho with ho | ho
          · exact hlt o ho
          · rw [List.mem_singleton.mp ho, hdigit]
            exact Nat.mod_lt _ (Nat.two_pow_pos _)
        · have hsplit : value / 2 ^ bits = value / 2 ^ (bits - tobits) / 2 ^ tobits := by
            rw [Nat.div_div_eq_div_mul, ← Nat.pow_add, Nat.sub_add_cancel hle]
          simp only at hout ⊢
          rw [List.reverse_append, List.reverse_singleton, List.singleton_append, Nat.ofDigits_cons,
            hout, hdigit, hsplit, Nat.mod_add_div]
      · rw [Nat.mul_succ] at hfuel
        omega
    · exact ⟨h, by omega⟩

/-- One input value: the stream grows by `frombits` bits, and the drain leaves fewer than
`tobits` pending. -/
theorem convertBitsStep_state {frombits tobits value length : Nat} (hto : 0 < tobits)
    {st : Nat × Nat × List Nat} (h : ConvertState frombits tobits value length st)
    (hbits : st.2.1 < tobits) {v : Nat} (hv : v < 2 ^ frombits) :
    ConvertState frombits tobits (value * 2 ^ frombits + v) (length + frombits)
        (convertBitsStep frombits tobits st v) ∧
      (convertBitsStep frombits tobits st v).2.1 < tobits := by
  obtain ⟨acc, bits, out⟩ := st
  obtain ⟨hacc, hbits_le, hlen, hlt, hout⟩ := h
  simp only at hacc hbits_le hlen hlt hout hbits
  -- the accumulator after the shift, before the drain
  have hacc' : ((acc <<< frombits) ||| v) &&& ((1 <<< (frombits + tobits - 1)) - 1) =
      (value * 2 ^ frombits + v) % 2 ^ (frombits + tobits - 1) := by
    rw [Nat.shiftLeft_eq, Nat.mul_comm, ← Nat.two_pow_add_eq_or_of_lt hv, Nat.one_shiftLeft,
      Nat.and_two_pow_sub_one_eq_mod, hacc, Nat.mul_comm]
    exact ((Nat.mod_modEq value _).mul_right _).add_right _
  have hpre : ConvertState frombits tobits (value * 2 ^ frombits + v) (length + frombits)
      (((acc <<< frombits) ||| v) &&& ((1 <<< (frombits + tobits - 1)) - 1), bits + frombits, out) := by
    refine ⟨hacc', by simp only; omega, by simp only; omega, hlt, ?_⟩
    simp only
    rw [hout, Nat.add_comm bits frombits, Nat.pow_add, ← Nat.div_div_eq_div_mul, Nat.mul_comm value,
      Nat.mul_add_div (Nat.two_pow_pos _), Nat.div_eq_of_lt hv, Nat.add_zero]
  exact convertBitsDrain_state hto (bits + frombits) hpre
    (Nat.lt_of_lt_of_le (Nat.lt_succ_self _) (Nat.le_mul_of_pos_left _ hto))

/-- The loop of `ConvertBits` over values of `frombits` bits keeps `ConvertState` for the
stream read so far. -/
theorem foldl_convertBitsStep_state {frombits tobits : Nat} (hto : 0 < tobits) {vs : List Nat}
    (hvs : ∀ v ∈ vs, v < 2 ^ frombits) {pre : List Nat} {st : Nat × Nat × List Nat}
    (h : ConvertState frombits tobits (ofDigits (2 ^ frombits) pre.reverse) (frombits * pre.length) st)
    (hbits : st.2.1 < tobits) :
    ConvertState frombits tobits (ofDigits (2 ^ frombits) (pre ++ vs).reverse)
        (frombits * (pre ++ vs).length) (vs.foldl (convertBitsStep frombits tobits) st) ∧
      (vs.foldl (convertBitsStep frombits tobits) st).2.1 < tobits := by
  induction vs generalizing pre st with
  | nil => exact ⟨by simpa using h, hbits⟩
  | cons v vs ih =>
    have hv := hvs v List.mem_cons_self
    obtain ⟨hstep, hbits'⟩ := convertBitsStep_state hto h hbits hv
    have hvalue : ofDigits (2 ^ frombits) pre.reverse * 2 ^ frombits + v =
        ofDigits (2 ^ frombits) (pre ++ [v]).reverse := by
      rw [List.reverse_append, List.reverse_singleton, List.singleton_append, Nat.ofDigits_cons]
      ring
    have hlength : frombits * pre.length + frombits = frombits * (pre ++ [v]).length := by
      rw [List.length_append, List.length_singleton, Nat.mul_add, Nat.mul_one]
    rw [hvalue, hlength] at hstep
    have := ih (fun w hw => hvs w (List.mem_cons_of_mem v hw)) hstep hbits'
    simpa using this

theorem convertBits_loop_state {frombits tobits : Nat} (hto : 0 < tobits) {vs : List Nat}
    (hvs : ∀ v ∈ vs, v < 2 ^ frombits) :
    ConvertState frombits tobits (ofDigits (2 ^ frombits) vs.reverse) (frombits * vs.length)
        (vs.foldl (convertBitsStep frombits tobits) (0, 0, [])) ∧
      (vs.foldl (convertBitsStep frombits tobits) (0, 0, [])).2.1 < tobits := by
  have h0 : ConvertState frombits tobits (ofDigits (2 ^ frombits) ([] : List Nat).reverse)
      (frombits * ([] : List Nat).length) (0, 0, []) := ⟨by simp, by simp, by simp, by simp, by simp⟩
  have h := foldl_convertBitsStep_state hto hvs h0 hto
  simpa using h

/-- The value the padding appends: the pending bits followed by zeros. -/
theorem padValue_eq {frombits tobits value length : Nat} {r : Nat × Nat × List Nat}
    (h : ConvertState frombits tobits value length r) (hbits : r.2.1 < tobits) :
    (r.1 <<< (tobits - r.2.1)) &&& ((1 <<< tobits) - 1) = value % 2 ^ r.2.1 * 2 ^ (tobits - r.2.1) := by
  have ht : 2 ^ tobits = 2 ^ r.2.1 * 2 ^ (tobits - r.2.1) := by
    rw [← Nat.pow_add, Nat.add_sub_cancel' (Nat.le_of_lt hbits)]
  rw [Nat.shiftLeft_eq, Nat.one_shiftLeft, Nat.and_two_pow_sub_one_eq_mod, h.acc, ht,
    Nat.mul_mod_mul_right, Nat.mod_mod_of_dvd _ (Nat.pow_dvd_pow 2 h.bits_le)]

/-- The bits left pending at the end are the input's length modulo `tobits`. -/
theorem ConvertState.bits_eq {frombits tobits value length : Nat} {r : Nat × Nat × List Nat}
    (h : ConvertState frombits tobits value length r) (hbits : r.2.1 < tobits) :
    r.2.1 = length % tobits := by
  rw [← h.length, Nat.mul_add_mod, Nat.mod_eq_of_lt hbits]

/-- `ConvertBits` with padding puts out the input followed by zero bits up to a multiple of
`tobits`. -/
theorem convertBits_true {frombits tobits : Nat} (hto : 0 < tobits) {vs : List Nat}
    (hvs : ∀ v ∈ vs, v < 2 ^ frombits) :
    ∃ out, convertBits frombits tobits true vs = some out ∧ (∀ o ∈ out, o < 2 ^ tobits) ∧
      tobits * out.length = frombits * vs.length + (tobits - frombits * vs.length % tobits) % tobits ∧
      ofDigits (2 ^ tobits) out.reverse =
        ofDigits (2 ^ frombits) vs.reverse * 2 ^ ((tobits - frombits * vs.length % tobits) % tobits) := by
  obtain ⟨h, hb⟩ := convertBits_loop_state hto hvs
  have hbits := h.bits_eq hb
  rw [convertBits_eq, convertBitsFinish, if_pos rfl]
  by_cases hz : (vs.foldl (convertBitsStep frombits tobits) (0, 0, [])).2.1 = 0
  · -- nothing pending: no padding
    rw [if_neg (not_not_intro hz)]
    refine ⟨_, rfl, h.out_lt, ?_, ?_⟩
    · rw [← hbits, hz, Nat.sub_zero, Nat.mod_self, Nat.add_zero, ← h.length, hz, Nat.add_zero]
    · rw [h.out, ← hbits, hz, Nat.sub_zero, Nat.mod_self, Nat.pow_zero, Nat.div_one, Nat.mul_one]
  · -- the pending bits, padded with zeros, make one more value
    rw [if_pos hz, padValue_eq h hb]
    have hp : (tobits - frombits * vs.length % tobits) % tobits = tobits - frombits * vs.length % tobits :=
      Nat.mod_eq_of_lt (by omega)
    refine ⟨_, rfl, ?_, ?_, ?_⟩
    · intro o ho
      rcases List.mem_append.mp ho with ho | ho
      · exact h.out_lt o ho
      · rw [List.mem_singleton.mp ho]
        calc _ < 2 ^ (vs.foldl (convertBitsStep frombits tobits) (0, 0, [])).2.1 *
              2 ^ (tobits - (vs.foldl (convertBitsStep frombits tobits) (0, 0, [])).2.1) :=
            Nat.mul_lt_mul_of_pos_right (Nat.mod_lt _ (Nat.two_pow_pos _)) (Nat.two_pow_pos _)
          _ = 2 ^ tobits := by rw [← Nat.pow_add, Nat.add_sub_cancel' (Nat.le_of_lt hb)]
    · have hlen := h.length
      rw [hp, ← hbits, List.length_append, List.length_singleton, Nat.mul_add, Nat.mul_one]
      omega
    · rw [hp, ← hbits, List.reverse_append, List.reverse_singleton, List.singleton_append,
        Nat.ofDigits_cons, h.out]
      -- `v % 2^b * 2^(t-b) + 2^t * (v / 2^b) = v * 2^(t-b)`
      have ht : 2 ^ tobits = 2 ^ (vs.foldl (convertBitsStep frombits tobits) (0, 0, [])).2.1 *
          2 ^ (tobits - (vs.foldl (convertBitsStep frombits tobits) (0, 0, [])).2.1) := by
        rw [← Nat.pow_add, Nat.add_sub_cancel' (Nat.le_of_lt hb)]
      rw [ht]
      conv_rhs => rw [← Nat.mod_add_div (ofDigits (2 ^ frombits) vs.reverse)
        (2 ^ (vs.foldl (convertBitsStep frombits tobits) (0, 0, [])).2.1)]
      ring

/-- `ConvertBits` without padding refuses a tail of `frombits` bits or more, or one that is not
zero, and otherwise puts out the values the input spells before its tail. -/
theorem convertBits_false {frombits tobits : Nat} (hto : 0 < tobits) {vs : List Nat}
    (hvs : ∀ v ∈ vs, v < 2 ^ frombits) :
    ∃ out, (∀ o ∈ out, o < 2 ^ tobits) ∧
      tobits * out.length + frombits * vs.length % tobits = frombits * vs.length ∧
      ofDigits (2 ^ tobits) out.reverse =
        ofDigits (2 ^ frombits) vs.reverse / 2 ^ (frombits * vs.length % tobits) ∧
      convertBits frombits tobits false vs =
        if frombits ≤ frombits * vs.length % tobits ∨
            ofDigits (2 ^ frombits) vs.reverse % 2 ^ (frombits * vs.length % tobits) ≠ 0 then none
        else some out := by
  obtain ⟨h, hb⟩ := convertBits_loop_state hto hvs
  have hbits := h.bits_eq hb
  refine ⟨_, h.out_lt, by rw [← hbits]; exact h.length, by rw [← hbits]; exact h.out, ?_⟩
  rw [convertBits_eq, convertBitsFinish, if_neg Bool.false_ne_true, padValue_eq h hb, ← hbits]
  -- the padding check tests exactly the pending bits
  have hzero : ofDigits (2 ^ frombits) vs.reverse % 2 ^ (vs.foldl (convertBitsStep frombits tobits) (0, 0, [])).2.1 *
      2 ^ (tobits - (vs.foldl (convertBitsStep frombits tobits) (0, 0, [])).2.1) ≠ 0 ↔
      ofDigits (2 ^ frombits) vs.reverse % 2 ^ (vs.foldl (convertBitsStep frombits tobits) (0, 0, [])).2.1 ≠ 0 :=
    ⟨fun h0 h1 => h0 (by rw [h1, Nat.zero_mul]), fun h0 => Nat.mul_ne_zero h0 (Nat.two_pow_pos _).ne'⟩
  simp only [hzero]

/-- Bytes regrouped into 5-bit values with padding come back from `ConvertBits<5, 8, false>`. -/
theorem convertBits_round_trip (bytes : List UInt8) :
    (convertBits 8 5 true (bytes.map UInt8.toNat)).bind (convertBits 5 8 false) =
      some (bytes.map UInt8.toNat) := by
  have hbytes : ∀ v ∈ bytes.map UInt8.toNat, v < 2 ^ 8 := fun v hv => by
    obtain ⟨b, -, rfl⟩ := List.mem_map.mp hv
    exact b.toNat_lt
  obtain ⟨out5, h5, hlt5, hlen5, hval5⟩ := convertBits_true (by decide : 0 < 5) hbytes
  obtain ⟨out8, hlt8, hlen8, hval8, heq⟩ := convertBits_false (by decide : 0 < 8) hlt5
  rw [List.length_map] at hlen5 hval5
  -- the padding is at most four bits, so it is what `ConvertBits<5, 8, false>` leaves pending
  have hpad : 5 * out5.length % 8 = (5 - 8 * bytes.length % 5) % 5 := by omega
  rw [h5, Option.bind_some, heq, hpad, hval5, Nat.mul_mod_left, if_neg (by omega)]
  congr 1
  have hlen : out8.length = (bytes.map UInt8.toNat).length := by
    rw [List.length_map]
    omega
  apply List.reverse_injective
  apply Nat.ofDigits_inj_of_len_eq (by decide : 1 < 2 ^ 8) (by simp [hlen])
    (fun o ho => hlt8 o (List.mem_reverse.mp ho)) (fun o ho => hbytes o (List.mem_reverse.mp ho))
  rw [hval8, hpad, hval5, Nat.mul_div_cancel _ (Nat.two_pow_pos _)]

/-- `ConvertBits<5, 8, false>` refuses exactly the 5-bit strings whose padding is five bits or
more, or is not zero. -/
theorem convertBits_5_8_eq_none {vs : List Nat} (hvs : ∀ v ∈ vs, v < 2 ^ 5) :
    convertBits 5 8 false vs = none ↔
      5 ≤ 5 * vs.length % 8 ∨ ofDigits (2 ^ 5) vs.reverse % 2 ^ (5 * vs.length % 8) ≠ 0 := by
  obtain ⟨out, -, -, -, heq⟩ := convertBits_false (by decide : 0 < 8) hvs
  rw [heq]
  split_ifs with h
  · exact ⟨fun _ => h, fun _ => rfl⟩
  · exact ⟨fun h' => h'.elim, fun h' => absurd h' h⟩

namespace Bech32

/-- `CHARSET`, "The Bech32 character set for encoding". -/
def CHARSET : List Char :=
  ['q', 'p', 'z', 'r', 'y', '9', 'x', '8', 'g', 'f', '2', 't', 'v', 'd', 'w', '0',
   's', '3', 'j', 'n', '5', '4', 'k', 'h', 'c', 'e', '6', 'm', 'u', 'a', '7', 'l']

/-- `LowerCase`. -/
def lowerCase (c : Char) : Char :=
  if 'A' ≤ c ∧ c ≤ 'Z' then Char.ofNat (c.toNat - 'A'.toNat + 'a'.toNat) else c

/-- `CHARSET_REV`, the table inverting `CHARSET` in either case (`-1` is `none`). -/
def charsetRev (c : Char) : Option Nat := CHARSET.idxOf? (lowerCase c)

/-- One round of `PolyMod`: `c ← (c · x + v_i) mod g(x)` on the packed coefficients. -/
def polyModStep (c : UInt32) (v_i : UInt8) : UInt32 :=
  -- "First, determine the value of c0"
  let c0 := (c >>> 25).toUInt8
  let c := ((c &&& 0x1ffffff) <<< 5) ^^^ v_i.toUInt32
  -- "for each set bit n in c0, conditionally add {2^n}k(x)"
  let c := if c0 &&& 1 ≠ 0 then c ^^^ 0x3b6a57b2 else c
  let c := if c0 &&& 2 ≠ 0 then c ^^^ 0x26508e6d else c
  let c := if c0 &&& 4 ≠ 0 then c ^^^ 0x1ea119fa else c
  let c := if c0 &&& 8 ≠ 0 then c ^^^ 0x3d4233dd else c
  if c0 &&& 16 ≠ 0 then c ^^^ 0x2a1462b3 else c

/-- `PolyMod`. -/
def polyMod (v : List UInt8) : UInt32 := v.foldl polyModStep 1

/-- `ExpandHRP`: the high bits of each character, a zero, the low bits. -/
def expandHRP (hrp : List Char) : List UInt8 :=
  hrp.map (fun c => UInt8.ofNat (c.toNat >>> 5)) ++ [0] ++ hrp.map (fun c => UInt8.ofNat (c.toNat &&& 0x1f))

/-- `VerifyChecksum`. -/
def verifyChecksum (hrp : List Char) (values : List UInt8) : Bool :=
  polyMod (expandHRP hrp ++ values) = 1

/-- `CreateChecksum`. -/
def createChecksum (hrp : List Char) (values : List UInt8) : List UInt8 :=
  let mod := polyMod (expandHRP hrp ++ values ++ List.replicate 6 0) ^^^ 1
  (List.range 6).map fun i => ((mod >>> (5 * (5 - i).toUInt32)) &&& 31).toUInt8

/-- `bech32::Encode`. -/
def encode (hrp : List Char) (values : List UInt8) : List Char :=
  let combined := values ++ createChecksum hrp values
  hrp ++ ['1'] ++ combined.map fun c => CHARSET.getD c.toNat 'q'

/-- A Bech32 string always holds its separator. -/
theorem encode_ne_nil (hrp : List Char) (values : List UInt8) : encode hrp values ≠ [] := by
  simp [encode]

/-- The index of the last occurrence of `c` (`std::string::rfind`). -/
def rfind (c : Char) (str : List Char) : Option Nat :=
  (str.reverse.idxOf? c).map fun i => str.length - 1 - i

/-- `bech32::Decode`: the human-readable part and the values before the checksum, or
the empty pair (`return {}`). -/
def decode (str : List Char) : List Char × List UInt8 :=
  let lower := str.any fun c => 'a' ≤ c ∧ c ≤ 'z'
  let upper := str.any fun c => 'A' ≤ c ∧ c ≤ 'Z'
  let bad := str.any fun c => !('a' ≤ c ∧ c ≤ 'z') && !('A' ≤ c ∧ c ≤ 'Z') &&
    (c.toNat < 33 || c.toNat > 126)
  if bad || (lower && upper) then ([], [])
  else match rfind '1' str with
    | none => ([], [])
    | some pos =>
      if str.length > 122 || pos = 0 || pos + 7 > str.length then ([], [])
      else match ((str.drop (pos + 1)).mapM charsetRev) with
        | none => ([], [])
        | some values =>
          let values := values.map UInt8.ofNat
          let hrp := (str.take pos).map lowerCase
          if !verifyChecksum hrp values then ([], [])
          else (hrp, values.take (values.length - 6))

/-! ## The checksum -/

/-- The conditional additions of `PolyMod` for the high coefficient `c0`, one for each of its
five bits. -/
def polyModReduce (c0 : UInt8) : UInt32 :=
  (if c0.toNat.testBit 0 then 0x3b6a57b2 else 0) ^^^ (if c0.toNat.testBit 1 then 0x26508e6d else 0) ^^^
    (if c0.toNat.testBit 2 then 0x1ea119fa else 0) ^^^ (if c0.toNat.testBit 3 then 0x3d4233dd else 0) ^^^
    (if c0.toNat.testBit 4 then 0x2a1462b3 else 0)

/-- The six 5-bit values of a checksum register, as `CreateChecksum` writes them. -/
def checksumGroups (mod : UInt32) : List UInt8 :=
  (List.range 6).map fun i => ((mod >>> (5 * (5 - i).toUInt32)) &&& 31).toUInt8

theorem createChecksum_eq (hrp : List Char) (values : List UInt8) :
    createChecksum hrp values = checksumGroups (polyMod (expandHRP hrp ++ values ++ List.replicate 6 0) ^^^ 1) :=
  rfl

theorem and_mask_ne_zero (c0 : UInt8) (i : Nat) :
    c0 &&& ByteBits.msbMask i ≠ 0 ↔ c0.toNat.testBit (7 - i % 8) = true := by
  rw [← UInt8.pos_iff_ne_zero, ByteBits.and_msbMask_pos]

theorem ite_xor (p : Prop) [Decidable p] (x k : UInt32) :
    (if p then x ^^^ k else x) = x ^^^ (if p then k else 0) := by
  split <;> simp

/-- A round of `PolyMod`: the low coefficients shifted up, the new value, and the reduction of
the high coefficient. -/
theorem polyModStep_eq (c : UInt32) (v_i : UInt8) :
    polyModStep c v_i = ((c &&& 0x1ffffff) <<< 5) ^^^ v_i.toUInt32 ^^^ polyModReduce (c >>> 25).toUInt8 := by
  have h1 : ∀ c0 : UInt8, c0 &&& 1 ≠ 0 ↔ c0.toNat.testBit 0 = true := fun c0 => and_mask_ne_zero c0 7
  have h2 : ∀ c0 : UInt8, c0 &&& 2 ≠ 0 ↔ c0.toNat.testBit 1 = true := fun c0 => and_mask_ne_zero c0 6
  have h4 : ∀ c0 : UInt8, c0 &&& 4 ≠ 0 ↔ c0.toNat.testBit 2 = true := fun c0 => and_mask_ne_zero c0 5
  have h8 : ∀ c0 : UInt8, c0 &&& 8 ≠ 0 ↔ c0.toNat.testBit 3 = true := fun c0 => and_mask_ne_zero c0 4
  have h16 : ∀ c0 : UInt8, c0 &&& 16 ≠ 0 ↔ c0.toNat.testBit 4 = true := fun c0 => and_mask_ne_zero c0 3
  simp only [polyModStep, h1, h2, h4, h8, h16, ite_xor]
  simp only [polyModReduce, UInt32.xor_assoc]

theorem xor_and_distrib (a b m : UInt32) : (a ^^^ b) &&& m = (a &&& m) ^^^ (b &&& m) := by
  apply UInt32.toBitVec_inj.mp
  simp only [UInt32.toBitVec_and, UInt32.toBitVec_xor]
  ext i
  simp [Bool.and_xor_distrib_right]

theorem ite_bxor (p q : Bool) (k : UInt32) :
    (if (p ^^ q) = true then k else 0) = (if p = true then k else 0) ^^^ (if q = true then k else 0) := by
  cases p <;> cases q <;> simp

theorem polyModReduce_xor (a b : UInt8) :
    polyModReduce (a ^^^ b) = polyModReduce a ^^^ polyModReduce b := by
  simp only [polyModReduce, UInt8.toNat_xor, Nat.testBit_xor, ite_bxor]
  ac_rfl

/-- A round of `PolyMod` is linear over GF(2) in the register and the value together. -/
theorem polyModStep_xor (c₁ c₂ : UInt32) (v₁ v₂ : UInt8) :
    polyModStep (c₁ ^^^ c₂) (v₁ ^^^ v₂) = polyModStep c₁ v₁ ^^^ polyModStep c₂ v₂ := by
  rw [polyModStep_eq, polyModStep_eq, polyModStep_eq, xor_and_distrib, UInt32.shiftLeft_xor,
    UInt8.toUInt32_xor, UInt32.shiftRight_xor, UInt32.toUInt8_xor, polyModReduce_xor]
  ac_rfl

/-- `PolyMod` over two strings of one length, xored value by value, is the xor of the two. -/
theorem foldl_polyModStep_xor (c₁ c₂ : UInt32) (l₁ l₂ : List UInt8) (h : l₁.length = l₂.length) :
    (List.zipWith (· ^^^ ·) l₁ l₂).foldl polyModStep (c₁ ^^^ c₂) =
      l₁.foldl polyModStep c₁ ^^^ l₂.foldl polyModStep c₂ := by
  induction l₁ generalizing l₂ c₁ c₂ with
  | nil =>
    cases l₂ with
    | nil => rfl
    | cons => simp at h
  | cons v₁ l₁ ih =>
    cases l₂ with
    | nil => simp at h
    | cons v₂ l₂ =>
      rw [List.zipWith_cons_cons, List.foldl_cons, List.foldl_cons, List.foldl_cons, polyModStep_xor]
      exact ih _ _ _ (by simpa using h)

theorem zipWith_replicate_zero_xor {n : Nat} (l : List UInt8) (h : l.length = n) :
    List.zipWith (· ^^^ ·) (List.replicate n 0) l = l := by
  subst h
  induction l with
  | nil => rfl
  | cons v l ih => simp [List.replicate_succ, ih]


/-- The register after any round holds 30 bits: six 5-bit coefficients. -/
theorem polyModStep_lt (c : UInt32) (v_i : UInt8) : (polyModStep c v_i).toNat < 2 ^ 30 := by
  have hite : ∀ (p : Bool) (k : UInt32), k.toNat < 2 ^ 30 → (if p = true then k else 0).toNat < 2 ^ 30 := by
    intro p k hk
    cases p
    · simp
    · simpa using hk
  have hreduce : (polyModReduce (c >>> 25).toUInt8).toNat < 2 ^ 30 := by
    simp only [polyModReduce, UInt32.toNat_xor]
    refine Nat.xor_lt_two_pow (Nat.xor_lt_two_pow (Nat.xor_lt_two_pow (Nat.xor_lt_two_pow ?_ ?_) ?_) ?_) ?_ <;>
      exact hite _ _ (by decide)
  have hshift : ((c &&& 0x1ffffff) <<< 5).toNat < 2 ^ 30 := by
    rw [UInt32.toNat_shiftLeft, UInt32.toNat_and]
    have hmask : c.toNat &&& (0x1ffffff : UInt32).toNat < 2 ^ 25 :=
      Nat.lt_of_le_of_lt Nat.and_le_right (by decide)
    have h5 : (5 : UInt32).toNat % 32 = 5 := rfl
    rw [h5, Nat.shiftLeft_eq]
    calc (c.toNat &&& (0x1ffffff : UInt32).toNat) * 2 ^ 5 % 2 ^ 32
        ≤ (c.toNat &&& (0x1ffffff : UInt32).toNat) * 2 ^ 5 := Nat.mod_le _ _
      _ < 2 ^ 30 := by omega
  rw [polyModStep_eq, UInt32.toNat_xor, UInt32.toNat_xor]
  exact Nat.xor_lt_two_pow (Nat.xor_lt_two_pow hshift
    (Nat.lt_of_lt_of_le (by rw [UInt8.toNat_toUInt32]; exact v_i.toNat_lt) (by decide))) hreduce

theorem foldl_polyModStep_lt (c : UInt32) {l : List UInt8} (hl : l ≠ []) :
    (l.foldl polyModStep c).toNat < 2 ^ 30 := by
  rw [← List.dropLast_append_getLast hl, List.foldl_append, List.foldl_cons, List.foldl_nil]
  exact polyModStep_lt _ _

/-- While the register holds fewer than 25 bits there is nothing to reduce: a round shifts in
one 5-bit value. -/
theorem polyModStep_toNat_of_lt {c : UInt32} {v_i : UInt8} (hc : c.toNat < 2 ^ 25)
    (hv : v_i.toNat < 32) : (polyModStep c v_i).toNat = c.toNat * 32 + v_i.toNat := by
  have hhigh : (c >>> 25).toUInt8 = 0 := by
    apply UInt8.toNat_inj.mp
    rw [UInt32.toNat_toUInt8, UInt32.toNat_shiftRight, show (25 : UInt32).toNat % 32 = 25 from rfl,
      Nat.shiftRight_eq_div_pow, Nat.div_eq_of_lt hc]
    rfl
  have hlow : c &&& 0x1ffffff = c := by
    apply UInt32.toNat_inj.mp
    rw [UInt32.toNat_and, show (0x1ffffff : UInt32).toNat = 2 ^ 25 - 1 from rfl,
      Nat.and_two_pow_sub_one_eq_mod, Nat.mod_eq_of_lt hc]
  have hreduce : polyModReduce 0 = 0 := by decide
  rw [polyModStep_eq, hhigh, hreduce, hlow, UInt32.xor_zero, UInt32.toNat_xor, UInt32.toNat_shiftLeft,
    show (5 : UInt32).toNat % 32 = 5 from rfl, Nat.shiftLeft_eq,
    Nat.mod_eq_of_lt (by omega), UInt8.toNat_toUInt32, Nat.mul_comm,
    Digits.two_pow_mul_xor_of_lt (by omega), Nat.mul_comm]

/-- Rounds that never reduce: `PolyMod` reads the 5-bit values as base-32 digits. -/
theorem foldl_polyModStep_toNat {g : List UInt8} (hg : ∀ v ∈ g, v.toNat < 32) {c : UInt32}
    (hc : (c.toNat + 1) * 32 ^ g.length ≤ 2 ^ 30) :
    (g.foldl polyModStep c).toNat = c.toNat * 32 ^ g.length + Nat.ofDigits 32 (g.map UInt8.toNat).reverse := by
  induction g generalizing c with
  | nil => simp
  | cons v g ih =>
    have hv := hg v List.mem_cons_self
    have hpow : 1 ≤ 32 ^ g.length := Nat.one_le_pow _ _ (by decide)
    rw [List.length_cons, Nat.pow_succ] at hc
    -- the register is below `2 ^ 25` before this round
    have hc25 : c.toNat < 2 ^ 25 := by
      have : (c.toNat + 1) * 32 ≤ 2 ^ 30 := by nlinarith
      omega
    have hstep := polyModStep_toNat_of_lt hc25 hv
    have hc' : ((polyModStep c v).toNat + 1) * 32 ^ g.length ≤ 2 ^ 30 := by
      rw [hstep]
      calc (c.toNat * 32 + v.toNat + 1) * 32 ^ g.length ≤ (c.toNat + 1) * 32 * 32 ^ g.length :=
            Nat.mul_le_mul_right _ (by omega)
        _ = (c.toNat + 1) * (32 ^ g.length * 32) := by ring
        _ ≤ 2 ^ 30 := hc
    rw [List.foldl_cons, ih (fun w hw => hg w (List.mem_cons_of_mem v hw)) hc', hstep, List.map_cons,
      List.reverse_cons, Nat.ofDigits_append, List.length_reverse, List.length_map, Nat.ofDigits_singleton,
      List.length_cons, Nat.pow_succ]
    ring

theorem toNat_checksumGroups_getElem (mod : UInt32) {i : Nat} (hi : i < (checksumGroups mod).length) :
    (checksumGroups mod)[i].toNat = mod.toNat / 32 ^ (5 - i) % 32 := by
  have hi6 : i < 6 := by simpa [checksumGroups] using hi
  have hshift : (5 * (5 - i).toUInt32 : UInt32).toNat % 32 = 5 * (5 - i) := by
    interval_cases i <;> rfl
  simp only [checksumGroups, List.getElem_map, List.getElem_range]
  rw [UInt32.toNat_toUInt8, UInt32.toNat_and, UInt32.toNat_shiftRight, hshift, Nat.shiftRight_eq_div_pow,
    show (31 : UInt32).toNat = 2 ^ 5 - 1 from rfl, Nat.and_two_pow_sub_one_eq_mod,
    Nat.mod_eq_of_lt (Nat.lt_of_lt_of_le (Nat.mod_lt _ (by decide)) (by decide)), Nat.pow_mul]

/-- Started from zero, `PolyMod` over the six groups of a 30-bit register gives the register
back. -/
theorem foldl_checksumGroups (mod : UInt32) (hmod : mod.toNat < 2 ^ 30) :
    (checksumGroups mod).foldl polyModStep 0 = mod := by
  have hlen : (checksumGroups mod).length = 6 := by simp [checksumGroups]
  have hlt : ∀ v ∈ checksumGroups mod, v.toNat < 32 := by
    intro v hv
    obtain ⟨i, hi, rfl⟩ := List.mem_iff_getElem.mp hv
    rw [toNat_checksumGroups_getElem mod hi]
    exact Nat.mod_lt _ (by decide)
  -- least significant group first, the groups are the base-32 digits of the register
  have hdigits : ((checksumGroups mod).map UInt8.toNat).reverse =
      (List.range 6).map fun i => mod.toNat / 32 ^ i % 32 := by
    apply List.ext_getElem (by simp [hlen])
    intro i h₁ h₂
    simp only [List.length_reverse, List.length_map, hlen] at h₁
    rw [List.getElem_reverse, List.getElem_map, toNat_checksumGroups_getElem, List.getElem_map,
      List.getElem_range]
    simp only [List.length_map, hlen]
    congr 3
    omega
  apply UInt32.toNat_inj.mp
  rw [foldl_polyModStep_toNat hlt (by rw [hlen]; decide), hdigits, Digits.ofDigits_range_div_mod,
    show (0 : UInt32).toNat = 0 from rfl, Nat.zero_mul, Nat.zero_add, Nat.mod_eq_of_lt (by omega)]

/-- The checksum `CreateChecksum` computes makes `PolyMod` of the whole string `1`: the values
with their checksum always pass `VerifyChecksum`. -/
theorem verifyChecksum_createChecksum (hrp : List Char) (values : List UInt8) :
    verifyChecksum hrp (values ++ createChecksum hrp values) = true := by
  set c := (expandHRP hrp ++ values).foldl polyModStep 1 with hc
  set S := (List.replicate 6 0).foldl polyModStep c with hS
  have hmod : polyMod (expandHRP hrp ++ values ++ List.replicate 6 0) = S := List.foldl_append
  have hSlt : (S ^^^ 1).toNat < 2 ^ 30 := by
    rw [UInt32.toNat_xor]
    exact Nat.xor_lt_two_pow (foldl_polyModStep_lt c (by simp)) (by decide)
  have hlen : (checksumGroups (S ^^^ 1)).length = 6 := by simp [checksumGroups]
  -- from `c`, the register runs over the checksum as it runs over six zeros, plus as it runs
  -- from zero over the checksum, which gives the checksum's own register back
  have hsplit := foldl_polyModStep_xor c 0 (List.replicate 6 0) (checksumGroups (S ^^^ 1))
    (by rw [hlen, List.length_replicate])
  rw [UInt32.xor_zero, zipWith_replicate_zero_xor _ hlen, ← hS, foldl_checksumGroups _ hSlt] at hsplit
  have hvalue : polyMod (expandHRP hrp ++ (values ++ createChecksum hrp values)) = 1 := by
    rw [← List.append_assoc, polyMod, List.foldl_append, ← hc, createChecksum_eq, hmod, hsplit,
      ← UInt32.xor_assoc, UInt32.xor_self, UInt32.zero_xor]
  simp [verifyChecksum, hvalue]

/-! ## Decoding what `Encode` writes -/

theorem charset_nodup : CHARSET.Nodup := by decide

/-- Every letter of `CHARSET` is printable, is not an upper-case letter, and is not the
separator `1`. -/
theorem all_charset :
    CHARSET.all (fun c => !decide ('A' ≤ c ∧ c ≤ 'Z') && decide (33 ≤ c.toNat) &&
      decide (c.toNat ≤ 126) && c != '1') = true := by decide

theorem mem_charset {c : Char} (hc : c ∈ CHARSET) :
    ¬('A' ≤ c ∧ c ≤ 'Z') ∧ 33 ≤ c.toNat ∧ c.toNat ≤ 126 ∧ c ≠ '1' := by
  have h := List.all_eq_true.mp all_charset c hc
  simp only [Bool.and_eq_true, Bool.not_eq_true', decide_eq_false_iff_not, decide_eq_true_eq,
    bne_iff_ne, ne_eq] at h
  exact ⟨h.1.1.1, h.1.1.2, h.1.2, h.2⟩

theorem lowerCase_of_not_upper {c : Char} (h : ¬('A' ≤ c ∧ c ≤ 'Z')) : lowerCase c = c := by
  rw [lowerCase, if_neg h]

theorem getD_charset_mem {d : Nat} (hd : d < 32) : CHARSET.getD d 'q' ∈ CHARSET := by
  have hd' : d < CHARSET.length := hd
  rw [List.getD_eq_getElem _ _ hd']
  exact List.getElem_mem hd'

/-- `CHARSET_REV` inverts `CHARSET`. -/
theorem charsetRev_getD {d : Nat} (hd : d < 32) : charsetRev (CHARSET.getD d 'q') = some d := by
  have hd' : d < CHARSET.length := hd
  rw [charsetRev, lowerCase_of_not_upper (mem_charset (getD_charset_mem hd)).1,
    List.getD_eq_getElem _ _ hd']
  refine List.idxOf?_eq_some_iff.mpr ⟨hd', rfl, fun j hj hjd => ?_⟩
  -- the letters are distinct, so an earlier one is another letter
  have := (charset_nodup.getElem_inj_iff).mp hjd
  omega

/-- The last `1` of a string whose data part has none is its separator. -/
theorem rfind_separator (hrp : List Char) {data : List Char} (h : '1' ∉ data) :
    rfind '1' (hrp ++ '1' :: data) = some hrp.length := by
  have hrev : (hrp ++ '1' :: data).reverse = data.reverse ++ '1' :: hrp.reverse := by simp
  have hidx : (hrp ++ '1' :: data).reverse.idxOf? '1' = some data.length := by
    rw [hrev]
    refine List.idxOf?_eq_some_iff.mpr ⟨by simp, by simp, fun j hj hj1 => ?_⟩
    rw [List.getElem_append_left (by simpa using hj)] at hj1
    exact h (List.mem_reverse.mp (hj1 ▸ List.getElem_mem _))
  rw [rfind, hidx, Option.map_some, List.length_append, List.length_cons]
  congr 1
  omega

theorem encode_eq (hrp : List Char) (values : List UInt8) :
    encode hrp values = hrp ++ '1' ::
      (values ++ createChecksum hrp values).map fun c => CHARSET.getD c.toNat 'q' := by
  simp [encode]

theorem createChecksum_lt (hrp : List Char) (values : List UInt8) :
    ∀ v ∈ createChecksum hrp values, v.toNat < 32 := by
  intro v hv
  rw [createChecksum_eq] at hv
  obtain ⟨i, hi, rfl⟩ := List.mem_iff_getElem.mp hv
  rw [toNat_checksumGroups_getElem _ hi]
  exact Nat.mod_lt _ (by decide)

/-- The separator `Encode` writes is the last `1` of the string: no letter of `CHARSET` is `1`. -/
theorem rfind_encode (hrp : List Char) {values : List UInt8} (hvalues : ∀ v ∈ values, v.toNat < 32) :
    rfind '1' (encode hrp values) = some hrp.length := by
  rw [encode_eq]
  refine rfind_separator hrp fun h => ?_
  obtain ⟨v, hv, hv1⟩ := List.mem_map.mp h
  have hv32 : v.toNat < 32 := by
    rcases List.mem_append.mp hv with hv | hv
    · exact hvalues v hv
    · exact createChecksum_lt hrp values v hv
  exact (mem_charset (getD_charset_mem hv32)).2.2.2 hv1

/-- `Decode` gives back the human-readable part and the values `Encode` was given, for a
non-empty part of printable characters with no upper-case letter and a string within the
122-character limit. -/
theorem decode_encode {hrp : List Char} {values : List UInt8} (hne : hrp ≠ [])
    (hhrp : ∀ c ∈ hrp, 33 ≤ c.toNat ∧ c.toNat ≤ 126 ∧ ¬('A' ≤ c ∧ c ≤ 'Z'))
    (hvalues : ∀ v ∈ values, v.toNat < 32) (hlen : hrp.length + 1 + values.length + 6 ≤ 122) :
    decode (encode hrp values) = (hrp, values) := by
  set combined := values ++ createChecksum hrp values with hcombined
  set data := combined.map fun c => CHARSET.getD c.toNat 'q' with hdata
  have hcomb : ∀ v ∈ combined, v.toNat < 32 := by
    intro v hv
    rcases List.mem_append.mp hv with hv | hv
    · exact hvalues v hv
    · exact createChecksum_lt hrp values v hv
  have hdata_mem : ∀ c ∈ data, c ∈ CHARSET := by
    intro c hc
    obtain ⟨v, hv, rfl⟩ := List.mem_map.mp hc
    exact getD_charset_mem (hcomb v hv)
  have hcs : (createChecksum hrp values).length = 6 := by simp [createChecksum_eq, checksumGroups]
  have hdlen : data.length = values.length + 6 := by simp [hdata, hcombined, hcs]
  -- every character is printable and none is upper-case
  have hchars : ∀ c ∈ hrp ++ '1' :: data, 33 ≤ c.toNat ∧ c.toNat ≤ 126 ∧ ¬('A' ≤ c ∧ c ≤ 'Z') := by
    intro c hc
    rcases List.mem_append.mp hc with hc | hc
    · exact hhrp c hc
    · rcases List.mem_cons.mp hc with rfl | hc
      · decide
      · have h := mem_charset (hdata_mem c hc)
        exact ⟨h.2.1, h.2.2.1, h.1⟩
  have hbad : ((hrp ++ '1' :: data).any fun c => !('a' ≤ c ∧ c ≤ 'z') && !('A' ≤ c ∧ c ≤ 'Z') &&
      (c.toNat < 33 || c.toNat > 126)) = false := by
    apply List.any_eq_false.mpr
    intro c hc
    have h := hchars c hc
    simp only [Bool.and_eq_true, Bool.or_eq_true, decide_eq_true_eq, not_and, gt_iff_lt]
    omega
  have hupper : ((hrp ++ '1' :: data).any fun c => 'A' ≤ c ∧ c ≤ 'Z') = false := by
    apply List.any_eq_false.mpr
    intro c hc
    simpa using (hchars c hc).2.2
  have hsep : '1' ∉ data := fun h => (mem_charset (hdata_mem '1' h)).2.2.2 rfl
  have hvals : data.mapM charsetRev = some (combined.map UInt8.toNat) := by
    rw [hdata, List.mapM_map]
    exact Digits.mapM_eq_some_map fun v hv => charsetRev_getD (hcomb v hv)
  have hbytes : (combined.map UInt8.toNat).map UInt8.ofNat = combined := by
    rw [List.map_map]
    conv_rhs => rw [← List.map_id combined]
    exact List.map_congr_left fun v _ => UInt8.ofNat_toNat
  have hhrp' : (hrp.map lowerCase) = hrp := by
    conv_rhs => rw [← List.map_id hrp]
    exact List.map_congr_left fun c hc => lowerCase_of_not_upper (hhrp c hc).2.2
  have hdrop : (hrp ++ '1' :: data).drop (hrp.length + 1) = data := by simp
  have htake : (hrp ++ '1' :: data).take hrp.length = hrp := List.take_left' rfl
  have hsize : (decide ((hrp ++ '1' :: data).length > 122) || decide (hrp.length = 0) ||
      decide (hrp.length + 7 > (hrp ++ '1' :: data).length)) = false := by
    have h0 : hrp.length ≠ 0 := fun h => hne (List.length_eq_zero_iff.mp h)
    simp only [List.length_append, List.length_cons, hdlen, Bool.or_eq_false_iff, decide_eq_false_iff_not]
    omega
  rw [encode_eq, ← hcombined, ← hdata, decode]
  simp only [hbad, hupper, Bool.false_or, Bool.and_false, rfind_separator hrp hsep]
  rw [if_neg Bool.false_ne_true, hsize, if_neg Bool.false_ne_true, hdrop, hvals]
  dsimp only
  rw [htake, hhrp', hbytes, hcombined, verifyChecksum_createChecksum, Bool.not_true,
    if_neg Bool.false_ne_true, List.length_append, hcs, Nat.add_sub_cancel, List.take_left' rfl]

/-- The values a string spells after its separator at `pos`, each letter read through
`CHARSET_REV`. -/
theorem mapM_charsetRev_eq {str : List Char} {pos : Nat} {vs : List Nat}
    (h : (str.drop (pos + 1)).mapM charsetRev = some vs) :
    vs.map UInt8.ofNat = (str.drop (pos + 1)).map fun c => UInt8.ofNat ((charsetRev c).getD 0) := by
  rw [Digits.eq_map_getD_of_mapM_eq_some 0 h, List.map_map]
  rfl

/-- `Decode` accepts a string only at its last separator, and only when `PolyMod` over the
expanded lower-cased part before it and all the values after it, checksum included, is `1`; it
then returns that part and the values before the checksum. -/
theorem decode_checksum {str : List Char} (h : decode str ≠ ([], [])) :
    ∃ pos, rfind '1' str = some pos ∧
      (decode str).1 = (str.take pos).map lowerCase ∧
      (decode str).2 = ((str.drop (pos + 1)).map fun c => UInt8.ofNat ((charsetRev c).getD 0)).take
        ((str.drop (pos + 1)).length - 6) ∧
      polyMod (expandHRP (decode str).1 ++
        (str.drop (pos + 1)).map fun c => UInt8.ofNat ((charsetRev c).getD 0)) = 1 := by
  revert h
  unfold decode
  dsimp only
  -- every branch but the last returns the empty pair
  split
  · intro h
    exact absurd rfl h
  · split
    · intro h
      exact absurd rfl h
    · rename_i pos hpos
      split
      · intro h
        exact absurd rfl h
      · split
        · intro h
          exact absurd rfl h
        · rename_i vs hvs
          split
          · intro h
            exact absurd rfl h
          · rename_i hverify
            intro _
            have hlen : vs.length = (str.drop (pos + 1)).length := by
              rw [← List.length_map (f := UInt8.ofNat), mapM_charsetRev_eq hvs, List.length_map]
            refine ⟨pos, hpos, rfl, ?_, ?_⟩
            · rw [← mapM_charsetRev_eq hvs, ← hlen, List.length_map]
            · rw [← mapM_charsetRev_eq hvs]
              simpa [verifyChecksum] using hverify

end Bech32

theorem bech32_round_trips :
    (∀ (hrp : List Char) (values : List UInt8), hrp ≠ [] →
      (∀ c ∈ hrp, 33 ≤ c.toNat ∧ c.toNat ≤ 126 ∧ ¬('A' ≤ c ∧ c ≤ 'Z')) →
      (∀ v ∈ values, v.toNat < 32) → hrp.length + 1 + values.length + 6 ≤ 122 →
      Bech32.decode (Bech32.encode hrp values) = (hrp, values)) ∧
    (∀ str : List Char, Bech32.decode str ≠ ([], []) → (Bech32.rfind '1' str).isSome ∧
      ∀ pos, Bech32.rfind '1' str = some pos →
        (Bech32.decode str).1 = (str.take pos).map Bech32.lowerCase ∧
        (Bech32.decode str).2 = ((str.drop (pos + 1)).map fun c =>
          UInt8.ofNat ((Bech32.charsetRev c).getD 0)).take ((str.drop (pos + 1)).length - 6) ∧
        Bech32.polyMod (Bech32.expandHRP (Bech32.decode str).1 ++
          (str.drop (pos + 1)).map fun c => UInt8.ofNat ((Bech32.charsetRev c).getD 0)) = 1) ∧
    (∀ bytes : List UInt8, (convertBits 8 5 true (bytes.map UInt8.toNat)).bind (convertBits 5 8 false) =
      some (bytes.map UInt8.toNat)) ∧
    (∀ vs : List Nat, (∀ v ∈ vs, v < 2 ^ 5) →
      (convertBits 5 8 false vs = none ↔
        5 ≤ 5 * vs.length % 8 ∨ Nat.ofDigits (2 ^ 5) vs.reverse % 2 ^ (5 * vs.length % 8) ≠ 0)) :=
  ⟨fun _ _ hne hhrp hvalues hlen => Bech32.decode_encode hne hhrp hvalues hlen,
    fun _ h => by
      obtain ⟨pos, hpos, hchk⟩ := Bech32.decode_checksum h
      refine ⟨by rw [hpos]; rfl, fun pos' hpos' => ?_⟩
      rw [hpos, Option.some.injEq] at hpos'
      exact hpos' ▸ hchk,
    convertBits_round_trip, fun _ hvs => convertBits_5_8_eq_none hvs⟩

/-- The string `veil1` followed by the letters of `[0, 31]` and their checksum decodes back to
`(veil, [0, 31])`, and the checksum is read over the string's own letters after its separator
(at index 4); a single 5-bit value has five padding bits and is refused. -/
theorem bech32_round_trips_veil :
    Bech32.decode (Bech32.encode ['v', 'e', 'i', 'l'] [0, 31]) = (['v', 'e', 'i', 'l'], [0, 31]) ∧
      Bech32.polyMod (Bech32.expandHRP ['v', 'e', 'i', 'l'] ++
        ((Bech32.encode ['v', 'e', 'i', 'l'] [0, 31]).drop 5).map fun c =>
          UInt8.ofNat ((Bech32.charsetRev c).getD 0)) = 1 ∧
      convertBits 5 8 false [1] = none := by
  have hhrp : ∀ c ∈ ['v', 'e', 'i', 'l'], 33 ≤ c.toNat ∧ c.toNat ≤ 126 ∧ ¬('A' ≤ c ∧ c ≤ 'Z') := by
    intro c hc
    simp only [List.mem_cons, List.not_mem_nil, or_false] at hc
    rcases hc with rfl | rfl | rfl | rfl <;> decide
  have hvalues : ∀ v ∈ ([0, 31] : List UInt8), v.toNat < 32 := by
    intro v hv
    simp only [List.mem_cons, List.not_mem_nil, or_false] at hv
    rcases hv with rfl | rfl <;> decide
  have hdec := bech32_round_trips.1 ['v', 'e', 'i', 'l'] [0, 31] (by simp) hhrp hvalues (by decide)
  have hsep : Bech32.rfind '1' (Bech32.encode ['v', 'e', 'i', 'l'] [0, 31]) = some 4 :=
    Bech32.rfind_encode _ hvalues
  have hchk := (bech32_round_trips.2.1 _ (by rw [hdec]; simp)).2 4 hsep
  rw [hdec] at hchk
  exact ⟨hdec, hchk.2.2, (bech32_round_trips.2.2.2 [1] (by simp)).mpr (Or.inl (by decide))⟩

end Veil
