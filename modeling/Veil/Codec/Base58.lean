import Mathlib
import Veil.Lib.Digits

/-!
# Base58 and Base58Check (`base58.cpp`)

`EncodeBase58` and `DecodeBase58` convert between bytes and the 58-letter alphabet
with a big-endian digit buffer sized from the input: each input digit is folded in
by the carry loop `b = b · from + digit`, which runs over the digits written so far
and as far as the carry reaches.  The buffer is a little-endian list here (its head
is the C++ `rbegin()`).  The `assert(carry == 0)` after each pass tests the carry the
pass leaves past the end of the buffer; `decodeBase58Carries` and `encodeBase58Carries`
list those carries, one per pass.

Read as arithmetic, a pass multiplies the number the buffer holds by the input base and adds
the digit (`MulAddPass`, `Holds`).  The buffers are sized so that the number always fits
(`256 ^ 8 ≤ 58 ^ 11` and `58 ^ 71 ≤ 256 ^ 52`, with `11 / 8 ≤ 138 / 100` and
`52 / 71 ≤ 733 / 1000`, through `Digits.pow_lt_pow_mul_div_succ`),
so that no pass leaves a carry, and the codec round-trips:

    decodeBase58 (encodeBase58 vch) = some vch                      (decodeBase58_encodeBase58)
    (∀ c ∈ psz, c ∈ pszBase58) →
      (decodeBase58 psz).map encodeBase58 = some psz                (encodeBase58_decodeBase58)
    4 ≤ (hash vchIn).length →
      decodeBase58Check hash (encodeBase58Check hash vchIn) = some vchIn

A `std::string` is the list of its characters; `DecodeBase58` reads its `c_str()`, which
stops at the first NUL (`cStr`).  `Hash` (double SHA-256) is the parameter `hash`, of which the
checksum takes the first four bytes.
-/

namespace Veil

/-- `pszBase58`: "All alphanumeric characters except for "0", "I", "O", and "l"". -/
def pszBase58 : List Char :=
  ['1', '2', '3', '4', '5', '6', '7', '8', '9',
   'A', 'B', 'C', 'D', 'E', 'F', 'G', 'H', 'J', 'K', 'L', 'M', 'N', 'P', 'Q', 'R', 'S', 'T',
   'U', 'V', 'W', 'X', 'Y', 'Z',
   'a', 'b', 'c', 'd', 'e', 'f', 'g', 'h', 'i', 'j', 'k', 'm', 'n', 'o', 'p', 'q', 'r', 's',
   't', 'u', 'v', 'w', 'x', 'y', 'z']

/-- `mapBase58`, the table inverting `pszBase58` (`-1` is `none`). -/
def mapBase58 (c : Char) : Option Nat := pszBase58.idxOf? c

/-- `isspace` in the C locale. -/
def isSpace (c : Char) : Bool :=
  c = ' ' || c = '\t' || c = '\n' || c = '\x0b' || c = '\x0c' || c = '\r'

/-- One pass of the carry loop over the little-endian buffer `b`: `b = b · mul + carry`
in base `base`, over the first `length` digits and as far as the carry reaches.  The
buffer, the carry left over and the number of digits visited (the new `length`). -/
def mulAddLoop (mul base : Nat) : List Nat → Nat → Nat → Nat → List Nat × Nat × Nat
  | [], carry, i, _ => ([], carry, i)
  | d :: ds, carry, i, length =>
    if carry ≠ 0 ∨ i < length then
      let carry := carry + mul * d
      let r := mulAddLoop mul base ds (carry / base) (i + 1) length
      (carry % base :: r.1, r.2.1, r.2.2)
    else (d :: ds, carry, i)

/-- The character loop of `DecodeBase58`: stops at the end or at a space, fails on a
character outside the alphabet ("Invalid b58 character"). -/
def decodeBase58Loop : List Char → List Nat → Nat → Option (List Char × List Nat × Nat)
  | [], b256, length => some ([], b256, length)
  | c :: cs, b256, length =>
    if isSpace c then some (c :: cs, b256, length)
    else match mapBase58 c with
      | none => none
      | some carry =>
        let r := mulAddLoop 58 256 b256 carry 0 length
        decodeBase58Loop cs r.1 r.2.2

/-- The carry each pass of the character loop leaves, which "assert(carry == 0)" tests:
one for each character decoded. -/
def decodeBase58LoopCarries : List Char → List Nat → Nat → List Nat
  | [], _, _ => []
  | c :: cs, b256, length =>
    if isSpace c then []
    else match mapBase58 c with
      | none => []
      | some carry =>
        let r := mulAddLoop 58 256 b256 carry 0 length
        r.2.1 :: decodeBase58LoopCarries cs r.1 r.2.2

/-- `std::string::c_str()`: the characters before the first NUL, where every `*psz` test of
`DecodeBase58` stops. -/
def cStr (str : List Char) : List Char := str.takeWhile (· ≠ '\x00')

/-- `DecodeBase58(const std::string&)`, which decodes `str.c_str()`. -/
def decodeBase58 (str : List Char) : Option (List UInt8) :=
  -- "Skip leading spaces."
  let psz := (cStr str).dropWhile isSpace
  -- "Skip and count leading '1's."
  let zeroes := (psz.takeWhile (· = '1')).length
  let psz := psz.dropWhile (· = '1')
  -- "Allocate enough space in big-endian base256 representation."
  let size := psz.length * 733 / 1000 + 1
  match decodeBase58Loop psz (List.replicate size 0) 0 with
  | none => none
  | some (rest, b256, length) =>
    -- "Skip trailing spaces."
    if !(rest.dropWhile isSpace).isEmpty then none
    else
      -- "Skip leading zeroes in b256."
      let digits := ((b256.take length).reverse).dropWhile (· = 0)
      some (List.replicate zeroes 0 ++ digits.map UInt8.ofNat)

/-- What follows an embedded NUL is not read. -/
example : decodeBase58 ['2', '\x00', '0'] = some [1] := by decide

/-- The carries the asserts of `DecodeBase58` test, on the buffer it allocates. -/
def decodeBase58Carries (str : List Char) : List Nat :=
  let psz := ((cStr str).dropWhile isSpace).dropWhile (· = '1')
  decodeBase58LoopCarries psz (List.replicate (psz.length * 733 / 1000 + 1) 0) 0

/-- The byte loop of `EncodeBase58`: "Apply "b58 = b58 * 256 + ch"." -/
def encodeBase58Loop : List UInt8 → List Nat → Nat → List Nat × Nat
  | [], b58, length => (b58, length)
  | b :: bs, b58, length =>
    let r := mulAddLoop 256 58 b58 b.toNat 0 length
    encodeBase58Loop bs r.1 r.2.2

/-- The carry each pass of the byte loop leaves, which "assert(carry == 0)" tests. -/
def encodeBase58LoopCarries : List UInt8 → List Nat → Nat → List Nat
  | [], _, _ => []
  | b :: bs, b58, length =>
    let r := mulAddLoop 256 58 b58 b.toNat 0 length
    r.2.1 :: encodeBase58LoopCarries bs r.1 r.2.2

/-- `EncodeBase58`. -/
def encodeBase58 (vch : List UInt8) : List Char :=
  -- "Skip & count leading zeroes."
  let zeroes := (vch.takeWhile (· = 0)).length
  let vch := vch.dropWhile (· = 0)
  -- "Allocate enough space in big-endian base58 representation."
  let size := vch.length * 138 / 100 + 1
  let r := encodeBase58Loop vch (List.replicate size 0) 0
  -- "Skip leading zeroes in base58 result."
  let digits := ((r.1.take r.2).reverse).dropWhile (· = 0)
  List.replicate zeroes '1' ++ digits.map fun d => pszBase58.getD d '1'

/-- The carries the asserts of `EncodeBase58` test, on the buffer it allocates. -/
def encodeBase58Carries (vch : List UInt8) : List Nat :=
  let vch := vch.dropWhile (· = 0)
  encodeBase58LoopCarries vch (List.replicate (vch.length * 138 / 100 + 1) 0) 0

/-! ## The carry loop as arithmetic on the buffer -/

open Nat (ofDigits)

/-- What one pass of the carry loop does to the buffer: it keeps its length, multiplies its
value by `mul` and adds the carry, up to the carry left over past its end, and leaves no
digit set at or past the `length` it returns. -/
structure MulAddPass (mul base : Nat) (ds : List Nat) (carry i : Nat)
    (r : List Nat × Nat × Nat) : Prop where
  length : r.1.length = ds.length
  value : ofDigits base r.1 + base ^ ds.length * r.2.1 = mul * ofDigits base ds + carry
  le_length : i ≤ r.2.2
  zero_beyond : ∀ j, r.2.2 ≤ i + j → r.1.getD j 0 = 0

theorem mulAddLoop_pass (mul base : Nat) {ds : List Nat} {carry i length : Nat}
    (hz : ∀ j, length ≤ i + j → ds.getD j 0 = 0) :
    MulAddPass mul base ds carry i (mulAddLoop mul base ds carry i length) := by
  induction ds generalizing carry i with
  | nil => exact ⟨rfl, by simp [mulAddLoop], le_refl i, fun _ _ => rfl⟩
  | cons d ds ih =>
    by_cases hgo : carry ≠ 0 ∨ i < length
    · -- the digit is rewritten and the pass goes on with the carry
      set r := mulAddLoop mul base ds ((carry + mul * d) / base) (i + 1) length with hr
      have hp : MulAddPass mul base ds ((carry + mul * d) / base) (i + 1) r :=
        ih fun j hj => by simpa using hz (j + 1) (by omega)
      have hle := hp.le_length
      rw [mulAddLoop, if_pos hgo]
      show MulAddPass mul base (d :: ds) carry i ((carry + mul * d) % base :: r.1, r.2.1, r.2.2)
      refine ⟨by simp [hp.length], ?_, show i ≤ r.2.2 by omega, ?_⟩
      · show (carry + mul * d) % base + base * ofDigits base r.1 + base ^ (ds.length + 1) * r.2.1 =
          mul * (d + base * ofDigits base ds) + carry
        calc (carry + mul * d) % base + base * ofDigits base r.1 + base ^ (ds.length + 1) * r.2.1
            = (carry + mul * d) % base + base * (ofDigits base r.1 + base ^ ds.length * r.2.1) := by
              ring
          _ = (carry + mul * d) % base + base * (mul * ofDigits base ds + (carry + mul * d) / base) := by
              rw [hp.value]
          _ = ((carry + mul * d) % base + base * ((carry + mul * d) / base)) +
              mul * (base * ofDigits base ds) := by ring
          _ = mul * (d + base * ofDigits base ds) + carry := by rw [Nat.mod_add_div]; ring
      · intro j hj
        dsimp only at hj ⊢
        cases j with
        | zero => omega
        | succ j => exact hp.zero_beyond j (by omega)
    · -- no carry and no digit written past this point: the rest stays as it is
      have hc : carry = 0 := by omega
      have hzero : ofDigits base (d :: ds) = 0 := by
        rw [← Digits.ofDigits_take_of_getD 0 (fun j _ => hz j (by omega))]
        rfl
      rw [mulAddLoop, if_neg hgo]
      refine ⟨rfl, ?_, le_refl i, fun j _ => hz j (by omega)⟩
      show ofDigits base (d :: ds) + base ^ (ds.length + 1) * carry = mul * ofDigits base (d :: ds) + carry
      rw [hzero, hc]
      simp

theorem mulAddLoop_lt {mul base : Nat} (hbase : 0 < base) {ds : List Nat}
    (hds : ∀ x ∈ ds, x < base) (carry i length : Nat) :
    ∀ x ∈ (mulAddLoop mul base ds carry i length).1, x < base := by
  induction ds generalizing carry i with
  | nil => simp [mulAddLoop]
  | cons d ds ih =>
    rw [mulAddLoop]
    split
    · intro x hx
      rcases List.mem_cons.mp hx with rfl | hx
      · exact Nat.mod_lt _ hbase
      · exact ih (fun y hy => hds y (List.mem_cons_of_mem d hy)) _ _ x hx
    · exact hds

/-- A buffer of digits in base `base`, least significant first, holding `value` with no digit
set at or past `length`: what the character and byte loops keep from pass to pass. -/
structure Holds (base : Nat) (b : List Nat) (length value : Nat) : Prop where
  lt : ∀ x ∈ b, x < base
  zero_beyond : ∀ j, length ≤ j → b.getD j 0 = 0
  value : ofDigits base b = value

theorem holds_replicate {base : Nat} (hbase : 0 < base) (size : Nat) :
    Holds base (List.replicate size 0) 0 0 := by
  refine ⟨fun x hx => by rw [List.eq_of_mem_replicate hx]; exact hbase, fun j _ => ?_,
    Nat.ofDigits_replicate_zero⟩
  rw [List.getD_eq_getElem?_getD, List.getElem?_replicate]
  split <;> rfl

/-- A pass whose result fits in the buffer leaves no carry, so that the assert after it
holds, and the buffer then holds `mul * value + carry`. -/
theorem Holds.pass {base length value : Nat} {b : List Nat} (h : Holds base b length value)
    (hbase : 0 < base) {mul carry : Nat} (hfit : mul * value + carry < base ^ b.length) :
    (mulAddLoop mul base b carry 0 length).2.1 = 0 ∧
      (mulAddLoop mul base b carry 0 length).1.length = b.length ∧
      Holds base (mulAddLoop mul base b carry 0 length).1 (mulAddLoop mul base b carry 0 length).2.2
        (mul * value + carry) := by
  set r := mulAddLoop mul base b carry 0 length with hr
  have hp : MulAddPass mul base b carry 0 r :=
    mulAddLoop_pass mul base fun j hj => h.zero_beyond j (by omega)
  have hv := hp.value
  rw [h.value] at hv
  have hcarry : r.2.1 = 0 := by
    have hlt : base ^ b.length * r.2.1 < base ^ b.length * 1 := by
      rw [Nat.mul_one]
      calc base ^ b.length * r.2.1 ≤ ofDigits base r.1 + base ^ b.length * r.2.1 := Nat.le_add_left _ _
        _ = mul * value + carry := hv
        _ < base ^ b.length := hfit
    exact Nat.lt_one_iff.mp (Nat.lt_of_mul_lt_mul_left hlt)
  rw [hcarry, Nat.mul_zero, Nat.add_zero] at hv
  exact ⟨hcarry, hp.length, mulAddLoop_lt hbase h.lt _ _ _,
    fun j hj => hp.zero_beyond j (by omega), hv⟩

/-- The digits read out of a buffer, high zeros dropped, are those of its value. -/
theorem Holds.digits {base length value : Nat} {b : List Nat} (h : Holds base b length value)
    (hbase : 1 < base) :
    (b.take length).reverse.dropWhile (· = 0) = (Nat.digits base value).reverse := by
  rw [Digits.reverse_dropWhile_eq_digits hbase (fun x hx => h.lt x (List.mem_of_mem_take hx)),
    Digits.ofDigits_take_of_getD length h.zero_beyond, h.value]

/-- The passes of the carry loop over input digits, most significant first: the buffer, its
`length` and the carries the passes leave.  Both loops of the codec are these passes once
their input is read as digits. -/
def mulAddPasses (mul base : Nat) : List Nat → List Nat → Nat → List Nat × Nat × List Nat
  | [], b, length => (b, length, [])
  | d :: ds, b, length =>
    let r := mulAddLoop mul base b d 0 length
    let rest := mulAddPasses mul base ds r.1 r.2.2
    (rest.1, rest.2.1, r.2.1 :: rest.2.2)

/-- The invariant of the loops: while the final number fits in the buffer, every pass leaves
no carry and the buffer holds the number of the digits read so far. -/
theorem Holds.passes {base mul length : Nat} {b acc : List Nat}
    (h : Holds base b length (ofDigits mul acc)) (hbase : 0 < base) (hmul : 0 < mul)
    {ds : List Nat} (hfit : ofDigits mul (ds.reverse ++ acc) < base ^ b.length) :
    Holds base (mulAddPasses mul base ds b length).1 (mulAddPasses mul base ds b length).2.1
        (ofDigits mul (ds.reverse ++ acc)) ∧
      ∀ x ∈ (mulAddPasses mul base ds b length).2.2, x = 0 := by
  induction ds generalizing b length acc with
  | nil => exact ⟨h, by simp [mulAddPasses]⟩
  | cons d ds ih =>
    have hrev : (d :: ds).reverse ++ acc = ds.reverse ++ d :: acc := by simp
    rw [hrev] at hfit ⊢
    -- the number after this pass is at most the final one, so the pass fits
    have hstep : mul * ofDigits mul acc + d < base ^ b.length :=
      calc mul * ofDigits mul acc + d = ofDigits mul (d :: acc) := by rw [Nat.ofDigits_cons]; ring
        _ ≤ ofDigits mul (ds.reverse ++ d :: acc) := Digits.ofDigits_le_ofDigits_append hmul _ _
        _ < base ^ b.length := hfit
    obtain ⟨hcarry, hlen, hb⟩ := h.pass hbase hstep
    have hb' : Holds base (mulAddLoop mul base b d 0 length).1 (mulAddLoop mul base b d 0 length).2.2
        (ofDigits mul (d :: acc)) := by
      rw [Nat.ofDigits_cons, Nat.add_comm]
      exact hb
    obtain ⟨hrest, hcarries⟩ := ih hb' (by rw [hlen]; exact hfit)
    refine ⟨hrest, ?_⟩
    intro x hx
    rcases List.mem_cons.mp hx with rfl | hx
    · exact hcarry
    · exact hcarries x hx

/-- A buffer of `n * p / q + 1` zeros, filled by the passes over `n` digits in base `mul`,
where `mul ^ q' ≤ base ^ p'` for some `p' / q' ≤ p / q`: no pass leaves a carry, and the buffer
holds their number. -/
theorem holds_mulAddPasses_replicate {mul base p q p' q' : Nat} (hq : 0 < q) (hq' : 0 < q')
    (hmul : 1 < mul) (hbase : 1 < base) (hpow : mul ^ q' ≤ base ^ p') (hpq : p' * q ≤ p * q')
    (ds : List Nat) (hds : ∀ d ∈ ds, d < mul) :
    let r := mulAddPasses mul base ds (List.replicate (ds.length * p / q + 1) 0) 0
    Holds base r.1 r.2.1 (ofDigits mul ds.reverse) ∧ ∀ x ∈ r.2.2, x = 0 := by
  have hfit : ofDigits mul (ds.reverse ++ []) < base ^ (List.replicate (ds.length * p / q + 1) 0).length := by
    rw [List.append_nil, List.length_replicate]
    calc ofDigits mul ds.reverse < mul ^ ds.reverse.length :=
          Nat.ofDigits_lt_base_pow_length hmul fun x hx => hds x (List.mem_reverse.mp hx)
      _ = mul ^ ds.length := by rw [List.length_reverse]
      _ < base ^ (ds.length * p / q + 1) := Digits.pow_lt_pow_mul_div_succ hq hq' hbase hpow hpq _
  have h0 : Holds base (List.replicate (ds.length * p / q + 1) 0) 0 (ofDigits mul []) :=
    holds_replicate (by omega) _
  have h := h0.passes (by omega) (by omega) hfit
  simpa using h

/-! ## The alphabet -/

theorem pszBase58_nodup : pszBase58.Nodup := by decide

theorem all_isSpace_pszBase58 : pszBase58.all (fun c => !isSpace c) = true := by decide

theorem idxOf_pszBase58_lt {c : Char} (hc : c ∈ pszBase58) : pszBase58.idxOf c < 58 :=
  List.idxOf_lt_length_iff.mpr hc

theorem getD_pszBase58_eq_getElem {d : Nat} (hd : d < pszBase58.length) :
    pszBase58.getD d '1' = pszBase58[d] :=
  List.getD_eq_getElem _ _ hd

theorem getD_idxOf_pszBase58 {c : Char} (hc : c ∈ pszBase58) :
    pszBase58.getD (pszBase58.idxOf c) '1' = c := by
  rw [getD_pszBase58_eq_getElem (List.idxOf_lt_length_iff.mpr hc), List.getElem_idxOf]

theorem idxOf_getD_pszBase58 {d : Nat} (hd : d < 58) : pszBase58.idxOf (pszBase58.getD d '1') = d := by
  have hd' : d < pszBase58.length := hd
  rw [getD_pszBase58_eq_getElem hd']
  exact pszBase58_nodup.idxOf_getElem d hd'

theorem getD_pszBase58_mem {d : Nat} (hd : d < 58) : pszBase58.getD d '1' ∈ pszBase58 := by
  have hd' : d < pszBase58.length := hd
  rw [getD_pszBase58_eq_getElem hd']
  exact List.getElem_mem hd'

/-- The letter of digit zero is `1`, the letter `EncodeBase58` writes for a zero byte. -/
theorem getD_pszBase58_eq_one {d : Nat} (hd : d < 58) (h1 : pszBase58.getD d '1' = '1') : d = 0 := by
  have hd' : d < pszBase58.length := hd
  rw [getD_pszBase58_eq_getElem hd'] at h1
  have h0 : pszBase58[d] = pszBase58[0] := h1
  exact pszBase58_nodup.getElem_inj_iff.mp h0

theorem isSpace_of_mem {c : Char} (hc : c ∈ pszBase58) : isSpace c = false := by
  simpa using List.all_eq_true.mp all_isSpace_pszBase58 c hc

/-- `mapBase58` inverts the alphabet: a letter's digit is its index. -/
theorem mapBase58_of_mem {c : Char} (hc : c ∈ pszBase58) : mapBase58 c = some (pszBase58.idxOf c) := by
  have hlt := List.idxOf_lt_length_iff.mpr hc
  refine List.idxOf?_eq_some_iff.mpr ⟨hlt, List.getElem_idxOf hlt, ?_⟩
  -- an earlier letter equal to `c` would be found first, which the distinct letters rule out
  intro j hj hjc
  have hidx := pszBase58_nodup.idxOf_getElem j (by omega)
  rw [hjc] at hidx
  omega

theorem idxOf_pszBase58_eq_zero {c : Char} (hc : c ∈ pszBase58) (h0 : pszBase58.idxOf c = 0) :
    c = '1' := by
  rw [← getD_idxOf_pszBase58 hc, h0]
  rfl

/-! ## The loops as passes over digits -/

theorem encodeBase58Loop_eq (bs : List UInt8) (b : List Nat) (length : Nat) :
    encodeBase58Loop bs b length = ((mulAddPasses 256 58 (bs.map UInt8.toNat) b length).1,
      (mulAddPasses 256 58 (bs.map UInt8.toNat) b length).2.1) := by
  induction bs generalizing b length with
  | nil => rfl
  | cons x bs ih => rw [encodeBase58Loop, ih]; rfl

theorem encodeBase58LoopCarries_eq (bs : List UInt8) (b : List Nat) (length : Nat) :
    encodeBase58LoopCarries bs b length = (mulAddPasses 256 58 (bs.map UInt8.toNat) b length).2.2 := by
  induction bs generalizing b length with
  | nil => rfl
  | cons x bs ih => rw [encodeBase58LoopCarries, ih]; rfl

/-- On letters of the alphabet the character loop neither stops nor fails. -/
theorem decodeBase58Loop_of_mem {cs : List Char} (hcs : ∀ c ∈ cs, c ∈ pszBase58)
    (b : List Nat) (length : Nat) :
    decodeBase58Loop cs b length = some ([], (mulAddPasses 58 256 (cs.map pszBase58.idxOf) b length).1,
      (mulAddPasses 58 256 (cs.map pszBase58.idxOf) b length).2.1) := by
  induction cs generalizing b length with
  | nil => rfl
  | cons c cs ih =>
    have hc := hcs c List.mem_cons_self
    rw [decodeBase58Loop, isSpace_of_mem hc, mapBase58_of_mem hc, if_neg Bool.false_ne_true]
    exact ih (fun c' hc' => hcs c' (List.mem_cons_of_mem c hc')) _ _

theorem decodeBase58LoopCarries_of_mem {cs : List Char} (hcs : ∀ c ∈ cs, c ∈ pszBase58)
    (b : List Nat) (length : Nat) :
    decodeBase58LoopCarries cs b length = (mulAddPasses 58 256 (cs.map pszBase58.idxOf) b length).2.2 := by
  induction cs generalizing b length with
  | nil => rfl
  | cons c cs ih =>
    have hc := hcs c List.mem_cons_self
    rw [decodeBase58LoopCarries, isSpace_of_mem hc, mapBase58_of_mem hc, if_neg Bool.false_ne_true]
    exact congrArg _ (ih (fun c' hc' => hcs c' (List.mem_cons_of_mem c hc')) _ _)

/-! ## What the codec computes -/

/-- The buffer `EncodeBase58` allocates for bytes `bs` holds their number after the byte loop,
and no pass leaves a carry. -/
theorem encodeBase58_passes (bs : List UInt8) :
    let r := mulAddPasses 256 58 (bs.map UInt8.toNat) (List.replicate (bs.length * 138 / 100 + 1) 0) 0
    Holds 58 r.1 r.2.1 (ofDigits 256 (bs.map UInt8.toNat).reverse) ∧ ∀ x ∈ r.2.2, x = 0 := by
  -- `log 256 / log 58 < 11 / 8 ≤ 138 / 100`
  have h := holds_mulAddPasses_replicate (by decide : 0 < 100) (by decide : 0 < 8) (by decide)
    (by decide) (by norm_num : 256 ^ 8 ≤ 58 ^ 11) (by decide : 11 * 100 ≤ 138 * 8)
    (bs.map UInt8.toNat) (fun d hd => by
      obtain ⟨x, -, rfl⟩ := List.mem_map.mp hd
      exact x.toNat_lt)
  rw [List.length_map] at h
  exact h

/-- The buffer `DecodeBase58` allocates for letters `cs` of the alphabet holds their number after
the character loop, and no pass leaves a carry. -/
theorem decodeBase58_passes {cs : List Char} (hcs : ∀ c ∈ cs, c ∈ pszBase58) :
    let r := mulAddPasses 58 256 (cs.map pszBase58.idxOf) (List.replicate (cs.length * 733 / 1000 + 1) 0) 0
    Holds 256 r.1 r.2.1 (ofDigits 58 (cs.map pszBase58.idxOf).reverse) ∧ ∀ x ∈ r.2.2, x = 0 := by
  -- `log 58 / log 256 < 52 / 71 ≤ 733 / 1000`
  have h := holds_mulAddPasses_replicate (by decide : 0 < 1000) (by decide : 0 < 71) (by decide)
    (by decide) (by norm_num : 58 ^ 71 ≤ 256 ^ 52) (by decide : 52 * 1000 ≤ 733 * 71)
    (cs.map pszBase58.idxOf) (fun d hd => by
      obtain ⟨c, hc, rfl⟩ := List.mem_map.mp hd
      exact idxOf_pszBase58_lt (hcs c hc))
  rw [List.length_map] at h
  exact h

/-- `EncodeBase58` writes a `1` for each leading zero byte, then the base-58 digits of the
number the other bytes spell, most significant first. -/
theorem encodeBase58_eq (vch : List UInt8) :
    encodeBase58 vch = List.replicate (vch.takeWhile (· = 0)).length '1' ++
      (Nat.digits 58 (ofDigits 256 ((vch.dropWhile (· = 0)).map UInt8.toNat).reverse)).reverse.map
        fun d => pszBase58.getD d '1' := by
  rw [encodeBase58, encodeBase58Loop_eq, (encodeBase58_passes _).1.digits (by decide)]

theorem encodeBase58Carries_eq_zero (vch : List UInt8) : ∀ x ∈ encodeBase58Carries vch, x = 0 := by
  rw [encodeBase58Carries, encodeBase58LoopCarries_eq]
  exact (encodeBase58_passes _).2

theorem dropWhile_isSpace_of_mem {psz : List Char} (h : ∀ c ∈ psz, c ∈ pszBase58) :
    psz.dropWhile isSpace = psz := by
  cases psz with
  | nil => rfl
  | cons c cs => rw [List.dropWhile_cons, isSpace_of_mem (h c List.mem_cons_self), if_neg Bool.false_ne_true]

/-- A string of letters of the alphabet holds no NUL. -/
theorem cStr_of_mem {psz : List Char} (h : ∀ c ∈ psz, c ∈ pszBase58) : cStr psz = psz :=
  List.takeWhile_eq_self_iff.mpr fun c hc => by
    have hnul : '\x00' ∉ pszBase58 := by decide
    exact decide_eq_true fun h0 => hnul (h0 ▸ h c hc)

/-- On a string of letters of the alphabet, `DecodeBase58` writes a zero byte for each leading
`1`, then the bytes of the number the other letters spell. -/
theorem decodeBase58_of_mem {psz : List Char} (h : ∀ c ∈ psz, c ∈ pszBase58) :
    decodeBase58 psz = some (List.replicate (psz.takeWhile (· = '1')).length 0 ++
      (Nat.digits 256 (ofDigits 58 ((psz.dropWhile (· = '1')).map pszBase58.idxOf).reverse)).reverse.map
        UInt8.ofNat) := by
  have hrest : ∀ c ∈ psz.dropWhile (· = '1'), c ∈ pszBase58 :=
    fun c hc => h c ((List.dropWhile_sublist _).subset hc)
  rw [decodeBase58, cStr_of_mem h, dropWhile_isSpace_of_mem h, decodeBase58Loop_of_mem hrest]
  dsimp only
  rw [List.dropWhile_nil, List.isEmpty_nil, Bool.not_true, if_neg Bool.false_ne_true,
    (decodeBase58_passes hrest).1.digits (by decide)]

theorem decodeBase58Carries_of_mem {psz : List Char} (h : ∀ c ∈ psz, c ∈ pszBase58) :
    ∀ x ∈ decodeBase58Carries psz, x = 0 := by
  have hrest : ∀ c ∈ psz.dropWhile (· = '1'), c ∈ pszBase58 :=
    fun c hc => h c ((List.dropWhile_sublist _).subset hc)
  rw [decodeBase58Carries, cStr_of_mem h, dropWhile_isSpace_of_mem h, decodeBase58LoopCarries_of_mem hrest]
  exact (decodeBase58_passes hrest).2

/-! ## Round trips -/

/-- `DecodeBase58` inverts `EncodeBase58`. -/
theorem decodeBase58_encodeBase58 (vch : List UInt8) : decodeBase58 (encodeBase58 vch) = some vch := by
  set v := vch.dropWhile (· = 0) with hv
  set D := (Nat.digits 58 (ofDigits 256 (v.map UInt8.toNat).reverse)).reverse with hD
  have hDlt : ∀ d ∈ D, d < 58 := fun d hd => Nat.digits_lt_base (by decide) (List.mem_reverse.mp hd)
  -- the letters written for the digits: none of them a leading `1`, all of them read back
  have hhead : (D.map fun d => pszBase58.getD d '1').head? ≠ some '1' := by
    intro h1
    rw [List.head?_map, Option.map_eq_some_iff] at h1
    obtain ⟨d, hd, hd1⟩ := h1
    have hd0 : d = 0 := getD_pszBase58_eq_one (hDlt d (List.mem_of_head? hd)) hd1
    exact Digits.head?_reverse_digits_ne_zero 58 _ (by rw [← hD, hd, hd0])
  have hmem : ∀ c ∈ encodeBase58 vch, c ∈ pszBase58 := by
    rw [encodeBase58_eq, ← hv, ← hD]
    intro c hc
    rcases List.mem_append.mp hc with hc | hc
    · rw [List.eq_of_mem_replicate hc]
      decide
    · obtain ⟨d, hd, rfl⟩ := List.mem_map.mp hc
      exact getD_pszBase58_mem (hDlt d hd)
  have hidx : (D.map fun d => pszBase58.getD d '1').map pszBase58.idxOf = D := by
    rw [List.map_map]
    exact (List.map_congr_left fun d hd => idxOf_getD_pszBase58 (hDlt d hd)).trans (List.map_id D)
  -- the bytes after the leading zeros, whose first one is not zero
  have hvlt : ∀ x ∈ v.map UInt8.toNat, x < 256 := fun x hx => by
    obtain ⟨b, -, rfl⟩ := List.mem_map.mp hx
    exact b.toNat_lt
  have hvhead : (v.map UInt8.toNat).head? ≠ some 0 := by
    intro h0
    rw [List.head?_map, Option.map_eq_some_iff] at h0
    obtain ⟨b, hb, hb0⟩ := h0
    have hb0' : b = 0 := UInt8.toNat_inj.mp (by rw [hb0]; rfl)
    exact Digits.head?_dropWhile_ne 0 vch (by rw [← hv, hb, hb0'])
  rw [decodeBase58_of_mem hmem, encodeBase58_eq, ← hv, ← hD,
    Digits.takeWhile_replicate_append '1' _ hhead, Digits.dropWhile_replicate_append '1' _ hhead,
    List.length_replicate, hidx, hD, List.reverse_reverse, Nat.ofDigits_digits,
    Digits.digits_ofDigits_reverse (by decide) hvlt hvhead, List.reverse_reverse, List.map_map]
  have hbytes : v.map (UInt8.ofNat ∘ UInt8.toNat) = v := by
    conv_rhs => rw [← List.map_id v]
    exact List.map_congr_left fun b _ => UInt8.ofNat_toNat
  rw [hbytes, hv, Digits.replicate_takeWhile_append]

/-- `EncodeBase58` inverts `DecodeBase58` on the strings of letters of the alphabet. -/
theorem encodeBase58_decodeBase58 {psz : List Char} (h : ∀ c ∈ psz, c ∈ pszBase58) :
    (decodeBase58 psz).map encodeBase58 = some psz := by
  set s := psz.dropWhile (· = '1') with hs
  set B := (Nat.digits 256 (ofDigits 58 (s.map pszBase58.idxOf).reverse)).reverse with hB
  have hBlt : ∀ d ∈ B, d < 256 := fun d hd => Nat.digits_lt_base (by decide) (List.mem_reverse.mp hd)
  -- the bytes written for the digits: the first is not zero, and all of them are read back
  have hhead : (B.map UInt8.ofNat).head? ≠ some 0 := by
    intro h0
    rw [List.head?_map, Option.map_eq_some_iff] at h0
    obtain ⟨d, hd, hd0⟩ := h0
    have hlt : d < 256 := hBlt d (List.mem_of_head? hd)
    have hd0' : d = 0 := by
      have := congrArg UInt8.toNat hd0
      rwa [UInt8.toNat_ofNat', Nat.mod_eq_of_lt hlt] at this
    exact Digits.head?_reverse_digits_ne_zero 256 _ (by rw [← hB, hd, hd0'])
  have htoNat : (B.map UInt8.ofNat).map UInt8.toNat = B := by
    rw [List.map_map]
    refine (List.map_congr_left fun d hd => ?_).trans (List.map_id B)
    show (UInt8.ofNat d).toNat = d
    rw [UInt8.toNat_ofNat', Nat.mod_eq_of_lt (hBlt d hd)]
  -- the letters after the leading `1`s, whose first one is not `1`
  have hslt : ∀ d ∈ s.map pszBase58.idxOf, d < 58 := fun d hd => by
    obtain ⟨c, hc, rfl⟩ := List.mem_map.mp hd
    exact idxOf_pszBase58_lt (h c ((List.dropWhile_sublist _).subset hc))
  have hshead : (s.map pszBase58.idxOf).head? ≠ some 0 := by
    intro h0
    rw [List.head?_map, Option.map_eq_some_iff] at h0
    obtain ⟨c, hc, hc0⟩ := h0
    have hmem : c ∈ pszBase58 := h c ((List.dropWhile_sublist _).subset (List.mem_of_head? hc))
    exact Digits.head?_dropWhile_ne '1' psz (by rw [← hs, hc, idxOf_pszBase58_eq_zero hmem hc0])
  have hletters : (s.map pszBase58.idxOf).map (fun d => pszBase58.getD d '1') = s := by
    rw [List.map_map]
    refine (List.map_congr_left fun c hc => ?_).trans (List.map_id s)
    exact getD_idxOf_pszBase58 (h c ((List.dropWhile_sublist _).subset hc))
  rw [decodeBase58_of_mem h, ← hs, ← hB, Option.map_some, encodeBase58_eq,
    Digits.takeWhile_replicate_append 0 _ hhead, Digits.dropWhile_replicate_append 0 _ hhead,
    List.length_replicate, htoNat, hB, List.reverse_reverse, Nat.ofDigits_digits,
    Digits.digits_ofDigits_reverse (by decide) hslt hshead, List.reverse_reverse, hletters, hs,
    Digits.replicate_takeWhile_append]

section

variable (hash : List UInt8 → List UInt8)

/-- `EncodeBase58Check`: "add 4-byte hash check to the end". -/
def encodeBase58Check (vchIn : List UInt8) : List Char :=
  encodeBase58 (vchIn ++ (hash vchIn).take 4)

/-- `DecodeBase58Check`. -/
def decodeBase58Check (psz : List Char) : Option (List UInt8) :=
  match decodeBase58 psz with
  | none => none
  | some vchRet =>
    if vchRet.length < 4 then none
    -- "re-calculate the checksum, ensure it matches the included 4-byte checksum"
    else if (hash (vchRet.take (vchRet.length - 4))).take 4 ≠ vchRet.drop (vchRet.length - 4) then none
    else some (vchRet.take (vchRet.length - 4))

/-- A string `DecodeBase58` refuses is refused whatever the hash. -/
theorem decodeBase58Check_of_decodeBase58 {psz : List Char} (h : decodeBase58 psz = none) :
    decodeBase58Check hash psz = none := by
  simp [decodeBase58Check, h]

/-- `DecodeBase58Check` inverts `EncodeBase58Check` as soon as the hash gives its four check
bytes, as the 32 bytes of `Hash` do. -/
theorem decodeBase58Check_encodeBase58Check (vchIn : List UInt8) (hhash : 4 ≤ (hash vchIn).length) :
    decodeBase58Check hash (encodeBase58Check hash vchIn) = some vchIn := by
  have hcheck : ((hash vchIn).take 4).length = 4 := by
    rw [List.length_take]
    omega
  rw [encodeBase58Check, decodeBase58Check, decodeBase58_encodeBase58]
  dsimp only
  rw [List.length_append, hcheck, Nat.add_sub_cancel, List.take_left' rfl, List.drop_left' rfl,
    if_neg (by omega), if_neg (by simp)]

theorem base58_round_trips :
    (∀ vch, (∀ x ∈ encodeBase58Carries vch, x = 0) ∧ decodeBase58 (encodeBase58 vch) = some vch) ∧
    (∀ psz, (∀ c ∈ psz, c ∈ pszBase58) →
      (∀ x ∈ decodeBase58Carries psz, x = 0) ∧ (decodeBase58 psz).map encodeBase58 = some psz) ∧
    ∀ vchIn, 4 ≤ (hash vchIn).length →
      decodeBase58Check hash (encodeBase58Check hash vchIn) = some vchIn :=
  ⟨fun vch => ⟨encodeBase58Carries_eq_zero vch, decodeBase58_encodeBase58 vch⟩,
    fun _ h => ⟨decodeBase58Carries_of_mem h, encodeBase58_decodeBase58 h⟩,
    decodeBase58Check_encodeBase58Check hash⟩

end

theorem base58_round_trips_zz :
    (∀ c ∈ ['1', 'z', 'z'], c ∈ pszBase58) ∧
      (decodeBase58 ['1', 'z', 'z']).map encodeBase58 = some ['1', 'z', 'z'] ∧
      4 ≤ (List.replicate 32 (0 : UInt8)).length ∧
      decodeBase58Check (fun _ => List.replicate 32 0) (encodeBase58Check (fun _ => List.replicate 32 0) [0, 7])
        = some [0, 7] :=
  ⟨by simp [pszBase58],
    ((base58_round_trips fun _ => List.replicate 32 0).2.1 ['1', 'z', 'z'] (by simp [pszBase58])).2,
    by simp, (base58_round_trips fun _ => List.replicate 32 0).2.2 [0, 7] (by simp)⟩

end Veil
