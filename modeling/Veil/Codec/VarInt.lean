import Mathlib
import Veil.RingCT.Stealth

/-!
# `PutVarInt` and `GetVarInt` (`serialize.h`)

The varint of the RingCT code: seven bits a byte, the least significant group first, the
continuation bit `0x80` on every byte but the last.  `GetVarInt(v, ofs, i, nB)` decodes at
offset `ofs` and returns `0` with the value in `i` and the number of bytes in `nB`, or `1`
when the encoding runs into the end.  The length left is the `size_t` difference
`v.size() - ofs`; when it is zero the function returns `0` at once and writes neither `i`
nor `nB`, so the values they held before the call are inputs here.  Nothing bounds the
number of continuation bytes before the shift by `7 * nB`; a `UInt64` shift takes its
amount modulo 64, which is what x86 does where C++ leaves the result undefined.

The fee of a CT transaction (`CTxOutData::GetCTFee`) and the ring indices of an anon input
(`VerifyMLSAG`) are read with `GetVarInt`.
-/

namespace Veil

/-! ## `PutVarInt` -/

/-- The loop of `PutVarInt(v, i)` from the pending group `b`: the bytes pushed, and the final
`i`, which the function returns ("0 == success"). -/
def putVarIntLoop (b : UInt8) (i : UInt64) : List UInt8 × UInt64 :=
  if i >>> 7 > 0 then
    let r := putVarIntLoop ((i >>> 7) &&& 0x7F).toUInt8 (i >>> 7)
    ((b ||| 0x80) :: r.1, r.2)
  else ([b], i >>> 7)
termination_by i.toNat
decreasing_by
  have h : 0 < (i >>> 7).toNat := ‹i >>> 7 > 0›
  simp only [UInt64.toNat_shiftRight, Nat.shiftRight_eq_div_pow] at h ⊢
  simp only [UInt64.reduceToNat, Nat.reduceMod] at h ⊢
  omega

/-- `PutVarInt(v, i)`: the vector after the call and the value returned. -/
def putVarInt (v : List UInt8) (i : UInt64) : List UInt8 × Nat :=
  let r := putVarIntLoop (i &&& 0x7F).toUInt8 i
  (v ++ r.1, r.2.toNat)

/-- The varint of `n`: its base-128 digits from the least significant, the continuation bit
on all but the last. -/
def varIntBytes (n : Nat) : List UInt8 :=
  if n < 128 then [UInt8.ofNat n] else UInt8.ofNat (n % 128 + 128) :: varIntBytes (n / 128)
termination_by n
decreasing_by omega

/-- The little-endian base-128 value of the low seven bits of each byte. -/
def varIntValue : List UInt8 → Nat
  | [] => 0
  | b :: bs => b.toNat % 128 + 128 * varIntValue bs

theorem varIntBytes_of_lt {n : Nat} (h : n < 128) : varIntBytes n = [UInt8.ofNat n] := by
  rw [varIntBytes, if_pos h]

theorem varIntBytes_of_le {n : Nat} (h : 128 ≤ n) :
    varIntBytes n = UInt8.ofNat (n % 128 + 128) :: varIntBytes (n / 128) := by
  rw [varIntBytes, if_neg (by omega)]

theorem varIntBytes_ne_nil (n : Nat) : varIntBytes n ≠ [] := by
  by_cases h : n < 128
  · simp [varIntBytes_of_lt h]
  · simp [varIntBytes_of_le (Nat.le_of_not_lt h)]

/-- A value below `128 ^ (k + 1)` takes at most `k + 1` bytes. -/
theorem length_varIntBytes_le (k : Nat) : ∀ n, n < 128 ^ (k + 1) → (varIntBytes n).length ≤ k + 1 := by
  induction k with
  | zero => intro n h; rw [varIntBytes_of_lt (by simpa using h)]; simp
  | succ k ih =>
    intro n h
    by_cases hn : n < 128
    · rw [varIntBytes_of_lt hn]; simp
    · rw [varIntBytes_of_le (by omega), List.length_cons]
      have : n / 128 < 128 ^ (k + 1) := by
        rw [Nat.div_lt_iff_lt_mul (by decide), ← Nat.pow_succ]
        exact h
      have := ih (n / 128) this
      omega

theorem length_varIntBytes_toNat_le (x : UInt64) : (varIntBytes x.toNat).length ≤ 10 :=
  length_varIntBytes_le 9 x.toNat (by have := x.toNat_lt; omega)

theorem toNat_or_0x80 : ∀ b : UInt8, b.toNat < 128 → (b ||| 0x80).toNat = b.toNat + 128 := by
  decide +kernel

theorem toNat_and_0x7F_toUInt8 (a : UInt64) : ((a &&& 0x7F).toUInt8).toNat = a.toNat % 128 := by
  rw [UInt64.toNat_toUInt8, UInt64.toNat_and]
  have : (0x7F : UInt64).toNat = 2 ^ 7 - 1 := rfl
  rw [this, Nat.and_two_pow_sub_one_eq_mod]
  omega

/-- What `PutVarInt` pushes is the varint of the value, and it always returns `0`. -/
theorem putVarIntLoop_eq (i : UInt64) : putVarIntLoop (i &&& 0x7F).toUInt8 i = (varIntBytes i.toNat, 0) := by
  induction h : i.toNat using Nat.strong_induction_on generalizing i with
  | _ n ih =>
    have hshr : (i >>> 7).toNat = n / 128 := by
      rw [UInt64.toNat_shiftRight, ← h]; simp [Nat.shiftRight_eq_div_pow]
    have hlow := toNat_and_0x7F_toUInt8 i
    rw [putVarIntLoop]
    by_cases hn : n < 128
    · have hz : i >>> 7 = 0 := by
        apply UInt64.toNat_inj.mp
        rw [hshr]
        show n / 128 = 0
        omega
      rw [if_neg (by rw [hz]; decide), hz, varIntBytes_of_lt hn]
      congr 2
      apply UInt8.toNat_inj.mp
      rw [hlow, UInt8.toNat_ofNat', h]
      omega
    · have hpos : i >>> 7 > 0 := by
        show 0 < (i >>> 7).toNat
        rw [hshr]; omega
      rw [if_pos hpos, ih (n / 128) (by omega) (i >>> 7) hshr, varIntBytes_of_le (show 128 ≤ n by omega)]
      dsimp only
      congr 2
      apply UInt8.toNat_inj.mp
      rw [toNat_or_0x80 _ (by rw [hlow]; omega), hlow, UInt8.toNat_ofNat', h]
      omega

theorem putVarInt_eq (v : List UInt8) (i : UInt64) : putVarInt v i = (v ++ varIntBytes i.toNat, 0) := by
  simp only [putVarInt, putVarIntLoop_eq]
  rfl

/-! ## `GetVarInt` -/

/-- `GetVarInt`'s return value and its two out-parameters. -/
structure GetVarIntOut where
  ret : Nat
  i : UInt64
  nB : Nat
  deriving DecidableEq, Repr

/-- The `while (p[nB-1] & 0x80)` loop of `GetVarInt` over `p = &v[ofs]`; `fuel` bounds its
rounds, and `GetVarInt` gives it `ml`, more than a run can use. -/
def getVarIntLoop (v : List UInt8) (ofs ml : Nat) : Nat → GetVarIntOut → GetVarIntOut
  | 0, r => r
  | fuel + 1, r =>
    if readByte v (ofs + r.nB - 1) &&& 0x80 = 0 then r
    else if r.nB ≥ ml then { r with ret := 1 }
    else getVarIntLoop v ofs ml fuel
      { r with i := r.i + ((readByte v (ofs + r.nB) &&& 0x7F).toUInt64 <<< (7 * r.nB).toUInt64),
               nB := r.nB + 1 }

/-- `GetVarInt(v, ofs, i, nB)`, given the values `i` and `nB` hold before the call. -/
def getVarInt (v : List UInt8) (ofs : Nat) (i : UInt64) (nB : Nat) : GetVarIntOut :=
  let ml := sizeT ((v.length : Int) - ofs)
  if ml ≤ 0 then ⟨0, i, nB⟩
  else getVarIntLoop v ofs ml ml ⟨0, (readByte v ofs &&& 0x7F).toUInt64, 1⟩

theorem and_0x80_eq_zero_iff : ∀ b : UInt8, b &&& 0x80 = 0 ↔ b.toNat < 128 := by
  decide +kernel

theorem toNat_and_0x7F_toUInt64 : ∀ b : UInt8, ((b &&& 0x7F).toUInt64).toNat = b.toNat % 128 := by
  decide +kernel

theorem readByte_of_drop {v t : List UInt8} {p : Nat} {b : UInt8} (h : v.drop p = b :: t) :
    readByte v p = b := by
  have : (v.drop p)[0]? = some b := by rw [h]; rfl
  rw [List.getElem?_drop, Nat.add_zero] at this
  simp [readByte, List.getD_eq_getElem?_getD, this]

/-- The loop stops at a byte without the continuation bit. -/
theorem getVarIntLoop_stop {v : List UInt8} {ofs ml : Nat} (fuel : Nat) (r : GetVarIntOut)
    (h : (readByte v (ofs + r.nB - 1)).toNat < 128) : getVarIntLoop v ofs ml fuel r = r := by
  cases fuel with
  | zero => rfl
  | succ fuel => rw [getVarIntLoop, if_pos ((and_0x80_eq_zero_iff _).mpr h)]

/-- A round of the loop at a byte with the continuation bit, with bytes left. -/
theorem getVarIntLoop_step {v : List UInt8} {ofs ml : Nat} (fuel : Nat) (r : GetVarIntOut)
    (h : 128 ≤ (readByte v (ofs + r.nB - 1)).toNat) (hml : r.nB < ml) :
    getVarIntLoop v ofs ml (fuel + 1) r = getVarIntLoop v ofs ml fuel
      { r with i := r.i + ((readByte v (ofs + r.nB) &&& 0x7F).toUInt64 <<< (7 * r.nB).toUInt64),
               nB := r.nB + 1 } := by
  rw [getVarIntLoop, if_neg (by rw [and_0x80_eq_zero_iff]; omega), if_neg (by omega)]

/-- The accumulator update of a round whose shift is below 64, modulo `2 ^ 64`. -/
theorem toNat_add_shift_mod (i : UInt64) (b : UInt8) (k : Nat) (hk : k ≤ 9) :
    (i + ((b &&& 0x7F).toUInt64 <<< (7 * k).toUInt64)).toNat = (i.toNat + b.toNat % 128 * 128 ^ k) % 2 ^ 64 := by
  have hpow : (128 : Nat) ^ k = 2 ^ (7 * k) := by rw [Nat.pow_mul]
  have hsh : ((7 * k).toUInt64).toNat % 64 = 7 * k := by
    rw [Nat.toUInt64_eq, UInt64.toNat_ofNat']
    omega
  rw [UInt64.toNat_add, UInt64.toNat_shiftLeft, hsh, toNat_and_0x7F_toUInt64, Nat.shiftLeft_eq, ← hpow,
    Nat.add_mod_mod]

/-- The same update when the sum fits: no bit is lost. -/
theorem toNat_add_shift (i : UInt64) (b : UInt8) (k : Nat) (hk : k ≤ 9)
    (hfit : i.toNat + b.toNat % 128 * 128 ^ k < 2 ^ 64) :
    (i + ((b &&& 0x7F).toUInt64 <<< (7 * k).toUInt64)).toNat = i.toNat + b.toNat % 128 * 128 ^ k := by
  rw [toNat_add_shift_mod i b k hk, Nat.mod_eq_of_lt hfit]

theorem toNat_ofNat_of_lt {n : Nat} (h : n < 128) : (UInt8.ofNat n).toNat = n := by
  rw [UInt8.toNat_ofNat']; omega

theorem toNat_ofNat_mod_add (n : Nat) : (UInt8.ofNat (n % 128 + 128)).toNat = n % 128 + 128 := by
  rw [UInt8.toNat_ofNat']; omega

/-- The loop decodes a complete varint that starts at `p[k]`: each round adds the next group
at shift `7 · nB`, the last byte stops it. -/
theorem getVarIntLoop_varIntBytes {v : List UInt8} {ofs ml : Nat} (y : Nat) :
    ∀ (k fuel acc ret : Nat) (i : UInt64) (rest : List UInt8),
      v.drop (ofs + k) = varIntBytes y ++ rest → 1 ≤ k → 128 ≤ (readByte v (ofs + k - 1)).toNat →
      k + (varIntBytes y).length ≤ ml → (varIntBytes y).length ≤ fuel →
      k + (varIntBytes y).length ≤ 10 → i.toNat = acc → acc + y * 128 ^ k < 2 ^ 64 →
      getVarIntLoop v ofs ml fuel ⟨ret, i, k⟩ =
        ⟨ret, UInt64.ofNat (acc + y * 128 ^ k), k + (varIntBytes y).length⟩ := by
  induction y using Nat.strong_induction_on with
  | _ y ih =>
    intro k fuel acc ret i rest hdrop hk hcont hml hfuel hten hi hfit
    have hne := List.length_pos_iff.mpr (varIntBytes_ne_nil y)
    obtain ⟨fuel, rfl⟩ : ∃ f, fuel = f + 1 := ⟨fuel - 1, by omega⟩
    rw [getVarIntLoop_step fuel _ hcont (show k < ml by omega)]
    have hlow : y % 128 * 128 ^ k ≤ y * 128 ^ k := Nat.mul_le_mul_right _ (Nat.mod_le y 128)
    by_cases hy : y < 128
    · rw [varIntBytes_of_lt hy] at hdrop hml hfuel hten ⊢
      have hb := readByte_of_drop hdrop
      have hc : (readByte v (ofs + k)).toNat % 128 = y := by rw [hb, toNat_ofNat_of_lt hy]; omega
      have hadd := toNat_add_shift i (readByte v (ofs + k)) k (by simp at hten; omega)
        (by rw [hc, hi]; omega)
      rw [getVarIntLoop_stop fuel _ (show (readByte v (ofs + k)).toNat < 128 by rw [hb, toNat_ofNat_of_lt hy]; omega)]
      simp only [List.length_singleton, GetVarIntOut.mk.injEq, true_and, and_true]
      apply UInt64.toNat_inj.mp
      rw [hadd, hc, hi, UInt64.toNat_ofNat', Nat.mod_eq_of_lt hfit]
    · rw [varIntBytes_of_le (by omega)] at hdrop hml hfuel hten ⊢
      simp only [List.cons_append] at hdrop
      simp only [List.length_cons] at hml hfuel hten
      have hb := readByte_of_drop hdrop
      have hc : (readByte v (ofs + k)).toNat % 128 = y % 128 := by rw [hb, toNat_ofNat_mod_add]; omega
      have hsplit : y % 128 * 128 ^ k + y / 128 * 128 ^ (k + 1) = y * 128 ^ k := by
        rw [Nat.pow_succ]
        calc y % 128 * 128 ^ k + y / 128 * (128 ^ k * 128)
            = (y % 128 + 128 * (y / 128)) * 128 ^ k := by ring
          _ = y * 128 ^ k := by rw [Nat.mod_add_div]
      have hadd := toNat_add_shift i (readByte v (ofs + k)) k (by omega) (by rw [hc, hi]; omega)
      have hrest : v.drop (ofs + (k + 1)) = varIntBytes (y / 128) ++ rest := by
        rw [← Nat.add_assoc, ← List.drop_drop, hdrop]; rfl
      have hsum : acc + y % 128 * 128 ^ k + y / 128 * 128 ^ (k + 1) = acc + y * 128 ^ k := by
        rw [Nat.add_assoc, hsplit]
      rw [ih (y / 128) (by omega) (k + 1) fuel (acc + y % 128 * 128 ^ k) ret _ rest hrest (by omega)
        (by rw [show ofs + (k + 1) - 1 = ofs + k by omega, hb, toNat_ofNat_mod_add]; omega)
        (by omega) (by omega) (by omega) (by rw [hadd, hc, hi]) (by rw [hsum]; exact hfit), hsum]
      simp only [List.length_cons, GetVarIntOut.mk.injEq, true_and]
      omega

/-- `GetVarInt` reads back what `PutVarInt` wrote, whatever precedes and follows it in a
vector (whose size is a `size_t`), and whatever `i` and `nB` held. -/
theorem getVarInt_putVarInt (x : UInt64) (p s : List UInt8) (i : UInt64) (nB : Nat)
    (hv : (p ++ (putVarInt [] x).1 ++ s).length < 2 ^ 64) :
    getVarInt (p ++ (putVarInt [] x).1 ++ s) p.length i nB = ⟨0, x, (putVarInt [] x).1.length⟩ := by
  rw [putVarInt_eq, List.nil_append] at hv ⊢
  simp only [List.length_append] at hv
  have hlen := length_varIntBytes_toNat_le x
  have hne := List.length_pos_iff.mpr (varIntBytes_ne_nil x.toNat)
  have hml : sizeT (((p ++ varIntBytes x.toNat ++ s).length : Int) - p.length) =
      (varIntBytes x.toNat).length + s.length := by
    simp only [List.length_append, sizeT]
    rw [show ((p.length + (varIntBytes x.toNat).length + s.length : Nat) : Int) - p.length =
      (((varIntBytes x.toNat).length + s.length : Nat) : Int) by push_cast; ring,
      Int.emod_eq_of_lt (by omega) (by omega)]
    rfl
  have hdrop : (p ++ varIntBytes x.toNat ++ s).drop p.length = varIntBytes x.toNat ++ s := by simp
  simp only [getVarInt, hml]
  rw [if_neg (by omega)]
  by_cases hx : x.toNat < 128
  · rw [varIntBytes_of_lt hx] at hdrop ⊢
    have hb := readByte_of_drop hdrop
    rw [getVarIntLoop_stop _ _ (show (readByte _ (p.length + 1 - 1)).toNat < 128 by
      rw [Nat.add_sub_cancel, hb, toNat_ofNat_of_lt hx]; exact hx)]
    simp only [List.length_singleton, GetVarIntOut.mk.injEq, true_and, and_true]
    apply UInt64.toNat_inj.mp
    rw [toNat_and_0x7F_toUInt64, hb, toNat_ofNat_of_lt hx]
    omega
  · rw [varIntBytes_of_le (by omega)] at hdrop hne hlen ⊢
    simp only [List.cons_append] at hdrop
    simp only [List.length_cons] at hlen ⊢
    have hb := readByte_of_drop hdrop
    have hrest : (p ++ (UInt8.ofNat (x.toNat % 128 + 128) :: varIntBytes (x.toNat / 128)) ++ s).drop
        (p.length + 1) = varIntBytes (x.toNat / 128) ++ s := by
      rw [← List.drop_drop, hdrop]; rfl
    have hfit : x.toNat % 128 + x.toNat / 128 * 128 ^ 1 < 2 ^ 64 := by
      have := x.toNat_lt; omega
    rw [getVarIntLoop_varIntBytes (x.toNat / 128) 1 _ (x.toNat % 128) 0 _ s hrest le_rfl
      (by rw [Nat.add_sub_cancel, hb, toNat_ofNat_mod_add]; omega) (by omega) (by omega) (by omega)
      (by rw [toNat_and_0x7F_toUInt64, hb, toNat_ofNat_mod_add]; omega) hfit]
    simp only [GetVarIntOut.mk.injEq, true_and]
    constructor
    · apply UInt64.toNat_inj.mp
      rw [UInt64.toNat_ofNat', Nat.mod_eq_of_lt hfit]
      omega
    · omega

/-- `GetVarInt` succeeds off a complete in-bounds encoding: at the end of the vector it returns
`0` with `i` and `nB` as they were, one byte past the end it returns `0` from a read out of
bounds, and after ten continuation bytes it shifts by `7 · 10 = 70` and returns `0` with
`nB = 11` and an `i` that is not the value `2 ^ 70` of the bytes. -/
theorem getVarInt_succeeds_off_encoding (i : UInt64) (nB : Nat) :
    getVarInt [] 0 i nB = ⟨0, i, nB⟩ ∧ getVarInt [] 1 i nB = ⟨0, 0, 1⟩ ∧
      getVarInt (List.replicate 10 0x80 ++ [0x01]) 0 i nB = ⟨0, 64, 11⟩ ∧
      varIntValue (List.replicate 10 0x80 ++ [0x01]) = 2 ^ 70 := by
  refine ⟨rfl, ?_, ?_, by decide⟩
  · rw [show getVarInt [] 1 i nB = getVarInt [] 1 0 0 from rfl]
    decide
  · rw [show getVarInt (List.replicate 10 0x80 ++ [0x01]) 0 i nB =
      getVarInt (List.replicate 10 0x80 ++ [0x01]) 0 0 0 from rfl]
    decide

/-! ## The fee output and the ring indices -/

/-- `DO_FEE`, the `DataOutputTypes` tag of a data output holding the fee. -/
def DO_FEE : UInt8 := 6

/-- `CTxOutData::GetCTFee`: whether it succeeds, and `nFee` after the call (`nb` is written
before it is read, the data holding at least two bytes). -/
def getCTFee (vData : List UInt8) (nFee : UInt64) : Bool × UInt64 :=
  if vData.length < 2 || readByte vData 0 ≠ DO_FEE then (false, nFee)
  else
    let r := getVarInt vData 1 nFee 0
    (r.ret == 0, r.i)

/-- `CTxOutData::SetCTFee`: the data after the call and whether it succeeds. -/
def setCTFee (nFee : UInt64) : List UInt8 × Bool :=
  let r := putVarInt [DO_FEE] nFee
  (r.1, r.2 == 0)

/-- The ring indices as the wallet writes them (`vPubkeyMatrixIndices`, one `PutVarInt` per
index). -/
def pubkeyMatrixIndices (vMI : List UInt64) : List UInt8 :=
  vMI.foldl (fun v x => (putVarInt v x).1) []

/-- The ring-index loop of `VerifyMLSAG`: `n` indices read one after another from `vMI`,
`ofs` advanced by each `nB`, each index refused if seen before or not in the output table
(`known`).  The value of the fresh `nIndex` before each call is indeterminate: `junk`. -/
def verifyMLSAGIndices (vMI : List UInt8) (junk : UInt64) (known : UInt64 → Bool) :
    Nat → Nat → Nat → List UInt64 → Except String (List UInt64)
  | 0, _, _, setHaveI => .ok setHaveI
  | n + 1, ofs, nB, setHaveI =>
    let r := getVarInt vMI ofs junk nB
    if r.ret ≠ 0 then .error "bad-anonin-extract-i"
    else if r.i ∈ setHaveI then .error "bad-anonin-dup-i"
    else if !known r.i then .error "bad-anonin-unknown-i"
    else verifyMLSAGIndices vMI junk known n (ofs + r.nB) r.nB (setHaveI ++ [r.i])

theorem foldl_putVarInt (xs : List UInt64) (v : List UInt8) :
    xs.foldl (fun v x => (putVarInt v x).1) v = v ++ xs.flatMap fun x => varIntBytes x.toNat := by
  induction xs generalizing v with
  | nil => simp
  | cons x xs ih => rw [List.foldl_cons, ih, putVarInt_eq, List.flatMap_cons, List.append_assoc]

theorem verifyMLSAGIndices_flatMap (junk : UInt64) (known : UInt64 → Bool) (xs : List UInt64) :
    ∀ (p : List UInt8) (nB : Nat) (setHaveI : List UInt64),
      (p ++ xs.flatMap fun x => varIntBytes x.toNat).length < 2 ^ 64 → xs.Nodup →
      (∀ x ∈ xs, x ∉ setHaveI ∧ known x = true) →
      verifyMLSAGIndices (p ++ xs.flatMap fun x => varIntBytes x.toNat) junk known xs.length
        p.length nB setHaveI = .ok (setHaveI ++ xs) := by
  induction xs with
  | nil => intro p nB setHaveI _ _ _; simp [verifyMLSAGIndices]
  | cons x xs ih =>
    intro p nB setHaveI hv hnd hx
    obtain ⟨hxs, hnd⟩ := List.nodup_cons.mp hnd
    obtain ⟨hfresh, hknown⟩ := hx x List.mem_cons_self
    have hget := getVarInt_putVarInt x p (xs.flatMap fun x => varIntBytes x.toNat) junk nB
      (by rw [putVarInt_eq, List.nil_append, List.append_assoc]; simpa using hv)
    rw [putVarInt_eq, List.nil_append, List.append_assoc] at hget
    -- the later indices are fresh against the set with `x` added
    have hx' : ∀ y ∈ xs, y ∉ setHaveI ++ [x] ∧ known y = true := by
      intro y hy
      obtain ⟨hy₁, hy₂⟩ := hx y (List.mem_cons_of_mem _ hy)
      refine ⟨?_, hy₂⟩
      simp only [List.mem_append, List.mem_singleton, not_or]
      exact ⟨hy₁, fun h => hxs (h ▸ hy)⟩
    have htail := ih (p ++ varIntBytes x.toNat) (varIntBytes x.toNat).length (setHaveI ++ [x])
      (by simpa [List.append_assoc] using hv) hnd hx'
    rw [List.append_assoc, List.length_append] at htail
    simp only [List.flatMap_cons, List.length_cons, verifyMLSAGIndices, hget]
    simpa [hfresh, hknown] using htail

/-- `VerifyMLSAG` reads back the indices the wallet wrote, when they are distinct and known. -/
theorem verifyMLSAGIndices_pubkeyMatrixIndices (junk : UInt64) (known : UInt64 → Bool)
    (xs : List UInt64) (hv : (pubkeyMatrixIndices xs).length < 2 ^ 64) (hnd : xs.Nodup)
    (hknown : ∀ x ∈ xs, known x = true) :
    verifyMLSAGIndices (pubkeyMatrixIndices xs) junk known xs.length 0 0 [] = .ok xs := by
  rw [pubkeyMatrixIndices, foldl_putVarInt] at hv ⊢
  simpa using verifyMLSAGIndices_flatMap junk known xs [] 0 [] hv hnd
    (fun x hx => ⟨List.not_mem_nil, hknown x hx⟩)

/-- The ring indices `3` and `300`, of one and two bytes, are read back. -/
theorem verifyMLSAGIndices_pubkeyMatrixIndices_two :
    verifyMLSAGIndices (pubkeyMatrixIndices [3, 300]) 0 (fun _ => true) 2 0 0 [] = .ok [3, 300] := by
  -- each index takes at most ten bytes
  have hv : (pubkeyMatrixIndices [3, 300]).length < 2 ^ 64 := by
    rw [pubkeyMatrixIndices, foldl_putVarInt]
    simp only [List.nil_append, List.flatMap_cons, List.flatMap_nil, List.append_nil,
      List.length_append]
    have h₁ := length_varIntBytes_toNat_le 3
    have h₂ := length_varIntBytes_toNat_le 300
    omega
  exact verifyMLSAGIndices_pubkeyMatrixIndices 0 (fun _ => true) [3, 300] hv (by decide)
    (fun _ _ => rfl)

end Veil
