import Veil.Primitives.TransactionCodec

/-!
# The UTXO compressors (`compressor.h`, `compressor.cpp`)

`CTxOutCompressor` writes an output of the coins database as its compressed amount
and its compressed script.

* `CompressAmount` strips up to nine trailing decimal zeros into an exponent `e` and,
  when `e < 9`, folds the last non-zero digit `d` in: `1 + 10 * (9 * n + d - 1) + e`.
  `DecompressAmount` undoes it for every amount up to `MAX_MONEY`
  (`decompressAmount_compressAmount`), so `CompressAmount` is injective there.
* `CompressScript` recognises P2PKH, P2SH and P2PK scripts and writes them as a tag
  byte `0` to `5` and a 20- or 32-byte payload; every other script is written as
  `VARINT(size + 6)` and its bytes.  An uncompressed P2PK key keeps only `x` and the
  parity of `y`, so its round trip rests on `CPubKey::Decompress` recovering the key,
  which the model takes as a parameter with that property (`DecompressesValidKeys`).

`unserScriptCompressor_serScriptCompressor` and
`unserTxOutCompressor_serTxOutCompressor` read back every script of at most
`MAX_SCRIPT_SIZE` bytes and every output of a value in `[0, MAX_MONEY]`.
-/

namespace Veil

open Codec Decoder

/-! ## Amounts -/

/-- The loop `while (((n % 10) == 0) && e < 9) { n /= 10; e++; }` of `CompressAmount`. -/
def compressAmountLoop (n : UInt64) (e : Nat) : UInt64 × Nat :=
  if n % 10 = 0 ∧ e < 9 then compressAmountLoop (n / 10) (e + 1) else (n, e)
termination_by 9 - e

/-- `CompressAmount`. -/
def compressAmount (n : UInt64) : UInt64 :=
  if n = 0 then 0
  else
    let r := compressAmountLoop n 0
    if r.2 < 9 then
      let d := r.1 % 10
      let n := r.1 / 10
      1 + (n * 9 + d - 1) * 10 + r.2.toUInt64
    else 1 + (r.1 - 1) * 10 + 9

/-- The loop `while (e) { n *= 10; e--; }` of `DecompressAmount`. -/
def mulTenPow : UInt64 → Nat → UInt64
  | n, 0 => n
  | n, e + 1 => mulTenPow (n * 10) e

/-- `DecompressAmount`. -/
def decompressAmount (x : UInt64) : UInt64 :=
  if x = 0 then 0
  else
    let x := x - 1
    let e := x % 10
    let x := x / 10
    let n := if e < 9 then
        let d := x % 9 + 1
        let x := x / 9
        x * 10 + d
      else x + 1
    mulTenPow n e.toNat

/-- What the loop of `CompressAmount` leaves from `n` and `e`: `n` is the mantissa times
`10 ^ (e' - e)`, and the mantissa ends in a non-zero digit unless `e'` reached `9`. -/
structure Stripped (n : UInt64) (e : Nat) (r : UInt64 × Nat) : Prop where
  pos : r.1 ≠ 0
  le : e ≤ r.2
  le_nine : r.2 ≤ 9
  value : r.1.toNat * 10 ^ (r.2 - e) = n.toNat
  last_digit : r.2 < 9 → r.1.toNat % 10 ≠ 0

theorem compressAmountLoop_stripped (n : UInt64) (e : Nat) (hn : n ≠ 0) (he : e ≤ 9) :
    Stripped n e (compressAmountLoop n e) := by
  fun_induction compressAmountLoop n e with
  | case1 n e h ih =>
    have hmod : n.toNat % 10 = 0 := by
      have := congrArg UInt64.toNat h.1
      rwa [UInt64.toNat_mod] at this
    have hn' : n.toNat ≠ 0 := fun h0 => hn (UInt64.toNat_inj.mp h0)
    have hdiv : (n / 10).toNat = n.toNat / 10 := UInt64.toNat_div n 10
    have hr := ih (fun h0 => by
      have := congrArg UInt64.toNat h0
      rw [hdiv] at this
      exact hn' (by simp at this; omega)) (by omega)
    refine ⟨hr.pos, by have := hr.le; omega, hr.le_nine, ?_, hr.last_digit⟩
    -- one more factor ten than the inner loop's result
    have hv := hr.value
    have hk : (compressAmountLoop (n / 10) (e + 1)).2 - e =
        (compressAmountLoop (n / 10) (e + 1)).2 - (e + 1) + 1 := by
      have := hr.le
      omega
    rw [hk, Nat.pow_succ, ← Nat.mul_assoc, hv, hdiv]
    omega
  | case2 n e h =>
    refine ⟨hn, le_rfl, he, by simp, fun hlt hmod => h ⟨?_, hlt⟩⟩
    apply UInt64.toNat_inj.mp
    rw [UInt64.toNat_mod]
    exact hmod

theorem toNat_mulTenPow : ∀ (e : Nat) (n : UInt64), n.toNat * 10 ^ e < 2 ^ 64 →
    (mulTenPow n e).toNat = n.toNat * 10 ^ e
  | 0, n, _ => by simp [mulTenPow]
  | e + 1, n, h => by
    have hpos : 0 < 10 ^ e := Nat.pow_pos (by decide)
    have h10 : (n * 10).toNat = n.toNat * 10 := by
      have h10' : (10 : UInt64).toNat = 10 := rfl
      rw [UInt64.toNat_mul, h10', Nat.mod_eq_of_lt]
      calc n.toNat * 10 ≤ n.toNat * 10 * 10 ^ e := Nat.le_mul_of_pos_right _ hpos
        _ = n.toNat * 10 ^ (e + 1) := by rw [Nat.pow_succ, Nat.mul_comm (10 ^ e), Nat.mul_assoc]
        _ < 2 ^ 64 := h
    rw [mulTenPow, toNat_mulTenPow e (n * 10) (by rw [h10, Nat.mul_assoc, ← Nat.pow_succ']; exact h),
      h10, Nat.pow_succ', Nat.mul_assoc]

/-- `DecompressAmount` of `1 + 10 * y + e`: the mantissa `y` encodes, times `10 ^ e`. -/
theorem toNat_decompressAmount {x : UInt64} {y e : Nat} (hx : x.toNat = 1 + 10 * y + e)
    (he : e ≤ 9)
    (hfit : (if e < 9 then y / 9 * 10 + (y % 9 + 1) else y + 1) * 10 ^ e < 2 ^ 64) :
    (decompressAmount x).toNat =
      (if e < 9 then y / 9 * 10 + (y % 9 + 1) else y + 1) * 10 ^ e := by
  have hx0 : x ≠ 0 := fun h => by rw [h, UInt64.toNat_zero] at hx; omega
  have hsub : (x - 1).toNat = 10 * y + e := by
    rw [UInt64.toNat_sub_of_le _ _ (UInt64.le_iff_toNat_le.mpr (by rw [hx]; simp; omega)), hx]
    simp
    omega
  have hlt : x.toNat < 2 ^ 64 := x.toNat_lt
  have he' : ((x - 1) % 10).toNat = e := by rw [UInt64.toNat_mod, hsub]; simp; omega
  have hy : ((x - 1) / 10).toNat = y := by rw [UInt64.toNat_div, hsub]; simp; omega
  have hmant : (if (x - 1) % 10 < 9 then (x - 1) / 10 / 9 * 10 + ((x - 1) / 10 % 9 + 1)
      else (x - 1) / 10 + 1).toNat = if e < 9 then y / 9 * 10 + (y % 9 + 1) else y + 1 := by
    have hcond : ((x - 1) % 10 < 9) ↔ e < 9 := by rw [UInt64.lt_iff_toNat_lt, he']; simp
    by_cases h9 : e < 9
    · rw [if_pos (hcond.mpr h9), if_pos h9, UInt64.toNat_add, UInt64.toNat_mul, UInt64.toNat_div,
        UInt64.toNat_add, UInt64.toNat_mod, hy]
      simp
      omega
    · rw [if_neg (fun h => h9 (hcond.mp h)), if_neg h9, UInt64.toNat_add, hy]
      simp
      omega
  rw [decompressAmount, if_neg hx0]
  dsimp only
  rw [← hmant, toNat_mulTenPow _ _ (by rw [hmant, he']; exact hfit), he']

/-- `DecompressAmount` undoes `CompressAmount` on every amount below `2 ^ 60`, which
takes in `MAX_MONEY`. -/
theorem decompressAmount_compressAmount {n : UInt64} (hle : n.toNat < 2 ^ 60) :
    decompressAmount (compressAmount n) = n := by
  by_cases hn : n = 0
  · subst hn
    rfl
  have hs := compressAmountLoop_stripped n 0 hn (by decide)
  rcases hr : compressAmountLoop n 0 with ⟨m, e⟩
  rw [hr] at hs
  have hm : m.toNat * 10 ^ e = n.toNat := by simpa using hs.value
  have hm0 : m.toNat ≠ 0 := fun h => hs.pos (UInt64.toNat_inj.mp h)
  have hmle : m.toNat ≤ n.toNat := hm ▸ Nat.le_mul_of_pos_right _ (Nat.pow_pos (by decide))
  have hunfold : compressAmount n =
      if e < 9 then 1 + (m / 10 * 9 + m % 10 - 1) * 10 + e.toUInt64 else 1 + (m - 1) * 10 + 9 := by
    rw [compressAmount, if_neg hn, hr]
  apply UInt64.toNat_inj.mp
  by_cases h9 : e < 9
  · -- the folded digit `d` comes back as `x % 9 + 1`, the rest of the mantissa as `x / 9`
    have hd : m.toNat % 10 ≠ 0 := hs.last_digit h9
    have hc : (compressAmount n).toNat = 1 + 10 * (m.toNat / 10 * 9 + m.toNat % 10 - 1) + e := by
      rw [hunfold, if_pos h9]
      simp only [Nat.toUInt64_eq, UInt64.toNat_add, UInt64.reduceToNat, UInt64.toNat_mul,
        UInt64.toNat_sub, Nat.reducePow, UInt64.toNat_div, UInt64.toNat_mod, Nat.mod_add_mod,
        Nat.add_mod_mod, Nat.mod_mul_mod, UInt64.toNat_ofNat']
      omega
    have hmant : (m.toNat / 10 * 9 + m.toNat % 10 - 1) / 9 * 10 +
        ((m.toNat / 10 * 9 + m.toNat % 10 - 1) % 9 + 1) = m.toNat := by omega
    rw [toNat_decompressAmount hc hs.le_nine (by rw [if_pos h9, hmant, hm]; exact n.toNat_lt),
      if_pos h9, hmant, hm]
  · -- nine zeros stripped: the mantissa is stored whole
    have he : e = 9 := by have := hs.le_nine; omega
    subst he
    have hc : (compressAmount n).toNat = 1 + 10 * (m.toNat - 1) + 9 := by
      rw [hunfold, if_neg h9]
      simp only [UInt64.toNat_add, UInt64.reduceToNat, UInt64.toNat_mul, UInt64.toNat_sub,
        Nat.reducePow, Nat.mod_mul_mod, Nat.add_mod_mod, Nat.mod_add_mod]
      omega
    have hmant : m.toNat - 1 + 1 = m.toNat := by omega
    rw [toNat_decompressAmount hc le_rfl (by rw [if_neg h9, hmant, hm]; exact n.toNat_lt),
      if_neg h9, hmant, hm]

/-- An amount in `[0, MAX_MONEY]` read as the `uint64_t` that `CompressAmount` takes. -/
theorem toNat_toUInt64_lt {nValue : CAmount} (h0 : 0 ≤ nValue) (hmax : nValue ≤ MAX_MONEY) :
    nValue.toUInt64.toNat < 2 ^ 60 := by
  have hle := UInt64.le_iff_toNat_le.mp (Int64.toUInt64_le h0 hmax)
  have hM : MAX_MONEY.toUInt64.toNat = 30000000000000000 := by decide
  omega

/-- `CTxOutCompressor`'s amount: an amount in `[0, MAX_MONEY]`, compressed as the
`uint64_t` it converts to, decompresses to itself. -/
theorem decompressAmount_compressAmount_toInt64 {nValue : CAmount} (h0 : 0 ≤ nValue)
    (hmax : nValue ≤ MAX_MONEY) :
    (decompressAmount (compressAmount nValue.toUInt64)).toInt64 = nValue := by
  rw [decompressAmount_compressAmount (toNat_toUInt64_lt h0 hmax), Int64.toInt64_toUInt64]

/-! ## Scripts -/

/-- `IsToKeyID`: the key hash of a P2PKH script. -/
def isToKeyID (script : CScript) : Option (List UInt8) :=
  if script.length = 25 ∧ script.getD 0 0 = OP_DUP ∧ script.getD 1 0 = OP_HASH160 ∧
      script.getD 2 0 = 20 ∧ script.getD 23 0 = OP_EQUALVERIFY ∧ script.getD 24 0 = OP_CHECKSIG then
    some ((script.drop 3).take 20)
  else none

/-- `IsToScriptID`: the script hash of a P2SH script. -/
def isToScriptID (script : CScript) : Option (List UInt8) :=
  if script.length = 23 ∧ script.getD 0 0 = OP_HASH160 ∧ script.getD 1 0 = 20 ∧
      script.getD 22 0 = OP_EQUAL then
    some ((script.drop 2).take 20)
  else none

/-- `CScriptCompressor::nSpecialScripts`. -/
def nSpecialScripts : Nat := 6

/-- `GetSpecialScriptSize`. -/
def getSpecialScriptSize (nSize : Nat) : Nat :=
  if nSize = 0 ∨ nSize = 1 then 20
  else if nSize = 2 ∨ nSize = 3 ∨ nSize = 4 ∨ nSize = 5 then 32
  else 0

/-- A byte string is its head `a`, `n` bytes and its tail `b` when it has their lengths and
the bytes of `a` and `b` where they stand: how each special script is rebuilt. -/
theorem eq_frame {l : List UInt8} (a : List UInt8) (n : Nat) (b : List UInt8)
    (hlen : l.length = a.length + n + b.length)
    (ha : ∀ i < a.length, l.getD i 0 = a.getD i 0)
    (hb : ∀ i < b.length, l.getD (a.length + n + i) 0 = b.getD i 0) :
    l = a ++ (l.drop a.length).take n ++ b := by
  have hhead : l.take a.length = a := by
    apply List.ext_getElem (by simp; omega)
    intro i h1 h2
    have := ha i h2
    rw [List.getD_eq_getElem l 0 (by omega), List.getD_eq_getElem a 0 h2] at this
    simpa using this
  have htail : l.drop (a.length + n) = b := by
    apply List.ext_getElem (by simp; omega)
    intro i h1 h2
    have := hb i h2
    rw [List.getD_eq_getElem l 0 (by omega), List.getD_eq_getElem b 0 h2] at this
    simpa using this
  calc l = l.take a.length ++ l.drop a.length := (List.take_append_drop _ _).symm
    _ = a ++ ((l.drop a.length).take n ++ (l.drop a.length).drop n) := by
        rw [hhead, List.take_append_drop]
    _ = a ++ (l.drop a.length).take n ++ b := by
        rw [List.drop_drop, htail, List.append_assoc]

theorem getD_take_drop (l : List UInt8) {k n i : Nat} (hi : i < n) :
    ((l.drop k).take n).getD i 0 = l.getD (k + i) 0 := by
  simp [List.getD_eq_getElem?_getD, hi]

/-- A P2PKH script is rebuilt from its key hash. -/
theorem isToKeyID_eq_some {script keyID : List UInt8} (h : isToKeyID script = some keyID) :
    keyID.length = 20 ∧
      script = [OP_DUP, OP_HASH160, 20] ++ keyID ++ [OP_EQUALVERIFY, OP_CHECKSIG] := by
  unfold isToKeyID at h
  split_ifs at h with hc
  cases h
  obtain ⟨hlen, h0, h1, h2, h23, h24⟩ := hc
  refine ⟨by simp [hlen], eq_frame [OP_DUP, OP_HASH160, 20] 20 [OP_EQUALVERIFY, OP_CHECKSIG]
    (by simp [hlen]) ?_ ?_⟩
  · intro i hi
    simp only [List.length_cons, List.length_nil] at hi
    interval_cases i <;> assumption
  · intro i hi
    simp only [List.length_cons, List.length_nil] at hi
    interval_cases i <;> assumption

/-- A P2SH script is rebuilt from its script hash. -/
theorem isToScriptID_eq_some {script scriptID : List UInt8} (h : isToScriptID script = some scriptID) :
    scriptID.length = 20 ∧ script = [OP_HASH160, 20] ++ scriptID ++ [OP_EQUAL] := by
  unfold isToScriptID at h
  split_ifs at h with hc
  cases h
  obtain ⟨hlen, h0, h1, h22⟩ := hc
  refine ⟨by simp [hlen], eq_frame [OP_HASH160, 20] 20 [OP_EQUAL] (by simp [hlen]) ?_ ?_⟩
  · intro i hi
    simp only [List.length_cons, List.length_nil] at hi
    interval_cases i <;> assumption
  · intro i hi
    simp only [List.length_cons, List.length_nil] at hi
    interval_cases i
    exact h22

section PubKey

variable (isFullyValid : List UInt8 → Bool) (decompress : List UInt8 → Option (Blob 65))

/-- `IsToPubKey`: the key of a P2PK script; an uncompressed key only when
`CPubKey::IsFullyValid` (the parameter `isFullyValid`) accepts it. -/
def isToPubKey (script : CScript) : Option (List UInt8) :=
  if script.length = 35 ∧ script.getD 0 0 = 33 ∧ script.getD 34 0 = OP_CHECKSIG ∧
      (script.getD 1 0 = 0x02 ∨ script.getD 1 0 = 0x03) then
    some ((script.drop 1).take 33)
  else if script.length = 67 ∧ script.getD 0 0 = 65 ∧ script.getD 66 0 = OP_CHECKSIG ∧
      script.getD 1 0 = 0x04 then
    -- if not fully valid, a case that would not be compressible
    if isFullyValid ((script.drop 1).take 65) then some ((script.drop 1).take 65) else none
  else none

/-- `CompressScript`: the compressed form, `none` where it returns `false`. -/
def compressScript (script : CScript) : Option (List UInt8) :=
  match isToKeyID script with
  | some keyID => some (0x00 :: keyID)
  | none =>
    match isToScriptID script with
    | some scriptID => some (0x01 :: scriptID)
    | none =>
      match isToPubKey isFullyValid script with
      | some pubkey =>
        if pubkey.getD 0 0 = 0x02 ∨ pubkey.getD 0 0 = 0x03 then
          some (pubkey.getD 0 0 :: (pubkey.drop 1).take 32)
        else if pubkey.getD 0 0 = 0x04 then
          some ((0x04 ||| (pubkey.getD 64 0 &&& 0x01)) :: (pubkey.drop 1).take 32)
        else none
      | none => none

/-- `DecompressScript`, `none` where it returns `false`.  `CPubKey::Decompress` is the
parameter `decompress`: the 65 bytes of the point a compressed key stands for, `none` when
it stands for none, so that `assert(pubkey.size() == 65)` holds by its type. -/
def decompressScript (nSize : Nat) (input : List UInt8) : Option CScript :=
  if nSize = 0x00 then
    some ([OP_DUP, OP_HASH160, 20] ++ input.take 20 ++ [OP_EQUALVERIFY, OP_CHECKSIG])
  else if nSize = 0x01 then
    some ([OP_HASH160, 20] ++ input.take 20 ++ [OP_EQUAL])
  else if nSize = 0x02 ∨ nSize = 0x03 then
    some ([33, UInt8.ofNat nSize] ++ input.take 32 ++ [OP_CHECKSIG])
  else if nSize = 0x04 ∨ nSize = 0x05 then
    match decompress (UInt8.ofNat (nSize - 2) :: input.take 32) with
    | some pubkey => some (65 :: pubkey.toList ++ [OP_CHECKSIG])
    | none => none
  else none

/-- `CScriptCompressor::Serialize`: the compressed form, or `VARINT(size + 6)` (an
`unsigned int`) and the script's bytes. -/
def serScriptCompressor (script : CScript) : List UInt8 :=
  match compressScript isFullyValid script with
  | some compr => compr
  | none => writeVarInt ((script.length + nSpecialScripts) % 2 ^ 32) ++ script

/-- `CScriptCompressor::Unserialize` into the script `script` held before: the result of
`DecompressScript` is not checked, so a failed decompression leaves `script` as it was,
and an overlong script gets `OP_RETURN` appended. -/
def unserScriptCompressor (script : CScript) : Decoder CScript := do
  let nSize ← readVarInt 32
  if nSize < nSpecialScripts then do
    let vch ← take (getSpecialScriptSize nSize)
    pure ((decompressScript decompress nSize vch).getD script)
  else
    let nSize := nSize - nSpecialScripts
    if nSize > MAX_SCRIPT_SIZE then do
      -- overly long script, replace with a short invalid one; s.ignore(nSize)
      let _ ← take nSize
      pure (script ++ [OP_RETURN])
    else take nSize

/-- What `CPubKey::Decompress` does for the keys `IsFullyValid` accepts: their compressed
form (the parity of `y` in the prefix, then `x`) decompresses back to them.  On
secp256k1 `x` and the parity of `y` determine a point. -/
def DecompressesValidKeys : Prop :=
  ∀ pubkey : Blob 65, pubkey.toList.getD 0 0 = 0x04 → isFullyValid pubkey.toList = true →
    decompress ((0x02 + (pubkey.toList.getD 64 0 &&& 0x01)) :: (pubkey.toList.drop 1).take 32) =
      some pubkey

/-- A P2PK script is its key between the push of its length and `OP_CHECKSIG`: a
compressed key, or an uncompressed one that `IsFullyValid` accepts. -/
theorem isToPubKey_eq_some {script pubkey : List UInt8}
    (h : isToPubKey isFullyValid script = some pubkey) :
    (pubkey.length = 33 ∧ (pubkey.getD 0 0 = 0x02 ∨ pubkey.getD 0 0 = 0x03) ∧
        script = [33] ++ pubkey ++ [OP_CHECKSIG]) ∨
      (pubkey.length = 65 ∧ pubkey.getD 0 0 = 0x04 ∧ isFullyValid pubkey = true ∧
        script = [65] ++ pubkey ++ [OP_CHECKSIG]) := by
  unfold isToPubKey at h
  split_ifs at h with h35 h67 hvalid
  · cases h
    obtain ⟨hlen, h0, h34, h1⟩ := h35
    refine .inl ⟨by simp [hlen], by rwa [getD_take_drop _ (by decide)], ?_⟩
    refine eq_frame [33] 33 [OP_CHECKSIG] (by simp [hlen]) ?_ ?_
    · intro i hi
      simp only [List.length_cons, List.length_nil] at hi
      interval_cases i
      exact h0
    · intro i hi
      simp only [List.length_cons, List.length_nil] at hi
      interval_cases i
      exact h34
  · cases h
    obtain ⟨hlen, h0, h66, h1⟩ := h67
    refine .inr ⟨by simp [hlen], by rwa [getD_take_drop _ (by decide)], hvalid, ?_⟩
    refine eq_frame [65] 65 [OP_CHECKSIG] (by simp [hlen]) ?_ ?_
    · intro i hi
      simp only [List.length_cons, List.length_nil] at hi
      interval_cases i
      exact h0
    · intro i hi
      simp only [List.length_cons, List.length_nil] at hi
      interval_cases i
      exact h66

theorem toNat_ofNat_sub_two : ∀ b : UInt8,
    UInt8.ofNat ((0x04 ||| (b &&& 0x01)).toNat - 2) = 0x02 + (b &&& 0x01) ∧
      (0x04 ||| (b &&& 0x01)).toNat < nSpecialScripts ∧
      ((0x04 ||| (b &&& 0x01)).toNat = 0x04 ∨ (0x04 ||| (b &&& 0x01)).toNat = 0x05) := by
  decide +kernel

/-- Every compressed script is a tag below `nSpecialScripts` and a payload of the size the
tag announces, and `DecompressScript` rebuilds the script from it byte for byte. -/
theorem decompressScript_compressScript (hdec : DecompressesValidKeys isFullyValid decompress)
    {script compr : List UInt8} (h : compressScript isFullyValid script = some compr) :
    ∃ tag payload, compr = tag :: payload ∧ tag.toNat < nSpecialScripts ∧
      payload.length = getSpecialScriptSize tag.toNat ∧
      decompressScript decompress tag.toNat payload = some script := by
  unfold compressScript at h
  split at h
  · next keyID hk =>
    cases h
    obtain ⟨hlen, rfl⟩ := isToKeyID_eq_some hk
    refine ⟨0, keyID, rfl, by decide, by simp [hlen, getSpecialScriptSize], ?_⟩
    rw [decompressScript, if_pos (by decide), List.take_of_length_le (by omega)]
  split at h
  · next scriptID hs =>
    cases h
    obtain ⟨hlen, rfl⟩ := isToScriptID_eq_some hs
    refine ⟨1, scriptID, rfl, by decide, by simp [hlen, getSpecialScriptSize], ?_⟩
    rw [decompressScript, if_neg (by decide), if_pos (by decide), List.take_of_length_le (by omega)]
  split at h
  · next pubkey hp =>
    have hpay : ∀ k, k = pubkey.length → ((pubkey.drop 1).take 32).length = 32 := by
      intro k hk
      rcases isToPubKey_eq_some isFullyValid hp with ⟨hl, -⟩ | ⟨hl, -⟩ <;> simp [hl]
    split_ifs at h with h23 h4
    · -- a compressed key is copied back behind its prefix byte
      cases h
      rcases isToPubKey_eq_some isFullyValid hp with ⟨hl, -, rfl⟩ | ⟨-, h04, -⟩
      · have htag : (pubkey.getD 0 0).toNat = 2 ∨ (pubkey.getD 0 0).toNat = 3 := by
          rcases h23 with h | h <;> rw [h] <;> decide
        refine ⟨pubkey.getD 0 0, (pubkey.drop 1).take 32, rfl, by unfold nSpecialScripts; omega,
          by rw [hpay _ rfl, getSpecialScriptSize, if_neg (by omega), if_pos (by omega)], ?_⟩
        rw [decompressScript, if_neg (by omega), if_neg (by omega), if_pos htag, UInt8.ofNat_toNat,
          List.take_of_length_le (by rw [hpay _ rfl])]
        have hhead : pubkey = pubkey.getD 0 0 :: (pubkey.drop 1).take 32 := by
          have := eq_frame (l := pubkey) [pubkey.getD 0 0] 32 [] (by simp [hl])
            (fun i hi => by simp only [List.length_cons, List.length_nil] at hi; interval_cases i; rfl)
            (fun i hi => by simp at hi)
          simpa using this
        have hscript : [33] ++ pubkey ++ [OP_CHECKSIG] =
            [33, pubkey.getD 0 0] ++ (pubkey.drop 1).take 32 ++ [OP_CHECKSIG] := by
          conv_lhs => rw [hhead]
          rfl
        rw [hscript]
      · rw [h04] at h23
        simp at h23
    · -- an uncompressed key is recovered from `x` and the parity of `y`
      cases h
      rcases isToPubKey_eq_some isFullyValid hp with ⟨-, h23', -⟩ | ⟨hl, h04, hvalid, rfl⟩
      · exact absurd h23' h23
      · obtain ⟨hsub, htag, h45⟩ := toNat_ofNat_sub_two (pubkey.getD 64 0)
        refine ⟨0x04 ||| (pubkey.getD 64 0 &&& 0x01), (pubkey.drop 1).take 32, rfl, htag,
          by rw [hpay _ rfl, getSpecialScriptSize, if_neg (by omega), if_pos (by omega)], ?_⟩
        have hkey : decompress ((0x02 + (pubkey.getD 64 0 &&& 0x01)) :: (pubkey.drop 1).take 32) =
            some ⟨pubkey, hl⟩ := hdec ⟨pubkey, hl⟩ h04 hvalid
        rw [decompressScript, if_neg (by omega), if_neg (by omega), if_neg (by omega), if_pos h45,
          hsub, List.take_of_length_le (by rw [hpay _ rfl]), hkey]
        rfl
  · cases h

/-- `CScriptCompressor` reads back every script of at most `MAX_SCRIPT_SIZE` bytes, whatever
script it is read into. -/
theorem unserScriptCompressor_serScriptCompressor
    (hdec : DecompressesValidKeys isFullyValid decompress) {script : CScript}
    (hlen : script.length ≤ MAX_SCRIPT_SIZE) (prior rest : List UInt8) :
    unserScriptCompressor decompress prior (serScriptCompressor isFullyValid script ++ rest) =
      some (script, rest) := by
  unfold serScriptCompressor
  cases hc : compressScript isFullyValid script with
  | some compr =>
    -- the tag byte is the one-byte `VARINT` of a size below `nSpecialScripts`
    obtain ⟨tag, payload, rfl, htag, hpay, hdecomp⟩ :=
      decompressScript_compressScript isFullyValid decompress hdec hc
    have htag' : tag.toNat < 128 := by unfold nSpecialScripts at htag; omega
    have hread : readVarInt 32 (tag :: payload ++ rest) = some (tag.toNat, payload ++ rest) := by
      have := readVarInt_reads 32 tag.toNat (by omega) (payload ++ rest)
      rwa [writeVarInt_of_lt htag', List.singleton_append] at this
    have htake : take (getSpecialScriptSize tag.toNat) (payload ++ rest) = some (payload, rest) := by
      rw [← hpay]
      exact take_append payload rest
    rw [unserScriptCompressor, bind_of_some hread, if_pos htag, bind_of_some htake, pure_apply,
      hdecomp]
    rfl
  | none =>
    -- `VARINT(size + 6)` and the bytes
    have hsize : (script.length + nSpecialScripts) % 2 ^ 32 = script.length + nSpecialScripts :=
      Nat.mod_eq_of_lt (by unfold nSpecialScripts; unfold MAX_SCRIPT_SIZE at hlen; omega)
    have hread : readVarInt 32 (writeVarInt ((script.length + nSpecialScripts) % 2 ^ 32) ++
        (script ++ rest)) = some (script.length + nSpecialScripts, script ++ rest) := by
      rw [hsize]
      exact readVarInt_reads 32 _ (by unfold nSpecialScripts; unfold MAX_SCRIPT_SIZE at hlen; omega) _
    rw [List.append_assoc, unserScriptCompressor, bind_of_some hread,
      if_neg (by unfold nSpecialScripts; omega), Nat.add_sub_cancel, if_neg (by omega)]
    exact take_append script rest

/-- `CTxOutCompressor::SerializationOp` when writing. -/
def serTxOutCompressor (txout : CTxOut) : List UInt8 :=
  writeVarInt (compressAmount txout.nValue.toUInt64).toNat ++
    serScriptCompressor isFullyValid txout.scriptPubKey

/-- `CTxOutCompressor::SerializationOp` when reading into `txout`. -/
def unserTxOutCompressor (txout : CTxOut) : Decoder CTxOut := do
  let nVal ← readVarInt 64
  let scriptPubKey ← unserScriptCompressor decompress txout.scriptPubKey
  pure { nValue := (decompressAmount nVal.toUInt64).toInt64, scriptPubKey }

/-- `CTxOutCompressor` reads back every output of a value in `[0, MAX_MONEY]` and a script
of at most `MAX_SCRIPT_SIZE` bytes. -/
theorem unserTxOutCompressor_serTxOutCompressor
    (hdec : DecompressesValidKeys isFullyValid decompress) {txout : CTxOut}
    (h0 : 0 ≤ txout.nValue) (hmax : txout.nValue ≤ MAX_MONEY)
    (hlen : txout.scriptPubKey.length ≤ MAX_SCRIPT_SIZE) (prior : CTxOut) (rest : List UInt8) :
    unserTxOutCompressor decompress prior (serTxOutCompressor isFullyValid txout ++ rest) =
      some (txout, rest) := by
  have hval : (decompressAmount (compressAmount txout.nValue.toUInt64).toNat.toUInt64).toInt64 =
      txout.nValue := by
    rw [Nat.toUInt64_eq, UInt64.ofNat_toNat, decompressAmount_compressAmount_toInt64 h0 hmax]
  rw [serTxOutCompressor, List.append_assoc, unserTxOutCompressor,
    bind_of_some (readVarInt_reads 64 _ (UInt64.toNat_lt _) _),
    bind_of_some (unserScriptCompressor_serScriptCompressor isFullyValid decompress hdec hlen _ rest),
    pure_apply, hval]

end PubKey

end Veil
