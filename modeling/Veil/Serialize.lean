import Veil.Codec.Decoder

/-!
# `serialize.h`: fixed-width integers, `bool`, compact sizes and vectors

The stream primitives of `src/serialize.h` as encoders and `Codec.Decoder`s:
`ser_writedata8/16/32/64` write little-endian bytes, `bool` is one byte that
decodes to `true` when it is non-zero, `WriteCompactSize`/`ReadCompactSize` are
the variable-length sizes with their canonicity and `MAX_SIZE` checks, and a
vector is its compact size followed by its items.

Every piece comes with its two laws (`Decoder.Reads` and `Decoder.Exact`), except
`bool`, whose decoder also accepts the 254 bytes other than `0` and `1`.
-/

namespace Veil

open Codec Decoder

/-! ## Fixed-width integers -/

def serWriteData16 (x : UInt16) : List UInt8 := leBytes 2 x.toNat
def serWriteData32 (x : UInt32) : List UInt8 := leBytes 4 x.toNat
def serWriteData64 (x : UInt64) : List UInt8 := leBytes 8 x.toNat

def serReadData16 : Decoder UInt16 := do
  let x ← leNat 2
  pure (UInt16.ofNat x)

def serReadData32 : Decoder UInt32 := do
  let x ← leNat 4
  pure (UInt32.ofNat x)

def serReadData64 : Decoder UInt64 := do
  let x ← leNat 8
  pure (UInt64.ofNat x)

/-- `int64_t` (a `CAmount`) goes through `ser_writedata64` as its bit pattern. -/
def serInt64 (x : Int64) : List UInt8 := serWriteData64 x.toUInt64

def unserInt64 : Decoder Int64 := do
  let x ← serReadData64
  pure x.toInt64

/-- `Serialize(bool)`: `char f = a`. -/
def serBool (a : Bool) : List UInt8 := [if a then 1 else 0]

/-- `Unserialize(bool)`: `char f = ser_readdata8(s); a = f`, so any non-zero byte
is `true`. -/
def unserBool : Decoder Bool := do
  let f ← byte
  pure (f != 0)

/-- An unsigned fixed-width number decoded from its `w` little-endian bytes. -/
theorem leNat_ofNat_reads {τ : Type} (w : Nat) (toNat : τ → Nat) (ofNat : Nat → τ)
    (hlt : ∀ x, toNat x < 256 ^ w) (hof : ∀ x, ofNat (toNat x) = x) :
    Reads (fun x => leBytes w (toNat x)) (do let x ← leNat w; pure (ofNat x)) (fun _ => True) := by
  intro x _ rest
  rw [bind_of_some (leNat_reads w _ (hlt x) rest), pure_apply, hof]

theorem leNat_ofNat_exact {τ : Type} (w : Nat) (toNat : τ → Nat) (ofNat : Nat → τ)
    (hto : ∀ n, n < 256 ^ w → toNat (ofNat n) = n) :
    Exact (fun x => leBytes w (toNat x)) (do let x ← leNat w; pure (ofNat x)) := by
  intro bs x rest h
  obtain ⟨n, r, hn, h⟩ := bind_eq_some.mp h
  simp only [pure_apply, Option.some.injEq, Prod.mk.injEq] at h
  obtain ⟨rfl, rfl⟩ := h
  dsimp only
  rw [leNat_exact w bs n r hn, hto n (leNat_lt hn)]

theorem serReadData32_reads : Reads serWriteData32 serReadData32 (fun _ => True) :=
  leNat_ofNat_reads 4 UInt32.toNat UInt32.ofNat UInt32.toNat_lt (by simp)

theorem serReadData32_exact : Exact serWriteData32 serReadData32 :=
  leNat_ofNat_exact 4 UInt32.toNat UInt32.ofNat
    (fun n hn => by norm_num at hn; simp; omega)

theorem serReadData64_reads : Reads serWriteData64 serReadData64 (fun _ => True) :=
  leNat_ofNat_reads 8 UInt64.toNat UInt64.ofNat UInt64.toNat_lt (by simp)

theorem serReadData64_exact : Exact serWriteData64 serReadData64 :=
  leNat_ofNat_exact 8 UInt64.toNat UInt64.ofNat
    (fun n hn => by norm_num at hn; simp; omega)

theorem unserInt64_reads : Reads serInt64 unserInt64 (fun _ => True) := by
  intro x _ rest
  rw [unserInt64, serInt64, bind_of_some (serReadData64_reads _ trivial rest), pure_apply,
    Int64.toInt64_toUInt64]

theorem unserInt64_exact : Exact serInt64 unserInt64 := by
  intro bs x rest h
  obtain ⟨u, r, hu, h⟩ := bind_eq_some.mp h
  simp only [pure_apply, Option.some.injEq, Prod.mk.injEq] at h
  obtain ⟨rfl, rfl⟩ := h
  rw [serReadData64_exact bs u r hu, serInt64, UInt64.toUInt64_toInt64]

theorem unserBool_reads : Reads serBool unserBool (fun _ => True) := by
  intro a _ rest
  cases a <;> rfl

theorem unserBool_eq_some {bs r : List UInt8} {a : Bool} :
    unserBool bs = some (a, r) ↔ ∃ f, bs = f :: r ∧ a = (f != 0) := by
  constructor
  · intro h
    obtain ⟨f, r1, hf, h⟩ := bind_eq_some.mp h
    simp only [pure_apply, Option.some.injEq, Prod.mk.injEq] at h
    exact ⟨f, by rw [byte_eq_some.mp hf, h.2], h.1.symm⟩
  · rintro ⟨f, rfl, rfl⟩
    rfl

/-! ## Compact sizes -/

/-- `MAX_SIZE`: the largest size `ReadCompactSize` accepts. -/
def MAX_SIZE : Nat := 0x02000000

/-- `WriteCompactSize`. -/
def writeCompactSize (nSize : Nat) : List UInt8 :=
  if nSize < 253 then [UInt8.ofNat nSize]
  else if nSize ≤ 0xffff then 253 :: leBytes 2 nSize
  else if nSize ≤ 0xffffffff then 254 :: leBytes 4 nSize
  else 255 :: leBytes 8 nSize

/-- The size announced after the first byte `chSize` of a compact size: each
longer form must hold a size the shorter forms cannot. -/
def readCompactSizeBody (chSize : UInt8) : Decoder Nat :=
  if chSize < 253 then pure chSize.toNat
  else if chSize = 253 then do
    let x ← leNat 2
    if x < 253 then fail else pure x
  else if chSize = 254 then do
    let x ← leNat 4
    if x < 0x10000 then fail else pure x
  else do
    let x ← leNat 8
    if x < 0x100000000 then fail else pure x

/-- `ReadCompactSize`: no size above `MAX_SIZE` is accepted. -/
def readCompactSize : Decoder Nat := do
  let chSize ← byte
  let nSizeRet ← readCompactSizeBody chSize
  if nSizeRet > MAX_SIZE then fail else pure nSizeRet

theorem readCompactSize_cons (b : UInt8) (bs : List UInt8) :
    readCompactSize (b :: bs) =
      (readCompactSizeBody b >>= fun n => if n > MAX_SIZE then fail else pure n) bs :=
  bind_of_some (byte_cons b bs)

/-- The range check that follows a prefix byte, for a size that passes it. -/
theorem checked_leNat_reads (w lo n : Nat) (hlo : lo ≤ n) (hn : n < 256 ^ w) (rest : List UInt8) :
    (do let x ← leNat w; if x < lo then fail else pure x : Decoder Nat) (leBytes w n ++ rest) =
      some (n, rest) := by
  rw [bind_of_some (leNat_reads w n hn rest), if_neg (by omega), pure_apply]

theorem readCompactSize_reads : Reads writeCompactSize readCompactSize (· ≤ MAX_SIZE) := by
  intro n hn rest
  unfold MAX_SIZE at hn
  have hmax : ¬ (n > MAX_SIZE) := by unfold MAX_SIZE; omega
  unfold writeCompactSize
  by_cases h1 : n < 253
  · -- the one-byte form
    have hb : (UInt8.ofNat n).toNat = n := by simp [Nat.mod_eq_of_lt (by omega : n < 256)]
    have hlt : UInt8.ofNat n < 253 := by rw [UInt8.lt_iff_toNat_lt, hb]; exact h1
    rw [if_pos h1, List.cons_append, List.nil_append, readCompactSize_cons, readCompactSizeBody,
      if_pos hlt,
      bind_of_some (pure_apply _ _), hb, if_neg hmax, pure_apply]
  · by_cases h3 : n ≤ 0xffff
    · rw [if_neg h1, if_pos h3, List.cons_append, readCompactSize_cons, readCompactSizeBody,
        if_neg (by decide), if_pos rfl,
        bind_of_some (checked_leNat_reads 2 253 n (by omega) (by norm_num; omega) rest),
        if_neg hmax, pure_apply]
    · rw [if_neg h1, if_neg h3, if_pos (by omega), List.cons_append, readCompactSize_cons,
        readCompactSizeBody, if_neg (by decide), if_neg (by decide), if_pos rfl,
        bind_of_some (checked_leNat_reads 4 0x10000 n (by omega) (by norm_num; omega) rest),
        if_neg hmax, pure_apply]

theorem readCompactSize_le {bs r : List UInt8} {n : Nat} (h : readCompactSize bs = some (n, r)) :
    n ≤ MAX_SIZE := by
  obtain ⟨b, r1, -, h⟩ := bind_eq_some.mp h
  obtain ⟨m, r2, -, h⟩ := bind_eq_some.mp h
  split at h
  · simp at h
  · simp only [pure_apply, Option.some.injEq, Prod.mk.injEq] at h
    omega

/-- What follows a prefix byte and passes its range check is a canonical size. -/
theorem checked_leNat_exact {w lo n : Nat} {bs r : List UInt8}
    (h : (do let x ← leNat w; if x < lo then fail else pure x : Decoder Nat) bs = some (n, r)) :
    bs = leBytes w n ++ r ∧ lo ≤ n ∧ n < 256 ^ w := by
  obtain ⟨x, r1, hx, h⟩ := bind_eq_some.mp h
  split at h
  · simp at h
  · simp only [pure_apply, Option.some.injEq, Prod.mk.injEq] at h
    obtain ⟨rfl, rfl⟩ := h
    exact ⟨leNat_exact w bs x r1 hx, by omega, leNat_lt hx⟩

theorem readCompactSize_exact : Exact writeCompactSize readCompactSize := by
  intro bs n rest h
  have hle := readCompactSize_le h
  unfold MAX_SIZE at hle
  obtain ⟨b, r1, hb, h⟩ := bind_eq_some.mp h
  obtain ⟨m, r2, hm, h⟩ := bind_eq_some.mp h
  split at h
  · simp at h
  simp only [pure_apply, Option.some.injEq, Prod.mk.injEq] at h
  obtain ⟨rfl, rfl⟩ := h
  rw [byte_eq_some.mp hb]
  unfold readCompactSizeBody at hm
  unfold writeCompactSize
  split at hm
  · -- one byte
    rename_i hlt
    simp only [pure_apply, Option.some.injEq, Prod.mk.injEq] at hm
    obtain ⟨rfl, rfl⟩ := hm
    have : b.toNat < 253 := UInt8.lt_iff_toNat_lt.mp hlt
    simp [this]
  split at hm
  · rename_i _ h253
    obtain ⟨hbs, hlo, hhi⟩ := checked_leNat_exact hm
    subst h253
    rw [hbs, if_neg (by omega), if_pos (by norm_num at hhi; omega)]
    rfl
  split at hm
  · rename_i _ _ h254
    obtain ⟨hbs, hlo, hhi⟩ := checked_leNat_exact hm
    subst h254
    rw [hbs, if_neg (by omega), if_neg (by omega), if_pos (by norm_num at hhi; omega)]
    rfl
  · -- the nine-byte form holds sizes above `MAX_SIZE` only
    obtain ⟨-, hlo, -⟩ := checked_leNat_exact hm
    omega

/-! ## Vectors -/

/-- `std::vector<unsigned char>` and `prevector` of bytes (a `CScript`): the size,
then the raw bytes. -/
def serBytes (v : List UInt8) : List UInt8 := writeCompactSize v.length ++ v

def unserBytes : Decoder (List UInt8) := do
  let nSize ← readCompactSize
  take nSize

/-- `std::vector<T>` of serializable items. -/
def serVector {α : Type} (ser : α → List UInt8) (v : List α) : List UInt8 :=
  writeCompactSize v.length ++ v.flatMap ser

def unserVector {α : Type} (unser : Decoder α) : Decoder (List α) := do
  let nSize ← readCompactSize
  count unser nSize

theorem unserBytes_reads : Reads serBytes unserBytes (·.length ≤ MAX_SIZE) := by
  intro v hv rest
  rw [unserBytes, serBytes, List.append_assoc,
    bind_of_some (readCompactSize_reads v.length hv _), take_append]

theorem unserBytes_exact : Exact serBytes unserBytes := by
  intro bs v rest h
  obtain ⟨n, r1, hn, h⟩ := bind_eq_some.mp h
  obtain ⟨hr1, hlen⟩ := take_eq_some h
  rw [readCompactSize_exact bs n r1 hn, hr1, serBytes, hlen, List.append_assoc]

theorem unserVector_reads {α β : Type} {ser : α → List UInt8} {unser : Decoder β} {P : α → Prop}
    {view : α → β} (h : ReadsAs ser unser P view) :
    ReadsAs (serVector ser) (unserVector unser) (fun v => v.length ≤ MAX_SIZE ∧ ∀ a ∈ v, P a)
      (List.map view) := by
  rintro v ⟨hv, hP⟩ rest
  rw [unserVector, serVector, List.append_assoc,
    bind_of_some (readCompactSize_reads v.length hv _)]
  exact count_reads h v.length v ⟨rfl, hP⟩ rest

theorem unserVector_reads_id {α : Type} {ser : α → List UInt8} {unser : Decoder α}
    {P : α → Prop} (h : Reads ser unser P) :
    Reads (serVector ser) (unserVector unser) (fun v => v.length ≤ MAX_SIZE ∧ ∀ a ∈ v, P a) := by
  intro v hv rest
  have := unserVector_reads h.readsAs v hv rest
  rwa [List.map_id] at this

theorem unserVector_forall {α : Type} {unser : Decoder α} {P : α → Prop}
    (h : ∀ bs a r, unser bs = some (a, r) → P a) {bs r : List UInt8} {v : List α}
    (hv : unserVector unser bs = some (v, r)) : ∀ a ∈ v, P a := by
  obtain ⟨n, r1, -, hv⟩ := bind_eq_some.mp hv
  exact count_forall h hv

theorem unserVector_exact {α : Type} {ser : α → List UInt8} {unser : Decoder α}
    (h : Exact ser unser) : Exact (serVector ser) (unserVector unser) := by
  intro bs v rest hd
  obtain ⟨n, r1, hn, hd⟩ := bind_eq_some.mp hd
  have hlen := count_length hd
  rw [readCompactSize_exact bs n r1 hn, count_exact h n r1 v rest hd, serVector, hlen,
    List.append_assoc]

/-! ## `VARINT` -/

/-- `WriteVarInt` from the value `n` held when `tmp[len]` is written (`cont` is `len ≠ 0`):
the bytes `tmp[len], ..., tmp[0]` that go to the stream, most significant first.  Each
digit above the lowest is stored one less (`n = (n >> 7) - 1`), so that every number has
one encoding. -/
def writeVarIntLoop (n : Nat) (cont : Bool) : List UInt8 :=
  let b := UInt8.ofNat (n &&& 0x7F) ||| (if cont then 0x80 else 0x00)
  if n ≤ 0x7F then [b] else writeVarIntLoop ((n >>> 7) - 1) true ++ [b]
termination_by n
decreasing_by
  simp only [Nat.shiftRight_eq_div_pow, Nat.reducePow]
  omega

/-- `WriteVarInt(os, n)`. -/
def writeVarInt (n : Nat) : List UInt8 := writeVarIntLoop n false

/-- The loop of `ReadVarInt` for an unsigned type of `w` bits (`max` is `2 ^ w - 1`),
from the value `n` read so far; `none` is a thrown "size too large" or the end of the
stream. -/
def readVarIntLoop (w : Nat) (n : Nat) : List UInt8 → Option (Nat × List UInt8)
  | [] => none
  | chData :: rest =>
    if n > (2 ^ w - 1) >>> 7 then none
    else
      let n := (n <<< 7) ||| (chData &&& 0x7F).toNat
      if chData &&& 0x80 ≠ 0 then
        if n = 2 ^ w - 1 then none else readVarIntLoop w (n + 1) rest
      else some (n, rest)

/-- `ReadVarInt<Stream, VarIntMode::DEFAULT, I>` for `I` of `w` bits. -/
def readVarInt (w : Nat) : Decoder Nat := readVarIntLoop w 0

theorem toNat_ofNat_and_0x7F (n : Nat) : (UInt8.ofNat (n &&& 0x7F)).toNat = n % 128 := by
  have h : n &&& 0x7F = n % 2 ^ 7 := Nat.and_two_pow_sub_one_eq_mod n 7
  rw [h, UInt8.toNat_ofNat']
  omega

theorem and_0x7F_of_lt : ∀ b : UInt8, b.toNat < 128 →
    (b ||| 0x80) &&& 0x7F = b ∧ (b ||| 0x80) &&& 0x80 ≠ 0 ∧ b &&& 0x7F = b ∧ b &&& 0x80 = 0 := by
  decide +kernel

theorem shiftLeft_or_mod (n : Nat) : (n >>> 7 <<< 7) ||| n % 128 = n := by
  have h : n % 128 < 2 ^ 7 := Nat.mod_lt n (by decide)
  rw [Nat.shiftLeft_eq, Nat.shiftRight_eq_div_pow, Nat.mul_comm, ← Nat.two_pow_add_eq_or_of_lt h]
  omega

theorem writeVarIntLoop_of_le {n : Nat} (cont : Bool) (h : n ≤ 0x7F) :
    writeVarIntLoop n cont = [UInt8.ofNat (n &&& 0x7F) ||| (if cont then 0x80 else 0x00)] := by
  rw [writeVarIntLoop, if_pos h]

theorem writeVarIntLoop_of_gt {n : Nat} (cont : Bool) (h : ¬n ≤ 0x7F) :
    writeVarIntLoop n cont = writeVarIntLoop ((n >>> 7) - 1) true ++
      [UInt8.ofNat (n &&& 0x7F) ||| (if cont then 0x80 else 0x00)] := by
  rw [writeVarIntLoop, if_neg h]

/-- One byte of `ReadVarInt` after the digits above it left `a`: the low seven bits of `n`
complete `n`, and the continuation bit says whether to go on with `n + 1`. -/
theorem readVarIntLoop_byte {w a n : Nat} (cont : Bool) (ha : a ≤ (2 ^ w - 1) >>> 7)
    (hval : a <<< 7 ||| n % 128 = n) (hcont : cont = true → n < 2 ^ w - 1) (rest : List UInt8) :
    readVarIntLoop w a ((UInt8.ofNat (n &&& 0x7F) ||| (if cont then 0x80 else 0x00)) :: rest) =
      if cont then readVarIntLoop w (n + 1) rest else some (n, rest) := by
  have hb := and_0x7F_of_lt (UInt8.ofNat (n &&& 0x7F)) (by rw [toNat_ofNat_and_0x7F]; omega)
  rw [readVarIntLoop, if_neg (by omega)]
  cases cont with
  | true =>
    have hlt := hcont rfl
    simp only [↓reduceIte, hb.1, toNat_ofNat_and_0x7F, hval, ne_eq, hb.2.1, not_false_eq_true]
    rw [if_neg (by omega)]
  | false =>
    simp only [Bool.false_eq_true, ↓reduceIte, UInt8.or_zero, hb.2.2.1, toNat_ofNat_and_0x7F, hval,
      hb.2.2.2, ne_eq, not_true_eq_false]

/-- Reading the bytes of `writeVarIntLoop n cont`: the value `n`, or, for the continued
digits, the value they leave for the next byte. -/
theorem readVarIntLoop_writeVarIntLoop {w : Nat} (n : Nat) : ∀ (cont : Bool), n ≤ 2 ^ w - 1 →
    (cont = true → n < 2 ^ w - 1) → ∀ rest : List UInt8,
      readVarIntLoop w 0 (writeVarIntLoop n cont ++ rest) =
        if cont then readVarIntLoop w (n + 1) rest else some (n, rest) := by
  induction n using Nat.strong_induction_on with
  | _ n ih =>
  intro cont hn hcont rest
  have hdiv : n >>> 7 = n / 128 := Nat.shiftRight_eq_div_pow n 7
  have hmax : (2 ^ w - 1) >>> 7 = (2 ^ w - 1) / 128 := Nat.shiftRight_eq_div_pow _ 7
  by_cases hsmall : n ≤ 0x7F
  · -- one digit, read from `0`
    rw [writeVarIntLoop_of_le cont hsmall, List.singleton_append]
    refine readVarIntLoop_byte cont (Nat.zero_le _) ?_ hcont rest
    rw [Nat.zero_shiftLeft, Nat.zero_or]
    omega
  · -- the higher digits leave `n >>> 7`, and the last byte adds the low seven bits
    have hhigh : n >>> 7 - 1 + 1 = n >>> 7 := by omega
    rw [writeVarIntLoop_of_gt cont hsmall, List.append_assoc,
      ih _ (by omega) true (by omega) (fun _ => by omega), if_pos rfl, hhigh,
      List.singleton_append]
    exact readVarIntLoop_byte cont (by omega) (shiftLeft_or_mod n) hcont rest

/-- A number below `0x80` is one byte. -/
theorem writeVarInt_of_lt {b : UInt8} (h : b.toNat < 128) : writeVarInt b.toNat = [b] := by
  rw [writeVarInt, writeVarIntLoop_of_le false (by omega), if_neg Bool.false_ne_true, UInt8.or_zero]
  congr 1
  apply UInt8.toNat_inj.mp
  rw [toNat_ofNat_and_0x7F]
  omega

/-- `ReadVarInt` reads back every value of its type. -/
theorem readVarInt_reads (w : Nat) : Reads writeVarInt (readVarInt w) (· < 2 ^ w) := by
  intro n hn rest
  rw [readVarInt, writeVarInt, readVarIntLoop_writeVarIntLoop n false (by omega) nofun rest]
  rfl

end Veil
