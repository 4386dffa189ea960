import Mathlib
import Veil.Lib.ByteBits
import Veil.Lib.Digits
/-!
# BIP-39 mnemonics (`veil/mnemonic/mnemonic.cpp`)

`create_mnemonic` appends the SHA-256 digest of the entropy to it and cuts the first
`entropy_bits + entropy_bits / 32` bits of the result into words of 11 bits, each an index into a
lexicon of 2048 words. `key_from_mnemonic` and `validate_mnemonic` or the 11-bit index of each word
into a zeroed buffer, keep its first `entropy_bits / 8` bytes and accept them when
`create_mnemonic` gives the words back. The lexicon is generic in its word type, and the digest
is a parameter `sha256Hash` with 32-byte values (`hash_digest`).

Every read of a buffer is bounds-checked in the model, and `none` stands for a read past the end
of a buffer, which the source does not check (undefined behaviour); it is never a value that the
functions return.

* `keyFromMnemonic_createMnemonic`: for a lexicon of distinct words and an entropy of `4 * k`
  bytes with `k ≤ 256`, the words `create_mnemonic` gives decode to the entropy and validate.
* `mnemonic_reads_past_digest`: for `k > 256` the checksum takes more than the 256 bits of the
  digest, and both directions read past the end of a buffer.
-/

namespace Veil

open ByteBits

/-! ## The model -/

/-- `bits_per_word`. -/
def bitsPerWord : Nat := 11

/-- `entropy_bit_divisor`. -/
def entropyBitDivisor : Nat := 32

/-- `byte_bits`. -/
def byteBits : Nat := 8

/-- `mnemonic_word_multiple`. -/
def mnemonicWordMultiple : Nat := 3

/-- `mnemonic_seed_multiple`. -/
def mnemonicSeedMultiple : Nat := 4

/-- `dictionary_size`: a `dictionary` is a `std::array` of this many words. -/
def dictionarySize : Nat := 2048

/-- `bip39_shift(bit)`. -/
def bip39Shift (bit : Nat) : UInt8 := (1 <<< (byteBits - bit % byteBits - 1) : Nat).toUInt8

/-- `std::vector::resize(n)`, filling with zeros. -/
def resize (data : List UInt8) (n : Nat) : List UInt8 :=
  data.take n ++ List.replicate (n - data.length) 0

variable {ω : Type} [DecidableEq ω]

/-- `find_position(list, value)`: the index of the first word equal to `value`; `-1` is `none`. -/
def findPosition (list : List ω) (value : ω) : Option Nat := list.idxOf? value

/-- `std::equal(first1, last1, first2)`: `xs` against the first `xs.length` words of `ys`, reading
past the end of `ys` when it is shorter and agrees so far. -/
def stdEqual : List ω → List ω → Option Bool
  | [], _ => some true
  | _ :: _, [] => none
  | x :: xs, y :: ys => if x = y then stdEqual xs ys else some false

/-- One pass of the inner loop of `create_mnemonic`: `position <<= 1`, then `position++` if bit
`word * bits_per_word + loop` of `data` is set. -/
def wordPositionStep (data : List UInt8) (word position loop : Nat) : Option Nat := do
  let bit := word * bitsPerWord + loop
  let position := position <<< 1
  let b ← data[bit / byteBits]?
  pure (if 0 < b &&& bip39Shift bit then position + 1 else position)

/-- The inner loop of `create_mnemonic`: the 11 bits of word `word`, most significant first. -/
def wordPosition (data : List UInt8) (word : Nat) : Option Nat :=
  (List.range bitsPerWord).foldlM (wordPositionStep data word) 0

/-- `create_mnemonic(entropy, lexicon)`. -/
def createMnemonic (sha256Hash : List UInt8 → Vector UInt8 32) (entropy : List UInt8)
    (lexicon : Vector ω dictionarySize) : Option (List ω) :=
  if entropy.length % mnemonicSeedMultiple ≠ 0 then some [] else
  let entropyBits := entropy.length * byteBits
  let checkBits := entropyBits / entropyBitDivisor
  let totalBits := entropyBits + checkBits
  let wordCount := totalBits / bitsPerWord
  let data := entropy ++ (sha256Hash entropy).toList
  (List.range wordCount).mapM fun word => do
    let position ← wordPosition data word
    lexicon[position]?

/-- One pass of the inner loop of `key_from_mnemonic` on `(bit, data)`: if bit
`bits_per_word - loop - 1` of `position` is set, `data[bit / byte_bits] |= bip39_shift(bit)`;
then `bit++`. -/
def setPositionBit (position : Nat) (s : Nat × List UInt8) (loop : Nat) : Nat × List UInt8 :=
  (s.1 + 1, if position &&& (1 <<< (bitsPerWord - loop - 1)) ≠ 0 then
    s.2.modify (s.1 / byteBits) (· ||| bip39Shift s.1) else s.2)

/-- The inner loop of `key_from_mnemonic`: the 11 bits of `position`, most significant first,
or-ed into `data` from bit `bit` on. -/
def setPositionBits (position : Nat) (s : Nat × List UInt8) : Nat × List UInt8 :=
  (List.range bitsPerWord).foldl (setPositionBit position) s

/-- The word loop of `key_from_mnemonic` on `(bit, data)`; `none` is its `return {}` for a word
that is not in the lexicon. -/
def keyFromMnemonicLoop (lexicon : Vector ω dictionarySize) :
    List ω → Nat × List UInt8 → Option (List UInt8)
  | [], s => some s.2
  | word :: words, s => do
    let position ← findPosition lexicon.toList word
    keyFromMnemonicLoop lexicon words (setPositionBits position s)

/-- The body that `validate_mnemonic` and `key_from_mnemonic` share: `some none` for one of their
early returns, else the bytes read back from the words and what `std::equal` says of
`create_mnemonic` of them against the words. -/
def readMnemonic (sha256Hash : List UInt8 → Vector UInt8 32) (words : List ω)
    (lexicon : Vector ω dictionarySize) : Option (Option (List UInt8 × Bool)) :=
  let wordCount := words.length
  if wordCount % mnemonicWordMultiple ≠ 0 then some none else
  let totalBits := bitsPerWord * wordCount
  let checkBits := totalBits / (entropyBitDivisor + 1)
  let entropyBits := totalBits - checkBits
  match keyFromMnemonicLoop lexicon words
      (0, List.replicate ((totalBits + byteBits - 1) / byteBits) 0) with
  | none => some none
  | some data => do
    let data := resize data (entropyBits / byteBits)
    let mnemonic ← createMnemonic sha256Hash data lexicon
    let equal ← stdEqual mnemonic words
    pure (some (data, equal))

/-- `validate_mnemonic(words, lexicon)`. -/
def validateMnemonic (sha256Hash : List UInt8 → Vector UInt8 32) (words : List ω)
    (lexicon : Vector ω dictionarySize) : Option Bool :=
  (readMnemonic sha256Hash words lexicon).map fun
    | none => false
    | some (_, equal) => equal

/-- `key_from_mnemonic(words, lexicon)`; `[]` is the empty `data_chunk` it returns on failure. -/
def keyFromMnemonic (sha256Hash : List UInt8 → Vector UInt8 32) (words : List ω)
    (lexicon : Vector ω dictionarySize) : Option (List UInt8) :=
  (readMnemonic sha256Hash words lexicon).map fun
    | none => []
    | some (data, equal) => if equal then data else []

/-! ## The words of a bit string -/

/-- Word `w` of the bit string `bits`: bits `11 * w` to `11 * w + 10`, most significant first, as
an index into a lexicon. -/
def wordIndex (bits : Nat → Bool) (w : Nat) : Fin dictionarySize :=
  ⟨bitsValue (fun loop => bits (w * bitsPerWord + loop)) bitsPerWord, (bitsValue_lt _ _).trans_eq rfl⟩

/-- The first `wordCount` words of 11 bits of `bits`, looked up in `lexicon`. -/
def mnemonicOfBits (bits : Nat → Bool) (wordCount : Nat) (lexicon : Vector ω dictionarySize) :
    List ω :=
  (List.range wordCount).map fun w => lexicon.get (wordIndex bits w)

/-! ## Reading the bits: `create_mnemonic` -/

theorem bip39Shift_eq (bit : Nat) : bip39Shift bit = msbMask bit := by
  rw [bip39Shift, msbMask, Nat.one_shiftLeft, byteBits, show 8 - bit % 8 - 1 = 7 - bit % 8 by omega]

/-- A pass of the word loop inside `data` shifts in bit `word * bits_per_word + loop`. -/
theorem wordPositionStep_eq {data : List UInt8} {word loop : Nat}
    (h : (word * bitsPerWord + loop) / 8 < data.length) (position : Nat) :
    wordPositionStep data word position loop =
      some (2 * position + (msbBit data (word * bitsPerWord + loop)).toNat) := by
  have hb := List.getElem?_eq_getElem h
  have hbit := msbBit_of_getElem? hb
  rw [wordPositionStep, byteBits, hb]
  show some (if _ then _ else _) = _
  rw [bip39Shift_eq, Nat.shiftLeft_eq, Nat.pow_one, Nat.mul_comm position 2]
  by_cases ht : 0 < data[(word * bitsPerWord + loop) / 8] &&& msbMask (word * bitsPerWord + loop)
  · rw [if_pos ht, hbit.mpr ht]
    rfl
  · rw [if_neg ht, Bool.eq_false_iff.mpr fun hm => ht (hbit.mp hm)]
    rfl

theorem wordPositionStep_eq_none {data : List UInt8} {word loop : Nat}
    (h : data.length ≤ (word * bitsPerWord + loop) / 8) (position : Nat) :
    wordPositionStep data word position loop = none := by
  rw [wordPositionStep, byteBits, List.getElem?_eq_none h]
  rfl

/-- The first `n` passes of the word loop, all inside `data`, build the number whose bits are
bits `word * bits_per_word` to `word * bits_per_word + n - 1` of `data`. -/
theorem foldlM_wordPositionStep (data : List UInt8) (word : Nat) {n : Nat}
    (h : word * bitsPerWord + n ≤ 8 * data.length) :
    (List.range n).foldlM (wordPositionStep data word) 0 =
      some (bitsValue (fun loop => msbBit data (word * bitsPerWord + loop)) n) := by
  induction n with
  | zero => rfl
  | succ n ih =>
    rw [List.range_succ, List.foldlM_append, ih (by omega)]
    simp only [List.foldlM_cons, List.foldlM_nil, bind_pure]
    show wordPositionStep data word _ n = _
    rw [wordPositionStep_eq (by omega), bitsValue]

theorem wordPosition_eq {data : List UInt8} {word : Nat}
    (h : word * bitsPerWord + bitsPerWord ≤ 8 * data.length) :
    wordPosition data word = some (wordIndex (msbBit data) word).val :=
  foldlM_wordPositionStep data word h

/-- A word whose last bit lies past `data` reads past its end. -/
theorem wordPosition_eq_none {data : List UInt8} {word : Nat}
    (h : 8 * data.length ≤ word * bitsPerWord + (bitsPerWord - 1)) :
    wordPosition data word = none := by
  rw [wordPosition, show bitsPerWord = 10 + 1 from rfl, List.range_succ, List.foldlM_append]
  cases (List.range 10).foldlM (wordPositionStep data word) 0 with
  | none => rfl
  | some position =>
    simp only [List.foldlM_cons, List.foldlM_nil, bind_pure]
    show wordPositionStep data word position 10 = none
    exact wordPositionStep_eq_none (by rw [show bitsPerWord = 11 from rfl] at h ⊢; omega) position

omit [DecidableEq ω] in
/-- With at most 256 checksum bits, `create_mnemonic` gives the words of the entropy followed by
its digest: `3 * k` words for `4 * k` bytes. -/
theorem createMnemonic_of_le (sha256Hash : List UInt8 → Vector UInt8 32)
    (lexicon : Vector ω dictionarySize) {entropy : List UInt8}
    (h4 : entropy.length % mnemonicSeedMultiple = 0) (hle : entropy.length ≤ 1024) :
    createMnemonic sha256Hash entropy lexicon =
      some (mnemonicOfBits (msbBit (entropy ++ (sha256Hash entropy).toList))
        (entropy.length / 4 * 3) lexicon) := by
  rw [createMnemonic, if_neg (not_not.mpr h4)]
  rw [mnemonicSeedMultiple] at h4
  have hcount : (entropy.length * byteBits + entropy.length * byteBits / entropyBitDivisor) /
      bitsPerWord = entropy.length / 4 * 3 := by
    simp only [byteBits, entropyBitDivisor, bitsPerWord]
    omega
  have hlen : (entropy ++ (sha256Hash entropy).toList).length = entropy.length + 32 := by simp
  simp only [hcount]
  apply Digits.mapM_eq_some_map
  intro w hw
  have hw' := List.mem_range.mp hw
  rw [wordPosition_eq (by rw [hlen, show bitsPerWord = 11 from rfl]; omega)]
  exact Vector.getElem?_eq_getElem _

omit [DecidableEq ω] in
/-- With more than 256 checksum bits, the last word of `create_mnemonic` reads past the digest. -/
theorem createMnemonic_eq_none (sha256Hash : List UInt8 → Vector UInt8 32)
    (lexicon : Vector ω dictionarySize) {entropy : List UInt8}
    (h4 : entropy.length % mnemonicSeedMultiple = 0) (hlong : 1024 < entropy.length) :
    createMnemonic sha256Hash entropy lexicon = none := by
  rw [createMnemonic, if_neg (not_not.mpr h4)]
  rw [mnemonicSeedMultiple] at h4
  have hcount : (entropy.length * byteBits + entropy.length * byteBits / entropyBitDivisor) /
      bitsPerWord = (entropy.length / 4 * 3 - 1) + 1 := by
    simp only [byteBits, entropyBitDivisor, bitsPerWord]
    omega
  have hlen : (entropy ++ (sha256Hash entropy).toList).length = entropy.length + 32 := by simp
  -- the last word, `3 * k - 1`, ends at bit `33 * k - 1`, past the `32 * k + 256` bits of `data`
  have hlast : wordPosition (entropy ++ (sha256Hash entropy).toList) (entropy.length / 4 * 3 - 1) =
      none :=
    wordPosition_eq_none (by rw [hlen, show bitsPerWord = 11 from rfl]; omega)
  simp only [hcount]
  rw [List.range_succ, List.mapM_append]
  simp [hlast]

/-! ## Writing the bits: `key_from_mnemonic` -/

theorem setPositionBit_eq (position : Nat) {bit : Nat} (loop : Nat) (data : List UInt8) :
    setPositionBit position (bit, data) loop =
      (bit + 1, if position.testBit (bitsPerWord - 1 - loop) then
        data.modify (bit / 8) (· ||| msbMask bit) else data) := by
  rw [setPositionBit, byteBits, bip39Shift_eq,
    show bitsPerWord - loop - 1 = bitsPerWord - 1 - loop by omega]
  simp only [and_one_shiftLeft_ne_zero]

/-- The first `n` passes of the inner loop of `key_from_mnemonic`, inside `data`, or bits
`bits_per_word - 1` down to `bits_per_word - n` of `position` into bits `bit` to `bit + n - 1`. -/
theorem foldl_setPositionBit (position bit : Nat) (data : List UInt8) {n : Nat}
    (h : bit + n ≤ 8 * data.length) :
    ((List.range n).foldl (setPositionBit position) (bit, data)).1 = bit + n ∧
      ((List.range n).foldl (setPositionBit position) (bit, data)).2.length = data.length ∧
      ∀ j, msbBit ((List.range n).foldl (setPositionBit position) (bit, data)).2 j =
        if bit ≤ j ∧ j < bit + n then
          (msbBit data j || position.testBit (bitsPerWord - 1 - (j - bit)))
        else msbBit data j := by
  induction n with
  | zero => exact ⟨rfl, rfl, fun j => by rw [if_neg (by omega)]; rfl⟩
  | succ n ih =>
    obtain ⟨h₁, h₂, h₃⟩ := ih (by omega)
    rw [List.range_succ, List.foldl_append, List.foldl_cons, List.foldl_nil]
    generalize (List.range n).foldl (setPositionBit position) (bit, data) = s at h₁ h₂ h₃ ⊢
    obtain ⟨b, d⟩ := s
    dsimp only at h₁ h₂ h₃
    subst h₁
    rw [setPositionBit_eq]
    refine ⟨rfl, ?_, fun j => ?_⟩
    · split
      · rw [List.length_modify, h₂]
      · exact h₂
    · by_cases ht : position.testBit (bitsPerWord - 1 - n) = true
      · -- the pass sets bit `bit + n`
        dsimp only
        rw [if_pos ht, msbBit_modify_or (by rw [h₂]; omega), h₃ j]
        by_cases hj : j = bit + n
        · subst hj
          simp [ht]
        · have hrange : (bit ≤ j ∧ j < bit + (n + 1)) ↔ (bit ≤ j ∧ j < bit + n) := by omega
          simp [hj, hrange]
      · dsimp only
        rw [if_neg ht, h₃ j]
        by_cases hj : j = bit + n
        · subst hj
          simp [ht]
        · have hrange : (bit ≤ j ∧ j < bit + (n + 1)) ↔ (bit ≤ j ∧ j < bit + n) := by omega
          simp [hrange]

/-- In a lexicon of distinct words, each word is found at its own index. -/
theorem findPosition_get {lexicon : Vector ω dictionarySize} (hL : lexicon.toList.Nodup)
    (i : Fin dictionarySize) : findPosition lexicon.toList (lexicon.get i) = some i.val := by
  have hi : i.val < lexicon.toList.length := by simp
  rw [findPosition, show lexicon.get i = lexicon.toList[i.val] by simp [Vector.get_eq_getElem],
    List.idxOf?_eq_some_iff]
  refine ⟨hi, rfl, fun j hj heq => ?_⟩
  have hji := (List.getElem_inj hL).mp heq
  omega

theorem findPosition_of_mem {list : List ω} {word : ω} (h : word ∈ list) :
    ∃ position, findPosition list word = some position :=
  Option.ne_none_iff_exists'.mp fun hnone => List.idxOf?_eq_none_iff.mp hnone h

/-- With every word in the lexicon, the word loop of `key_from_mnemonic` runs to its end. -/
theorem keyFromMnemonicLoop_of_mem (lexicon : Vector ω dictionarySize) :
    ∀ {words : List ω}, (∀ w ∈ words, w ∈ lexicon.toList) →
      ∀ s, ∃ data, keyFromMnemonicLoop lexicon words s = some data
  | [], _, s => ⟨s.2, rfl⟩
  | w :: words, h, s => by
    obtain ⟨position, hp⟩ := findPosition_of_mem (h w List.mem_cons_self)
    rw [keyFromMnemonicLoop, hp]
    exact keyFromMnemonicLoop_of_mem lexicon (fun v hv => h v (List.mem_cons_of_mem w hv)) _

/-- The word loop of `key_from_mnemonic` over words `w₀` to `w₀ + n - 1` of a bit string, from bit
`w₀ * bits_per_word`, ors the bits of those words into `data`. -/
theorem keyFromMnemonicLoop_range' {lexicon : Vector ω dictionarySize} (hL : lexicon.toList.Nodup)
    (bits : Nat → Bool) :
    ∀ (n w₀ : Nat) (data : List UInt8), (w₀ + n) * bitsPerWord ≤ 8 * data.length →
      ∃ data', keyFromMnemonicLoop lexicon
          ((List.range' w₀ n).map fun w => lexicon.get (wordIndex bits w)) (w₀ * bitsPerWord, data) =
          some data' ∧ data'.length = data.length ∧
        ∀ j, msbBit data' j = if w₀ * bitsPerWord ≤ j ∧ j < (w₀ + n) * bitsPerWord then
          (msbBit data j || bits j) else msbBit data j
  | 0, w₀, data, _ => ⟨data, rfl, rfl, fun j => by rw [Nat.add_zero, if_neg (by omega)]⟩
  | n + 1, w₀, data, h => by
    have h11 : bitsPerWord = 11 := rfl
    obtain ⟨h₁, h₂, h₃⟩ := foldl_setPositionBit (wordIndex bits w₀).val (w₀ * bitsPerWord) data
      (n := bitsPerWord) (by rw [h11] at h ⊢; omega)
    -- the first word leaves `data₁`, and the bit counter at the start of the next word
    generalize hd₁ : ((List.range bitsPerWord).foldl (setPositionBit (wordIndex bits w₀).val)
      (w₀ * bitsPerWord, data)).2 = data₁ at h₂ h₃
    have hs : setPositionBits (wordIndex bits w₀).val (w₀ * bitsPerWord, data) =
        ((w₀ + 1) * bitsPerWord, data₁) :=
      Prod.ext (h₁.trans (Nat.succ_mul w₀ bitsPerWord).symm) hd₁
    obtain ⟨data', hloop, hlen, hbits⟩ := keyFromMnemonicLoop_range' hL bits n (w₀ + 1) data₁
      (by rw [h₂, h11]; rw [h11] at h; omega)
    have hword : ∀ j, w₀ * bitsPerWord ≤ j → j < w₀ * bitsPerWord + bitsPerWord →
        (wordIndex bits w₀).val.testBit (bitsPerWord - 1 - (j - w₀ * bitsPerWord)) = bits j := by
      intro j hlo hhi
      show (bitsValue _ bitsPerWord).testBit _ = _
      rw [testBit_bitsValue _ (by omega), Nat.add_sub_cancel' hlo]
    refine ⟨data', ?_, hlen.trans h₂, fun j => ?_⟩
    · rw [List.range'_succ, List.map_cons, keyFromMnemonicLoop, findPosition_get hL]
      show keyFromMnemonicLoop lexicon _ (setPositionBits _ _) = _
      rw [hs]
      exact hloop
    · rw [hbits j, h₃ j]
      rw [h11] at hword ⊢
      split_ifs <;> first | rfl | omega | rw [hword j (by omega) (by omega)]

theorem stdEqual_self : ∀ xs : List ω, stdEqual xs xs = some true
  | [] => rfl
  | x :: xs => by rw [stdEqual, if_pos rfl, stdEqual_self xs]

theorem length_resize (data : List UInt8) (n : Nat) : (resize data n).length = n := by
  simp only [resize, List.length_append, List.length_take, List.length_replicate]
  omega

theorem resize_of_le {data : List UInt8} {n : Nat} (h : n ≤ data.length) :
    resize data n = data.take n := by
  rw [resize, Nat.sub_eq_zero_of_le h, List.replicate_zero, List.append_nil]

/-! ## Round trips -/

/-- The words that `create_mnemonic` gives for `4 * k` bytes, `k ≤ 256`, are read back to those
bytes, and `create_mnemonic` of them gives the words again. -/
theorem readMnemonic_createMnemonic (sha256Hash : List UInt8 → Vector UInt8 32)
    {lexicon : Vector ω dictionarySize} (hL : lexicon.toList.Nodup) {entropy : List UInt8}
    (h4 : entropy.length % mnemonicSeedMultiple = 0) (hle : entropy.length ≤ 1024) :
    readMnemonic sha256Hash (mnemonicOfBits (msbBit (entropy ++ (sha256Hash entropy).toList))
      (entropy.length / 4 * 3) lexicon) lexicon = some (some (entropy, true)) := by
  have h4' : entropy.length % 4 = 0 := h4
  generalize hbits : msbBit (entropy ++ (sha256Hash entropy).toList) = bits
  have hwords : (mnemonicOfBits bits (entropy.length / 4 * 3) lexicon).length =
      entropy.length / 4 * 3 := by
    rw [mnemonicOfBits, List.length_map, List.length_range]
  rw [readMnemonic, hwords, if_neg (by rw [mnemonicWordMultiple]; omega)]
  -- the `33 * k` bits of the words are or-ed into a zeroed buffer of `⌈33 * k / 8⌉` bytes
  obtain ⟨data', hloop, hlen, hdata⟩ := keyFromMnemonicLoop_range' hL bits (entropy.length / 4 * 3) 0
    (List.replicate ((bitsPerWord * (entropy.length / 4 * 3) + byteBits - 1) / byteBits) 0)
    (by simp only [List.length_replicate, bitsPerWord, byteBits]; omega)
  rw [Nat.zero_mul, List.map_congr_left (fun _ _ => rfl), ← List.range_eq_range'] at hloop
  dsimp only
  rw [show keyFromMnemonicLoop lexicon (mnemonicOfBits bits (entropy.length / 4 * 3) lexicon) _ =
    some data' from hloop]
  -- its first `4 * k` bytes are the entropy, bit for bit
  have hn : (bitsPerWord * (entropy.length / 4 * 3) -
      bitsPerWord * (entropy.length / 4 * 3) / (entropyBitDivisor + 1)) / byteBits =
      entropy.length := by
    simp only [bitsPerWord, entropyBitDivisor, byteBits]
    omega
  have hkey : resize data' (entropy.length) = entropy := by
    rw [resize_of_le (by rw [hlen, List.length_replicate, bitsPerWord, byteBits]; omega)]
    apply eq_of_msbBit (by rw [List.length_take, hlen, List.length_replicate, bitsPerWord, byteBits]; omega)
    intro i hi
    rw [List.length_take, hlen, List.length_replicate, bitsPerWord, byteBits] at hi
    rw [msbBit_take (by omega), hdata i, if_pos ⟨by omega, by rw [bitsPerWord]; omega⟩,
      msbBit_replicate_zero, Bool.false_or, ← hbits, msbBit_append_left (by omega)]
  dsimp only
  rw [hn, hkey, createMnemonic_of_le sha256Hash lexicon h4 hle, hbits]
  show (stdEqual _ _).bind _ = _
  rw [stdEqual_self]
  rfl

/-- For a lexicon of distinct words and `4 * k` bytes of entropy with `k ≤ 256` (the 16 to 32
bytes of BIP-39 among them), `key_from_mnemonic` and `validate_mnemonic` accept the words that
`create_mnemonic` gives, and `key_from_mnemonic` returns the entropy. -/
theorem keyFromMnemonic_createMnemonic (sha256Hash : List UInt8 → Vector UInt8 32)
    {lexicon : Vector ω dictionarySize} (hL : lexicon.toList.Nodup) {entropy : List UInt8}
    (h4 : entropy.length % mnemonicSeedMultiple = 0) (hle : entropy.length ≤ 1024) :
    ∃ words, createMnemonic sha256Hash entropy lexicon = some words ∧
      keyFromMnemonic sha256Hash words lexicon = some entropy ∧
      validateMnemonic sha256Hash words lexicon = some true := by
  have hread := readMnemonic_createMnemonic sha256Hash hL h4 hle
  refine ⟨_, createMnemonic_of_le sha256Hash lexicon h4 hle, ?_, ?_⟩
  · rw [keyFromMnemonic, hread]
    rfl
  · rw [validateMnemonic, hread]
    rfl

set_option maxRecDepth 20000 in
/-- Four zero bytes under a digest of zeros give the first word of the lexicon three times, which
decodes to the four bytes and validates. -/
theorem keyFromMnemonic_createMnemonic_zeros :
    createMnemonic (fun _ => Vector.replicate 32 0) [0, 0, 0, 0] (Vector.range dictionarySize) =
        some [0, 0, 0] ∧
      keyFromMnemonic (fun _ => Vector.replicate 32 0) [0, 0, 0] (Vector.range dictionarySize) =
        some [0, 0, 0, 0] ∧
      validateMnemonic (fun _ => Vector.replicate 32 0) [0, 0, 0] (Vector.range dictionarySize) = some true := by
  have hc : createMnemonic (fun _ => Vector.replicate 32 0) [0, 0, 0, 0] (Vector.range dictionarySize) =
      some [0, 0, 0] := by decide
  have h4 : ([0, 0, 0, 0] : List UInt8).length % mnemonicSeedMultiple = 0 := by decide
  obtain ⟨words, hwords, hkey, hvalid⟩ := keyFromMnemonic_createMnemonic
    (fun _ => Vector.replicate 32 0) (by rw [Vector.toList_range]; exact List.nodup_range) h4
    (by decide)
  rw [hc, Option.some.injEq] at hwords
  subst hwords
  exact ⟨hc, hkey, hvalid⟩

/-! ## Past 256 checksum bits -/

/-- `3 * k` words of the lexicon with `k > 256` make `key_from_mnemonic` and `validate_mnemonic`
read past the digest in their call of `create_mnemonic`. -/
theorem readMnemonic_eq_none (sha256Hash : List UInt8 → Vector UInt8 32)
    (lexicon : Vector ω dictionarySize) {words : List ω}
    (hw : words.length % mnemonicWordMultiple = 0) (hlong : 768 < words.length)
    (hin : ∀ w ∈ words, w ∈ lexicon.toList) : readMnemonic sha256Hash words lexicon = none := by
  rw [readMnemonic, if_neg (not_not.mpr hw)]
  dsimp only
  obtain ⟨d, hd⟩ := keyFromMnemonicLoop_of_mem lexicon hin
    (0, List.replicate ((bitsPerWord * words.length + byteBits - 1) / byteBits) 0)
  rw [hd]
  dsimp only
  rw [mnemonicWordMultiple] at hw
  have hbytes := length_resize d ((bitsPerWord * words.length -
    bitsPerWord * words.length / (entropyBitDivisor + 1)) / byteBits)
  rw [createMnemonic_eq_none sha256Hash lexicon
    (by rw [hbytes, mnemonicSeedMultiple, bitsPerWord, entropyBitDivisor, byteBits]; omega)
    (by rw [hbytes, bitsPerWord, entropyBitDivisor, byteBits]; omega)]
  rfl

/-- With more than 256 checksum bits both directions read past the end of a buffer:
`create_mnemonic` of `4 * k` bytes with `k > 256` reads the last bits of its last word past the
digest, and `key_from_mnemonic` and `validate_mnemonic` of `3 * k` words of the lexicon do the same
in their call of `create_mnemonic`. -/
theorem mnemonic_reads_past_digest (sha256Hash : List UInt8 → Vector UInt8 32)
    (lexicon : Vector ω dictionarySize) {entropy : List UInt8} {words : List ω}
    (h4 : entropy.length % mnemonicSeedMultiple = 0) (hlong : 1024 < entropy.length)
    (hw : words.length % mnemonicWordMultiple = 0) (hwlong : 768 < words.length)
    (hin : ∀ w ∈ words, w ∈ lexicon.toList) :
    createMnemonic sha256Hash entropy lexicon = none ∧
      keyFromMnemonic sha256Hash words lexicon = none ∧
      validateMnemonic sha256Hash words lexicon = none := by
  have hread := readMnemonic_eq_none sha256Hash lexicon hw hwlong hin
  refine ⟨createMnemonic_eq_none sha256Hash lexicon h4 hlong, ?_, ?_⟩
  · rw [keyFromMnemonic, hread]
    rfl
  · rw [validateMnemonic, hread]
    rfl

/-- 1028 bytes of entropy, and 771 copies of the first word of a lexicon, read past the digest. -/
theorem mnemonic_reads_past_digest_1028 :
    (List.replicate 1028 (0 : UInt8)).length % mnemonicSeedMultiple = 0 ∧
      1024 < (List.replicate 1028 (0 : UInt8)).length ∧
      (List.replicate 771 0).length % mnemonicWordMultiple = 0 ∧
      768 < (List.replicate 771 0).length ∧
      (∀ w ∈ List.replicate 771 0, w ∈ (Vector.ofFn (n := dictionarySize) (·.val)).toList) ∧
      createMnemonic (fun _ => Vector.replicate 32 0) (List.replicate 1028 0)
        (Vector.ofFn (n := dictionarySize) (·.val)) = none ∧
      keyFromMnemonic (fun _ => Vector.replicate 32 0) (List.replicate 771 0)
        (Vector.ofFn (n := dictionarySize) (·.val)) = none ∧
      validateMnemonic (fun _ => Vector.replicate 32 0) (List.replicate 771 0)
        (Vector.ofFn (n := dictionarySize) (·.val)) = none := by
  have h4 : (List.replicate 1028 (0 : UInt8)).length % mnemonicSeedMultiple = 0 := by
    rw [List.length_replicate]; decide
  have hlong : 1024 < (List.replicate 1028 (0 : UInt8)).length := by
    rw [List.length_replicate]; decide
  have hw : (List.replicate 771 0).length % mnemonicWordMultiple = 0 := by
    rw [List.length_replicate]; decide
  have hwlong : 768 < (List.replicate 771 0).length := by
    rw [List.length_replicate]; decide
  have hin : ∀ w ∈ List.replicate 771 0, w ∈ (Vector.ofFn (n := dictionarySize) (·.val)).toList := by
    intro w hw
    rw [List.eq_of_mem_replicate hw, Vector.toList_ofFn, List.mem_ofFn]
    exact ⟨⟨0, by decide⟩, rfl⟩
  exact ⟨h4, hlong, hw, hwlong, hin,
    mnemonic_reads_past_digest (fun _ => Vector.replicate 32 0) _ h4 hlong hw hwlong hin⟩

end Veil
