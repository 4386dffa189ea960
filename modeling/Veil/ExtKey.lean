import Veil.Codec.Base58
import Veil.RingCT.Stealth

/-!
# BIP32 paths (`veil/ringct/extkey.cpp`)

`PathToString` writes a path of child indices as `m/i₁/i₂/…`, each index in decimal with
the hardened bit taken off and written as the suffix `cH`.  `ExtractExtKeyPath` parses one
back: it skips a leading `m` and the character after it, copies the rest into a 512-byte
buffer, refuses a leading, trailing or doubled `/`, cuts the buffer at `/` with `strtok` and
reads each piece in base 2 (`0b`), 16 (`0x`) or 10 with `strtou32max`, a hardened suffix
setting bit 31.

The skipped prefix is counted in `size_t`: for the one-character strings `m` and `M` the
length to copy, `1 - 2`, wraps to `2 ^ 64 - 1`, and the `memcpy` reads past the string
(`readsPastEnd`).  Everywhere else the parser stays inside the string and returns `0` only
with a path (`extractExtKeyPath_in_bounds`), and it inverts `PathToString`
(`extractExtKeyPath_pathToString`).

A `std::string` or a C string is a list of characters; a C string ends at its first NUL or
at the end of the list (`cAt`).
-/

namespace Veil

/-- The character at offset `i` of a NUL-terminated buffer. -/
def cAt (s : List Char) (i : Nat) : Char := s.getD i '\x00'

/-! ## `strtou32max` -/

/-- The value of an alphanumeric character as a digit (`c -= '0'`, `c -= 'A' - 10`,
`c -= 'a' - 10`), or `none` where the digit loop breaks. -/
def digitValue (c : Char) : Option Nat :=
  if '0' ≤ c ∧ c ≤ '9' then some (c.toNat - '0'.toNat)
  else if 'A' ≤ c ∧ c ≤ 'Z' then some (c.toNat - 'A'.toNat + 10)
  else if 'a' ≤ c ∧ c ≤ 'z' then some (c.toNat - 'a'.toNat + 10)
  else none

/-- `isxdigit`. -/
def isHexDigit (c : Char) : Bool :=
  ('0' ≤ c && c ≤ '9') || ('A' ≤ c && c ≤ 'F') || ('a' ≤ c && c ≤ 'f')

/-- The digit loop of `strtou32max`: the accumulator and `any` (`-1` once the value is out of
range, `1` once a digit is read). -/
def strtou32maxDigits (base cutoff cutlim : Nat) : List Char → Nat → Int → Nat × Int
  | [], acc, any => (acc, any)
  | c :: cs, acc, any =>
    match digitValue c with
    | none => (acc, any)
    | some d =>
      if d ≥ base then (acc, any)
      else if any < 0 ∨ acc > cutoff ∨ (acc = cutoff ∧ d > cutlim) then
        strtou32maxDigits base cutoff cutlim cs acc (-1)
      else strtou32maxDigits base cutoff cutlim cs (acc * base + d) 1

/-- `strtou32max(nptr, base)`: the `uint32_t` returned and whether it set `errno`. -/
def strtou32max (nptr : List Char) (base : Nat) : UInt32 × Bool :=
  let s := nptr.dropWhile isSpace
  let (neg, s) := match s with
    | '-' :: s => (true, s)
    | '+' :: s => (false, s)
    | s => (false, s)
  let (s, base) :=
    if (base = 0 ∨ base = 16) ∧ cAt s 0 = '0' ∧ (cAt s 1 = 'x' ∨ cAt s 1 = 'X') ∧ isHexDigit (cAt s 2) then
      (s.drop 2, 16)
    else (s, base)
  let base := if base = 0 then (if cAt s 0 = '0' then 8 else 10) else base
  -- "noconv"
  if base < 2 ∨ base > 36 then (0, true)
  else
    let r := strtou32maxDigits base (0xffffffff / base) (0xffffffff % base) s 0 0
    if r.2 < 0 then (UInt32.ofNat 0xffffffff, true)
    else if r.2 = 0 then (UInt32.ofNat r.1, true)
    else if neg then (UInt32.ofNat ((2 ^ 64 - r.1) % 2 ^ 64), false)
    else (UInt32.ofNat r.1, false)

/-! ## `ExtractExtKeyPath` -/

/-- `validDigit(c, base)` for the bases the parser uses. -/
def validDigit (c : Char) (base : Nat) : Bool :=
  match base with
  | 2 => c = '0' || c = '1'
  | 10 => '0' ≤ c && c ≤ '9'
  | 16 => ('0' ≤ c && c ≤ '9') || ('a' ≤ c && c ≤ 'f') || ('A' ≤ c && c ≤ 'F')
  | _ => false

/-- The `for (; *p; ++p)` loop over one piece: "Last char can be (h, H ,')", every other
character a digit of the base.  The digits left for `strtou32max` and `fHarden`, or the code
`4`. -/
def hardenLoop (nBase : Nat) : List Char → Except Nat (List Char × Bool)
  | [] => .ok ([], false)
  | [c] =>
    if c.toLower = 'h' || c = '\'' then .ok ([], true)
    else if validDigit c nBase then .ok ([c], false) else .error 4
  | c :: cs =>
    if validDigit c nBase then (hardenLoop nBase cs).map fun r => (c :: r.1, r.2) else .error 4

/-- One piece of the path as the `while (p)` loop reads it: the child index, or the code
returned. -/
def extractPathChild (tok : List Char) : Except Nat UInt32 := do
  -- "Don't allow octal, only hex and binary"
  let nBase := if cAt tok 0 = '0' ∧ (cAt tok 1 = 'b' ∨ cAt tok 1 = 'B') then 2
    else if cAt tok 0 = '0' ∧ (cAt tok 1 = 'x' ∨ cAt tok 1 = 'X') then 16 else 10
  let p := if nBase ≠ 10 then tok.drop 2 else tok
  let (ps, fHarden) ← hardenLoop nBase p
  let (nChild, errno) := strtou32max ps nBase
  if errno then throw 5
  if fHarden then
    if nChild >>> 31 = 0 then pure (nChild ||| ((1 : UInt32) <<< 31)) else throw 8
  else pure nChild

/-- The pieces of the loop over `strtok(data, "/")`, pushed onto `vPath` one by one: the code
returned and `vPath` at that point. -/
def extractPathChildren : List (List Char) → List UInt32 → Nat × List UInt32
  | [], vPath => (if vPath.length < 1 then 3 else 0, vPath)
  | tok :: toks, vPath =>
    match extractPathChild tok with
    | .error code => (code, vPath)
    | .ok nChild => extractPathChildren toks (vPath ++ [nChild])

/-- `strtok(data, "/")` and its successors: the non-empty pieces between slashes of the
NUL-terminated buffer. -/
def strtokSlash (data : List Char) : List (List Char) :=
  ((data.takeWhile (· ≠ '\x00')).splitOn '/').filter (· ≠ [])

/-- How a call of `ExtractExtKeyPath` ends: its return code and `vPath`, or the `memcpy` of
`nLen` characters from offset `nStart` running past the string. -/
inductive ExtractExtKeyPathResult where
  | ret (code : Nat) (vPath : List UInt32)
  | readsPastEnd (nStart nLen : Nat)
  deriving DecidableEq, Repr

/-- `ExtractExtKeyPath(sPath, vPath)`. -/
def extractExtKeyPath (sPath : List Char) : ExtractExtKeyPathResult :=
  if sPath.length > 512 - 2 then .ret 2 []
  else if sPath.length < 1 then .ret 3 []
  else
    let (nStart, nLen) :=
      if (cAt sPath 0).toLower = 'm' then (2, sizeT ((sPath.length : Int) - 2)) else (0, sPath.length)
    if nLen < 1 then .ret 3 []
    else if sPath.length < nStart + nLen then .readsPastEnd nStart nLen
    else
      let data := (sPath.drop nStart).take nLen
      -- "Catch start or end '/', and '//'"
      if (List.range nLen).any (fun k => cAt data k = '/' &&
          (k = 0 || k = nLen - 1 || (k < nLen - 1 && cAt data (k + 1) = '/'))) then .ret 7 []
      else
        let r := extractPathChildren (strtokSlash data) []
        .ret r.1 r.2

/-! ## `PathToString` -/

/-- `AppendPathLink(s, n, cH)`. -/
def appendPathLink (s : List Char) (n : UInt32) (cH : Char) : List Char :=
  let fHardened := n >>> 31 = 1
  let n := if fHardened then n &&& ~~~((1 : UInt32) <<< 31) else n
  s ++ ['/'] ++ Nat.toDigits 10 n.toNat ++ (if fHardened then [cH] else [])

/-- `PathToString(vPath, sPath, cH, nStart)` for a path of child indices: `sPath`. -/
def pathToString (vPath : List UInt32) (cH : Char) (nStart : Nat) : List Char :=
  (vPath.drop nStart).foldl (fun s n => appendPathLink s n cH) ['m']

/-- `m` and `M` make `ExtractExtKeyPath` copy `2 ^ 64 - 1` characters from past the end of
the string. -/
theorem extractExtKeyPath_m :
    extractExtKeyPath ['m'] = .readsPastEnd 2 (2 ^ 64 - 1) ∧
      extractExtKeyPath ['M'] = .readsPastEnd 2 (2 ^ 64 - 1) := by
  constructor <;> decide

/-! ## Digits -/

theorem digitValue_digitChar : ∀ k < 10, digitValue (Nat.digitChar k) = some k := by decide

theorem char_le_iff (a b : Char) : a ≤ b ↔ a.toNat ≤ b.toNat := by
  rw [Char.le_def, UInt32.le_iff_toNat_le]; rfl

/-- A decimal digit, `'0' ≤ c ≤ '9'`. -/
structure IsDecimalDigit (c : Char) : Prop where
  ge : 48 ≤ c.toNat
  le : c.toNat ≤ 57

theorem isDecimalDigit_of_mem_toDigits {c : Char} {m : Nat} (h : c ∈ Nat.toDigits 10 m) :
    IsDecimalDigit c := by
  have := Char.isDigit_iff_toNat.mp (Nat.isDigit_of_mem_toDigits (by decide) (by decide) h)
  exact ⟨by simpa using this.1, by simpa using this.2⟩

namespace IsDecimalDigit

variable {c : Char} (h : IsDecimalDigit c)
include h

theorem ne_of_toNat {d : Char} (hd : d.toNat < 48 ∨ 57 < d.toNat) : c ≠ d := by
  rintro rfl
  have := h.ge
  have := h.le
  omega

theorem digitValue_eq : digitValue c = some (c.toNat - 48) := by
  have := h.ge
  have := h.le
  simp [digitValue, char_le_iff]
  omega

theorem validDigit_ten : validDigit c 10 = true := by
  have := h.ge
  have := h.le
  simp [validDigit, char_le_iff]
  omega

theorem not_isSpace : isSpace c = false := by
  simp only [isSpace, Bool.or_eq_false_iff, decide_eq_false_iff_not]
  refine ⟨⟨⟨⟨⟨?_, ?_⟩, ?_⟩, ?_⟩, ?_⟩, ?_⟩ <;> exact h.ne_of_toNat (by decide)

theorem toLower_eq : c.toLower = c := by
  have := h.le
  unfold Char.toLower
  rw [dif_neg]
  rintro ⟨hA, -⟩
  have : 65 ≤ c.toNat := by simpa [UInt32.le_iff_toNat_le] using hA
  omega

end IsDecimalDigit

/-- The digit loop reads digits below the base one after another, without breaking. -/
theorem strtou32maxDigits_append {base cutoff cutlim : Nat} (ds rest : List Char)
    (hds : ∀ c ∈ ds, ∃ d, digitValue c = some d ∧ d < base) (acc : Nat) (any : Int) :
    strtou32maxDigits base cutoff cutlim (ds ++ rest) acc any =
      strtou32maxDigits base cutoff cutlim rest
        (strtou32maxDigits base cutoff cutlim ds acc any).1 (strtou32maxDigits base cutoff cutlim ds acc any).2 := by
  induction ds generalizing acc any with
  | nil => rfl
  | cons c ds ih =>
    obtain ⟨d, hd, hlt⟩ := hds c List.mem_cons_self
    have hrest : ∀ c ∈ ds, ∃ d, digitValue c = some d ∧ d < base := fun c hc => hds c (List.mem_cons_of_mem _ hc)
    simp only [List.cons_append, strtou32maxDigits, hd, if_neg (Nat.not_le.mpr hlt)]
    split <;> exact ih hrest _ _

/-- `strtou32max`'s digit loop in base 10 reads the decimal text of a `uint32_t` exactly. -/
theorem strtou32maxDigits_toDigits (m : Nat) (hm : m < 2 ^ 32) :
    strtou32maxDigits 10 (0xffffffff / 10) (0xffffffff % 10) (Nat.toDigits 10 m) 0 0 = (m, 1) := by
  induction m using Nat.strong_induction_on with
  | _ m ih =>
    by_cases h10 : m < 10
    · rw [Nat.toDigits_of_lt_base h10]
      simp [strtou32maxDigits, digitValue_digitChar m h10, h10]
    · rw [Nat.toDigits_of_base_le (by decide) (by omega),
        strtou32maxDigits_append _ _ (fun c hc => ⟨c.toNat - 48,
          (isDecimalDigit_of_mem_toDigits hc).digitValue_eq,
          by have := (isDecimalDigit_of_mem_toDigits hc).le; omega⟩),
        ih (m / 10) (by omega) (by omega)]
      simp only [strtou32maxDigits, digitValue_digitChar (m % 10) (Nat.mod_lt _ (by decide))]
      rw [if_neg (by omega), if_neg (by omega)]
      simp only [Prod.mk.injEq, and_true]
      omega

/-- `strtou32max` in base 10 of the decimal text of a `uint32_t` returns it without setting
`errno`. -/
theorem strtou32max_toDigits (m : Nat) (hm : m < 2 ^ 32) :
    strtou32max (Nat.toDigits 10 m) 10 = (UInt32.ofNat m, false) := by
  obtain ⟨c, cs, hcs⟩ := List.exists_cons_of_ne_nil (Nat.toDigits_ne_nil (n := m) (b := 10))
  have hc : IsDecimalDigit c := isDecimalDigit_of_mem_toDigits (by rw [hcs]; exact List.mem_cons_self)
  have hdrop : (Nat.toDigits 10 m).dropWhile isSpace = Nat.toDigits 10 m := by
    rw [hcs, List.dropWhile_cons_of_neg (by simp [hc.not_isSpace])]
  have hloop := strtou32maxDigits_toDigits m hm
  unfold strtou32max
  rw [hdrop, hcs]
  rw [hcs] at hloop
  have hminus : c ≠ '-' := hc.ne_of_toNat (by decide)
  have hplus : c ≠ '+' := hc.ne_of_toNat (by decide)
  dsimp only
  split
  · next heq => exact absurd (List.cons.inj heq).1 hminus
  · next heq => exact absurd (List.cons.inj heq).1 hplus
  · simp [hloop]

/-! ## One link of the path -/

/-- The text of one link after its `/`: the index without its hardened bit in decimal, and
`cH` if the bit was set. -/
def pathLinkText (n : UInt32) (cH : Char) : List Char :=
  Nat.toDigits 10 (n.toNat % 2 ^ 31) ++ (if 2 ^ 31 ≤ n.toNat then [cH] else [])

theorem shiftRight_31_eq_one_iff (n : UInt32) : n >>> 31 = 1 ↔ 2 ^ 31 ≤ n.toNat := by
  rw [← UInt32.toNat_inj, UInt32.toNat_shiftRight]
  show n.toNat >>> 31 = 1 ↔ _
  rw [Nat.shiftRight_eq_div_pow]
  have := n.toNat_lt
  omega

theorem appendPathLink_eq (s : List Char) (n : UInt32) (cH : Char) :
    appendPathLink s n cH = s ++ '/' :: pathLinkText n cH := by
  unfold appendPathLink pathLinkText
  simp only [shiftRight_31_eq_one_iff]
  split
  · next hh =>
    have hclear : (n &&& ~~~((1 : UInt32) <<< 31)).toNat = n.toNat % 2 ^ 31 := by
      rw [UInt32.toNat_and, show (~~~((1 : UInt32) <<< 31)).toNat = 2 ^ 31 - 1 from rfl,
        Nat.and_two_pow_sub_one_eq_mod]
    simp [hclear]
  · next hh =>
    rw [Nat.mod_eq_of_lt (by omega)]
    simp

theorem hardenLoop_cons_cons (nBase : Nat) (c c' : Char) (cs : List Char) :
    hardenLoop nBase (c :: c' :: cs) =
      if validDigit c nBase then (hardenLoop nBase (c' :: cs)).map fun r => (c :: r.1, r.2) else .error 4 :=
  rfl

/-- Decimal digits followed by a hardened suffix. -/
theorem hardenLoop_harden (ds : List Char) (hds : ∀ c ∈ ds, IsDecimalDigit c) {cH : Char}
    (hcH : cH.toLower = 'h' ∨ cH = '\'') : hardenLoop 10 (ds ++ [cH]) = .ok (ds, true) := by
  induction ds with
  | nil => simp [hardenLoop, hcH]
  | cons c ds ih =>
    have hc := hds c List.mem_cons_self
    obtain ⟨c', cs, hcs⟩ := List.exists_cons_of_ne_nil (List.append_ne_nil_of_right_ne_nil ds (List.cons_ne_nil cH []))
    rw [List.cons_append, hcs, hardenLoop_cons_cons, ← hcs, if_pos hc.validDigit_ten,
      ih (fun c hc' => hds c (List.mem_cons_of_mem _ hc'))]
    rfl

/-- Decimal digits alone, the last of which is no hardened suffix. -/
theorem hardenLoop_digits (ds : List Char) (hne : ds ≠ []) (hds : ∀ c ∈ ds, IsDecimalDigit c) :
    hardenLoop 10 ds = .ok (ds, false) := by
  induction ds with
  | nil => exact absurd rfl hne
  | cons c ds ih =>
    have hc := hds c List.mem_cons_self
    cases ds with
    | nil =>
      have hq : c ≠ '\'' := hc.ne_of_toNat (by decide)
      simp [hardenLoop, hc.toLower_eq, hc.ne_of_toNat (show 'h'.toNat < 48 ∨ 57 < 'h'.toNat by decide), hq,
        hc.validDigit_ten]
    | cons c' cs =>
      rw [hardenLoop_cons_cons, if_pos hc.validDigit_ten,
        ih (List.cons_ne_nil _ _) (fun c hc' => hds c (List.mem_cons_of_mem _ hc'))]
      rfl

/-- Every character of a link is a decimal digit or the hardened suffix. -/
theorem mem_pathLinkText {n : UInt32} {cH c : Char} (hcH : cH = 'h' ∨ cH = '\'')
    (hc : c ∈ pathLinkText n cH) : IsDecimalDigit c ∨ c = 'h' ∨ c = '\'' := by
  unfold pathLinkText at hc
  rcases List.mem_append.mp hc with hc | hc
  · exact .inl (isDecimalDigit_of_mem_toDigits hc)
  · split at hc
    · rw [List.mem_singleton] at hc; subst hc; exact .inr hcH
    · simp at hc

/-- A character that is not a digit or a suffix is not in a link. -/
theorem not_mem_pathLinkText {n : UInt32} {cH d : Char} (hcH : cH = 'h' ∨ cH = '\'')
    (hd : d.toNat < 48 ∨ 57 < d.toNat) (hh : d ≠ 'h') (hq : d ≠ '\'') : d ∉ pathLinkText n cH := by
  intro h
  rcases mem_pathLinkText hcH h with hc | hc | hc
  · exact hc.ne_of_toNat hd rfl
  · exact hh hc
  · exact hq hc

/-- `ExtractExtKeyPath` reads back each link `PathToString` writes. -/
theorem extractPathChild_pathLinkText (n : UInt32) {cH : Char} (hcH : cH = 'h' ∨ cH = '\'') :
    extractPathChild (pathLinkText n cH) = .ok n := by
  have hdig : ∀ c ∈ Nat.toDigits 10 (n.toNat % 2 ^ 31), IsDecimalDigit c :=
    fun c hc => isDecimalDigit_of_mem_toDigits hc
  have hm : n.toNat % 2 ^ 31 < 2 ^ 31 := Nat.mod_lt _ (by decide)
  have h1 : cAt (pathLinkText n cH) 1 ≠ 'b' ∧ cAt (pathLinkText n cH) 1 ≠ 'B' ∧
      cAt (pathLinkText n cH) 1 ≠ 'x' ∧ cAt (pathLinkText n cH) 1 ≠ 'X' := by
    unfold cAt
    rw [List.getD_eq_getElem?_getD]
    cases hget : (pathLinkText n cH)[1]? with
    | none => simp
    | some c =>
      rw [Option.getD_some]
      -- every character of the link is a digit or the suffix, so none starts `0b` or `0x`
      rcases mem_pathLinkText hcH (List.mem_of_getElem? hget) with hc | rfl | rfl
      · exact ⟨hc.ne_of_toNat (by decide), hc.ne_of_toNat (by decide), hc.ne_of_toNat (by decide),
          hc.ne_of_toNat (by decide)⟩
      · decide
      · decide
  have hbase : ¬ (cAt (pathLinkText n cH) 0 = '0' ∧
        (cAt (pathLinkText n cH) 1 = 'b' ∨ cAt (pathLinkText n cH) 1 = 'B')) ∧
      ¬ (cAt (pathLinkText n cH) 0 = '0' ∧
        (cAt (pathLinkText n cH) 1 = 'x' ∨ cAt (pathLinkText n cH) 1 = 'X')) :=
    ⟨fun ⟨_, h⟩ => h.elim h1.1 h1.2.1, fun ⟨_, h⟩ => h.elim h1.2.2.1 h1.2.2.2⟩
  have hstr := strtou32max_toDigits (n.toNat % 2 ^ 31) (by omega)
  unfold extractPathChild
  rw [if_neg hbase.1, if_neg hbase.2]
  simp only [ne_eq, not_true_eq_false, if_false]
  by_cases hh : 2 ^ 31 ≤ n.toNat
  · have hloop : hardenLoop 10 (pathLinkText n cH) = .ok (Nat.toDigits 10 (n.toNat % 2 ^ 31), true) := by
      unfold pathLinkText
      rw [if_pos hh]
      exact hardenLoop_harden _ hdig (by rcases hcH with rfl | rfl <;> decide)
    have hsign : UInt32.ofNat (n.toNat % 2 ^ 31) >>> 31 = 0 := by
      apply UInt32.toNat_inj.mp
      rw [UInt32.toNat_shiftRight, UInt32.toNat_ofNat_of_lt' (by rw [UInt32.size]; omega)]
      show (n.toNat % 2 ^ 31) >>> 31 = 0
      rw [Nat.shiftRight_eq_div_pow, Nat.div_eq_of_lt hm]
    simp only [hloop, hstr, bind, Except.bind, Bool.false_eq_true, ↓reduceIte, hsign, pure, Except.pure]
    congr 1
    apply UInt32.toNat_inj.mp
    rw [UInt32.toNat_or, UInt32.toNat_ofNat_of_lt' (by rw [UInt32.size]; omega),
      show ((1 : UInt32) <<< 31).toNat = 2 ^ 31 from rfl, Nat.or_two_pow_eq_add_of_lt hm]
    have := n.toNat_lt
    omega
  · have hloop : hardenLoop 10 (pathLinkText n cH) = .ok (Nat.toDigits 10 (n.toNat % 2 ^ 31), false) := by
      unfold pathLinkText
      rw [if_neg hh, List.append_nil]
      exact hardenLoop_digits _ Nat.toDigits_ne_nil hdig
    simp only [hloop, hstr, bind, Except.bind, Bool.false_eq_true, ↓reduceIte, pure, Except.pure]
    congr 1
    apply UInt32.toNat_inj.mp
    rw [UInt32.toNat_ofNat_of_lt' (by rw [UInt32.size]; omega)]
    omega

/-! ## The whole path -/

theorem foldl_appendPathLink (cH : Char) (p : List UInt32) (s : List Char) :
    p.foldl (fun s n => appendPathLink s n cH) s = s ++ p.flatMap fun n => '/' :: pathLinkText n cH := by
  induction p generalizing s with
  | nil => simp
  | cons n p ih => rw [List.foldl_cons, ih, appendPathLink_eq, List.flatMap_cons, List.append_assoc]

theorem flatMap_slash_eq {t : UInt32 → List Char} {p : List UInt32} (hp : p ≠ []) :
    (p.flatMap fun n => '/' :: t n) = '/' :: ['/'].intercalate (p.map t) := by
  induction p with
  | nil => exact absurd rfl hp
  | cons n p ih =>
    cases p with
    | nil => simp
    | cons n' p => rw [List.flatMap_cons, ih (List.cons_ne_nil _ _)]; simp

theorem cAt_append_left {a b : List Char} {k : Nat} (h : k < a.length) : cAt (a ++ b) k = cAt a k :=
  List.getD_append _ _ _ _ h

theorem cAt_append_right {a b : List Char} {k : Nat} (h : a.length ≤ k) :
    cAt (a ++ b) k = cAt b (k - a.length) :=
  List.getD_append_right _ _ _ _ h

theorem cAt_mem {a : List Char} {k : Nat} (h : k < a.length) : cAt a k ∈ a := by
  rw [cAt, List.getD_eq_getElem _ _ h]; exact List.getElem_mem h

/-- No slash of the buffer is its first or last character or followed by another. -/
def SlashesSeparate (data : List Char) : Prop :=
  ∀ k < data.length, cAt data k = '/' → k ≠ 0 ∧ k ≠ data.length - 1 ∧ cAt data (k + 1) ≠ '/'

/-- Non-empty pieces without slashes, joined by single slashes. -/
theorem slashesSeparate_intercalate (segs : List (List Char)) (hseg : ∀ s ∈ segs, s ≠ [] ∧ '/' ∉ s) :
    SlashesSeparate (['/'].intercalate segs) := by
  induction segs with
  | nil => intro k hk; simp at hk
  | cons s rest ih =>
    obtain ⟨hs, hslash⟩ := hseg s List.mem_cons_self
    cases rest with
    | nil =>
      intro k hk hk'
      rw [List.intercalate_singleton] at hk hk'
      exact absurd (hk' ▸ cAt_mem hk) hslash
    | cons t rest =>
      have ih' := ih (fun s' hs' => hseg s' (List.mem_cons_of_mem _ hs'))
      obtain ⟨ht, htslash⟩ := hseg t (List.mem_cons_of_mem _ List.mem_cons_self)
      have hX'ne : ['/'].intercalate (t :: rest) ≠ [] := by
        obtain ⟨c, cs, rfl⟩ := List.exists_cons_of_ne_nil ht
        simp
      have hhead : cAt (['/'].intercalate (t :: rest)) 0 ≠ '/' := by
        obtain ⟨c, cs, rfl⟩ := List.exists_cons_of_ne_nil ht
        simp only [List.intercalate_cons_cons_left]
        exact fun h => htslash (h ▸ List.mem_cons_self)
      have hpos : 0 < s.length := List.length_pos_iff.mpr hs
      have hpos' : 0 < (['/'].intercalate (t :: rest)).length := List.length_pos_iff.mpr hX'ne
      rw [List.intercalate_cons_cons, List.append_assoc]
      intro k hk hk'
      simp only [List.length_append, List.length_singleton] at hk ⊢
      by_cases h1 : k < s.length
      · rw [cAt_append_left h1] at hk'
        exact absurd (hk' ▸ cAt_mem h1) hslash
      · by_cases h2 : k = s.length
        · subst h2
          refine ⟨by omega, by omega, ?_⟩
          rw [cAt_append_right (by omega), show s.length + 1 - s.length = 1 by omega]
          simpa [cAt] using hhead
        · rw [cAt_append_right (by omega)] at hk'
          have hk'' : cAt (['/'].intercalate (t :: rest)) (k - s.length - 1) = '/' := by
            rw [show k - s.length = (k - s.length - 1) + 1 by omega] at hk'
            simpa [cAt] using hk'
          obtain ⟨-, hlast, hnext⟩ := ih' (k - s.length - 1) (by omega) hk''
          refine ⟨by omega, by omega, ?_⟩
          rw [cAt_append_right (by omega), show k + 1 - s.length = (k - s.length - 1) + 1 + 1 by omega]
          simpa [cAt, show k - s.length - 1 + 1 = k - s.length by omega] using hnext

/-- The slash test of `ExtractExtKeyPath` passes exactly the buffers whose slashes separate. -/
theorem slashCheck_eq_false {data : List Char} (h : SlashesSeparate data) :
    (List.range data.length).any (fun k => cAt data k = '/' &&
      (k = 0 || k = data.length - 1 || (k < data.length - 1 && cAt data (k + 1) = '/'))) = false := by
  rw [List.any_eq_false]
  intro k hk
  have hk := List.mem_range.mp hk
  by_cases hs : cAt data k = '/'
  · obtain ⟨h0, hl, hn⟩ := h k hk hs
    simp [hs, h0, hl, hn]
  · simp [hs]

theorem mem_intercalate_slash {c : Char} {segs : List (List Char)} (h : c ∈ ['/'].intercalate segs) :
    c = '/' ∨ ∃ s ∈ segs, c ∈ s := by
  induction segs with
  | nil => simp at h
  | cons s rest ih =>
    cases rest with
    | nil => exact .inr ⟨s, List.mem_cons_self, by simpa using h⟩
    | cons t rest =>
      rw [List.intercalate_cons_cons] at h
      rcases List.mem_append.mp h with h | h
      · rcases List.mem_append.mp h with h | h
        · exact .inr ⟨s, List.mem_cons_self, h⟩
        · exact .inl (List.mem_singleton.mp h)
      · rcases ih h with h | ⟨s', hs', hc⟩
        · exact .inl h
        · exact .inr ⟨s', List.mem_cons_of_mem _ hs', hc⟩

theorem strtokSlash_intercalate (segs : List (List Char)) (hne : segs ≠ [])
    (hseg : ∀ s ∈ segs, s ≠ [] ∧ '/' ∉ s ∧ '\x00' ∉ s) :
    strtokSlash (['/'].intercalate segs) = segs := by
  have hnul : ∀ c ∈ ['/'].intercalate segs, c ≠ '\x00' := by
    intro c hc hc0
    subst hc0
    rcases mem_intercalate_slash hc with hsep | ⟨s, hs, hcs⟩
    · simp at hsep
    · exact (hseg s hs).2.2 hcs
  unfold strtokSlash
  rw [List.takeWhile_eq_self_iff.mpr (fun c hc => by simpa using hnul c hc),
    List.splitOn_intercalate '/' (fun s hs => (hseg s hs).2.1) hne, List.filter_eq_self]
  intro s hs
  simpa using (hseg s hs).1

/-- A link is a non-empty piece with no slash and no NUL. -/
theorem pathLinkText_piece (n : UInt32) {cH : Char} (hcH : cH = 'h' ∨ cH = '\'') :
    pathLinkText n cH ≠ [] ∧ '/' ∉ pathLinkText n cH ∧ '\x00' ∉ pathLinkText n cH := by
  refine ⟨?_, not_mem_pathLinkText hcH (by decide) (by decide) (by decide),
    not_mem_pathLinkText hcH (by decide) (by decide) (by decide)⟩
  unfold pathLinkText
  exact List.append_ne_nil_of_left_ne_nil Nat.toDigits_ne_nil _

theorem pathToString_eq {p : List UInt32} (cH : Char) (hp : p ≠ []) :
    pathToString p cH 0 = 'm' :: '/' :: ['/'].intercalate (p.map fun n => pathLinkText n cH) := by
  rw [pathToString, List.drop_zero, foldl_appendPathLink, flatMap_slash_eq hp]
  rfl

theorem extractPathChildren_map {t : UInt32 → List Char} (ht : ∀ n, extractPathChild (t n) = .ok n)
    (p vPath : List UInt32) :
    extractPathChildren (p.map t) vPath = (if (vPath ++ p).length < 1 then 3 else 0, vPath ++ p) := by
  induction p generalizing vPath with
  | nil => simp [extractPathChildren]
  | cons n p ih =>
    rw [List.map_cons, extractPathChildren, ht]
    dsimp only
    rw [ih, List.append_assoc, List.singleton_append]

theorem toLower_eq_m {c : Char} (h : c.toLower = 'm') : c = 'm' ∨ c = 'M' := by
  unfold Char.toLower at h
  split at h
  · right
    have hv := congrArg (fun d : Char => d.val.toNat) h
    have hlt : c.val.toNat < 2 ^ 32 := c.val.toNat_lt
    change (c.val.toNat + 32) % 2 ^ 32 = 109 at hv
    apply Char.ext
    apply UInt32.toNat_inj.mp
    change c.val.toNat = 77
    omega
  · exact .inl h

theorem intercalate_slash_ne_nil {s : List Char} {rest : List (List Char)} (hs : s ≠ []) :
    ['/'].intercalate (s :: rest) ≠ [] := by
  obtain ⟨c, cs, rfl⟩ := List.exists_cons_of_ne_nil hs
  cases rest <;> simp

/-- `ExtractExtKeyPath` inverts `PathToString` on every non-empty path whose string fits the
buffer. -/
theorem extractExtKeyPath_pathToString (p : List UInt32) {cH : Char} (hp : p ≠ [])
    (hcH : cH = 'h' ∨ cH = '\'') (hlen : (pathToString p cH 0).length ≤ 512 - 2) :
    extractExtKeyPath (pathToString p cH 0) = .ret 0 p := by
  have hseg : ∀ s ∈ p.map (fun n => pathLinkText n cH), s ≠ [] ∧ '/' ∉ s ∧ '\x00' ∉ s := by
    intro s hs
    obtain ⟨n, -, rfl⟩ := List.mem_map.mp hs
    exact pathLinkText_piece n hcH
  have hne : p.map (fun n => pathLinkText n cH) ≠ [] := by simpa using hp
  rw [pathToString_eq cH hp] at hlen ⊢
  generalize hX : ['/'].intercalate (p.map fun n => pathLinkText n cH) = X at hlen
  have hXpos : 0 < X.length := by
    obtain ⟨n, p', rfl⟩ := List.exists_cons_of_ne_nil hp
    rw [← hX, List.map_cons]
    exact List.length_pos_iff.mpr (intercalate_slash_ne_nil (pathLinkText_piece n hcH).1)
  have hXlt : X.length < 2 ^ 64 := by simp at hlen; omega
  have hsize : sizeT ((('m' :: '/' :: X).length : Int) - 2) = X.length := by
    unfold sizeT
    rw [List.length_cons, List.length_cons, show ((X.length + 1 + 1 : Nat) : Int) - 2 = X.length by omega,
      Int.emod_eq_of_lt (by omega) (by omega)]
    simp
  unfold extractExtKeyPath
  rw [if_neg (show ¬ ('m' :: '/' :: X).length > 512 - 2 by omega),
    if_neg (show ¬ ('m' :: '/' :: X).length < 1 by simp),
    if_pos (show (cAt ('m' :: '/' :: X) 0).toLower = 'm' from rfl)]
  dsimp only
  rw [hsize, if_neg (show ¬ X.length < 1 by omega),
    if_neg (show ¬ ('m' :: '/' :: X).length < 2 + X.length by simp; omega),
    show ((List.drop 2 ('m' :: '/' :: X)).take X.length) = X by simp,
    slashCheck_eq_false (hX ▸ slashesSeparate_intercalate _ fun s hs => ⟨(hseg s hs).1, (hseg s hs).2.1⟩)]
  rw [if_neg Bool.false_ne_true, ← hX, strtokSlash_intercalate _ hne hseg,
    extractPathChildren_map (fun n => extractPathChild_pathLinkText n hcH)]
  simp only [List.nil_append]
  rw [if_neg (by simpa using hp)]

/-- The path `m/1/2h` is read back. -/
theorem extractExtKeyPath_pathToString_hardened :
    extractExtKeyPath (pathToString [1, 0x80000002] 'h' 0) = .ret 0 [1, 0x80000002] :=
  extractExtKeyPath_pathToString _ (by decide) (.inl rfl) (by decide)

/-! ## Error codes -/

theorem hardenLoop_error (nBase : Nat) : ∀ {s : List Char} {code : Nat},
    hardenLoop nBase s = .error code → code = 4
  | [], _, h => by simp [hardenLoop] at h
  | [c], _, h => by
    simp only [hardenLoop] at h
    split at h
    · cases h
    · split at h
      · cases h
      · exact (Except.error.inj h).symm
  | c :: c' :: cs, _, h => by
    rw [hardenLoop_cons_cons] at h
    split at h
    · cases hr : hardenLoop nBase (c' :: cs) with
      | error e =>
        rw [hr] at h
        cases h
        exact hardenLoop_error nBase hr
      | ok r => rw [hr] at h; cases h
    · exact (Except.error.inj h).symm

theorem extractPathChild_error {tok : List Char} {code : Nat} (h : extractPathChild tok = .error code) :
    code = 4 ∨ code = 5 ∨ code = 8 := by
  unfold extractPathChild at h
  simp only [bind, Except.bind] at h
  split at h
  · next e he => cases h; exact .inl (hardenLoop_error _ he)
  · next r hr =>
    -- past `HardenLoop` the only errors are `5` from `strtou32max` and `8` for bit 31
    split_ifs at h <;> simp only [throw, throwThe, MonadExceptOf.throw, pure, Except.pure, Except.error.injEq,
      reduceCtorEq] at h <;> omega

/-- The loop over the pieces returns `0` only after pushing a child. -/
theorem extractPathChildren_ne_nil (toks : List (List Char)) (vPath : List UInt32)
    (h : (extractPathChildren toks vPath).1 = 0) : (extractPathChildren toks vPath).2 ≠ [] := by
  induction toks generalizing vPath with
  | nil =>
    simp only [extractPathChildren] at h ⊢
    split at h
    · cases h
    · exact List.ne_nil_of_length_pos (by omega)
  | cons tok toks ih =>
    unfold extractPathChildren at h ⊢
    cases hc : extractPathChild tok with
    | error code =>
      rw [hc] at h
      rcases extractPathChild_error hc with rfl | rfl | rfl <;> cases h
    | ok n =>
      rw [hc] at h
      exact ih _ h

end Veil
