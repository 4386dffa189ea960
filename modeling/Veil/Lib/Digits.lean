import Mathlib.Data.Nat.Digits.Lemmas
import Mathlib.Data.List.GetD
import Mathlib.Data.List.TakeWhile
/-!
# Numbers kept in digit buffers

The big-number loops of a codec keep a number as a buffer of digits, least significant
first, read as `Nat.ofDigits base`. Such a buffer is read out by dropping its high zero digits,
which leaves the digits `Nat.digits` of its value (`reverse_dropWhile_eq_digits`), and the
digits at or past a position the loop has not written do not count (`ofDigits_take_of_getD`).
Read the other way, digits with no leading zero are those of their value
(`digits_ofDigits_reverse`).

A buffer of `n * p / q + 1` digits in base `b` holds every number of `n` digits in base `a` as
soon as `a ^ q' ≤ b ^ p'` for a fraction `p' / q' ≤ p / q` (`pow_lt_pow_mul_div_succ`): this is
how such buffers are sized from a rational bound on `log a / log b`, and a small fraction keeps
the powers to compare small.

Letters are read as digits through a lookup (`mapM_eq_some_map`). The strings around the
numbers carry their leading zeros as runs of one letter, which
`takeWhile` counts and `dropWhile` removes (`takeWhile_replicate_append`,
`dropWhile_replicate_append`).
-/

namespace Digits

open Nat (ofDigits)

theorem ofDigits_take_of_getD {b : Nat} {l : List Nat} (n : Nat)
    (hz : ∀ j, n ≤ j → l.getD j 0 = 0) : ofDigits b (l.take n) = ofDigits b l := by
  have hdrop : l.drop n = List.replicate (l.drop n).length 0 := by
    apply List.eq_replicate_iff.mpr ⟨rfl, ?_⟩
    intro x hx
    obtain ⟨j, hj, rfl⟩ := List.mem_iff_getElem.mp hx
    have hzero := hz (n + j) (Nat.le_add_right n j)
    rw [List.getD_eq_getElem l 0 (by rw [List.length_drop] at hj; omega)] at hzero
    rw [List.getElem_drop, hzero]
  conv_rhs => rw [← List.take_append_drop n l, hdrop, Nat.ofDigits_append_replicate_zero]

theorem ofDigits_le_ofDigits_append {b : Nat} (hb : 0 < b) (l₁ l₂ : List Nat) :
    ofDigits b l₂ ≤ ofDigits b (l₁ ++ l₂) := by
  rw [Nat.ofDigits_append]
  calc ofDigits b l₂ ≤ b ^ l₁.length * ofDigits b l₂ :=
        Nat.le_mul_of_pos_left _ (Nat.pow_pos hb)
    _ ≤ ofDigits b l₁ + b ^ l₁.length * ofDigits b l₂ := Nat.le_add_left _ _

/-- A digit list read from its most significant end with its high zeros dropped is the
digit list of its value. -/
theorem reverse_dropWhile_eq_digits {b : Nat} (hb : 1 < b) {l : List Nat}
    (hl : ∀ x ∈ l, x < b) :
    l.reverse.dropWhile (· = 0) = (Nat.digits b (ofDigits b l)).reverse := by
  -- `l` is its significant digits `L` followed by the zeros `takeWhile` collects
  have hzeros : (l.reverse.takeWhile (· = 0)).reverse =
      List.replicate (l.reverse.takeWhile (· = 0)).length 0 := by
    apply List.eq_replicate_iff.mpr ⟨List.length_reverse, ?_⟩
    intro x hx
    simpa using List.mem_takeWhile_imp (List.mem_reverse.mp hx)
  have hsplit : l = (l.reverse.dropWhile (· = 0)).reverse ++ (l.reverse.takeWhile (· = 0)).reverse := by
    rw [← List.reverse_append, List.takeWhile_append_dropWhile, List.reverse_reverse]
  have hvalue : ofDigits b l = ofDigits b (l.reverse.dropWhile (· = 0)).reverse := by
    conv_lhs => rw [hsplit, hzeros, Nat.ofDigits_append_replicate_zero]
  have hlt : ∀ x ∈ (l.reverse.dropWhile (· = 0)).reverse, x < b := fun x hx =>
    hl x (List.mem_reverse.mp ((List.dropWhile_sublist _).subset (List.mem_reverse.mp hx)))
  have hlast : ∀ h : (l.reverse.dropWhile (· = 0)).reverse ≠ [],
      (l.reverse.dropWhile (· = 0)).reverse.getLast h ≠ 0 := by
    intro h
    rw [List.getLast_reverse]
    exact of_decide_eq_false (List.head_dropWhile_not (· = 0) (List.reverse_ne_nil_iff.mp h))
  rw [hvalue, Nat.digits_ofDigits b hb _ hlt hlast, List.reverse_reverse]

/-- The most significant digit of a number is not zero. -/
theorem head?_reverse_digits_ne_zero (b n : Nat) : (Nat.digits b n).reverse.head? ≠ some 0 := by
  rw [List.head?_reverse]
  by_cases hn : n = 0
  · subst hn
    simp
  · rw [List.getLast?_eq_some_getLast (Nat.digits_ne_nil_iff_ne_zero.mpr hn), ne_eq,
      Option.some.injEq]
    exact Nat.getLast_digit_ne_zero b hn

/-- Digits written most significant first, with no leading zero, are the digits of their
value. -/
theorem digits_ofDigits_reverse {b : Nat} (hb : 1 < b) {l : List Nat} (hl : ∀ x ∈ l, x < b)
    (hhead : l.head? ≠ some 0) : Nat.digits b (ofDigits b l.reverse) = l.reverse := by
  apply Nat.digits_ofDigits b hb _ (fun x hx => hl x (List.mem_reverse.mp hx))
  intro h h0
  rw [List.getLast_reverse] at h0
  exact hhead (by rw [List.head?_eq_some_head (List.reverse_ne_nil_iff.mp h), h0])

/-- Bits `a` to `a + b` of a number are among its low `m` bits when `a + b ≤ m`. -/
theorem mod_two_pow_div_mod {v m a b : Nat} (h : a + b ≤ m) :
    v % 2 ^ m / 2 ^ a % 2 ^ b = v / 2 ^ a % 2 ^ b := by
  apply Nat.eq_of_testBit_eq
  intro i
  rw [Nat.testBit_mod_two_pow, Nat.testBit_div_two_pow, Nat.testBit_mod_two_pow,
    Nat.testBit_mod_two_pow, Nat.testBit_div_two_pow]
  by_cases hi : i < b
  · simp [hi, show i + a < m by omega]
  · simp [hi]

/-- The low `n` digits of `v` in base `b`, least significant first, spell `v % b ^ n`. -/
theorem ofDigits_range_div_mod (b v n : Nat) :
    ofDigits b ((List.range n).map fun i => v / b ^ i % b) = v % b ^ n := by
  induction n with
  | zero => simp [Nat.mod_one]
  | succ n ih =>
    rw [List.range_succ, List.map_append, List.map_singleton, Nat.ofDigits_append, ih,
      List.length_map, List.length_range, Nat.ofDigits_singleton, Nat.mod_pow_succ]

/-- A value below `2 ^ k` put under a number shifted by `k` bits: xor and sum agree. -/
theorem two_pow_mul_xor_of_lt {k b : Nat} (hb : b < 2 ^ k) (a : Nat) :
    2 ^ k * a ^^^ b = 2 ^ k * a + b := by
  rw [Nat.two_pow_add_eq_or_of_lt hb]
  apply Nat.eq_of_testBit_eq
  intro i
  rw [Nat.testBit_xor, Nat.testBit_or, Nat.testBit_two_pow_mul]
  by_cases hi : k ≤ i
  · rw [Nat.testBit_lt_two_pow (Nat.lt_of_lt_of_le hb (Nat.pow_le_pow_right (by decide) hi))]
    simp
  · simp [show ¬(i ≥ k) by omega]

/-- The buffer sizes of a base conversion: `n * p / q + 1` digits in base `b` are enough for
any `n` digits in base `a` as soon as a fraction `p' / q'` below `p / q` has
`a ^ q' ≤ b ^ p'`. -/
theorem pow_lt_pow_mul_div_succ {a b p q p' q' : Nat} (hq : 0 < q) (hq' : 0 < q') (hb : 1 < b)
    (hab : a ^ q' ≤ b ^ p') (hpq : p' * q ≤ p * q') (n : Nat) : a ^ n < b ^ (n * p / q + 1) := by
  have hk : n * p' < q' * (n * p' / q' + 1) := Nat.lt_mul_div_succ (n * p') hq'
  -- the digits the fraction `p' / q'` asks for are at most those `p / q` gives
  have hle : n * p' / q' ≤ n * p / q := by
    apply (Nat.le_div_iff_mul_le hq).mpr
    apply Nat.le_of_mul_le_mul_right _ hq'
    calc n * p' / q' * q * q' = n * p' / q' * q' * q := by ring
      _ ≤ n * p' * q := Nat.mul_le_mul_right q (Nat.div_mul_le_self (n * p') q')
      _ = n * (p' * q) := by ring
      _ ≤ n * (p * q') := Nat.mul_le_mul_left n hpq
      _ = n * p * q' := by ring
  have hlt : a ^ n < b ^ (n * p' / q' + 1) := by
    apply (Nat.pow_lt_pow_iff_left (Nat.pos_iff_ne_zero.mp hq')).mp
    calc (a ^ n) ^ q' = (a ^ q') ^ n := by rw [← Nat.pow_mul, ← Nat.pow_mul, Nat.mul_comm]
      _ ≤ (b ^ p') ^ n := Nat.pow_le_pow_left hab n
      _ = b ^ (n * p') := by rw [← Nat.pow_mul, Nat.mul_comm]
      _ < b ^ (q' * (n * p' / q' + 1)) := Nat.pow_lt_pow_right hb hk
      _ = (b ^ (n * p' / q' + 1)) ^ q' := by rw [← Nat.pow_mul, Nat.mul_comm]
  exact Nat.lt_of_lt_of_le hlt (Nat.pow_le_pow_right (by omega) (by omega))

/-- A string read letter by letter through a lookup that gives each letter its digit. -/
theorem mapM_eq_some_map {α β : Type} {f : α → Option β} {g : α → β} :
    ∀ {l : List α}, (∀ a ∈ l, f a = some (g a)) → l.mapM f = some (l.map g)
  | [], _ => rfl
  | a :: l, h => by
    rw [List.mapM_cons, h a List.mem_cons_self,
      mapM_eq_some_map fun b hb => h b (List.mem_cons_of_mem a hb)]
    rfl

/-- A string the lookup reads in full: each letter read gives its digit. -/
theorem eq_map_getD_of_mapM_eq_some {α β : Type} {f : α → Option β} (d : β) :
    ∀ {l : List α} {vs : List β}, l.mapM f = some vs → vs = l.map fun a => (f a).getD d
  | [], vs, h => by
    rw [List.mapM_nil] at h
    exact (Option.some.inj h).symm
  | a :: l, vs, h => by
    rw [List.mapM_cons] at h
    cases hfa : f a with
    | none => simp [hfa] at h
    | some b =>
      cases hl : l.mapM f with
      | none => simp [hfa, hl] at h
      | some bs =>
        simp only [hfa, hl, Option.bind_eq_bind, Option.bind_some, Option.pure_def, Option.some.injEq] at h
        rw [← h, List.map_cons, hfa, Option.getD_some, ← eq_map_getD_of_mapM_eq_some d hl]

/-! ## Runs of a leading letter -/

section Runs

variable {α : Type*} [DecidableEq α]

theorem takeWhile_replicate_append (a : α) (n : Nat) {l : List α} (hl : l.head? ≠ some a) :
    (List.replicate n a ++ l).takeWhile (· = a) = List.replicate n a := by
  induction n with
  | zero =>
    cases l with
    | nil => rfl
    | cons x l =>
      have hx : x ≠ a := fun h => hl (by rw [h]; rfl)
      simp [hx]
  | succ n ih => simp [List.replicate_succ, ih]

theorem dropWhile_replicate_append (a : α) (n : Nat) {l : List α} (hl : l.head? ≠ some a) :
    (List.replicate n a ++ l).dropWhile (· = a) = l := by
  induction n with
  | zero =>
    cases l with
    | nil => rfl
    | cons x l =>
      have hx : x ≠ a := fun h => hl (by rw [h]; rfl)
      simp [hx]
  | succ n ih => simp [List.replicate_succ, ih]

/-- A list is the run of `a` that `takeWhile` counts followed by what `dropWhile` leaves. -/
theorem replicate_takeWhile_append (a : α) (l : List α) :
    List.replicate (l.takeWhile (· = a)).length a ++ l.dropWhile (· = a) = l := by
  have hrun : l.takeWhile (· = a) = List.replicate (l.takeWhile (· = a)).length a := by
    apply List.eq_replicate_iff.mpr ⟨rfl, ?_⟩
    intro x hx
    simpa using List.mem_takeWhile_imp hx
  rw [← hrun, List.takeWhile_append_dropWhile]

theorem head?_dropWhile_ne (a : α) (l : List α) : (l.dropWhile (· = a)).head? ≠ some a := by
  intro h
  have hne : l.dropWhile (· = a) ≠ [] := fun h0 => by rw [h0] at h; cases h
  have hhead := List.head_dropWhile_not (· = a) hne
  rw [List.head?_eq_some_head hne, Option.some.injEq] at h
  simp [h] at hhead

end Runs

end Digits
