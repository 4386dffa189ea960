import Mathlib.Logic.Function.Iterate
import Mathlib.Order.Basic

/-!
# Merkle trees that hash the last node of an odd level with itself

The tree over a list of leaves is built a level at a time: `level` hashes adjacent nodes
in pairs and the last node of an odd level with itself, until one node, the root, is left
(`root`; the root of no leaves is a given `zero`).  `height` counts the levels above the
leaves and `up k` is level `k`, the leaves being level `0`.

Hashing the odd node with itself lets two lists share a root: a level that ends in two
equal nodes hashes like the level without the second one.  Such a level has an
even-indexed node equal to its right neighbour (`EvenPairEq`), and a tree with such a level
is `Mutated`.  For a pair hash that is injective there is one other way to share a root,
across heights, where the leaves of one tree are a level of the other and so its interior
nodes (`eq_or_mutated_or_isInterior`).  The proof descends from the equal roots a level at
a time (`up_eq_of_root_eq`), each step by `level_inj`.
-/

namespace MerkleTree

variable {α : Type*} (H : α → α → α)

/-- One level up: adjacent nodes hashed in pairs, the last node of an odd level with itself. -/
def level : List α → List α
  | [] => []
  | [a] => [H a a]
  | a :: b :: rest => H a b :: level rest

@[simp] theorem level_nil : level H [] = [] := rfl

@[simp] theorem level_single (a : α) : level H [a] = [H a a] := rfl

@[simp] theorem level_cons_cons (a b : α) (rest : List α) :
    level H (a :: b :: rest) = H a b :: level H rest := rfl

theorem length_level : ∀ l : List α, (level H l).length = (l.length + 1) / 2
  | [] => by simp
  | [_] => by simp
  | _ :: _ :: rest => by
    rw [level_cons_cons, List.length_cons, length_level rest, List.length_cons, List.length_cons]
    omega

theorem level_eq_nil {l : List α} : level H l = [] ↔ l = [] := by
  rw [← List.length_eq_zero_iff, ← List.length_eq_zero_iff, length_level]
  omega

/-- The root: the node left once the levels are hashed up, `zero` for no leaves. -/
def root (zero : α) : List α → α
  | [] => zero
  | [a] => a
  | a :: b :: rest => root zero (level H (a :: b :: rest))
termination_by l => l.length
decreasing_by rw [length_level]; simp only [List.length_cons]; omega

/-- The number of levels above the leaves. -/
def height : List α → Nat
  | a :: b :: rest => height (level H (a :: b :: rest)) + 1
  | _ => 0
termination_by l => l.length
decreasing_by rw [length_level]; simp only [List.length_cons]; omega

/-- Level `k` of the tree: the leaves at `0`, each level hashed up from the one below. -/
def up (k : Nat) (l : List α) : List α := (level H)^[k] l

@[simp] theorem up_zero (l : List α) : up H 0 l = l := rfl

theorem up_succ (k : Nat) (l : List α) : up H (k + 1) l = level H (up H k l) :=
  Function.iterate_succ_apply' _ _ _

theorem up_succ' (k : Nat) (l : List α) : up H (k + 1) l = up H k (level H l) :=
  Function.iterate_succ_apply _ _ _

theorem root_of_two_le (zero : α) {l : List α} (h : 2 ≤ l.length) :
    root H zero l = root H zero (level H l) := by
  match l, h with
  | _ :: _ :: _, _ => rw [root]

theorem height_of_two_le {l : List α} (h : 2 ≤ l.length) : height H l = height H (level H l) + 1 := by
  match l, h with
  | _ :: _ :: _, _ => rw [height]

theorem height_of_length_le_one {l : List α} (h : l.length ≤ 1) : height H l = 0 := by
  match l, h with
  | [], _ => rw [height]; simp
  | [_], _ => rw [height]; simp

/-- Induction up the tree: a list of two or more nodes has the property when the level above
it has it. -/
theorem level_induction {motive : List α → Prop}
    (short : ∀ l : List α, l.length ≤ 1 → motive l)
    (step : ∀ l : List α, 2 ≤ l.length → motive (level H l) → motive l) (l : List α) : motive l := by
  induction l using height.induct H with
  | case1 a b rest ih => exact step _ (by simp) ih
  | case2 l hnot =>
    apply short
    match l with
    | [] | [_] => simp
    | a :: b :: rest => exact absurd rfl (hnot a b rest)

/-- The top level of the tree over a non-empty list is its root alone. -/
theorem up_height (zero : α) {l : List α} (hl : l ≠ []) : up H (height H l) l = [root H zero l] := by
  induction l using level_induction H with
  | short l h =>
    match l, hl with
    | [a], _ => rw [height_of_length_le_one H h, up_zero, root]
  | step l h ih =>
    rw [height_of_two_le H h, up_succ', root_of_two_le H zero h]
    exact ih (by rw [ne_eq, level_eq_nil]; exact hl)

/-! ## Mutated levels and interior nodes -/

/-- An even-indexed node equal to its right neighbour. -/
def EvenPairEq (l : List α) : Prop := ∃ i a, l[2 * i]? = some a ∧ l[2 * i + 1]? = some a

theorem evenPairEq_cons_cons {a b : α} {rest : List α} :
    EvenPairEq (a :: b :: rest) ↔ a = b ∨ EvenPairEq rest := by
  constructor
  · rintro ⟨i, c, h₁, h₂⟩
    cases i with
    | zero =>
      simp only [List.getElem?_cons_zero, List.getElem?_cons_succ, Nat.mul_zero, Option.some.injEq] at h₁ h₂
      exact .inl (h₁.trans h₂.symm)
    | succ i =>
      rw [show 2 * (i + 1) = 2 * i + 1 + 1 by omega, List.getElem?_cons_succ, List.getElem?_cons_succ] at h₁ h₂
      exact .inr ⟨i, c, h₁, h₂⟩
  · rintro (rfl | ⟨i, c, h₁, h₂⟩)
    · exact ⟨0, a, rfl, rfl⟩
    · refine ⟨i + 1, c, ?_, ?_⟩
      · rw [show 2 * (i + 1) = 2 * i + 1 + 1 by omega, List.getElem?_cons_succ, List.getElem?_cons_succ]
        exact h₁
      · rw [show 2 * (i + 1) + 1 = 2 * i + 1 + 1 + 1 by omega, List.getElem?_cons_succ,
          List.getElem?_cons_succ]
        exact h₂

theorem not_evenPairEq_of_length_le_one {l : List α} (h : l.length ≤ 1) : ¬ EvenPairEq l := by
  rintro ⟨i, a, -, h₂⟩
  rw [List.getElem?_eq_none (by omega)] at h₂
  cases h₂

/-- Some level of the tree holds an even-indexed node equal to its right neighbour. -/
def Mutated (l : List α) : Prop := ∃ k ≤ height H l, EvenPairEq (up H k l)

/-- `x` is a node of the tree over `l` above its leaves. -/
def IsInterior (l : List α) (x : α) : Prop := ∃ k, 0 < k ∧ k ≤ height H l ∧ x ∈ up H k l

theorem mutated_of_two_le {l : List α} (h : 2 ≤ l.length) :
    Mutated H l ↔ EvenPairEq l ∨ Mutated H (level H l) := by
  unfold Mutated
  rw [height_of_two_le H h]
  constructor
  · rintro ⟨k, hk, hm⟩
    cases k with
    | zero => exact .inl hm
    | succ k => exact .inr ⟨k, by omega, by rwa [← up_succ']⟩
  · rintro (hm | ⟨k, hk, hm⟩)
    · exact ⟨0, by omega, hm⟩
    · exact ⟨k + 1, by omega, by rwa [up_succ']⟩

theorem not_mutated_of_length_le_one {l : List α} (h : l.length ≤ 1) : ¬ Mutated H l := by
  rintro ⟨k, hk, hm⟩
  rw [height_of_length_le_one H h, Nat.le_zero] at hk
  subst hk
  exact not_evenPairEq_of_length_le_one h hm

theorem not_isInterior_of_length_le_one {l : List α} (h : l.length ≤ 1) (x : α) : ¬ IsInterior H l x := by
  rintro ⟨k, hk, hkh, -⟩
  rw [height_of_length_le_one H h] at hkh
  omega

/-! ## Equal roots -/

/-- The pair hash can only map two levels to one by a padded duplicate: either the levels are
equal or one of them has an even-indexed node equal to its neighbour. -/
theorem level_inj (hinj : ∀ a b c d, H a b = H c d → a = c ∧ b = d) :
    ∀ l₁ l₂ : List α, level H l₁ = level H l₂ → l₁ = l₂ ∨ EvenPairEq l₁ ∨ EvenPairEq l₂
  | [], [], _ => .inl rfl
  | [], [_], h => by simp at h
  | [], _ :: _ :: _, h => by simp at h
  | [_], [], h => by simp at h
  | _ :: _ :: _, [], h => by simp at h
  | [a], [c], h => by
    rw [level_single, level_single, List.cons.injEq] at h
    obtain ⟨rfl, -⟩ := hinj _ _ _ _ h.1
    exact .inl rfl
  | [a], c :: d :: rest, h => by
    rw [level_single, level_cons_cons, List.cons.injEq] at h
    obtain ⟨rfl, rfl⟩ := hinj _ _ _ _ h.1
    obtain rfl : rest = [] := (level_eq_nil H).mp h.2.symm
    exact .inr (.inr (evenPairEq_cons_cons.mpr (.inl rfl)))
  | a :: b :: rest, [c], h => by
    rw [level_single, level_cons_cons, List.cons.injEq] at h
    obtain ⟨rfl, rfl⟩ := hinj _ _ _ _ h.1
    obtain rfl : rest = [] := (level_eq_nil H).mp h.2
    exact .inr (.inl (evenPairEq_cons_cons.mpr (.inl rfl)))
  | a :: b :: rest, c :: d :: rest', h => by
    rw [level_cons_cons, level_cons_cons, List.cons.injEq] at h
    obtain ⟨rfl, rfl⟩ := hinj _ _ _ _ h.1
    rcases level_inj hinj rest rest' h.2 with rfl | hm | hm
    · exact .inl rfl
    · exact .inr (.inl (evenPairEq_cons_cons.mpr (.inr hm)))
    · exact .inr (.inr (evenPairEq_cons_cons.mpr (.inr hm)))

section Injective

variable {H}
variable (hinj : ∀ a b c d, H a b = H c d → a = c ∧ b = d)
include hinj

/-- From equal levels `k + 1` and `j + 1` of two trees, one level down. -/
theorem up_eq_of_up_succ_eq {l₁ l₂ : List α} {k j : Nat} (hk : k < height H l₁) (hj : j < height H l₂)
    (h : up H (k + 1) l₁ = up H (j + 1) l₂) :
    up H k l₁ = up H j l₂ ∨ Mutated H l₁ ∨ Mutated H l₂ := by
  rw [up_succ, up_succ] at h
  rcases level_inj H hinj _ _ h with heq | hm | hm
  · exact .inl heq
  · exact .inr (.inl ⟨k, Nat.le_of_lt hk, hm⟩)
  · exact .inr (.inr ⟨j, Nat.le_of_lt hj, hm⟩)

/-- Descending from the top of the lower tree, its levels are those of the higher tree `e`
levels up, down to its leaves, unless one tree is mutated. -/
theorem up_eq_of_root_eq {l₁ l₂ : List α} {e : Nat} (he : height H l₁ + e ≤ height H l₂)
    (htop : up H (height H l₁) l₁ = up H (height H l₁ + e) l₂) :
    ∀ i ≤ height H l₁, up H (height H l₁ - i) l₁ = up H (height H l₁ - i + e) l₂ ∨
      Mutated H l₁ ∨ Mutated H l₂
  | 0, _ => .inl htop
  | i + 1, hi => by
    rcases up_eq_of_root_eq he htop i (by omega) with h | hm
    · rw [show height H l₁ - i = height H l₁ - (i + 1) + 1 by omega,
        show height H l₁ - (i + 1) + 1 + e = height H l₁ - (i + 1) + e + 1 by omega] at h
      exact up_eq_of_up_succ_eq hinj (by omega) (by omega) h
    · exact .inr hm

/-- Equal roots, the first tree no higher than the second. -/
theorem eq_or_mutated_of_height_le (zero : α) {l₁ l₂ : List α} (h₁ : l₁ ≠ []) (h₂ : l₂ ≠ [])
    (hle : height H l₁ ≤ height H l₂) (hroot : root H zero l₁ = root H zero l₂) :
    l₁ = l₂ ∨ Mutated H l₁ ∨ Mutated H l₂ ∨ ∃ x ∈ l₁, IsInterior H l₂ x := by
  obtain ⟨e, he⟩ := Nat.exists_eq_add_of_le hle
  have htop : up H (height H l₁) l₁ = up H (height H l₁ + e) l₂ := by
    rw [up_height H zero h₁, ← he, up_height H zero h₂, hroot]
  rcases up_eq_of_root_eq hinj (Nat.le_of_eq he.symm) htop (height H l₁) (Nat.le_refl _) with h | hm | hm
  · rw [Nat.sub_self, up_zero, Nat.zero_add] at h
    rcases Nat.eq_zero_or_pos e with rfl | hpos
    · exact .inl h
    · -- the leaves of the lower tree are level `e` of the higher one
      obtain ⟨x, hx⟩ := List.exists_mem_of_ne_nil l₁ h₁
      exact .inr (.inr (.inr ⟨x, hx, e, hpos, by omega, h ▸ hx⟩))
  · exact .inr (.inl hm)
  · exact .inr (.inr (.inl hm))

/-- Two non-empty leaf lists with equal roots under an injective pair hash are equal, or one
tree is mutated, or a leaf of one is an interior node of the other. -/
theorem eq_or_mutated_or_isInterior (zero : α) {l₁ l₂ : List α} (h₁ : l₁ ≠ []) (h₂ : l₂ ≠ [])
    (hroot : root H zero l₁ = root H zero l₂) :
    l₁ = l₂ ∨ Mutated H l₁ ∨ Mutated H l₂ ∨ (∃ x ∈ l₁, IsInterior H l₂ x) ∨
      ∃ x ∈ l₂, IsInterior H l₁ x := by
  rcases Nat.le_total (height H l₁) (height H l₂) with hle | hle
  · rcases eq_or_mutated_of_height_le hinj zero h₁ h₂ hle hroot with h | h | h | h
    · exact .inl h
    · exact .inr (.inl h)
    · exact .inr (.inr (.inl h))
    · exact .inr (.inr (.inr (.inl h)))
  · rcases eq_or_mutated_of_height_le hinj zero h₂ h₁ hle hroot.symm with h | h | h | h
    · exact .inl h.symm
    · exact .inr (.inr (.inl h))
    · exact .inr (.inl h)
    · exact .inr (.inr (.inr (.inr h)))

end Injective

end MerkleTree
