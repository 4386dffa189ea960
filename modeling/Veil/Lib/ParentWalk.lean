import Mathlib.Order.Basic

/-!
# Walking up a forest by its parent links

A forest is given by a partial parent function `parent : ι → Option ι` (`none` at a
root).  `up parent k i` is the node reached from `i` by exactly `k` parent steps, or
`none` when a root is passed on the way.  `Ranked parent rank` says that a rank drops by
one along every parent link and is zero at the roots; then `up k i` is defined exactly
for `k ≤ rank i` and lands at rank `rank i - k`.

The lemmas are the ones a pointer walk over such a forest is checked with: how walks
compose (`up_add`), that a walk stays inside a set closed under the parent step
(`up_closed`) and that it agrees for two parent functions that agree there (`up_congr`).
-/

namespace ParentWalk

variable {ι : Type*} (parent : ι → Option ι)

/-- The node `k` parent steps above `i`. -/
def up : Nat → ι → Option ι
  | 0, i => some i
  | k + 1, i => (parent i).bind (up k)

/-- `j` is an ancestor of `i` or `i` itself. -/
def Reaches (i j : ι) : Prop := ∃ k, up parent k i = some j

variable {parent}

@[simp] theorem up_zero (i : ι) : up parent 0 i = some i := rfl

theorem up_succ (k : Nat) (i : ι) : up parent (k + 1) i = (parent i).bind (up parent k) := rfl

@[simp] theorem up_one (i : ι) : up parent 1 i = parent i := by
  rw [up_succ]
  cases parent i <;> rfl

/-- A walk of `m + n` steps is a walk of `n` steps followed by one of `m`. -/
theorem up_add (m n : Nat) (i : ι) :
    up parent (m + n) i = (up parent n i).bind (up parent m) := by
  induction n generalizing i with
  | zero => rfl
  | succ n ih =>
    rw [← Nat.add_assoc, up_succ, up_succ, Option.bind_assoc]
    congr 1
    funext j
    exact ih j

/-- The rest of a walk from a node it passes. -/
theorem up_sub_of_up {k l : Nat} {i a c : ι} (hl : l ≤ k) (ha : up parent l i = some a)
    (hc : up parent k i = some c) : up parent (k - l) a = some c := by
  rw [← Nat.sub_add_cancel hl, up_add, ha] at hc
  exact hc

/-- A set closed under the parent step holds every node a walk from it reaches. -/
theorem up_closed {S : ι → Prop} (hS : ∀ i j, S i → parent i = some j → S j) :
    ∀ (k : Nat) {i j : ι}, S i → up parent k i = some j → S j
  | 0, i, j, hi, h => by
    cases h
    exact hi
  | k + 1, i, j, hi, h => by
    rw [up_succ, Option.bind_eq_some_iff] at h
    obtain ⟨p, hp, hrest⟩ := h
    exact up_closed hS k (hS i p hi hp) hrest

/-- Walks under two parent functions agree from a set that is closed under the first and
on which the two agree. -/
theorem up_congr {parent' : ι → Option ι} {S : ι → Prop}
    (hagree : ∀ i, S i → parent i = parent' i) (hS : ∀ i j, S i → parent i = some j → S j) :
    ∀ (k : Nat) {i : ι}, S i → up parent k i = up parent' k i
  | 0, _, _ => rfl
  | k + 1, i, hi => by
    rw [up_succ, up_succ, ← hagree i hi]
    cases hp : parent i with
    | none => rfl
    | some p => exact up_congr hagree hS k (hS i p hi hp)

theorem Reaches.trans {i j k : ι} (hij : Reaches parent i j) (hjk : Reaches parent j k) :
    Reaches parent i k := by
  obtain ⟨m, hm⟩ := hij
  obtain ⟨n, hn⟩ := hjk
  exact ⟨n + m, by rw [up_add, hm]; exact hn⟩

/-- A rank on the nodes that drops by one along every parent link and is zero at the
roots, such as the height of a block. -/
structure Ranked (parent : ι → Option ι) (rank : ι → Nat) : Prop where
  parent_rank : ∀ i j, parent i = some j → rank j + 1 = rank i
  root_rank : ∀ i, parent i = none → rank i = 0

namespace Ranked

variable {rank : ι → Nat} (hr : Ranked parent rank)
include hr

/-- A walk of `k` steps lowers the rank by `k`. -/
theorem rank_up : ∀ (k : Nat) {i j : ι}, up parent k i = some j → rank j + k = rank i
  | 0, i, j, h => by
    cases h
    rfl
  | k + 1, i, j, h => by
    rw [up_succ, Option.bind_eq_some_iff] at h
    obtain ⟨p, hp, hrest⟩ := h
    have hpk := rank_up k hrest
    have hip := hr.parent_rank i p hp
    omega

/-- Every walk that does not go below rank zero is defined. -/
theorem up_isSome : ∀ (k : Nat) {i : ι}, k ≤ rank i → (up parent k i).isSome
  | 0, _, _ => rfl
  | k + 1, i, hk => by
    rw [up_succ]
    cases hp : parent i with
    | none =>
      have := hr.root_rank i hp
      omega
    | some p =>
      have hip := hr.parent_rank i p hp
      exact up_isSome k (by omega)

/-- Two ancestors of one node at the same rank are the same node. -/
theorem eq_of_rank_eq {k l : Nat} {i a b : ι} (ha : up parent k i = some a)
    (hb : up parent l i = some b) (hab : rank a = rank b) : a = b := by
  have hk := hr.rank_up k ha
  have hl := hr.rank_up l hb
  have hkl : k = l := by omega
  subst hkl
  rw [ha] at hb
  exact Option.some.inj hb

theorem rank_le_of_reaches {i j : ι} (h : Reaches parent i j) : rank j ≤ rank i := by
  obtain ⟨k, hk⟩ := h
  have := hr.rank_up k hk
  omega

/-- A node that `i` reaches, no higher than an ancestor `a` of `i`, is reached from `a`. -/
theorem reaches_of_up {n : Nat} {i a c : ι} (ha : up parent n i = some a)
    (hc : Reaches parent i c) (hle : rank c ≤ rank a) : Reaches parent a c := by
  obtain ⟨k, hk⟩ := hc
  have hck := hr.rank_up k hk
  have han := hr.rank_up n ha
  exact ⟨k - n, up_sub_of_up (by omega) ha hk⟩

/-- Walks from two nodes of one rank that differ for their first `j` steps: when the two
share an ancestor `c`, the walk of `j` steps ends at a node, and that node reaches `c`. -/
theorem first_meet {j : Nat} {x y c : ι} (hxy : rank x = rank y)
    (hfirst : ∀ j' < j, up parent j' x ≠ up parent j' y)
    (hcx : Reaches parent x c) (hcy : Reaches parent y c) :
    ∃ z, up parent j x = some z ∧ Reaches parent z c := by
  obtain ⟨k, hk⟩ := hcx
  obtain ⟨l, hl⟩ := hcy
  have hck := hr.rank_up k hk
  have hcl := hr.rank_up l hl
  -- both walks to `c` have the same length, so they meet after `k` steps at the latest
  have hkl : k = l := by omega
  subst hkl
  have hjk : j ≤ k := by
    by_contra hlt
    exact hfirst k (by omega) (hk.trans hl.symm)
  have hs : (up parent j x).isSome := hr.up_isSome j (by omega)
  obtain ⟨z, hz⟩ := Option.isSome_iff_exists.mp hs
  exact ⟨z, hz, k - j, up_sub_of_up hjk hz hk⟩

end Ranked

end ParentWalk
