import Veil.Lib.MerkleTree
import Mathlib

/-!
# Merkle roots of blocks (`consensus/merkle.cpp`)

`ComputeMerkleRoot` hashes the list of leaves up in a `while` loop: it tests the pairs
`(hashes[pos], hashes[pos + 1])` at even `pos` for equality, duplicates the last hash of
an odd level, hashes adjacent pairs with `SHA256D64` and halves the list.  The pair hash is
a parameter `H` and `uint256()` is `0`.  With the `mutated` pointer null the equality test
is skipped; the root does not depend on it, so the model always computes the flag.

The loop computes the tree of `MerkleTree` (`computeMerkleRoot_fst`,
`computeMerkleRoot_snd`): the root, and `mutated` set exactly when a level of the tree has
an even-indexed node equal to its right neighbour.  For an injective pair hash, two
different non-empty leaf lists with one root then have `mutated` set for one of them or
share a leaf of one with an interior node of the other (`computeMerkleRoot_collision`).
The empty list and the list of the one leaf `0` share the root `0` with neither
(`computeMerkleRoot_nil_single_zero`), and an odd list shares its root with the list that
repeats its last hash, which is flagged (`computeMerkleRoot_padOdd`).
-/

namespace Veil

variable {α : Type*}

/-- The `for` loop of `ComputeMerkleRoot` over `pos = 0, 2, 4, …`: some
`hashes[pos] == hashes[pos + 1]`. -/
def hasEqualPair [DecidableEq α] : List α → Bool
  | a :: b :: rest => a == b || hasEqualPair rest
  | _ => false

/-- `if (hashes.size() & 1) hashes.push_back(hashes.back())`. -/
def padOdd (hashes : List α) : List α :=
  if hashes.length % 2 = 1 then hashes ++ hashes.getLast?.toList else hashes

/-- `SHA256D64(hashes[0].begin(), hashes[0].begin(), hashes.size() / 2)` followed by
`hashes.resize(hashes.size() / 2)`: the hash of each pair, in place. -/
def sha256D64 (H : α → α → α) : List α → List α
  | a :: b :: rest => H a b :: sha256D64 H rest
  | _ => []

theorem length_sha256D64 (H : α → α → α) : ∀ l : List α, (sha256D64 H l).length = l.length / 2
  | [] | [_] => by simp [sha256D64]
  | _ :: _ :: rest => by
    rw [sha256D64, List.length_cons, length_sha256D64 H rest, List.length_cons, List.length_cons]
    omega

theorem length_padOdd (hashes : List α) :
    (padOdd hashes).length = hashes.length + hashes.length % 2 := by
  unfold padOdd
  split
  · next hodd =>
    have hne : hashes ≠ [] := by rintro rfl; simp at hodd
    rw [List.getLast?_eq_some_getLast hne, List.length_append, Option.toList_some, List.length_singleton, hodd]
  · omega

/-- The `while (hashes.size() > 1)` loop of `ComputeMerkleRoot`: the hashes left and
`mutation`. -/
def computeMerkleRootLoop [DecidableEq α] (H : α → α → α) (hashes : List α) (mutation : Bool) : List α × Bool :=
  if hashes.length > 1 then
    computeMerkleRootLoop H (sha256D64 H (padOdd hashes)) (mutation || hasEqualPair hashes)
  else (hashes, mutation)
termination_by hashes.length
decreasing_by rw [length_sha256D64, length_padOdd]; omega

/-- `ComputeMerkleRoot(hashes, &mutated)`: the root and `*mutated`. -/
def computeMerkleRoot [DecidableEq α] [Zero α] (H : α → α → α) (hashes : List α) : α × Bool :=
  let r := computeMerkleRootLoop H hashes false
  (r.1.headD 0, r.2)

/-- `BlockMerkleRoot(block, &mutated)` over the transactions' `GetHash()`. -/
def blockMerkleRoot {T : Type*} [DecidableEq α] [Zero α] (getHash : T → α) (H : α → α → α) (vtx : List T) : α × Bool :=
  computeMerkleRoot H (vtx.map getHash)

/-- `BlockWitnessMerkleRoot(block, &mutated)` over the transactions' `GetWitnessHash()`. -/
def blockWitnessMerkleRoot {T : Type*} [DecidableEq α] [Zero α] (getWitnessHash : T → α) (H : α → α → α)
    (vtx : List T) : α × Bool :=
  computeMerkleRoot H (vtx.map getWitnessHash)

/-! ## The loop computes the tree -/

theorem hasEqualPair_iff [DecidableEq α] : ∀ l : List α, hasEqualPair l = true ↔ MerkleTree.EvenPairEq l
  | a :: b :: rest => by
    rw [hasEqualPair, Bool.or_eq_true, beq_iff_eq, hasEqualPair_iff rest, MerkleTree.evenPairEq_cons_cons]
  | [] => by
    simpa [hasEqualPair] using MerkleTree.not_evenPairEq_of_length_le_one (show ([] : List α).length ≤ 1 by simp)
  | [a] => by
    simpa [hasEqualPair] using MerkleTree.not_evenPairEq_of_length_le_one (show [a].length ≤ 1 by simp)

/-- Padding and pairing is one level of the tree. -/
theorem sha256D64_padOdd (H : α → α → α) : ∀ l : List α, sha256D64 H (padOdd l) = MerkleTree.level H l
  | [] => rfl
  | [a] => rfl
  | a :: b :: rest => by
    have hpad : padOdd (a :: b :: rest) = a :: b :: padOdd rest := by
      unfold padOdd
      simp only [List.length_cons, show (rest.length + 1 + 1) % 2 = rest.length % 2 by omega]
      split
      · next hodd =>
        have hne : rest ≠ [] := by rintro rfl; simp at hodd
        rw [List.getLast?_cons_cons, List.getLast?_cons_of_ne_nil hne]
        rfl
      · rfl
    rw [hpad, sha256D64, sha256D64_padOdd H rest, MerkleTree.level_cons_cons]

theorem padOdd_padOdd (l : List α) : padOdd (padOdd l) = padOdd l := by
  rw [padOdd, if_neg (by rw [length_padOdd]; omega)]

/-- The duplicated last hash of an odd list stands at an even index beside the original. -/
theorem evenPairEq_padOdd {l : List α} (hodd : l.length % 2 = 1) : MerkleTree.EvenPairEq (padOdd l) := by
  have hne : l ≠ [] := by rintro rfl; simp at hodd
  rw [padOdd, if_pos hodd, List.getLast?_eq_some_getLast hne, Option.toList_some]
  refine ⟨l.length / 2, l.getLast hne, ?_, ?_⟩
  · rw [List.getElem?_append_left (by omega), List.getLast_eq_getElem,
      show 2 * (l.length / 2) = l.length - 1 by omega, List.getElem?_eq_getElem]
  · rw [List.getElem?_append_right (by omega), show 2 * (l.length / 2) + 1 - l.length = 0 by omega]
    rfl

theorem level_padOdd (H : α → α → α) (l : List α) : MerkleTree.level H (padOdd l) = MerkleTree.level H l := by
  rw [← sha256D64_padOdd, padOdd_padOdd, sha256D64_padOdd]

section Loop

variable [DecidableEq α] (H : α → α → α)

theorem computeMerkleRootLoop_of_two_le {hashes : List α} (h : 2 ≤ hashes.length) (mutation : Bool) :
    computeMerkleRootLoop H hashes mutation =
      computeMerkleRootLoop H (MerkleTree.level H hashes) (mutation || hasEqualPair hashes) := by
  rw [computeMerkleRootLoop, if_pos (by omega), sha256D64_padOdd]

theorem computeMerkleRootLoop_of_length_le_one {hashes : List α} (h : hashes.length ≤ 1) (mutation : Bool) :
    computeMerkleRootLoop H hashes mutation = (hashes, mutation) := by
  rw [computeMerkleRootLoop, if_neg (by omega)]

/-- The loop stops at the top level of the tree, having or-ed in the test of every level below. -/
theorem computeMerkleRootLoop_eq (hashes : List α) (mutation : Bool) :
    (computeMerkleRootLoop H hashes mutation).1 = MerkleTree.up H (MerkleTree.height H hashes) hashes ∧
      ((computeMerkleRootLoop H hashes mutation).2 = true ↔
        mutation = true ∨ MerkleTree.Mutated H hashes) := by
  induction hashes using MerkleTree.level_induction H generalizing mutation with
  | short l h =>
    rw [computeMerkleRootLoop_of_length_le_one H h, MerkleTree.height_of_length_le_one H h,
      MerkleTree.up_zero]
    exact ⟨rfl, by simp [MerkleTree.not_mutated_of_length_le_one H h]⟩
  | step l h ih =>
    obtain ⟨ih₁, ih₂⟩ := ih (mutation || hasEqualPair l)
    rw [computeMerkleRootLoop_of_two_le H h, MerkleTree.height_of_two_le H h, MerkleTree.up_succ',
      MerkleTree.mutated_of_two_le H h, ← hasEqualPair_iff]
    refine ⟨ih₁, ?_⟩
    rw [ih₂, Bool.or_eq_true, or_assoc]

variable [Zero α]

/-- `ComputeMerkleRoot` returns the root of the tree. -/
theorem computeMerkleRoot_fst (hashes : List α) :
    (computeMerkleRoot H hashes).1 = MerkleTree.root H 0 hashes := by
  show (computeMerkleRootLoop H hashes false).1.headD 0 = _
  rw [(computeMerkleRootLoop_eq H hashes false).1]
  cases hashes with
  | nil => rw [MerkleTree.height_of_length_le_one H (by simp), MerkleTree.up_zero, MerkleTree.root]; rfl
  | cons a rest => rw [MerkleTree.up_height H 0 (List.cons_ne_nil a rest)]; rfl

/-- `ComputeMerkleRoot` sets `mutated` exactly for a mutated tree. -/
theorem computeMerkleRoot_snd (hashes : List α) :
    (computeMerkleRoot H hashes).2 = true ↔ MerkleTree.Mutated H hashes := by
  show (computeMerkleRootLoop H hashes false).2 = true ↔ _
  rw [(computeMerkleRootLoop_eq H hashes false).2]
  simp

/-- With no hash or one the loop does not run: the root is that hash, or `uint256()`. -/
theorem computeMerkleRoot_of_length_le_one {hashes : List α} (h : hashes.length ≤ 1) :
    computeMerkleRoot H hashes = (hashes.headD 0, false) := by
  show ((computeMerkleRootLoop H hashes false).1.headD 0, (computeMerkleRootLoop H hashes false).2) = _
  rw [computeMerkleRootLoop_of_length_le_one H h]

end Loop

/-- A list of odd length three or more and the same list with its last hash repeated share a
root, and the longer one is flagged: the duplicated-transaction attack the flag is for. -/
theorem computeMerkleRoot_padOdd [DecidableEq α] [Zero α] (H : α → α → α) {l : List α}
    (hodd : l.length % 2 = 1) (h3 : 3 ≤ l.length) :
    (computeMerkleRoot H (padOdd l)).1 = (computeMerkleRoot H l).1 ∧
      (computeMerkleRoot H (padOdd l)).2 = true := by
  have hpad : 2 ≤ (padOdd l).length := by rw [length_padOdd]; omega
  rw [computeMerkleRoot_fst, computeMerkleRoot_fst, computeMerkleRoot_snd,
    MerkleTree.root_of_two_le H 0 hpad, MerkleTree.root_of_two_le H 0 (show 2 ≤ l.length by omega),
    level_padOdd]
  exact ⟨rfl, (MerkleTree.mutated_of_two_le H hpad).mpr (.inl (evenPairEq_padOdd hodd))⟩

/-- Under the injective pair hash `Nat.pair`, no leaves and the single leaf `0` share the root
`0`; neither is flagged as mutated and neither tree has an interior node. -/
theorem computeMerkleRoot_nil_single_zero :
    (∀ a b c d : Nat, Nat.pair a b = Nat.pair c d → a = c ∧ b = d) ∧
      computeMerkleRoot Nat.pair [] = (0, false) ∧ computeMerkleRoot Nat.pair [0] = (0, false) ∧
      ∀ x, ¬ MerkleTree.IsInterior Nat.pair [] x ∧ ¬ MerkleTree.IsInterior Nat.pair [0] x := by
  refine ⟨fun _ _ _ _ => Nat.pair_eq_pair.mp, ?_, ?_, fun x =>
    ⟨MerkleTree.not_isInterior_of_length_le_one _ (by simp) x,
      MerkleTree.not_isInterior_of_length_le_one _ (by simp) x⟩⟩
  · exact computeMerkleRoot_of_length_le_one Nat.pair (by simp)
  · exact computeMerkleRoot_of_length_le_one Nat.pair (by simp)

section Collision

variable [DecidableEq α] [Zero α] {H : α → α → α}
variable (hinj : ∀ a b c d, H a b = H c d → a = c ∧ b = d)
include hinj

/-- Two different non-empty leaf lists with one root: `mutated` is set for one of them, or a
leaf of one is an interior node of the other's tree. -/
theorem computeMerkleRoot_collision {l₁ l₂ : List α} (h₁ : l₁ ≠ []) (h₂ : l₂ ≠ []) (hne : l₁ ≠ l₂)
    (hroot : (computeMerkleRoot H l₁).1 = (computeMerkleRoot H l₂).1) :
    (computeMerkleRoot H l₁).2 = true ∨ (computeMerkleRoot H l₂).2 = true ∨
      (∃ x ∈ l₁, MerkleTree.IsInterior H l₂ x) ∨ ∃ x ∈ l₂, MerkleTree.IsInterior H l₁ x := by
  rw [computeMerkleRoot_fst, computeMerkleRoot_fst] at hroot
  rw [computeMerkleRoot_snd, computeMerkleRoot_snd]
  rcases MerkleTree.eq_or_mutated_or_isInterior hinj 0 h₁ h₂ hroot with h | h
  · exact absurd h hne
  · exact h

/-- The same over the hashes of two lists of transactions, as `BlockMerkleRoot` and
`BlockWitnessMerkleRoot` compute them. -/
theorem computeMerkleRoot_map_collision {T : Type*} (f : T → α) {vtx₁ vtx₂ : List T}
    (h₁ : vtx₁ ≠ []) (h₂ : vtx₂ ≠ []) (hne : vtx₁.map f ≠ vtx₂.map f)
    (hroot : (computeMerkleRoot H (vtx₁.map f)).1 = (computeMerkleRoot H (vtx₂.map f)).1) :
    (computeMerkleRoot H (vtx₁.map f)).2 = true ∨ (computeMerkleRoot H (vtx₂.map f)).2 = true ∨
      (∃ tx ∈ vtx₁, MerkleTree.IsInterior H (vtx₂.map f) (f tx)) ∨
      ∃ tx ∈ vtx₂, MerkleTree.IsInterior H (vtx₁.map f) (f tx) := by
  rcases computeMerkleRoot_collision hinj (by simpa using h₁) (by simpa using h₂) hne hroot with
    h | h | ⟨x, hx, hi⟩ | ⟨x, hx, hi⟩
  · exact .inl h
  · exact .inr (.inl h)
  · obtain ⟨tx, htx, rfl⟩ := List.mem_map.mp hx
    exact .inr (.inr (.inl ⟨tx, htx, hi⟩))
  · obtain ⟨tx, htx, rfl⟩ := List.mem_map.mp hx
    exact .inr (.inr (.inr ⟨tx, htx, hi⟩))

end Collision

/-- `ComputeMerkleRoot` computes the root of the tree and flags exactly the trees with a level
holding an even-indexed node equal to its right neighbour; for an injective pair hash, two
different non-empty leaf lists with one root, of `ComputeMerkleRoot`, `BlockMerkleRoot` or
`BlockWitnessMerkleRoot`, have one of them flagged or a leaf of one among the interior nodes of
the other's tree. -/
theorem computeMerkleRoot_mutation_detection {T : Type*} [DecidableEq α] [Zero α] (H : α → α → α)
    (getHash getWitnessHash : T → α) :
    (∀ hashes : List α, (computeMerkleRoot H hashes).1 = MerkleTree.root H 0 hashes ∧
      ((computeMerkleRoot H hashes).2 = true ↔ MerkleTree.Mutated H hashes)) ∧
    ((∀ a b c d, H a b = H c d → a = c ∧ b = d) → ∀ l₁ l₂ : List α, l₁ ≠ [] → l₂ ≠ [] → l₁ ≠ l₂ →
      (computeMerkleRoot H l₁).1 = (computeMerkleRoot H l₂).1 →
      (computeMerkleRoot H l₁).2 = true ∨ (computeMerkleRoot H l₂).2 = true ∨
        (∃ x ∈ l₁, MerkleTree.IsInterior H l₂ x) ∨ ∃ x ∈ l₂, MerkleTree.IsInterior H l₁ x) ∧
    ((∀ a b c d, H a b = H c d → a = c ∧ b = d) →
      ∀ vtx₁ vtx₂ : List T, vtx₁ ≠ [] → vtx₂ ≠ [] → vtx₁.map getHash ≠ vtx₂.map getHash →
      (blockMerkleRoot getHash H vtx₁).1 = (blockMerkleRoot getHash H vtx₂).1 →
      (blockMerkleRoot getHash H vtx₁).2 = true ∨ (blockMerkleRoot getHash H vtx₂).2 = true ∨
        (∃ tx ∈ vtx₁, MerkleTree.IsInterior H (vtx₂.map getHash) (getHash tx)) ∨
        ∃ tx ∈ vtx₂, MerkleTree.IsInterior H (vtx₁.map getHash) (getHash tx)) ∧
    ((∀ a b c d, H a b = H c d → a = c ∧ b = d) →
      ∀ vtx₁ vtx₂ : List T, vtx₁ ≠ [] → vtx₂ ≠ [] → vtx₁.map getWitnessHash ≠ vtx₂.map getWitnessHash →
      (blockWitnessMerkleRoot getWitnessHash H vtx₁).1 = (blockWitnessMerkleRoot getWitnessHash H vtx₂).1 →
      (blockWitnessMerkleRoot getWitnessHash H vtx₁).2 = true ∨
        (blockWitnessMerkleRoot getWitnessHash H vtx₂).2 = true ∨
        (∃ tx ∈ vtx₁, MerkleTree.IsInterior H (vtx₂.map getWitnessHash) (getWitnessHash tx)) ∨
        ∃ tx ∈ vtx₂, MerkleTree.IsInterior H (vtx₁.map getWitnessHash) (getWitnessHash tx)) := by
  refine ⟨fun hashes => ⟨computeMerkleRoot_fst H hashes, computeMerkleRoot_snd H hashes⟩, ?_, ?_, ?_⟩
  · intro hinj l₁ l₂ h₁ h₂ hne hroot
    exact computeMerkleRoot_collision hinj h₁ h₂ hne hroot
  · intro hinj vtx₁ vtx₂ h₁ h₂ hne hroot
    exact computeMerkleRoot_map_collision hinj getHash h₁ h₂ hne hroot
  · intro hinj vtx₁ vtx₂ h₁ h₂ hne hroot
    exact computeMerkleRoot_map_collision hinj getWitnessHash h₁ h₂ hne hroot

/-- At the injective pair hash `Nat.pair`, `ComputeMerkleRoot` flags the list `[1, 2, 3, 3]` of
the duplicated-node attack exactly when its tree is mutated, and that list and `[1, 2, 3]` share
a root, so one of the two is flagged or a leaf of one is an interior node of the other. -/
theorem computeMerkleRoot_mutation_detection_pair :
    ((computeMerkleRoot Nat.pair [1, 2, 3, 3]).2 = true ↔ MerkleTree.Mutated Nat.pair [1, 2, 3, 3]) ∧
      ((computeMerkleRoot Nat.pair [1, 2, 3]).2 = true ∨
        (computeMerkleRoot Nat.pair [1, 2, 3, 3]).2 = true ∨
        (∃ x ∈ [1, 2, 3], MerkleTree.IsInterior Nat.pair [1, 2, 3, 3] x) ∨
        ∃ x ∈ [1, 2, 3, 3], MerkleTree.IsInterior Nat.pair [1, 2, 3] x) := by
  have hinj : ∀ a b c d : Nat, Nat.pair a b = Nat.pair c d → a = c ∧ b = d :=
    fun _ _ _ _ => Nat.pair_eq_pair.mp
  -- `[1, 2, 3, 3]` is `[1, 2, 3]` with its last hash repeated
  have hroot : (computeMerkleRoot Nat.pair [1, 2, 3]).1 = (computeMerkleRoot Nat.pair [1, 2, 3, 3]).1 :=
    (computeMerkleRoot_padOdd Nat.pair (l := [1, 2, 3]) (by decide) (by decide)).1.symm
  exact ⟨((computeMerkleRoot_mutation_detection Nat.pair id id).1 _).2,
    (computeMerkleRoot_mutation_detection Nat.pair id id).2.1 hinj [1, 2, 3] [1, 2, 3, 3]
      (by simp) (by simp) (by decide) hroot⟩

end Veil
