import Mathlib.Data.Int.Bitwise
import Veil.Lib.ParentWalk
import Veil.Lib.TransitionSystem

/-!
# The skip list of the block tree (chain.cpp)

Every `CBlockIndex` holds `pprev` and a second back pointer `pskip`, set by `BuildSkip`
to the ancestor at `GetSkipHeight(nHeight)`.  `GetAncestor` walks down from a block to a
given height, taking `pskip` where the guard allows and `pprev` otherwise, and
`LastCommonAncestor` lines two blocks up at one height and then steps both back until
they meet.

The block index is modelled as a store: a list of `CBlockIndex` in the order
`AddToBlockIndex` created them, the pointers being positions in it.  What a pointer
walk means is `ParentWalk.up (pprevOf index) k i`, the block `k` pprev steps above `i`.

* `getSkipHeight_lt`: `GetSkipHeight(n) < n` for every `n ≥ 1`, so the walk goes down.
* `getAncestor_eq`: on a well-formed store `GetAncestor(h)` is the pprev walk of
  `nHeight - h` steps and never reaches `assert(pindexWalk->pprev)`.
* `addToBlockIndex_wellFormed`: `AddToBlockIndex` keeps the store well formed, using
  `getAncestor_eq` for the `GetAncestor` call inside `BuildSkip`; so every store built
  from the empty one is (`wellFormed_of_built`).
* `lastCommonAncestor_spec`: `LastCommonAncestor` returns the highest block that both
  arguments reach.
-/

namespace Veil.Chain

open ParentWalk TransitionSystem

/-! ## Algorithm -/

/-- `InvertLowestOne`: turn the lowest `1` bit of `n` into a `0`. -/
def invertLowestOne (n : Int) : Int := Int.land n (n - 1)

/-- `GetSkipHeight`: the height that `pskip` of a block at `height` points to. -/
def getSkipHeight (height : Int) : Int :=
  if height < 2 then 0
  else if Int.land height 1 ≠ 0 then invertLowestOne (invertLowestOne (height - 1)) + 1
  else invertLowestOne height

/-- What the skip list reads of a `CBlockIndex`: `pprev` and `pskip` are positions in
the store, `none` being `nullptr`.  A new `CBlockIndex` has both null and height 0. -/
structure CBlockIndex where
  pprev : Option Nat
  pskip : Option Nat
  nHeight : Int
  deriving DecidableEq, Repr

/-- The guard under which `GetAncestor` follows `pskip` from `heightWalk` towards
`height`: only if `pprev->pskip` isn't better than `pskip->pprev`. -/
def followSkip (height heightWalk : Int) : Bool :=
  let heightSkip := getSkipHeight heightWalk
  let heightSkipPrev := getSkipHeight (heightWalk - 1)
  heightSkip == height ||
    (decide (heightSkip > height) && !(decide (heightSkipPrev < heightSkip - 2) &&
      decide (heightSkipPrev ≥ height)))

/-- One iteration of the loop of `GetAncestor` at the block `walk` and `heightWalk`: the
next `pindexWalk` and `heightWalk`, `none` where `assert(pindexWalk->pprev)` fails. -/
def getAncestorStep (height : Int) (walk : CBlockIndex) (heightWalk : Int) :
    Option (Nat × Int) :=
  match walk.pskip, followSkip height heightWalk with
  | some pskip, true => some (pskip, getSkipHeight heightWalk)
  | _, _ => walk.pprev.map fun pprev => (pprev, heightWalk - 1)

/-- The loop `while (heightWalk > height)` of `GetAncestor`, with `fuel` iterations at
most; `none` when an assert fails, a pointer leaves the store or the fuel runs out. -/
def getAncestorLoop (index : List CBlockIndex) (height : Int) :
    Nat → Nat → Int → Option Nat
  | fuel, pindexWalk, heightWalk =>
    if heightWalk > height then
      match fuel with
      | 0 => none
      | fuel + 1 =>
        (index[pindexWalk]?.bind fun walk => getAncestorStep height walk heightWalk).bind
          fun next => getAncestorLoop index height fuel next.1 next.2
    else some pindexWalk

/-- `CBlockIndex::GetAncestor` on the block at position `pindex`: `some none` is
`nullptr`, the outer `none` an assert that fired.  Each iteration lowers `heightWalk`,
so `nHeight - height` iterations are enough. -/
def getAncestor (index : List CBlockIndex) (pindex : Nat) (height : Int) :
    Option (Option Nat) :=
  index[pindex]?.bind fun block =>
    if height > block.nHeight ∨ height < 0 then some none
    else (getAncestorLoop index height (block.nHeight - height).toNat pindex
      block.nHeight).map some

/-- `CBlockIndex::BuildSkip`.  `pprev->GetAncestor` reads `pprev` and its ancestors only,
all of them already in the store, so it runs on the store before the block is added. -/
def buildSkip (index : List CBlockIndex) (block : CBlockIndex) : Option CBlockIndex :=
  match block.pprev with
  | some pprev =>
    (getAncestor index pprev (getSkipHeight block.nHeight)).map fun pskip => { block with pskip }
  | none => some block

/-- The block tree part of `CChainState::AddToBlockIndex`: a new `CBlockIndex` at the end
of the store, under the block at `pprev` when `hashPrevBlock` is found in
`mapBlockIndex`, with `nHeight` and `pskip` set as the source sets them. -/
def addToBlockIndex (index : List CBlockIndex) (pprev : Option Nat) :
    Option (List CBlockIndex) :=
  match pprev with
  | none => some (index ++ [{ pprev := none, pskip := none, nHeight := 0 }])
  | some p =>
    index[p]?.bind fun prev =>
      (buildSkip index { pprev := some p, pskip := none, nHeight := prev.nHeight + 1 }).map
        fun pindexNew => index ++ [pindexNew]

/-- A store built from the empty one by `AddToBlockIndex`, one block at a time. -/
def Built (index : List CBlockIndex) : Prop :=
  Reachable addToBlockIndex (fun _ _ => True) (· = []) index

/-- The loop `while (pa != pb && pa && pb)` of `LastCommonAncestor`, stepping both
pointers to their `pprev`, with `fuel` iterations at most. -/
def lastCommonAncestorLoop (index : List CBlockIndex) :
    Nat → Option Nat → Option Nat → Option (Option Nat × Option Nat)
  | fuel, some a, some b =>
    if a ≠ b then
      match fuel with
      | 0 => none
      | fuel + 1 => do
        let blockA ← index[a]?
        let blockB ← index[b]?
        lastCommonAncestorLoop index fuel blockA.pprev blockB.pprev
    else some (some a, some b)
  | _, pa, pb => some (pa, pb)

/-- The first half of `LastCommonAncestor`: the higher of the two blocks is replaced by
its ancestor at the other's height. -/
def sameHeight (index : List CBlockIndex) (pa pb : Nat) (blockA blockB : CBlockIndex) :
    Option (Option Nat × Option Nat) :=
  if blockA.nHeight > blockB.nHeight then
    (getAncestor index pa blockB.nHeight).map fun pa => (pa, some pb)
  else if blockB.nHeight > blockA.nHeight then
    (getAncestor index pb blockA.nHeight).map fun pb => (some pa, pb)
  else some (some pa, some pb)

/-- `LastCommonAncestor` of the blocks at `pa` and `pb`; the outer `none` is
`assert(pa == pb)` failing.  After the first half both pointers are at the lower height,
and each iteration lowers them by one, so that height plus one iterations are enough. -/
def lastCommonAncestor (index : List CBlockIndex) (pa pb : Nat) : Option (Option Nat) := do
  let blockA ← index[pa]?
  let blockB ← index[pb]?
  let start ← sameHeight index pa pb blockA blockB
  let stop ← lastCommonAncestorLoop index ((min blockA.nHeight blockB.nHeight).toNat + 1)
    start.1 start.2
  if stop.1 = stop.2 then some stop.1 else none

/-! ## Skip heights -/

theorem invertLowestOne_natCast (a : Nat) :
    invertLowestOne a = ((a &&& (a - 1) : Nat) : Int) := by
  cases a with
  | zero =>
    -- `0 & -1`, which `Int.land` computes as `Nat.ldiff 0 0`
    change ((Nat.ldiff 0 0 : Nat) : Int) = ((0 &&& 0 : Nat) : Int)
    rw [Nat.ldiff, Nat.bitwise_zero]
    rfl
  | succ a =>
    have h : ((a + 1 : Nat) : Int) - 1 = ((a : Nat) : Int) := by omega
    rw [invertLowestOne, h]
    rfl

/-- Clearing a bit of a number that is not negative keeps it between zero and itself,
and lowers it when it is positive. -/
theorem invertLowestOne_bounds {n : Int} (hn : 0 ≤ n) :
    0 ≤ invertLowestOne n ∧ invertLowestOne n ≤ n ∧ (0 < n → invertLowestOne n < n) := by
  obtain ⟨a, rfl⟩ := Int.eq_ofNat_of_zero_le hn
  rw [invertLowestOne_natCast]
  have hle : a &&& (a - 1) ≤ a - 1 := Nat.and_le_right
  omega

theorem getSkipHeight_nonneg (height : Int) : 0 ≤ getSkipHeight height := by
  unfold getSkipHeight
  split_ifs
  · exact Int.le_refl 0
  · have h1 := (invertLowestOne_bounds (n := height - 1) (by omega)).1
    have h2 := (invertLowestOne_bounds h1).1
    omega
  · exact (invertLowestOne_bounds (by omega)).1

/-- `GetSkipHeight` points strictly down from every positive height. -/
theorem getSkipHeight_lt {height : Int} (h : 0 < height) : getSkipHeight height < height := by
  unfold getSkipHeight
  split_ifs with h2
  · exact h
  · -- odd `height ≥ 3`: both clearings stay below `height - 1`
    obtain ⟨h1, -, hlt⟩ := invertLowestOne_bounds (n := height - 1) (by omega)
    have hle := (invertLowestOne_bounds h1).2.1
    have := hlt (by omega)
    omega
  · exact (invertLowestOne_bounds (by omega)).2.2 h

example : getSkipHeight 6 = 4 ∧ getSkipHeight 7 = 1 ∧ getSkipHeight 15 = 9 := by decide

theorem le_getSkipHeight_of_followSkip {height heightWalk : Int}
    (h : followSkip height heightWalk = true) : height ≤ getSkipHeight heightWalk := by
  unfold followSkip at h
  simp only [Bool.or_eq_true, beq_iff_eq, Bool.and_eq_true, decide_eq_true_eq] at h
  omega

/-! ## The store as a forest -/

/-- The `pprev` link of the block at position `i`. -/
def pprevOf (index : List CBlockIndex) (i : Nat) : Option Nat := index[i]?.bind (·.pprev)

/-- The height of the block at position `i`, as the rank of the forest. -/
def heightOf (index : List CBlockIndex) (i : Nat) : Nat :=
  (index[i]?.map fun block => block.nHeight.toNat).getD 0

section Store

variable {index : List CBlockIndex} {i : Nat} {block : CBlockIndex}

@[simp] theorem pprevOf_of_getElem? (hi : index[i]? = some block) :
    pprevOf index i = block.pprev := by
  rw [pprevOf, hi, Option.bind_some]

@[simp] theorem heightOf_of_getElem? (hi : index[i]? = some block) :
    heightOf index i = block.nHeight.toNat := by
  rw [heightOf, hi]
  rfl

theorem pprevOf_append {b : CBlockIndex} (hi : i < index.length) :
    pprevOf (index ++ [b]) i = pprevOf index i := by
  rw [pprevOf, pprevOf, List.getElem?_append_left hi]

/-- What `AddToBlockIndex` keeps of each block of the store: a height that is never
negative, zero without `pprev` and one more than `pprev`'s, and a `pskip` that, when
set, is the ancestor at `GetSkipHeight(nHeight)`. -/
structure WellFormedNode (index : List CBlockIndex) (i : Nat) (block : CBlockIndex) :
    Prop where
  height_nonneg : 0 ≤ block.nHeight
  root_height : block.pprev = none → block.nHeight = 0
  pprev_height : ∀ p, block.pprev = some p →
    ∃ prev, index[p]? = some prev ∧ block.nHeight = prev.nHeight + 1
  pskip_up : ∀ s, block.pskip = some s →
    up (pprevOf index) (block.nHeight - getSkipHeight block.nHeight).toNat i = some s

/-- Every block of the store is well formed. -/
def WellFormed (index : List CBlockIndex) : Prop :=
  ∀ i block, index[i]? = some block → WellFormedNode index i block

theorem wellFormed_nil : WellFormed [] := by
  intro i block h
  simp at h

namespace WellFormed

variable (hwf : WellFormed index)
include hwf

theorem pprev_eq_none_iff (hi : index[i]? = some block) :
    block.pprev = none ↔ block.nHeight = 0 := by
  have hn := hwf i block hi
  refine ⟨hn.root_height, fun h0 => ?_⟩
  cases hp : block.pprev with
  | none => rfl
  | some p =>
    obtain ⟨prev, hprev, hh⟩ := hn.pprev_height p hp
    have := (hwf p prev hprev).height_nonneg
    omega

/-- Heights rank the forest of `pprev` links. -/
theorem ranked : Ranked (pprevOf index) (heightOf index) where
  parent_rank i j h := by
    rw [pprevOf, Option.bind_eq_some_iff] at h
    obtain ⟨block, hi, hp⟩ := h
    obtain ⟨prev, hprev, hh⟩ := (hwf i block hi).pprev_height j hp
    have := (hwf j prev hprev).height_nonneg
    rw [heightOf_of_getElem? hi, heightOf_of_getElem? hprev]
    omega
  root_rank i h := by
    cases hi : index[i]? with
    | none => rw [heightOf, hi]; rfl
    | some block =>
      rw [pprevOf_of_getElem? hi] at h
      rw [heightOf_of_getElem? hi, (hwf i block hi).root_height h]
      rfl

/-- A pprev walk from a block of the store ends at a block of the store, `k` lower. -/
theorem up_getElem? {k j : Nat} (hi : index[i]? = some block)
    (h : up (pprevOf index) k i = some j) :
    ∃ bj, index[j]? = some bj ∧ bj.nHeight = block.nHeight - k := by
  have hclosed : ∀ i j, (index[i]?).isSome → pprevOf index i = some j → (index[j]?).isSome := by
    intro i j hi hj
    obtain ⟨bi, hbi⟩ := Option.isSome_iff_exists.mp hi
    rw [pprevOf_of_getElem? hbi] at hj
    obtain ⟨prev, hprev, -⟩ := (hwf i bi hbi).pprev_height j hj
    rw [hprev]
    rfl
  obtain ⟨bj, hbj⟩ := Option.isSome_iff_exists.mp
    (up_closed hclosed k (by rw [hi]; rfl) h)
  have hrank := hwf.ranked.rank_up k h
  rw [heightOf_of_getElem? hbj, heightOf_of_getElem? hi] at hrank
  have := (hwf j bj hbj).height_nonneg
  have := (hwf i block hi).height_nonneg
  exact ⟨bj, hbj, by omega⟩

/-- A pprev walk that stays at or above height zero is defined. -/
theorem up_isSome {k : Nat} (hi : index[i]? = some block) (hk : k ≤ block.nHeight.toNat) :
    (up (pprevOf index) k i).isSome :=
  hwf.ranked.up_isSome k (by rw [heightOf_of_getElem? hi]; exact hk)

end WellFormed

/-! ## GetAncestor -/

/-- One iteration of `GetAncestor` above the target height moves down along the pprev
links, to a height still at or above the target; the `pprev` it may need is there. -/
theorem getAncestorStep_spec {w : Nat} {walk : CBlockIndex} {height : Int}
    (hwf : WellFormed index) (hw : index[w]? = some walk) (h0 : 0 ≤ height)
    (hgt : height < walk.nHeight) :
    ∃ next heightNext, getAncestorStep height walk walk.nHeight = some (next, heightNext) ∧
      up (pprevOf index) (walk.nHeight - heightNext).toNat w = some next ∧
      height ≤ heightNext ∧ heightNext < walk.nHeight := by
  have hn := hwf w walk hw
  unfold getAncestorStep
  split
  · next pskip hs hf =>
    exact ⟨pskip, _, rfl, hn.pskip_up pskip hs, le_getSkipHeight_of_followSkip hf,
      getSkipHeight_lt (by omega)⟩
  · -- a block above height zero has its `pprev`
    have hp : walk.pprev ≠ none := fun h => by
      have := (hwf.pprev_eq_none_iff hw).mp h
      omega
    obtain ⟨p, hp⟩ := Option.ne_none_iff_exists'.mp hp
    refine ⟨p, walk.nHeight - 1, by rw [hp]; rfl, ?_, by omega, by omega⟩
    have h1 : (walk.nHeight - (walk.nHeight - 1)).toNat = 1 := by omega
    rw [h1, up_one, pprevOf_of_getElem? hw, hp]

/-- The loop of `GetAncestor` from a block at its own height, given fuel for each height
on the way, ends at its pprev ancestor at the target height. -/
theorem getAncestorLoop_eq {height : Int} (hwf : WellFormed index) (h0 : 0 ≤ height) :
    ∀ (fuel w : Nat) (walk : CBlockIndex), index[w]? = some walk → height ≤ walk.nHeight →
      (walk.nHeight - height).toNat ≤ fuel →
      getAncestorLoop index height fuel w walk.nHeight =
        up (pprevOf index) (walk.nHeight - height).toNat w := by
  intro fuel
  induction fuel with
  | zero =>
    intro w walk _ hle hfuel
    have heq : walk.nHeight = height := by omega
    rw [getAncestorLoop, if_neg (by omega), heq, Int.sub_self]
    rfl
  | succ fuel ih =>
    intro w walk hw hle hfuel
    by_cases hgt : height < walk.nHeight
    · obtain ⟨next, heightNext, hstep, hup, hlow, hlt⟩ := getAncestorStep_spec hwf hw h0 hgt
      obtain ⟨bn, hbn, hbnh⟩ := hwf.up_getElem? hw hup
      have hnext : bn.nHeight = heightNext := by omega
      have hsplit : (walk.nHeight - height).toNat =
          (bn.nHeight - height).toNat + (walk.nHeight - heightNext).toNat := by omega
      rw [getAncestorLoop, if_pos hgt, hw, Option.bind_some, hstep, Option.bind_some]
      show getAncestorLoop index height fuel next heightNext = _
      rw [← hnext, ih next bn hbn (by omega) (by omega), hsplit, up_add, hup, Option.bind_some]
    · have heq : walk.nHeight = height := by omega
      rw [getAncestorLoop, if_neg hgt, heq, Int.sub_self]
      rfl

/-- On a well-formed store `GetAncestor(height)` is `nullptr` outside `[0, nHeight]` and
otherwise the block `nHeight - height` pprev steps up, and no assert fires. -/
theorem getAncestor_eq (hwf : WellFormed index) (hi : index[i]? = some block)
    (height : Int) :
    getAncestor index i height = some (if height > block.nHeight ∨ height < 0 then none
      else up (pprevOf index) (block.nHeight - height).toNat i) := by
  rw [getAncestor, hi, Option.bind_some]
  split_ifs with h
  · rfl
  · have hs : (up (pprevOf index) (block.nHeight - height).toNat i).isSome :=
      hwf.up_isSome hi (by omega)
    rw [getAncestorLoop_eq hwf (by omega) _ i block hi (by omega) le_rfl]
    obtain ⟨j, hj⟩ := Option.isSome_iff_exists.mp hs
    rw [hj]
    rfl

/-! ## AddToBlockIndex keeps the store well formed -/

/-- The block `AddToBlockIndex` adds under the block `prev` at `p`, with the `pskip` that
`BuildSkip` gives it on a well-formed store. -/
def skipBlock (index : List CBlockIndex) (p : Nat) (prev : CBlockIndex) : CBlockIndex where
  pprev := some p
  pskip := up (pprevOf index) (prev.nHeight - getSkipHeight (prev.nHeight + 1)).toNat p
  nHeight := prev.nHeight + 1

section Append

variable {b : CBlockIndex} (hwf : WellFormed index)
include hwf

theorem pprevOf_lt {j : Nat} (h : pprevOf index i = some j) : j < index.length := by
  rw [pprevOf, Option.bind_eq_some_iff] at h
  obtain ⟨bi, hbi, hp⟩ := h
  obtain ⟨prev, hprev, -⟩ := (hwf i bi hbi).pprev_height j hp
  exact (List.getElem?_eq_some_iff.mp hprev).1

/-- Adding a block at the end changes no pprev walk from the blocks already there. -/
theorem up_append (hi : i < index.length) (k : Nat) :
    up (pprevOf (index ++ [b])) k i = up (pprevOf index) k i := by
  refine up_congr (S := (· < index.length)) (fun i hi => pprevOf_append hi) ?_ k hi
  intro i j hi hj
  rw [pprevOf_append hi] at hj
  exact pprevOf_lt hwf hj

theorem WellFormedNode.append (hi : i < index.length) (hn : WellFormedNode index i block) :
    WellFormedNode (index ++ [b]) i block where
  height_nonneg := hn.height_nonneg
  root_height := hn.root_height
  pprev_height p hp := by
    obtain ⟨prev, hprev, hh⟩ := hn.pprev_height p hp
    have hlt := (List.getElem?_eq_some_iff.mp hprev).1
    exact ⟨prev, by rw [List.getElem?_append_left hlt, hprev], hh⟩
  pskip_up s hs := by
    rw [up_append hwf hi]
    exact hn.pskip_up s hs

/-- A well-formed block added at the end keeps the store well formed. -/
theorem wellFormed_append (hb : WellFormedNode (index ++ [b]) index.length b) :
    WellFormed (index ++ [b]) := by
  intro i block hi
  have hlt := (List.getElem?_eq_some_iff.mp hi).1
  rw [List.length_append, List.length_singleton] at hlt
  rcases Nat.lt_or_ge i index.length with hold | hnew
  · rw [List.getElem?_append_left hold] at hi
    exact (hwf i block hi).append hwf hold
  · have heq : i = index.length := by omega
    subst heq
    rw [List.getElem?_concat_length, Option.some.injEq] at hi
    subst hi
    exact hb

/-- `BuildSkip` on a new block under the block at `p`: its `pskip` is the ancestor of
`p` at `GetSkipHeight(nHeight)`, found without an assert. -/
theorem buildSkip_eq {p : Nat} {prev : CBlockIndex} (hp : index[p]? = some prev) :
    buildSkip index { pprev := some p, pskip := none, nHeight := prev.nHeight + 1 } =
      some (skipBlock index p prev) := by
  have hnn := (hwf p prev hp).height_nonneg
  have hlt : getSkipHeight (prev.nHeight + 1) < prev.nHeight + 1 := getSkipHeight_lt (by omega)
  have hge := getSkipHeight_nonneg (prev.nHeight + 1)
  show (getAncestor index p (getSkipHeight (prev.nHeight + 1))).map _ = _
  rw [getAncestor_eq hwf hp, if_neg (by omega)]
  rfl

/-- The block `AddToBlockIndex` adds under `p` is well formed in the new store. -/
theorem wellFormedNode_skipBlock {p : Nat} {prev : CBlockIndex} (hp : index[p]? = some prev) :
    WellFormedNode (index ++ [skipBlock index p prev]) index.length (skipBlock index p prev) := by
  have hnn := (hwf p prev hp).height_nonneg
  have hplt := (List.getElem?_eq_some_iff.mp hp).1
  refine ⟨(by simp only [skipBlock]; omega), fun h => by simp [skipBlock] at h, ?_, ?_⟩
  · intro q hq
    cases hq
    exact ⟨prev, by rw [List.getElem?_append_left hplt, hp], rfl⟩
  · -- the new block's walk is one pprev step to `p`, then the old walk from `p`
    intro s hs
    have hlt : getSkipHeight (prev.nHeight + 1) < prev.nHeight + 1 := getSkipHeight_lt (by omega)
    have hge := getSkipHeight_nonneg (prev.nHeight + 1)
    have hk : (prev.nHeight + 1 - getSkipHeight (prev.nHeight + 1)).toNat =
        (prev.nHeight - getSkipHeight (prev.nHeight + 1)).toNat + 1 := by omega
    simp only [skipBlock] at hs ⊢
    rw [hk, up_succ, pprevOf, List.getElem?_concat_length, Option.bind_some, Option.bind_some,
      up_append hwf hplt, hs]

/-- `AddToBlockIndex` keeps the store well formed. -/
theorem addToBlockIndex_wellFormed {pprev : Option Nat} {index' : List CBlockIndex}
    (h : addToBlockIndex index pprev = some index') : WellFormed index' := by
  cases pprev with
  | none =>
    cases h
    exact wellFormed_append hwf
      ⟨Int.le_refl 0, fun _ => rfl, fun _ h => by simp at h, fun _ h => by simp at h⟩
  | some p =>
    rw [addToBlockIndex, Option.bind_eq_some_iff] at h
    obtain ⟨prev, hp, h⟩ := h
    rw [buildSkip_eq hwf hp, Option.map_some, Option.some.injEq] at h
    subst h
    exact wellFormed_append hwf (wellFormedNode_skipBlock hwf hp)

end Append

/-- Every store built by `AddToBlockIndex` is well formed. -/
theorem wellFormed_of_built (h : Built index) : WellFormed index :=
  Reachable.invariant (fun _ h => h ▸ wellFormed_nil)
    (fun _ _ _ hwf _ h => addToBlockIndex_wellFormed hwf h) h

/-! ## LastCommonAncestor -/

theorem lastCommonAncestorLoop_none_left (fuel : Nat) (pb : Option Nat) :
    lastCommonAncestorLoop index fuel none pb = some (none, pb) := by
  cases fuel <;> rfl

theorem lastCommonAncestorLoop_same (fuel a : Nat) :
    lastCommonAncestorLoop index fuel (some a) (some a) = some (some a, some a) := by
  cases fuel <;> simp [lastCommonAncestorLoop]

/-- The loop of `LastCommonAncestor` from two blocks at one height, with fuel above that
height, stops at the first step count `j` where the two pprev walks meet. -/
theorem lastCommonAncestorLoop_spec (hwf : WellFormed index) :
    ∀ (fuel x y : Nat) (bx byy : CBlockIndex), index[x]? = some bx → index[y]? = some byy →
      bx.nHeight = byy.nHeight → bx.nHeight.toNat < fuel →
      ∃ j, lastCommonAncestorLoop index fuel (some x) (some y) =
          some (up (pprevOf index) j x, up (pprevOf index) j y) ∧
        up (pprevOf index) j x = up (pprevOf index) j y ∧
        ∀ j' < j, up (pprevOf index) j' x ≠ up (pprevOf index) j' y := by
  intro fuel
  induction fuel with
  | zero => intro _ _ _ _ _ _ _ h; omega
  | succ fuel ih =>
    intro x y bx byy hx hy hh hfuel
    by_cases hxy : x = y
    · subst hxy
      exact ⟨0, lastCommonAncestorLoop_same _ _, rfl, fun _ h => absurd h (Nat.not_lt_zero _)⟩
    · have hloop : lastCommonAncestorLoop index (fuel + 1) (some x) (some y) =
          lastCommonAncestorLoop index fuel bx.pprev byy.pprev := by
        simp [lastCommonAncestorLoop, hxy, hx, hy]
      have hne : up (pprevOf index) 0 x ≠ up (pprevOf index) 0 y := by
        simpa using hxy
      cases hpx : bx.pprev with
      | none =>
        -- both are roots: one more step takes both walks to `nullptr`
        have hpy : byy.pprev = none := by
          rw [hwf.pprev_eq_none_iff hy, ← hh, ← hwf.pprev_eq_none_iff hx, hpx]
        refine ⟨1, ?_, ?_, ?_⟩
        · rw [hloop, hpx, hpy, lastCommonAncestorLoop_none_left, up_one, up_one,
            pprevOf_of_getElem? hx, pprevOf_of_getElem? hy, hpx, hpy]
        · rw [up_one, up_one, pprevOf_of_getElem? hx, pprevOf_of_getElem? hy, hpx, hpy]
        · intro j' hj'
          have : j' = 0 := by omega
          subst this
          exact hne
      | some px =>
        have hpy : byy.pprev ≠ none := by
          rw [Ne, hwf.pprev_eq_none_iff hy, ← hh, ← hwf.pprev_eq_none_iff hx, hpx]
          exact Option.some_ne_none px
        obtain ⟨py, hpy⟩ := Option.ne_none_iff_exists'.mp hpy
        obtain ⟨bpx, hbpx, hhx⟩ := (hwf x bx hx).pprev_height px hpx
        obtain ⟨bpy, hbpy, hhy⟩ := (hwf y byy hy).pprev_height py hpy
        have := (hwf px bpx hbpx).height_nonneg
        obtain ⟨j, hj, hmeet, hfirst⟩ :=
          ih px py bpx bpy hbpx hbpy (by omega) (by omega)
        have hupx : ∀ k, up (pprevOf index) (k + 1) x = up (pprevOf index) k px := by
          intro k
          rw [up_succ, pprevOf_of_getElem? hx, hpx, Option.bind_some]
        have hupy : ∀ k, up (pprevOf index) (k + 1) y = up (pprevOf index) k py := by
          intro k
          rw [up_succ, pprevOf_of_getElem? hy, hpy, Option.bind_some]
        refine ⟨j + 1, by rw [hloop, hpx, hpy, hj, hupx, hupy], by rw [hupx, hupy, hmeet], ?_⟩
        intro j' hj'
        cases j' with
        | zero => exact hne
        | succ j' =>
          rw [hupx, hupy]
          exact hfirst j' (by omega)

/-- The first half of `LastCommonAncestor` moves the higher block to its pprev ancestor
at the lower height. -/
theorem sameHeight_spec {pa pb : Nat} {blockA blockB : CBlockIndex} (hwf : WellFormed index)
    (ha : index[pa]? = some blockA) (hb : index[pb]? = some blockB) :
    ∃ a₀ b₀, sameHeight index pa pb blockA blockB = some (some a₀, some b₀) ∧
      up (pprevOf index) (blockA.nHeight - min blockA.nHeight blockB.nHeight).toNat pa =
        some a₀ ∧
      up (pprevOf index) (blockB.nHeight - min blockA.nHeight blockB.nHeight).toNat pb =
        some b₀ := by
  have hA := (hwf pa blockA ha).height_nonneg
  have hB := (hwf pb blockB hb).height_nonneg
  unfold sameHeight
  split_ifs with hab hba
  · have hs : (up (pprevOf index) (blockA.nHeight - blockB.nHeight).toNat pa).isSome :=
      hwf.up_isSome ha (by omega)
    obtain ⟨a₀, ha₀⟩ := Option.isSome_iff_exists.mp hs
    have hA' : (blockA.nHeight - min blockA.nHeight blockB.nHeight).toNat =
        (blockA.nHeight - blockB.nHeight).toNat := by omega
    have hB' : (blockB.nHeight - min blockA.nHeight blockB.nHeight).toNat = 0 := by omega
    refine ⟨a₀, pb, ?_, by rw [hA', ha₀], by rw [hB']; rfl⟩
    rw [getAncestor_eq hwf ha, if_neg (by omega), ha₀]
    rfl
  · have hs : (up (pprevOf index) (blockB.nHeight - blockA.nHeight).toNat pb).isSome :=
      hwf.up_isSome hb (by omega)
    obtain ⟨b₀, hb₀⟩ := Option.isSome_iff_exists.mp hs
    have hA' : (blockA.nHeight - min blockA.nHeight blockB.nHeight).toNat = 0 := by omega
    have hB' : (blockB.nHeight - min blockA.nHeight blockB.nHeight).toNat =
        (blockB.nHeight - blockA.nHeight).toNat := by omega
    refine ⟨pa, b₀, ?_, by rw [hA']; rfl, by rw [hB', hb₀]⟩
    rw [getAncestor_eq hwf hb, if_neg (by omega), hb₀]
    rfl
  · have hA' : (blockA.nHeight - min blockA.nHeight blockB.nHeight).toNat = 0 := by omega
    have hB' : (blockB.nHeight - min blockA.nHeight blockB.nHeight).toNat = 0 := by omega
    exact ⟨pa, pb, rfl, by rw [hA']; rfl, by rw [hB']; rfl⟩

/-- On a well-formed store `LastCommonAncestor` of two blocks that share an ancestor
returns, without an assert, the highest block that both reach: one that both reach, and
that reaches every block both reach. -/
theorem lastCommonAncestor_spec {pa pb : Nat} {blockA blockB : CBlockIndex}
    (hwf : WellFormed index) (ha : index[pa]? = some blockA) (hb : index[pb]? = some blockB)
    (hc : ∃ c, Reaches (pprevOf index) pa c ∧ Reaches (pprevOf index) pb c) :
    ∃ z, lastCommonAncestor index pa pb = some (some z) ∧
      Reaches (pprevOf index) pa z ∧ Reaches (pprevOf index) pb z ∧
      ∀ c, Reaches (pprevOf index) pa c → Reaches (pprevOf index) pb c →
        Reaches (pprevOf index) z c ∧ heightOf index c ≤ heightOf index z := by
  have hr := hwf.ranked
  have hA := (hwf pa blockA ha).height_nonneg
  have hB := (hwf pb blockB hb).height_nonneg
  obtain ⟨a₀, b₀, hsame, ha₀, hb₀⟩ := sameHeight_spec hwf ha hb
  obtain ⟨A₀, hA₀, hA₀h⟩ := hwf.up_getElem? ha ha₀
  obtain ⟨B₀, hB₀, hB₀h⟩ := hwf.up_getElem? hb hb₀
  have hh₀ : A₀.nHeight = B₀.nHeight := by omega
  obtain ⟨j, hloop, hmeet, hfirst⟩ := lastCommonAncestorLoop_spec hwf
    ((min blockA.nHeight blockB.nHeight).toNat + 1) a₀ b₀ A₀ B₀ hA₀ hB₀ hh₀ (by omega)
  have hrank : heightOf index a₀ = heightOf index b₀ := by
    rw [heightOf_of_getElem? hA₀, heightOf_of_getElem? hB₀, hh₀]
  -- a block both reach is no higher than the lower one, so `a₀` and `b₀` both reach it
  have hcommon : ∀ c, Reaches (pprevOf index) pa c → Reaches (pprevOf index) pb c →
      Reaches (pprevOf index) a₀ c ∧ Reaches (pprevOf index) b₀ c := by
    intro c hca hcb
    have h1 := hr.rank_le_of_reaches hca
    have h2 := hr.rank_le_of_reaches hcb
    rw [heightOf_of_getElem? ha] at h1
    rw [heightOf_of_getElem? hb] at h2
    refine ⟨hr.reaches_of_up ha₀ hca ?_, hr.reaches_of_up hb₀ hcb ?_⟩
    · rw [heightOf_of_getElem? hA₀]
      omega
    · rw [heightOf_of_getElem? hB₀]
      omega
  obtain ⟨c, hca, hcb⟩ := hc
  obtain ⟨z, hz, -⟩ := hr.first_meet hrank hfirst (hcommon c hca hcb).1 (hcommon c hca hcb).2
  have hres : lastCommonAncestor index pa pb = some (up (pprevOf index) j a₀) := by
    simp only [lastCommonAncestor, ha, hb, hsame, hloop, Option.bind_eq_bind, Option.bind_some]
    exact if_pos hmeet
  refine ⟨z, by rw [hres, hz], Reaches.trans ⟨_, ha₀⟩ ⟨j, hz⟩,
    Reaches.trans ⟨_, hb₀⟩ ⟨j, by rw [← hmeet, hz]⟩, ?_⟩
  intro c' hca' hcb'
  obtain ⟨z', hz', hzc'⟩ :=
    hr.first_meet hrank hfirst (hcommon c' hca' hcb').1 (hcommon c' hca' hcb').2
  rw [hz, Option.some.injEq] at hz'
  subst hz'
  exact ⟨hzc', hr.rank_le_of_reaches hzc'⟩

end Store

/-! ## The skip list agrees with the pprev walk -/

/-- On every store built by `AddToBlockIndex`, `GetAncestor(height)` of a block is
`nullptr` exactly outside `[0, nHeight]` and otherwise the block `nHeight - height` pprev
steps up, with no assert on the way; and `LastCommonAncestor` of two blocks of one tree
is the highest block both reach. -/
theorem getAncestor_skip_list (index : List CBlockIndex) (hbuilt : Built index) :
    (∀ i block, index[i]? = some block → ∀ height : Int,
      (height < 0 ∨ block.nHeight < height → getAncestor index i height = some none) ∧
      (0 ≤ height → height ≤ block.nHeight → ∃ j, getAncestor index i height = some (some j) ∧
        up (pprevOf index) (block.nHeight - height).toNat i = some j)) ∧
    ∀ pa pb blockA blockB, index[pa]? = some blockA → index[pb]? = some blockB →
      (∃ c, Reaches (pprevOf index) pa c ∧ Reaches (pprevOf index) pb c) →
      ∃ z, lastCommonAncestor index pa pb = some (some z) ∧
        Reaches (pprevOf index) pa z ∧ Reaches (pprevOf index) pb z ∧
        ∀ c, Reaches (pprevOf index) pa c → Reaches (pprevOf index) pb c →
          Reaches (pprevOf index) z c ∧ heightOf index c ≤ heightOf index z := by
  have hwf := wellFormed_of_built hbuilt
  refine ⟨fun i block hi height => ⟨fun hout => ?_, fun h0 hle => ?_⟩,
    fun _ _ _ _ ha hb hc => lastCommonAncestor_spec hwf ha hb hc⟩
  · rw [getAncestor_eq hwf hi, if_pos (by omega)]
  · have hs : (up (pprevOf index) (block.nHeight - height).toNat i).isSome :=
      hwf.up_isSome hi (by omega)
    obtain ⟨j, hj⟩ := Option.isSome_iff_exists.mp hs
    exact ⟨j, by rw [getAncestor_eq hwf hi, if_neg (by omega), hj], hj⟩

theorem getAncestor_skip_list_chain :
    Built [⟨none, none, 0⟩, ⟨some 0, some 0, 1⟩, ⟨some 1, some 0, 2⟩] ∧
      ∃ j, getAncestor [⟨none, none, 0⟩, ⟨some 0, some 0, 1⟩, ⟨some 1, some 0, 2⟩] 2 0 =
          some (some j) ∧
        up (pprevOf [⟨none, none, 0⟩, ⟨some 0, some 0, 1⟩, ⟨some 1, some 0, 2⟩]) 2 2 = some j :=
  have hbuilt : Built [⟨none, none, 0⟩, ⟨some 0, some 0, 1⟩, ⟨some 1, some 0, 2⟩] :=
    Reachable.of_run rfl (fun _ _ _ => trivial)
      (show run addToBlockIndex [] [none, some 0, some 1] = _ by decide)
  ⟨hbuilt, ((getAncestor_skip_list _ hbuilt).1 2 _ rfl 0).2 (Int.le_refl 0) (by decide)⟩

end Veil.Chain
