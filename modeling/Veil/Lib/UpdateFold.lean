import Mathlib.Logic.Function.Basic
import Mathlib.Data.List.Nodup
/-!
# Batches of writes to a map

A table kept as a function `α → β` (an index on disk, a map in memory) takes a batch of writes
as a fold of `Function.update` over a list: element `i` of the batch writes `val i` under the key
`key i`. Read at one key, the batch leaves the keys it does not write alone
(`foldl_update_of_not_mem`), and with distinct keys each written key holds what its one write put
there (`foldl_update_of_mem`). Writing one value under every key of the batch, as an erasure
does, reads as a membership test (`foldl_update_const`).
-/

namespace UpdateFold

variable {ι α β : Type*} [DecidableEq α]

theorem foldl_update_of_not_mem (key : ι → α) (val : ι → β) {l : List ι} {x : α}
    (h : x ∉ l.map key) (m : α → β) :
    l.foldl (fun m i => Function.update m (key i) (val i)) m x = m x := by
  induction l generalizing m with
  | nil => rfl
  | cons i l ih =>
    rw [List.map_cons, List.mem_cons, not_or] at h
    rw [List.foldl_cons, ih h.2, Function.update_of_ne h.1]

theorem foldl_update_of_mem (key : ι → α) (val : ι → β) {l : List ι} (hl : (l.map key).Nodup)
    {i : ι} (hi : i ∈ l) (m : α → β) :
    l.foldl (fun m i => Function.update m (key i) (val i)) m (key i) = val i := by
  induction l generalizing m with
  | nil => cases hi
  | cons j l ih =>
    rw [List.map_cons, List.nodup_cons] at hl
    rw [List.foldl_cons]
    rcases List.mem_cons.mp hi with rfl | hi
    · -- the one write of this key comes first; the rest of the batch leaves it alone
      rw [foldl_update_of_not_mem key val hl.1, Function.update_self]
    · exact ih hl.2 hi _

/-- One value written under every key of a batch. -/
theorem foldl_update_const (key : ι → α) (v : β) (l : List ι) (m : α → β) (x : α) :
    l.foldl (fun m i => Function.update m (key i) v) m x = if x ∈ l.map key then v else m x := by
  induction l generalizing m with
  | nil => simp
  | cons i l ih =>
    rw [List.foldl_cons, ih, List.map_cons]
    by_cases hin : x ∈ l.map key
    · simp [hin]
    · by_cases hk : x = key i
      · subst hk
        simp
      · simp [hin, hk]

end UpdateFold
