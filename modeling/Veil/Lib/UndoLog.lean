import Mathlib.Logic.Function.Basic
import Mathlib.Data.List.Basic
/-!
# Writes to a map and their undo log

A run of point writes `k := v` on a map `f : α → β`, and beside it its undo log: for each write,
the key and the value the write replaced, the last write first. Putting the logged values back in
log order restores the map, whatever keys repeat (`apply_undoLog`). The log of two runs one after
the other is the log of the second, then the log of the first (`undoLog_append`); where the keys of
a run are distinct, each logged value is the one the map held at the start (`undoLog_of_nodup`).
-/

namespace UndoLog

variable {α β : Type*} [DecidableEq α]

/-- The map after the writes `ws`, in order. -/
def apply (f : α → β) (ws : List (α × β)) : α → β :=
  ws.foldl (fun f w => Function.update f w.1 w.2) f

/-- The undo log of the writes `ws` on `f`: each key with the value it held just before its
write, the last write first. -/
def undoLog : (α → β) → List (α × β) → List (α × β)
  | _, [] => []
  | f, w :: ws => undoLog (Function.update f w.1 w.2) ws ++ [(w.1, f w.1)]

@[simp] theorem apply_nil (f : α → β) : apply f [] = f := rfl

@[simp] theorem apply_cons (f : α → β) (w : α × β) (ws : List (α × β)) :
    apply f (w :: ws) = apply (Function.update f w.1 w.2) ws := rfl

@[simp] theorem apply_append (f : α → β) (ws₁ ws₂ : List (α × β)) :
    apply f (ws₁ ++ ws₂) = apply (apply f ws₁) ws₂ :=
  List.foldl_append

/-- A key no write touches keeps its value. -/
theorem apply_of_not_mem {f : α → β} {k : α} :
    ∀ {ws : List (α × β)}, k ∉ ws.map Prod.fst → apply f ws k = f k
  | [], _ => rfl
  | w :: ws, hk => by
    rw [List.map_cons, List.mem_cons, not_or] at hk
    rw [apply_cons, apply_of_not_mem hk.2, Function.update_of_ne hk.1]

/-- A key that every write to gives the value it already had keeps it. -/
theorem apply_of_forall_key {f : α → β} {k : α} {v : β} (hk : f k = v) :
    ∀ {ws : List (α × β)}, (∀ w ∈ ws, w.1 = k → w.2 = v) → apply f ws k = v
  | [], _ => hk
  | w :: ws, hws => by
    rw [apply_cons]
    refine apply_of_forall_key ?_ (fun w' hw' => hws w' (List.mem_cons_of_mem _ hw'))
    by_cases hwk : w.1 = k
    · rw [← hwk, Function.update_self, hws w List.mem_cons_self hwk]
    · rw [Function.update_of_ne (Ne.symm hwk), hk]

/-- A key written once holds the value it was last given. -/
theorem apply_of_mem {f : α → β} {k : α} {v : β} :
    ∀ {ws : List (α × β)}, (ws.map Prod.fst).Nodup → (k, v) ∈ ws → apply f ws k = v
  | w :: ws, hnd, hmem => by
    rw [List.map_cons, List.nodup_cons] at hnd
    rw [apply_cons]
    rcases List.mem_cons.mp hmem with rfl | hmem
    · rw [apply_of_not_mem hnd.1, Function.update_self]
    · exact apply_of_mem hnd.2 hmem

/-- A property of the values that the map has everywhere and every write keeps, the map has
everywhere after the writes. -/
theorem apply_of_forall {P : β → Prop} {f : α → β} (hf : ∀ k, P (f k)) :
    ∀ {ws : List (α × β)}, (∀ w ∈ ws, P w.2) → ∀ k, P (apply f ws k)
  | [], _ => hf
  | w :: ws, hws => by
    rw [apply_cons]
    refine apply_of_forall (fun k => ?_) (fun w' hw' => hws w' (List.mem_cons_of_mem _ hw'))
    by_cases hk : k = w.1
    · rw [hk, Function.update_self]
      exact hws w List.mem_cons_self
    · rw [Function.update_of_ne hk]
      exact hf k

/-- **Undo.** Putting back the logged values restores the map. -/
theorem apply_undoLog : ∀ (f : α → β) (ws : List (α × β)), apply (apply f ws) (undoLog f ws) = f
  | _, [] => rfl
  | f, w :: ws => by
    rw [undoLog, apply_append, apply_cons f w ws, apply_undoLog, apply_cons, apply_nil,
      Function.update_idem, Function.update_eq_self]

theorem undoLog_append :
    ∀ (f : α → β) (ws₁ ws₂ : List (α × β)),
      undoLog f (ws₁ ++ ws₂) = undoLog (apply f ws₁) ws₂ ++ undoLog f ws₁
  | _, [], _ => by simp [undoLog]
  | f, w :: ws₁, ws₂ => by
    rw [List.cons_append, undoLog, undoLog_append, undoLog, List.append_assoc, apply_cons]

/-- Over distinct keys the log holds the values of the map the run starts from. -/
theorem undoLog_of_nodup :
    ∀ (f : α → β) {ws : List (α × β)}, (ws.map Prod.fst).Nodup →
      undoLog f ws = (ws.map fun w => (w.1, f w.1)).reverse
  | _, [], _ => rfl
  | f, w :: ws, hnd => by
    rw [List.map_cons, List.nodup_cons] at hnd
    -- the later writes have other keys, so the update of `w` does not show in their log
    have hrest : ws.map (fun w' => (w'.1, Function.update f w.1 w.2 w'.1)) =
        ws.map fun w' => (w'.1, f w'.1) := by
      refine List.map_congr_left fun w' hw' => ?_
      have hne : w'.1 ≠ w.1 := fun he => hnd.1 (he ▸ List.mem_map_of_mem hw')
      rw [Function.update_of_ne hne]
    rw [undoLog, undoLog_of_nodup _ hnd.2, hrest, List.map_cons, List.reverse_cons]

end UndoLog
