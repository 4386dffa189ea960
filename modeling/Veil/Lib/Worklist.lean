import Mathlib.Data.List.Basic

/-!
# A worklist traversal

`visit next fuel stage visited` is the loop

    while (!stage.empty()) { x = *stage.begin(); visited.insert(x); stage.erase(x);
      for (y : next(x)) if (!visited.count(y)) stage.insert(y); }

over sets kept as lists without duplicates, with `fuel` iterations.  The order in which
`stage` is taken apart is the list's; the set it ends with does not depend on it.
-/

namespace Worklist

variable {α : Type*} [DecidableEq α] (next : α → List α)

/-- Stage the successors of `x` that are not yet visited. -/
def stageNext (visited : List α) (x : α) (stage : List α) : List α :=
  (next x).foldl (fun stage y => if y ∈ visited then stage else stage.insert y) stage

/-- The worklist loop with `fuel` iterations. -/
def visit : Nat → List α → List α → List α
  | 0, _, visited => visited
  | _ + 1, [], visited => visited
  | fuel + 1, x :: stage, visited =>
    visit fuel (stageNext next (visited.insert x) x stage) (visited.insert x)

end Worklist
