import Mathlib.Data.List.Sigma
/-!
# Batches of entries under distinct keys

A batch is a list of keyed entries whose keys are distinct (`List.NodupKeys`), applied to a
state one entry after the other by a step that may fail (`Except`). The state is read key by key
through `r`. When each step, where its precondition `Q` holds at its key, succeeds, keeps an
invariant `P`, leaves the other keys as they read, and leaves at its own key what `g` says of the
entry alone, then the batch succeeds, keeps `P`, and reads at each key what the entry of that key
left there, and elsewhere what it read before (`foldlM_keyed`). A step that cannot fail is the
special case `foldl_keyed`.

The preconditions are read in the state the batch starts from: the earlier entries have other
keys, so they do not change what a later precondition reads.
-/

namespace KeyedBatch

variable {κ : Type*} {β : κ → Type*} [DecidableEq κ] {M ρ ε : Type*}

section

variable (r : M → κ → ρ) {P : M → Prop} {Q : Sigma β → ρ → Prop} {g : Sigma β → ρ}

theorem foldlM_keyed (f : M → Sigma β → Except ε M)
    (hstep : ∀ m x, P m → Q x (r m x.1) →
      ∃ m', f m x = .ok m' ∧ P m' ∧ (∀ k ≠ x.1, r m' k = r m k) ∧ r m' x.1 = g x) :
    ∀ {l : List (Sigma β)} {m : M}, l.NodupKeys → P m → (∀ x ∈ l, Q x (r m x.1)) →
      ∃ m', l.foldlM f m = .ok m' ∧ P m' ∧
        ∀ k, r m' k = match l.dlookup k with
          | some b => g ⟨k, b⟩
          | none => r m k
  | [], m, _, hm, _ => ⟨m, rfl, hm, fun _ => rfl⟩
  | ⟨a, b⟩ :: l, m, hl, hm, hQ => by
    rw [List.nodupKeys_cons] at hl
    obtain ⟨m₁, h₁, hm₁, hother, hself⟩ := hstep m ⟨a, b⟩ hm (hQ _ List.mem_cons_self)
    -- the later entries have other keys, so their preconditions read in `m₁` as in `m`
    have hQ₁ : ∀ x ∈ l, Q x (r m₁ x.1) := by
      intro x hx
      have hne : x.1 ≠ a := by
        intro he
        have hkey := List.mem_keys_of_mem hx
        rw [he] at hkey
        exact hl.1 hkey
      rw [hother x.1 hne]
      exact hQ x (List.mem_cons_of_mem _ hx)
    obtain ⟨m', h', hm', hr'⟩ := foldlM_keyed f hstep hl.2 hm₁ hQ₁
    refine ⟨m', by rw [List.foldlM_cons, h₁]; exact h', hm', fun k => ?_⟩
    rw [hr' k]
    by_cases hk : k = a
    · subst hk
      rw [List.dlookup_cons_eq, List.dlookup_eq_none.mpr hl.1]
      exact hself
    · rw [List.dlookup_cons_ne l ⟨a, b⟩ hk]
      split
      · rfl
      · exact hother k hk

omit [DecidableEq κ] in
theorem foldlM_ok (f : M → Sigma β → M) :
    ∀ (l : List (Sigma β)) (m : M),
      l.foldlM (fun m x => (Except.ok (f m x) : Except ε M)) m = .ok (l.foldl f m)
  | [], _ => rfl
  | x :: l, m => foldlM_ok f l (f m x)

/-- The batch of a step that cannot fail. -/
theorem foldl_keyed (f : M → Sigma β → M)
    (hstep : ∀ m x, P m → Q x (r m x.1) →
      P (f m x) ∧ (∀ k ≠ x.1, r (f m x) k = r m k) ∧ r (f m x) x.1 = g x)
    {l : List (Sigma β)} {m : M} (hl : l.NodupKeys) (hm : P m) (hQ : ∀ x ∈ l, Q x (r m x.1)) :
    P (l.foldl f m) ∧
      ∀ k, r (l.foldl f m) k = match l.dlookup k with
        | some b => g ⟨k, b⟩
        | none => r m k := by
  obtain ⟨m', h', hm', hr'⟩ := foldlM_keyed (ε := Unit) r (fun m x => .ok (f m x))
    (fun m x hm hq => ⟨f m x, rfl, hstep m x hm hq⟩) hl hm hQ
  rw [foldlM_ok, Except.ok.injEq] at h'
  subst h'
  exact ⟨hm', hr'⟩

end

end KeyedBatch
