import Mathlib

/-!
# Byte decoders and the encoders they invert

A `Decoder α` reads a value off the front of a byte string and hands back the
bytes after it, or fails.  Two properties tie a decoder to an encoder
`enc : α → List UInt8`:

* `Reads enc dec P`: on every value satisfying `P` the decoder reads the encoding
  back, whatever bytes follow it;
* `Exact enc dec`: whatever the decoder accepts is the encoding of what it
  returns, so no two byte strings decode to the same value.

Both compose through `bind`, through `count` (a fixed number of items) and
through little-endian numbers (`leBytes`, `leNat`); a serialization format built
from these pieces is proved one field at a time.
-/

namespace Codec

/-- A decoder: the value at the front of the bytes and what is left, or `none`. -/
abbrev Decoder (α : Type) : Type := List UInt8 → Option (α × List UInt8)

namespace Decoder

variable {α β : Type}

protected def pure (a : α) : Decoder α := fun bs => some (a, bs)

protected def bind (d : Decoder α) (f : α → Decoder β) : Decoder β := fun bs =>
  match d bs with
  | some (a, rest) => f a rest
  | none => none

instance : Monad Decoder where
  pure := Decoder.pure
  bind := Decoder.bind

/-- The decoder that refuses every input (a thrown `std::ios_base::failure`). -/
def fail : Decoder α := fun _ => none

/-- One byte. -/
def byte : Decoder UInt8
  | [] => none
  | b :: bs => some (b, bs)

/-- Exactly `n` raw bytes. -/
def take (n : Nat) : Decoder (List UInt8) := fun bs =>
  if n ≤ bs.length then some (bs.take n, bs.drop n) else none

/-- `n` items, one after the other. -/
def count (d : Decoder α) : Nat → Decoder (List α)
  | 0 => pure []
  | n + 1 => do
    let a ← d
    let as ← count d n
    pure (a :: as)

@[simp] theorem pure_apply (a : α) (bs : List UInt8) :
    (pure a : Decoder α) bs = some (a, bs) := rfl

@[simp] theorem fail_apply (bs : List UInt8) : (fail : Decoder α) bs = none := rfl

theorem bind_apply (d : Decoder α) (f : α → Decoder β) (bs : List UInt8) :
    (d >>= f) bs = match d bs with
      | some (a, rest) => f a rest
      | none => none := rfl

theorem bind_of_some {d : Decoder α} {f : α → Decoder β} {bs rest : List UInt8} {a : α}
    (h : d bs = some (a, rest)) : (d >>= f) bs = f a rest := by
  rw [bind_apply, h]

/-- Inversion of `bind`: a successful run is a successful first part and a
successful rest. -/
theorem bind_eq_some {d : Decoder α} {f : α → Decoder β} {bs r : List UInt8} {b : β} :
    (d >>= f) bs = some (b, r) ↔ ∃ a rest, d bs = some (a, rest) ∧ f a rest = some (b, r) := by
  rw [bind_apply]
  constructor
  · intro h
    split at h
    · rename_i a rest hd
      exact ⟨a, rest, hd, h⟩
    · cases h
  · rintro ⟨a, rest, hd, hf⟩
    rw [hd]
    exact hf

@[simp] theorem byte_cons (b : UInt8) (bs : List UInt8) : byte (b :: bs) = some (b, bs) := rfl

@[simp] theorem byte_nil : byte [] = none := rfl

theorem byte_eq_some {bs r : List UInt8} {b : UInt8} :
    byte bs = some (b, r) ↔ bs = b :: r := by
  cases bs with
  | nil => simp
  | cons c cs => simp [eq_comm]

theorem take_append (l rest : List UInt8) : take l.length (l ++ rest) = some (l, rest) := by
  simp [take]

theorem take_eq_some {n : Nat} {bs l r : List UInt8} :
    take n bs = some (l, r) → bs = l ++ r ∧ l.length = n := by
  unfold take
  split
  · rename_i hn
    simp only [Option.some.injEq, Prod.mk.injEq, and_imp]
    rintro rfl rfl
    exact ⟨(List.take_append_drop n bs).symm, List.length_take_of_le hn⟩
  · simp

@[simp] theorem count_zero (d : Decoder α) : count d 0 = pure [] := rfl

theorem count_succ (d : Decoder α) (n : Nat) :
    count d (n + 1) = (do let a ← d; let as ← count d n; pure (a :: as)) := rfl

/-! ## Decoders that read back their encoders -/

/-- `dec` reads `enc a` back off the front of any byte string as `view a`, for
every `a` with `P a` (the view forgets what the encoding leaves out). -/
def ReadsAs {β : Type} (enc : α → List UInt8) (dec : Decoder β) (P : α → Prop) (view : α → β) :
    Prop :=
  ∀ a, P a → ∀ rest, dec (enc a ++ rest) = some (view a, rest)

/-- `dec` reads `enc a` back off the front of any byte string, for every `a`
with `P a`. -/
def Reads (enc : α → List UInt8) (dec : Decoder α) (P : α → Prop) : Prop :=
  ∀ a, P a → ∀ rest, dec (enc a ++ rest) = some (a, rest)

theorem Reads.readsAs {enc : α → List UInt8} {dec : Decoder α} {P : α → Prop}
    (h : Reads enc dec P) : ReadsAs enc dec P id :=
  h

/-- Everything `dec` accepts is the encoding of what it returns. -/
def Exact (enc : α → List UInt8) (dec : Decoder α) : Prop :=
  ∀ bs a rest, dec bs = some (a, rest) → bs = enc a ++ rest

/-- `count` reads back a list of the right length, item by item. -/
theorem count_reads {enc : α → List UInt8} {dec : Decoder β} {P : α → Prop} {view : α → β}
    (h : ReadsAs enc dec P view) (n : Nat) :
    ReadsAs (fun as => as.flatMap enc) (count dec n) (fun as => as.length = n ∧ ∀ a ∈ as, P a)
      (List.map view) := by
  induction n with
  | zero =>
    rintro as ⟨hlen, -⟩ rest
    rw [List.length_eq_zero_iff.mp hlen]
    rfl
  | succ n ih =>
    rintro as ⟨hlen, hP⟩ rest
    obtain ⟨a, as, rfl⟩ := List.exists_cons_of_length_eq_add_one hlen
    have ha := h a (hP a List.mem_cons_self) (as.flatMap enc ++ rest)
    have has := ih as ⟨by simpa using hlen, fun x hx => hP x (List.mem_cons_of_mem a hx)⟩ rest
    dsimp only at has ⊢
    rw [count_succ, List.flatMap_cons, List.append_assoc, bind_of_some ha, bind_of_some has]
    rfl

theorem count_reads_id {enc : α → List UInt8} {dec : Decoder α} {P : α → Prop}
    (h : Reads enc dec P) (n : Nat) :
    Reads (fun as => as.flatMap enc) (count dec n) (fun as => as.length = n ∧ ∀ a ∈ as, P a) := by
  intro as hP rest
  have := count_reads h.readsAs n as hP rest
  rwa [List.map_id] at this

theorem count_exact {enc : α → List UInt8} {dec : Decoder α} (h : Exact enc dec) (n : Nat) :
    Exact (fun as => as.flatMap enc) (count dec n) := by
  induction n with
  | zero =>
    intro bs as rest hd
    simp only [count_zero, pure_apply, Option.some.injEq, Prod.mk.injEq] at hd
    obtain ⟨rfl, rfl⟩ := hd
    rfl
  | succ n ih =>
    intro bs as rest hd
    rw [count_succ] at hd
    obtain ⟨a, r1, ha, hd⟩ := bind_eq_some.mp hd
    obtain ⟨as', r2, has, hd⟩ := bind_eq_some.mp hd
    simp only [pure_apply, Option.some.injEq, Prod.mk.injEq] at hd
    obtain ⟨rfl, rfl⟩ := hd
    rw [h bs a r1 ha, ih r1 as' r2 has]
    simp

theorem count_length {dec : Decoder α} {n : Nat} {bs r : List UInt8} {as : List α}
    (h : count dec n bs = some (as, r)) : as.length = n := by
  induction n generalizing bs as r with
  | zero =>
    simp only [count_zero, pure_apply, Option.some.injEq, Prod.mk.injEq] at h
    rw [← h.1]
    rfl
  | succ n ih =>
    rw [count_succ] at h
    obtain ⟨a, r1, -, h⟩ := bind_eq_some.mp h
    obtain ⟨as', r2, has, h⟩ := bind_eq_some.mp h
    simp only [pure_apply, Option.some.injEq, Prod.mk.injEq] at h
    rw [← h.1, List.length_cons, ih has]

/-- A property of every value one decoder returns holds of every item `count`
returns. -/
theorem count_forall {dec : Decoder α} {P : α → Prop}
    (h : ∀ bs a r, dec bs = some (a, r) → P a) {n : Nat} {bs r : List UInt8} {as : List α}
    (hc : count dec n bs = some (as, r)) : ∀ a ∈ as, P a := by
  induction n generalizing bs as r with
  | zero =>
    simp only [count_zero, pure_apply, Option.some.injEq, Prod.mk.injEq] at hc
    rw [← hc.1]
    simp
  | succ n ih =>
    rw [count_succ] at hc
    obtain ⟨a, r1, ha, hc⟩ := bind_eq_some.mp hc
    obtain ⟨as', r2, has, hc⟩ := bind_eq_some.mp hc
    simp only [pure_apply, Option.some.injEq, Prod.mk.injEq] at hc
    rw [← hc.1]
    intro x hx
    rcases List.mem_cons.mp hx with rfl | hx
    · exact h bs x r1 ha
    · exact ih has x hx

/-! ## Little-endian numbers -/

/-- The `w` low base-256 digits of `x`, least significant first. -/
def leBytes : Nat → Nat → List UInt8
  | 0, _ => []
  | w + 1, x => UInt8.ofNat (x % 256) :: leBytes w (x / 256)

/-- A `w`-byte little-endian number. -/
def leNat : Nat → Decoder Nat
  | 0 => pure 0
  | w + 1 => do
    let b ← byte
    let x ← leNat w
    pure (b.toNat + 256 * x)

@[simp] theorem length_leBytes (w x : Nat) : (leBytes w x).length = w := by
  induction w generalizing x with
  | zero => rfl
  | succ w ih => simp [leBytes, ih]

theorem leNat_reads (w : Nat) : Reads (leBytes w) (leNat w) (· < 256 ^ w) := by
  induction w with
  | zero =>
    intro x hx rest
    have : x = 0 := by simpa using hx
    subst this
    rfl
  | succ w ih =>
    intro x hx rest
    have hq : x / 256 < 256 ^ w := by
      rw [Nat.div_lt_iff_lt_mul (by decide)]
      simpa [pow_succ] using hx
    have hb : (UInt8.ofNat (x % 256)).toNat = x % 256 := by
      simp [Nat.mod_eq_of_lt (Nat.mod_lt x (by decide : 256 > 0))]
    simp only [leBytes, leNat, List.cons_append]
    rw [bind_of_some (byte_cons _ _), bind_of_some (ih _ hq rest), pure_apply, hb,
      Nat.mod_add_div]

theorem leNat_lt {w : Nat} {bs r : List UInt8} {x : Nat} (h : leNat w bs = some (x, r)) :
    x < 256 ^ w := by
  induction w generalizing bs x r with
  | zero =>
    simp only [leNat, pure_apply, Option.some.injEq, Prod.mk.injEq] at h
    rw [← h.1]
    decide
  | succ w ih =>
    simp only [leNat] at h
    obtain ⟨b, r1, -, h⟩ := bind_eq_some.mp h
    obtain ⟨y, r2, hy, h⟩ := bind_eq_some.mp h
    simp only [pure_apply, Option.some.injEq, Prod.mk.injEq] at h
    have := ih hy
    have := b.toNat_lt
    rw [← h.1, pow_succ]
    omega

theorem leNat_exact (w : Nat) : Exact (leBytes w) (leNat w) := by
  induction w with
  | zero =>
    intro bs x rest h
    simp only [leNat, pure_apply, Option.some.injEq, Prod.mk.injEq] at h
    obtain ⟨rfl, rfl⟩ := h
    rfl
  | succ w ih =>
    intro bs x rest h
    simp only [leNat] at h
    obtain ⟨b, r1, hb, h⟩ := bind_eq_some.mp h
    obtain ⟨y, r2, hy, h⟩ := bind_eq_some.mp h
    simp only [pure_apply, Option.some.injEq, Prod.mk.injEq] at h
    obtain ⟨rfl, rfl⟩ := h
    have hlt := b.toNat_lt
    -- the low digit of `b + 256 * y` is `b` and the rest is `y`
    have hmod : (b.toNat + 256 * y) % 256 = b.toNat := by omega
    have hdiv : (b.toNat + 256 * y) / 256 = y := by omega
    rw [byte_eq_some.mp hb, ih r1 y r2 hy]
    simp [leBytes, hmod, hdiv]

end Decoder

end Codec
