import Mathlib.Data.Nat.ModEq

/-!
# Pedersen commitments modulo `p` and their re-randomisation

`commit p g h s r` is `g ^ s * h ^ r mod p`.  When `h ^ q ≡ 1 (mod p)` (in particular
when `h` has order `q`), exponents of `h` count modulo `q`: multiplying a commitment by
`h ^ δ` gives the commitment to the same `s` with randomness `(r + δ) mod q`
(`commit_rerandomize`).  A loop that keeps the randomness reduced modulo `q` and the
commitment reduced modulo `p` thus keeps the two in step, whatever the `δ`s.
-/

namespace Commitment

/-- The Pedersen commitment `g ^ s * h ^ r mod p`. -/
def commit (p g h s r : Nat) : Nat := g ^ s * h ^ r % p

variable {p g h q : Nat}

/-- Both powers reduced first, as `pow_mod` and `mul_mod` compute them. -/
theorem powMod_mulMod (s r : Nat) : (g ^ s % p) * (h ^ r % p) % p = commit p g h s r := by
  rw [commit, Nat.mul_mod, Nat.mod_mod, Nat.mod_mod, ← Nat.mul_mod]

/-- Multiplying by `h ^ δ` adds `δ` to the exponent of `h`. -/
theorem commit_mulMod (s r δ : Nat) :
    commit p g h s r * (h ^ δ % p) % p = g ^ s * h ^ (r + δ) % p := by
  rw [commit, Nat.mul_mod, Nat.mod_mod, Nat.mod_mod, ← Nat.mul_mod, Nat.mul_assoc, ← Nat.pow_add]

/-- Exponents of an `h` with `h ^ q ≡ 1` count modulo `q`. -/
theorem pow_mod_eq_pow_mod_mod (hq : h ^ q % p = 1) (n : Nat) :
    h ^ n % p = h ^ (n % q) % p := by
  have hone : 1 % p = 1 := by rw [← hq, Nat.mod_mod]
  have hpow : h ^ q ≡ 1 [MOD p] := by
    rw [Nat.ModEq, hq, hone]
  have hsplit : h ^ n = h ^ (n % q) * (h ^ q) ^ (n / q) := by
    rw [← Nat.pow_mul, ← Nat.pow_add, Nat.mod_add_div]
  calc h ^ n % p = h ^ (n % q) * (h ^ q) ^ (n / q) % p := by rw [hsplit]
    _ = h ^ (n % q) * 1 ^ (n / q) % p := (Nat.ModEq.mul_left _ (hpow.pow (n / q)))
    _ = h ^ (n % q) % p := by rw [Nat.one_pow, Nat.mul_one]

/-- **Re-randomisation.** Multiplying a commitment by `h ^ δ` commits to the same `s`
under the randomness `(r + δ) mod q`. -/
theorem commit_rerandomize (hq : h ^ q % p = 1) (s r δ : Nat) :
    commit p g h s r * (h ^ δ % p) % p = commit p g h s ((r + δ) % q) := by
  rw [commit_mulMod, commit, Nat.mul_mod, pow_mod_eq_pow_mod_mod hq (r + δ), ← Nat.mul_mod]

end Commitment
