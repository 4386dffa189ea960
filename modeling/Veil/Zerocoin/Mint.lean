import Veil.Codec.Decoder
import Veil.Lib.Commitment

/-!
# Minting a zerocoin (`zwallet.cpp`, `libzerocoin/Coin.cpp`)

A zerocoin is a Pedersen commitment `C = g ^ s * h ^ r mod p` to its serial `s` under the
randomness `r`, and it is only minted when `C` is a prime in the accumulator's range.
Both mints look for such a `C` by re-randomising: `r` becomes `(r + δ) mod q` and `C`
becomes `C * h ^ δ mod p`, for a fresh `δ` each time.

* `CzWallet::SeedToZerocoin` derives the serial from a chain of hashes of the seed and
  the randomness from hashes of its upper half and an attempt counter, with no bound on
  either loop (`fuel` here).
* `PrivateCoin::mintCoinFast` draws the serial's key, `r` and the `δ`s at random (the
  function `rDelta` here) for at most `MAX_COINMINT_ATTEMPTS` attempts.

With `h ^ q ≡ 1 (mod p)`, which `h` of order `q = groupOrder` gives, every state of both
loops is a commitment to `s` under its `r` (`MintState.retry_opens`): the coins they
return are opened by the secrets they store (`seedToZerocoin_opens`,
`mintCoinFast_opens`).  Hashes, keys, the random draws and the primality test are
parameters.
-/

namespace Veil.Zerocoin

open Commitment Codec Decoder

/-- What the mints read of `ZerocoinParams`: the commitment group of `coinCommitmentGroup`
(its `modulus`, `groupOrder` and generators `g`, `h`) and the coin value range of
`accumulatorParams`. -/
structure ZerocoinParams where
  modulus : Nat
  groupOrder : Nat
  g : Nat
  h : Nat
  minCoinValue : Nat
  maxCoinValue : Nat

def MAX_COINMINT_ATTEMPTS : Nat := 10000
def ZEROCOIN_MINT_PRIME_PARAM : Nat := 20
def BN_prime_checks : Nat := 0
/-- `PrivateCoin::V2_BITSHIFT`. -/
def V2_BITSHIFT : Nat := 4

/-- The randomness and the commitment value that both mint loops carry. -/
structure MintState where
  randomness : Nat
  commitmentValue : Nat
  deriving DecidableEq, Repr

section Mint

variable (params : ZerocoinParams) (isPrime : Nat → Nat → Bool)

/-- `g.pow_mod(s, p).mul_mod(h.pow_mod(r, p), p)`. -/
def commitmentOf (s r : Nat) : Nat :=
  (params.g ^ s % params.modulus) * (params.h ^ r % params.modulus) % params.modulus

/-- One retry of either loop: `r = (r + δ) % q` and `C = C.mul_mod(h.pow_mod(δ, p), p)`. -/
def MintState.retry (st : MintState) (delta : Nat) : MintState where
  randomness := (st.randomness + delta) % params.groupOrder
  commitmentValue := st.commitmentValue * (params.h ^ delta % params.modulus) % params.modulus

/-- `CzWallet::IsValidCoinValue`; `isPrime checks n` is `CBigNum::isPrime(checks)`. -/
def isValidCoinValue (bnValue : Nat) : Bool :=
  decide (params.minCoinValue ≤ bnValue) && decide (bnValue ≤ params.maxCoinValue) &&
    isPrime BN_prime_checks bnValue

/-! ## `mintCoinFast` -/

/-- The loop `for (attempt = 0; attempt < MAX_COINMINT_ATTEMPTS; attempt++)` of
`mintCoinFast`, `rDelta attempt` being the `randBignum(q)` drawn when `attempt` fails;
`none` is the exception "too many attempts".  It returns the serial and the state. -/
def mintCoinFastLoop (rDelta : Nat → Nat) (s : Nat) (attempt : Nat) (st : MintState) :
    Option (Nat × MintState) :=
  if attempt < MAX_COINMINT_ATTEMPTS then
    if isPrime ZEROCOIN_MINT_PRIME_PARAM st.commitmentValue ∧
        params.minCoinValue ≤ st.commitmentValue ∧ st.commitmentValue ≤ params.maxCoinValue then
      some (s, st)
    else mintCoinFastLoop rDelta s (attempt + 1) (st.retry params (rDelta attempt))
  else none
termination_by MAX_COINMINT_ATTEMPTS - attempt

/-- `PrivateCoin::mintCoinFast` from the serial `s` of the key pair and the first
`randBignum(q)` `r`. -/
def mintCoinFast (s r : Nat) (rDelta : Nat → Nat) : Option (Nat × MintState) :=
  mintCoinFastLoop params isPrime rDelta s 0 ⟨r, commitmentOf params s r⟩

/-- The state at the start of iteration `k` of the loop of `mintCoinFast`. -/
def mintCoinFastState (s r : Nat) (rDelta : Nat → Nat) : Nat → MintState
  | 0 => ⟨r, commitmentOf params s r⟩
  | k + 1 => (mintCoinFastState s r rDelta k).retry params (rDelta k)

/-! ## `SeedToZerocoin` -/

/-- `GenerateKeyPair(bnGroupOrder, nPrivkey)`: the key and the serial, `none` where it
returns `false`.  `pubKeyOf` is `CKey::Set` followed by `GetPubKey`, `hash` is `Hash`, and a
zero `nPrivkey` takes the key `newKey` that `MakeNewKey` draws.  `bnGroupOrder` is not
read. -/
def generateKeyPair (pubKeyOf : Nat → List UInt8) (hash : List UInt8 → Nat) (newKey : Nat)
    (nPrivkey : Nat) : Option (Nat × Nat) :=
  let keyPair := if nPrivkey = 0 then newKey else nPrivkey
  -- make the first half byte 0, which marks v2 serials
  let hashPubKey := (hash (pubKeyOf keyPair) % 2 ^ 256) >>> V2_BITSHIFT
  -- must be less than 0x0D to be valid serial range
  let nBits := hashPubKey >>> 248
  if nBits > 12 then none
  else some (keyPair, hashPubKey ||| (0xF <<< 252))

section Seed

variable (pubKeyOf : Nat → List UInt8) (hash : List UInt8 → Nat) (newKey : Nat)

/-- The loop `while (!isValidKey)` of `SeedToZerocoin`, with `fuel` iterations.  A
`uint256` is hashed as its 32 little-endian bytes. -/
def seedToZerocoinKeyLoop : Nat → Nat → Option (Nat × Nat)
  | 0, _ => none
  | fuel + 1, nSeedPrivKey =>
    let nSeedPrivKey := hash (leBytes 32 nSeedPrivKey) % 2 ^ 256
    match generateKeyPair pubKeyOf hash newKey nSeedPrivKey with
    | some keySerial => some keySerial
    | none => seedToZerocoinKeyLoop fuel nSeedPrivKey

/-- The loop `while (true)` of `SeedToZerocoin` that re-randomises until the commitment
value is valid, with `fuel` iterations. -/
def seedToZerocoinLoop (randomnessSeed : Nat) : Nat → Nat → MintState → Option MintState
  | 0, _, _ => none
  | fuel + 1, attempts256, st =>
    if isValidCoinValue params isPrime st.commitmentValue then some st
    else
      let attempts256 := (attempts256 + 1) % 2 ^ 256
      let random := hash (leBytes 32 randomnessSeed ++ leBytes 32 attempts256) % 2 ^ 256
      seedToZerocoinLoop randomnessSeed fuel attempts256 (st.retry params random)

/-- `CzWallet::SeedToZerocoin`: `bnValue`, `bnSerial`, `bnRandomness` and the key, with
`fuel` iterations for each of its two loops. -/
def seedToZerocoin (seedZerocoin : Nat) (fuel : Nat) : Option (Nat × Nat × Nat × Nat) :=
  -- convert state seed into a seed for the private key
  let nSeedPrivKey := seedZerocoin % 2 ^ 256
  match seedToZerocoinKeyLoop pubKeyOf hash newKey fuel nSeedPrivKey with
  | none => none
  | some (key, bnSerial) =>
    let randomnessSeed := (seedZerocoin >>> 256) % 2 ^ 256
    let bnRandomness := hash (leBytes 32 randomnessSeed) % 2 ^ 256 % params.groupOrder
    let commitmentValue := commitmentOf params bnSerial bnRandomness
    (seedToZerocoinLoop params isPrime hash randomnessSeed fuel 0
      ⟨bnRandomness, commitmentValue⟩).map
      fun st => (st.commitmentValue, bnSerial, st.randomness, key)

end Seed

/-! ## The commitment invariant -/

/-- A state opens to the serial `s`: its commitment value is the commitment to `s` under
its randomness. -/
def Opens (s : Nat) (st : MintState) : Prop :=
  st.commitmentValue = commit params.modulus params.g params.h s st.randomness

theorem commitmentOf_eq (s r : Nat) :
    commitmentOf params s r = commit params.modulus params.g params.h s r :=
  powMod_mulMod s r

theorem opens_init (s r : Nat) : Opens params s ⟨r, commitmentOf params s r⟩ :=
  commitmentOf_eq params s r

/-- What both loops rest on: with `h ^ q ≡ 1 (mod p)`, a retry keeps the state open to
the same serial, and leaves the randomness below `q`. -/
theorem MintState.retry_opens (hq : params.h ^ params.groupOrder % params.modulus = 1)
    {s : Nat} {st : MintState} (h : Opens params s st) (delta : Nat) :
    Opens params s (st.retry params delta) := by
  unfold Opens at h ⊢
  rw [MintState.retry, h]
  exact commit_rerandomize hq s st.randomness delta

theorem MintState.retry_randomness_lt (hq : 0 < params.groupOrder) (st : MintState)
    (delta : Nat) : (st.retry params delta).randomness < params.groupOrder :=
  Nat.mod_lt _ hq

/-- Every iteration of `mintCoinFast`'s loop starts from a state that opens to `s`,
whatever the random `δ`s. -/
theorem mintCoinFastState_opens (hq : params.h ^ params.groupOrder % params.modulus = 1)
    (s r : Nat) (rDelta : Nat → Nat) :
    ∀ k, Opens params s (mintCoinFastState params s r rDelta k)
  | 0 => opens_init params s r
  | k + 1 => MintState.retry_opens params hq (mintCoinFastState_opens hq s r rDelta k) (rDelta k)

/-- The loop of `mintCoinFast` returns the state of the first iteration whose commitment
value passes the checks, with the serial it was given. -/
theorem mintCoinFastLoop_eq_some {rDelta : Nat → Nat} {s r : Nat} :
    ∀ (attempt : Nat) (st : MintState), st = mintCoinFastState params s r rDelta attempt →
      ∀ s' st', mintCoinFastLoop params isPrime rDelta s attempt st = some (s', st') →
        s' = s ∧ ∃ k, attempt ≤ k ∧ k < MAX_COINMINT_ATTEMPTS ∧
          st' = mintCoinFastState params s r rDelta k ∧
          isPrime ZEROCOIN_MINT_PRIME_PARAM st'.commitmentValue = true ∧
          params.minCoinValue ≤ st'.commitmentValue ∧ st'.commitmentValue ≤ params.maxCoinValue := by
  intro attempt st hst s' st' h
  fun_induction mintCoinFastLoop params isPrime rDelta s attempt st with
  | case1 attempt st hlt hvalid =>
    cases h
    exact ⟨rfl, attempt, le_rfl, hlt, hst, hvalid⟩
  | case2 attempt st hlt hvalid ih =>
    obtain ⟨hs, k, hk, hkmax, hk'⟩ := ih (by rw [hst]; rfl) h
    exact ⟨hs, k, by omega, hkmax, hk'⟩
  | case3 attempt st hge =>
    cases h

/-- `mintCoinFast` stores secrets that open the coin it mints: the serial it was given
and a randomness under which the minted value commits to it. -/
theorem mintCoinFast_opens (hq : params.h ^ params.groupOrder % params.modulus = 1)
    {s r : Nat} {rDelta : Nat → Nat} {s' : Nat} {st : MintState}
    (h : mintCoinFast params isPrime s r rDelta = some (s', st)) :
    s' = s ∧ Opens params s st ∧ isPrime ZEROCOIN_MINT_PRIME_PARAM st.commitmentValue = true := by
  obtain ⟨hs, k, -, -, rfl, hprime, -⟩ :=
    mintCoinFastLoop_eq_some params isPrime 0 _ rfl s' st h
  exact ⟨hs, mintCoinFastState_opens params hq s r rDelta k, hprime⟩

section Seed

variable (pubKeyOf : Nat → List UInt8) (hash : List UInt8 → Nat) (newKey : Nat)

/-- The re-randomising loop of `SeedToZerocoin` keeps its state open to the serial and
its randomness below `q`, and stops at a valid coin value. -/
theorem seedToZerocoinLoop_opens (hq : 0 < params.groupOrder ∧
      params.h ^ params.groupOrder % params.modulus = 1)
    {randomnessSeed s : Nat} :
    ∀ (fuel attempts256 : Nat) (st st' : MintState),
      Opens params s st → st.randomness < params.groupOrder →
      seedToZerocoinLoop params isPrime hash randomnessSeed fuel attempts256 st = some st' →
      Opens params s st' ∧ st'.randomness < params.groupOrder ∧
        isValidCoinValue params isPrime st'.commitmentValue = true
  | 0, _, _, _, _, _, h => by cases h
  | fuel + 1, attempts256, st, st', hopen, hlt, h => by
    rw [seedToZerocoinLoop] at h
    split_ifs at h with hvalid
    · cases h
      exact ⟨hopen, hlt, hvalid⟩
    · exact seedToZerocoinLoop_opens hq fuel _ _ st' (MintState.retry_opens params hq.2 hopen _)
        (MintState.retry_randomness_lt params hq.1 st _) h

/-- `SeedToZerocoin` only returns a coin value that its serial and randomness open, with
the randomness below `q`, and that `IsValidCoinValue` accepts. -/
theorem seedToZerocoin_opens (hq : 0 < params.groupOrder ∧
      params.h ^ params.groupOrder % params.modulus = 1)
    {seedZerocoin fuel bnValue bnSerial bnRandomness key : Nat}
    (h : seedToZerocoin params isPrime pubKeyOf hash newKey seedZerocoin fuel =
      some (bnValue, bnSerial, bnRandomness, key)) :
    bnValue = commit params.modulus params.g params.h bnSerial bnRandomness ∧
      bnRandomness < params.groupOrder ∧ isValidCoinValue params isPrime bnValue = true := by
  simp only [seedToZerocoin] at h
  split at h
  · cases h
  · obtain ⟨st, hloop, hst⟩ := Option.map_eq_some_iff.mp h
    cases hst
    exact seedToZerocoinLoop_opens params isPrime hash hq fuel 0 _ st (opens_init params _ _)
      (Nat.mod_lt _ hq.1) hloop

end Seed

/-- Both mints keep the commitment and its secrets in step: every coin `SeedToZerocoin`
returns is opened by its serial and a randomness below `q` and is a valid coin value,
every state of `mintCoinFast`'s loop opens to its serial whatever the random draws, and
the coin it returns is opened by what it stores.  All of it for parameters where `h` has
order `q` modulo `p`, of which only `h ^ q ≡ 1` and `q > 0` are used. -/
theorem mint_commitment_opens (hq : 0 < params.groupOrder ∧
      params.h ^ params.groupOrder % params.modulus = 1) :
    (∀ (pubKeyOf : Nat → List UInt8) (hash : List UInt8 → Nat)
        (newKey seedZerocoin fuel bnValue bnSerial bnRandomness key : Nat),
      seedToZerocoin params isPrime pubKeyOf hash newKey seedZerocoin fuel =
          some (bnValue, bnSerial, bnRandomness, key) →
        bnValue = commit params.modulus params.g params.h bnSerial bnRandomness ∧
          bnRandomness < params.groupOrder ∧ isValidCoinValue params isPrime bnValue = true) ∧
    (∀ (s r : Nat) (rDelta : Nat → Nat) (k : Nat),
      (mintCoinFastState params s r rDelta k).commitmentValue =
        commit params.modulus params.g params.h s (mintCoinFastState params s r rDelta k).randomness) ∧
    ∀ (s r : Nat) (rDelta : Nat → Nat) (s' : Nat) (st : MintState),
      mintCoinFast params isPrime s r rDelta = some (s', st) →
        s' = s ∧ st.commitmentValue = commit params.modulus params.g params.h s st.randomness :=
  ⟨fun pubKeyOf hash newKey _ _ _ _ _ _ h =>
      seedToZerocoin_opens params isPrime pubKeyOf hash newKey hq h,
    fun s r rDelta k => mintCoinFastState_opens params hq.2 s r rDelta k,
    fun _ _ _ _ _ h => ⟨(mintCoinFast_opens params isPrime hq.2 h).1,
      (mintCoinFast_opens params isPrime hq.2 h).2.1⟩⟩

end Mint

theorem mint_commitment_opens_small :
    (0 < 3 ∧ 2 ^ 3 % 7 = 1) ∧
      (mintCoinFastState ⟨7, 3, 3, 2, 0, 7⟩ 1 1 (fun _ => 2) 2).commitmentValue =
        commit 7 3 2 1 (mintCoinFastState ⟨7, 3, 3, 2, 0, 7⟩ 1 1 (fun _ => 2) 2).randomness :=
  ⟨⟨by decide, by decide⟩,
    (mint_commitment_opens ⟨7, 3, 3, 2, 0, 7⟩ (fun _ _ => true) ⟨by decide, by decide⟩).2.1
      1 1 (fun _ => 2) 2⟩

end Veil.Zerocoin
