import Veil.Coins.Compressor

/-!
# The UTXO entry and its database encoding (`coins.h`)

`Coin::Serialize` writes `VARINT(nHeight * 2 + fCoinBase)`, the output through
`CTxOutCompressor`, Veil's output type byte `nType` and, for a CT output, the 33 bytes
of its commitment.  `Coin::Unserialize` reads the fields back into the coin it is
called on, so a coin of another type keeps the commitment that coin had.

`unserializeCoin_serializeCoin`: every unspent coin of a value in `[0, MAX_MONEY]` and a
script of at most `MAX_SCRIPT_SIZE` bytes comes back, its commitment too when it is a
CT coin.  The height is a 31-bit field, so every height fits the code.
-/

namespace Veil

open Codec Decoder

/-- `Coin`: the unspent output, whether its transaction was a coinbase, the height of its
block (the bit-field `nHeight : 31`), and Veil's output type with the commitment of a CT
output. -/
structure Coin where
  out : CTxOut
  fCoinBase : Bool
  nHeight : Fin (2 ^ 31)
  nType : UInt8
  commitment : Blob 33

/-- `Coin::IsSpent`. -/
def Coin.isSpent (c : Coin) : Bool := c.out.isNull

section Codec

variable (isFullyValid : List UInt8 → Bool) (decompress : List UInt8 → Option (Blob 65))

/-- `Coin::Serialize`; `none` is `assert(!IsSpent())`.  The bit-field `nHeight` is promoted
to `int`, so `nHeight * 2` overflows from height `2 ^ 30` on; the model computes the
`uint32_t` that the two's complement result is converted to. -/
def serializeCoin (c : Coin) : Option (List UInt8) :=
  if c.isSpent then none
  else
    let code : UInt32 := c.nHeight.val.toUInt32 * 2 + (if c.fCoinBase then 1 else 0)
    some (writeVarInt code.toNat ++ serTxOutCompressor isFullyValid c.out ++ [c.nType] ++
      (if c.nType = OUTPUT_CT then serBlob c.commitment else []))

/-- `Coin::Unserialize` into the coin `c`.  `nHeight = code >> 1` keeps the 31 bits the
field holds and `fCoinBase = code & 1` the low one. -/
def unserializeCoin (c : Coin) : Decoder Coin := do
  let code ← readVarInt 32
  let out ← unserTxOutCompressor decompress c.out
  let nType ← byte
  let commitment ← (if nType = OUTPUT_CT then unserBlob 33 else pure c.commitment)
  pure { out, fCoinBase := code &&& 1 != 0, nHeight := Fin.ofNat _ (code >>> 1),
         nType, commitment }

/-- The code of a coin: twice the height plus the coinbase bit, with no overflow. -/
theorem toNat_code (c : Coin) :
    (c.nHeight.val.toUInt32 * 2 + (if c.fCoinBase then 1 else 0) : UInt32).toNat =
      2 * c.nHeight.val + (if c.fCoinBase then 1 else 0) := by
  have hh := c.nHeight.isLt
  cases c.fCoinBase <;>
    simp only [Bool.false_eq_true, ↓reduceIte, UInt32.toNat_add, UInt32.toNat_mul,
      Nat.toUInt32_eq, UInt32.toNat_ofNat', UInt32.reduceToNat, Nat.reducePow] <;>
    omega

/-- The height and the coinbase bit come back out of the code. -/
theorem code_fields (c : Coin) :
    Fin.ofNat (2 ^ 31) ((2 * c.nHeight.val + (if c.fCoinBase then 1 else 0)) >>> 1) = c.nHeight ∧
      ((2 * c.nHeight.val + (if c.fCoinBase then 1 else 0)) &&& 1 != 0) = c.fCoinBase := by
  have hh := c.nHeight.isLt
  constructor
  · apply Fin.ext
    rw [Fin.val_ofNat, Nat.shiftRight_eq_div_pow]
    cases c.fCoinBase
    · simp only [Bool.false_eq_true, ↓reduceIte, Nat.add_zero]
      omega
    · simp only [↓reduceIte]
      omega
  · rw [Nat.and_one_is_mod]
    cases c.fCoinBase <;> simp

/-- `Coin::Unserialize` reads back every unspent coin of a value in `[0, MAX_MONEY]` and a
script of at most `MAX_SCRIPT_SIZE` bytes; a coin that is not CT keeps the commitment of
the coin it is read into. -/
theorem unserializeCoin_serializeCoin (hdec : DecompressesValidKeys isFullyValid decompress)
    {c : Coin} (h0 : 0 ≤ c.out.nValue) (hmax : c.out.nValue ≤ MAX_MONEY)
    (hlen : c.out.scriptPubKey.length ≤ MAX_SCRIPT_SIZE) (prior : Coin) (rest : List UInt8) :
    ∃ bytes, serializeCoin isFullyValid c = some bytes ∧
      unserializeCoin decompress prior (bytes ++ rest) =
        some ({ c with commitment := if c.nType = OUTPUT_CT then c.commitment
          else prior.commitment }, rest) := by
  have hunspent : c.isSpent = false := by
    have : c.out.nValue ≠ -1 := fun h => by rw [h] at h0; exact absurd h0 (by decide)
    simpa [Coin.isSpent, CTxOut.isNull] using this
  -- the fields after the code
  have hcommit : ∀ rest', (if c.nType = OUTPUT_CT then unserBlob 33 else pure prior.commitment)
      ((if c.nType = OUTPUT_CT then serBlob c.commitment else []) ++ rest') =
        some (if c.nType = OUTPUT_CT then c.commitment else prior.commitment, rest') := by
    intro rest'
    split_ifs
    · exact unserBlob_reads 33 c.commitment trivial rest'
    · rfl
  have hcode := toNat_code c
  obtain ⟨hheight, hcoinbase⟩ := code_fields c
  refine ⟨_, by rw [serializeCoin, hunspent]; rfl, ?_⟩
  simp only [List.append_assoc]
  rw [unserializeCoin, bind_of_some (readVarInt_reads 32 _ (UInt32.toNat_lt _) _),
    bind_of_some (unserTxOutCompressor_serTxOutCompressor isFullyValid decompress hdec h0 hmax
      hlen prior.out _),
    List.singleton_append, bind_of_some (byte_cons c.nType _),
    bind_of_some (hcommit rest), pure_apply, hcode, hheight, hcoinbase]

/-- The coins database encoding round trips: the amount compressor on `[0, MAX_MONEY]`
(so `CompressAmount` is injective there), `DecompressScript` on every compressed script,
and `Coin::Unserialize` on every unspent coin with such an amount and a script of at most
`MAX_SCRIPT_SIZE` bytes. -/
theorem coin_db_encoding_round_trips (hdec : DecompressesValidKeys isFullyValid decompress) :
    (∀ nValue : CAmount, 0 ≤ nValue → nValue ≤ MAX_MONEY →
      (decompressAmount (compressAmount nValue.toUInt64)).toInt64 = nValue) ∧
    Set.InjOn (fun nValue : CAmount => compressAmount nValue.toUInt64)
      {nValue | 0 ≤ nValue ∧ nValue ≤ MAX_MONEY} ∧
    (∀ script compr, compressScript isFullyValid script = some compr →
      ∃ tag payload, compr = tag :: payload ∧
        decompressScript decompress tag.toNat payload = some script) ∧
    ∀ (c prior : Coin) (rest : List UInt8), 0 ≤ c.out.nValue → c.out.nValue ≤ MAX_MONEY →
      c.out.scriptPubKey.length ≤ MAX_SCRIPT_SIZE →
      ∃ bytes, serializeCoin isFullyValid c = some bytes ∧
        unserializeCoin decompress prior (bytes ++ rest) =
          some ({ c with commitment := if c.nType = OUTPUT_CT then c.commitment
            else prior.commitment }, rest) := by
  refine ⟨fun _ h0 hmax => decompressAmount_compressAmount_toInt64 h0 hmax, ?_, ?_,
    fun c prior rest h0 hmax hlen =>
      unserializeCoin_serializeCoin isFullyValid decompress hdec h0 hmax hlen prior rest⟩
  · -- `DecompressAmount` is a left inverse on the range
    intro a ha b hb hab
    rw [← decompressAmount_compressAmount_toInt64 ha.1 ha.2,
      ← decompressAmount_compressAmount_toInt64 hb.1 hb.2]
    exact congrArg (fun x => (decompressAmount x).toInt64) hab
  · intro script compr h
    obtain ⟨tag, payload, hc, -, -, hd⟩ :=
      decompressScript_compressScript isFullyValid decompress hdec h
    exact ⟨tag, payload, hc, hd⟩

end Codec

/-- An uncompressed public key: `0x04`, then `x`, then an odd `y`. -/
def uncompressedKey : Blob 65 :=
  ⟨0x04 :: (List.replicate 32 1 ++ List.replicate 32 3), by simp⟩

/-- `IsFullyValid` accepting `uncompressedKey` only, and `Decompress` taking its compressed form
back to it. -/
def acceptsKey (pubkey : List UInt8) : Bool := pubkey == uncompressedKey.toList

def decompressKey (compressed : List UInt8) : Option (Blob 65) :=
  if compressed = (0x02 + (uncompressedKey.toList.getD 64 0 &&& 0x01)) ::
      (uncompressedKey.toList.drop 1).take 32 then some uncompressedKey else none

theorem decompressesValidKeys_acceptsKey : DecompressesValidKeys acceptsKey decompressKey := by
  intro pubkey _ hvalid
  have hkey : pubkey = uncompressedKey := List.Vector.eq _ _ (by simpa [acceptsKey] using hvalid)
  subst hkey
  exact if_pos rfl

/-- A coin paying the uncompressed key to P2PK: `CScriptCompressor` writes it as the tag `0x05`
(the parity of `y` plus four) and `x`, and `Coin::Unserialize` reads it back, key and amount. -/
theorem coin_db_encoding_round_trips_coin :
    DecompressesValidKeys acceptsKey decompressKey ∧
      (decompressAmount (compressAmount COIN.toUInt64)).toInt64 = COIN ∧
      compressScript acceptsKey ([65] ++ uncompressedKey.toList ++ [OP_CHECKSIG]) =
        some (0x05 :: List.replicate 32 1) ∧
      (serializeCoin acceptsKey
          ⟨⟨COIN, [65] ++ uncompressedKey.toList ++ [OP_CHECKSIG]⟩, false, 7, OUTPUT_STANDARD,
            List.Vector.replicate 33 0⟩).bind (unserializeCoin decompressKey
          ⟨⟨-1, []⟩, false, 0, OUTPUT_STANDARD, List.Vector.replicate 33 0⟩) =
        some (⟨⟨COIN, [65] ++ uncompressedKey.toList ++ [OP_CHECKSIG]⟩, false, 7, OUTPUT_STANDARD,
          List.Vector.replicate 33 0⟩, []) := by
  have hround := coin_db_encoding_round_trips _ _ decompressesValidKeys_acceptsKey
  refine ⟨decompressesValidKeys_acceptsKey, hround.1 COIN (by decide) (by decide), by decide, ?_⟩
  -- the bytes written are read back, with nothing after them
  obtain ⟨bytes, hser, hunser⟩ := hround.2.2.2
    ⟨⟨COIN, [65] ++ uncompressedKey.toList ++ [OP_CHECKSIG]⟩, false, 7, OUTPUT_STANDARD,
      List.Vector.replicate 33 0⟩ ⟨⟨-1, []⟩, false, 0, OUTPUT_STANDARD, List.Vector.replicate 33 0⟩ []
      (by decide) (by decide) (by decide)
  rw [List.append_nil] at hunser
  rw [hser, Option.bind_some]
  exact hunser

end Veil
