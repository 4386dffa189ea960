import Mathlib

/-!
# Raw stealth addresses (`veil/ringct/stealth.cpp`)

`CStealthAddress::ToRaw` writes
`[options] [scan_pubkey] [N] [spend_pubkey × N] [number_signatures] [number_bits] [prefix]`,
the prefix being the first `⌈number_bits / 8⌉` bytes of the little-endian `bitfield`;
`FromRaw` reads the same fields back from a pointer and a size it is told.  Its size
checks are lower bounds computed in `size_t`, so `N - 1` wraps for `N = 0`.

`FromRaw` reads through a raw pointer: a byte past the buffer it is given is undefined
in C++ and reads as `0` here (`readByte`).
-/

namespace Veil

/-- `EC_COMPRESSED_SIZE`. -/
def EC_COMPRESSED_SIZE : Nat := 33

/-- `MIN_STEALTH_RAW_SIZE`: "without checksum (4bytes) or version (1byte)". -/
def MIN_STEALTH_RAW_SIZE : Nat := 1 + 33 + 1 + 33 + 1 + 1

/-- A `size_t` computation: the value modulo `2^64`. -/
def sizeT (x : Int) : Nat := (x % 2 ^ 64).toNat

/-- The byte at offset `i` of the buffer. -/
def readByte (p : List UInt8) (i : Nat) : UInt8 := p.getD i 0

/-- `memcpy` of `n` bytes from offset `off`. -/
def readBytes (p : List UInt8) (off n : Nat) : List UInt8 :=
  (List.range n).map fun i => readByte p (off + i)

/-- The little-endian value of a list of bytes. -/
def leValue : List UInt8 → Nat
  | [] => 0
  | b :: bs => b.toNat + 256 * leValue bs

/-- The fields of `CStealthAddress` the raw format holds. -/
structure CStealthAddress where
  options : UInt8
  number_bits : UInt8
  bitfield : UInt32
  number_signatures : Int
  scan_pubkey : List UInt8
  spend_pubkey : List UInt8
  deriving DecidableEq, Repr

/-- `nPrefixBytes = std::ceil((float)prefix.number_bits / 8.0)`. -/
def prefixBytes (number_bits : UInt8) : Nat := (number_bits.toNat + 7) / 8

/-- `CStealthAddress::FromRaw`, reading the buffer `p` of which it is told the size is
`nSize`. -/
def CStealthAddress.fromRaw (p : List UInt8) (nSize : Nat) : Option CStealthAddress :=
  if nSize < MIN_STEALTH_RAW_SIZE then none
  else
    let options := readByte p 0
    let scan_pubkey := readBytes p 1 EC_COMPRESSED_SIZE
    let spend_pubkeys := (readByte p 34).toNat
    if nSize < sizeT (MIN_STEALTH_RAW_SIZE + EC_COMPRESSED_SIZE * ((spend_pubkeys : Int) - 1)) then none
    else
      let spend_pubkey := readBytes p 35 (EC_COMPRESSED_SIZE * spend_pubkeys)
      let o := 35 + EC_COMPRESSED_SIZE * spend_pubkeys
      let number_signatures := (readByte p o).toNat
      let number_bits := readByte p (o + 1)
      let nPrefixBytes := prefixBytes number_bits
      if nSize < sizeT (MIN_STEALTH_RAW_SIZE + EC_COMPRESSED_SIZE * ((spend_pubkeys : Int) - 1) +
          nPrefixBytes) then none
      else
        -- `memcpy(&prefix.bitfield, p, nPrefixBytes)`: the four bytes of the field take the
        -- first bytes; further bytes are written past it
        let bitfield := UInt32.ofNat (leValue (readBytes p (o + 2) (min nPrefixBytes 4)))
        some { options, number_bits, bitfield, number_signatures, scan_pubkey, spend_pubkey }

/-- The little-endian bytes of the `uint32_t` bitfield. -/
def bitfieldBytes (bitfield : UInt32) : List UInt8 :=
  (List.range 4).map fun i => UInt8.ofNat (bitfield.toNat / 256 ^ i)

/-- `CStealthAddress::ToRaw`, or `none` where "sanity checks failed". -/
def CStealthAddress.toRaw (sx : CStealthAddress) : Option (List UInt8) :=
  let nPrefixBytes := prefixBytes sx.number_bits
  let nPkSpend := sx.spend_pubkey.length / EC_COMPRESSED_SIZE
  if sx.scan_pubkey.length ≠ EC_COMPRESSED_SIZE || sx.spend_pubkey.length < EC_COMPRESSED_SIZE ||
      sx.spend_pubkey.length % EC_COMPRESSED_SIZE ≠ 0 || nPkSpend > 255 || nPrefixBytes > 4 then none
  else some ([sx.options] ++ sx.scan_pubkey ++ [UInt8.ofNat nPkSpend] ++
    sx.spend_pubkey.take (EC_COMPRESSED_SIZE * nPkSpend) ++
    [UInt8.ofNat (sx.number_signatures % 256).toNat, sx.number_bits] ++
    (bitfieldBytes sx.bitfield).take nPrefixBytes)

/-- A well-formed raw stealth encoding: `MIN_STEALTH_RAW_SIZE + 33 · (N - 1) +
⌈number_bits / 8⌉` bytes with at least one spend key and a prefix of at most 32 bits. -/
def isRawStealthEncoding (raw : List UInt8) : Bool :=
  let n := (readByte raw 34).toNat
  let number_bits := readByte raw (35 + EC_COMPRESSED_SIZE * n + 1)
  decide (1 ≤ n) && decide (number_bits.toNat ≤ 32) &&
    decide (raw.length = MIN_STEALTH_RAW_SIZE + EC_COMPRESSED_SIZE * (n - 1) + prefixBytes number_bits)

end Veil
