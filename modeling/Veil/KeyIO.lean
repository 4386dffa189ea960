import Veil.Codec.Base58
import Veil.Codec.Bech32
import Veil.RingCT.Stealth

/-!
# Address strings (`key_io.cpp`)

`EncodeDestination` writes a destination as a Base58Check string (a version prefix
and the payload) or as a Bech32 string (a human-readable part and the payload in
5-bit values); a stealth address goes through `CBitcoinAddress`, whose `fBech32` is
recomputed from the version it is given.  `DecodeDestination` tries Base58Check
first, then Bech32 under the stealth or the base human-readable part.

The `CTxDestination` alternatives `CExtKeyPair`, `CKeyID256` and `CScriptID256`,
which `DecodeDestination` never returns, are left out.  `Hash` is the parameter
`hash` throughout.

Main results:

    a string DecodeBase58 refuses is decoded by the Bech32 branch alone, whatever the hash
                                                    (decodeDestination_of_decodeBase58)
    mainnet: a key id, a witness program and a stealth address with a prefix do not
      come back from their Bech32 strings, and a Bech32 string whose payload is no raw
      stealth encoding decodes to a stealth address   (encodeDestination_bech32_no_round_trip)
-/

namespace Veil

/-- `CChainParams::Base58Type`. -/
inductive Base58Type
  | PUBKEY_ADDRESS
  | SCRIPT_ADDRESS
  | SECRET_KEY
  | EXT_PUBLIC_KEY
  | EXT_SECRET_KEY
  | STEALTH_ADDRESS
  | BASE_ADDRESS
  | EXT_KEY_HASH
  | EXT_ACC_HASH
  | EXT_PUBLIC_KEY_BTC
  | EXT_SECRET_KEY_BTC
  | PUBKEY_ADDRESS_256
  | SCRIPT_ADDRESS_256
  | STAKE_ONLY_PKADDR
  deriving DecidableEq, Repr

/-- The types `k < MAX_BASE58_TYPES`. -/
def Base58Type.all : List Base58Type :=
  [.PUBKEY_ADDRESS, .SCRIPT_ADDRESS, .SECRET_KEY, .EXT_PUBLIC_KEY, .EXT_SECRET_KEY,
   .STEALTH_ADDRESS, .BASE_ADDRESS, .EXT_KEY_HASH, .EXT_ACC_HASH, .EXT_PUBLIC_KEY_BTC,
   .EXT_SECRET_KEY_BTC, .PUBKEY_ADDRESS_256, .SCRIPT_ADDRESS_256, .STAKE_ONLY_PKADDR]

/-- The address fields of `CChainParams` the codec reads: three of the Base58
prefixes, every Bech32 prefix (`IsBech32Prefix` compares with all of them) and the
two human-readable parts. -/
structure AddressParams where
  pubkeyAddress : List UInt8
  scriptAddress : List UInt8
  stealthAddress : List UInt8
  bech32Prefixes : Base58Type → List UInt8
  bech32_hrp_stealth : List Char
  bech32_hrp_base : List Char

/-- `CChainParams::IsBech32Prefix(vchPrefixIn)`. -/
def AddressParams.isBech32Prefix (params : AddressParams) (vchPrefixIn : List UInt8) : Bool :=
  Base58Type.all.any fun k => params.bech32Prefixes k == vchPrefixIn

/-- `CMainParams`: "sv for "stealth veil" & bv for "basecoin veil""; the other Bech32
prefixes are empty. -/
def mainAddressParams : AddressParams where
  pubkeyAddress := [70]
  scriptAddress := [5]
  stealthAddress := [0x84]
  bech32Prefixes
    | .STEALTH_ADDRESS => [115, 118]
    | .BASE_ADDRESS => [98, 118]
    | _ => []
  bech32_hrp_stealth := ['s', 'v']
  bech32_hrp_base := ['b', 'v']

/-- `WitnessUnknown`; `program` holds the bytes of `program[40]` that were written. -/
structure WitnessUnknown where
  version : UInt32
  length : UInt32
  program : List UInt8
  deriving DecidableEq, Repr

/-- `CTxDestination`. -/
inductive CTxDestination
  | noDestination
  | keyID (id : List.Vector UInt8 20)
  | scriptID (id : List.Vector UInt8 20)
  | witnessV0ScriptHash (id : List.Vector UInt8 32)
  | witnessV0KeyHash (id : List.Vector UInt8 20)
  | witnessUnknown (id : WitnessUnknown)
  | stealthAddress (sx : CStealthAddress)
  deriving DecidableEq

/-- `std::string sHrp(vchVersion.begin(), vchVersion.end())`. -/
def hrpOfBytes (v : List UInt8) : List Char := v.map fun b => Char.ofNat b.toNat

/-- `CBase58Data`. -/
structure CBase58Data where
  vchVersion : List UInt8
  vchData : List UInt8
  fBech32 : Bool

section

variable (hash : List UInt8 → List UInt8)

/-- `CBase58Data::ToString`. -/
def CBase58Data.toString (d : CBase58Data) : List Char :=
  if d.fBech32 then
    let rv := Bech32.encode (hrpOfBytes d.vchVersion) (toBase32 d.vchData)
    if rv.isEmpty then ("bech32 encode failed.").toList else rv
  else encodeBase58Check hash (d.vchVersion ++ d.vchData)

/-- A Bech32 address is written as a Bech32 string. -/
theorem CBase58Data.toString_of_fBech32 {d : CBase58Data} (h : d.fBech32 = true) :
    d.toString hash = Bech32.encode (hrpOfBytes d.vchVersion) (toBase32 d.vchData) := by
  have hne := Bech32.encode_ne_nil (hrpOfBytes d.vchVersion) (toBase32 d.vchData)
  simp [CBase58Data.toString, h, List.isEmpty_iff, hne]

/-- `CBitcoinAddress(sx, fBech32)`: `Set` with the raw encoding, `SetData` setting
`fBech32` from the version; where `ToRaw` fails the address stays empty. -/
def bitcoinAddressOfStealth (params : AddressParams) (sx : CStealthAddress) (fBech32 : Bool) :
    CBase58Data :=
  match sx.toRaw with
  | none => ⟨[], [], false⟩
  | some raw =>
    let vchVersion := if fBech32 then params.bech32Prefixes .STEALTH_ADDRESS else params.stealthAddress
    ⟨vchVersion, raw, params.isBech32Prefix vchVersion⟩

/-- `EncodeDestination` (`DestinationEncoder`). -/
def encodeDestination (params : AddressParams) (dest : CTxDestination) (fBech32 : Bool) :
    List Char :=
  match dest with
  | .noDestination => []
  | .keyID id =>
    if fBech32 then Bech32.encode (hrpOfBytes (params.bech32Prefixes .PUBKEY_ADDRESS)) (toBase32 id.toList)
    else encodeBase58Check hash (params.pubkeyAddress ++ id.toList)
  | .scriptID id =>
    if fBech32 then Bech32.encode (hrpOfBytes (params.bech32Prefixes .SCRIPT_ADDRESS)) (toBase32 id.toList)
    else encodeBase58Check hash (params.scriptAddress ++ id.toList)
  | .witnessV0KeyHash id => Bech32.encode params.bech32_hrp_base (0 :: toBase32 id.toList)
  | .witnessV0ScriptHash id => Bech32.encode params.bech32_hrp_base (0 :: toBase32 id.toList)
  | .witnessUnknown id =>
    if id.version < 1 || id.version > 16 || id.length < 2 || id.length > 40 then []
    else Bech32.encode params.bech32_hrp_stealth
      (UInt8.ofNat id.version.toNat :: toBase32 (readBytes id.program 0 id.length.toNat))
  | .stealthAddress sx => (bitcoinAddressOfStealth params sx fBech32).toString hash

end

/-- The Base58 part of `DecodeDestination` on a decoded payload: `none` where no
prefix matches and the Bech32 part is tried. -/
def decodeBase58Destination (params : AddressParams) (data : List UInt8) :
    Option CTxDestination :=
  if hk : data.length = 20 + params.pubkeyAddress.length ∧ params.pubkeyAddress.isPrefixOf data then
    some (.keyID ⟨data.drop params.pubkeyAddress.length, by rw [List.length_drop]; omega⟩)
  else if hs : data.length = 20 + params.scriptAddress.length ∧ params.scriptAddress.isPrefixOf data then
    some (.scriptID ⟨data.drop params.scriptAddress.length, by rw [List.length_drop]; omega⟩)
  else if data.length > params.stealthAddress.length ∧ params.stealthAddress.isPrefixOf data then
    -- `FromRaw(data.data()+stealth_prefix.size(), data.size())`
    some (match CStealthAddress.fromRaw (data.drop params.stealthAddress.length) data.length with
      | some sx => .stealthAddress sx
      | none => .noDestination)
  else none

/-- The Bech32 part of `DecodeDestination`. -/
def decodeBech32Destination (params : AddressParams) (str : List Char) : CTxDestination :=
  let bech := Bech32.decode str
  if bech.2.length > 0 ∧ (bech.1 = params.bech32_hrp_stealth ∨ bech.1 = params.bech32_hrp_base) then
    -- "The first 5 bit symbol is the witness version (0-16)"
    let version := (bech.2.headD 0).toNat
    let fIsStealth := bech.1 = params.bech32_hrp_stealth
    let symbols := if fIsStealth then bech.2 else bech.2.drop 1
    match convertBits 5 8 false (symbols.map UInt8.toNat) with
    | none => .noDestination
    | some data =>
      let data := data.map UInt8.ofNat
      if version = 0 then
        if h20 : data.length = 20 then .witnessV0KeyHash ⟨data, h20⟩
        else if h32 : data.length = 32 then .witnessV0ScriptHash ⟨data, h32⟩
        -- "Size of stealth addr"
        else if data.length = 70 then
          match CStealthAddress.fromRaw data data.length with
          | some sx => .stealthAddress sx
          | none => .noDestination
        else .noDestination
      else if version > 16 ∨ data.length < 2 ∨ data.length > 40 then .noDestination
      else .witnessUnknown ⟨UInt32.ofNat version, UInt32.ofNat data.length, data⟩
  else .noDestination

/-- `DecodeDestination`. -/
def decodeDestination (hash : List UInt8 → List UInt8) (params : AddressParams)
    (str : List Char) : CTxDestination :=
  match decodeBase58Check hash str with
  | some data => (decodeBase58Destination params data).getD (decodeBech32Destination params str)
  | none => decodeBech32Destination params str

/-- **A string that is not Base58 is decoded by the Bech32 branch alone**, whatever the
hash. -/
theorem decodeDestination_of_decodeBase58 (hash : List UInt8 → List UInt8)
    (params : AddressParams) {str : List Char} (h : decodeBase58 str = none) :
    decodeDestination hash params str = decodeBech32Destination params str := by
  simp [decodeDestination, decodeBase58Check_of_decodeBase58 hash h]

/-! ## Bech32 strings that do not come back -/

/-- A stealth address with an 8-bit prefix and one spend key: `ToRaw` succeeds. -/
def prefixedStealth : CStealthAddress where
  options := 0
  number_bits := 8
  bitfield := 0xab
  number_signatures := 0
  scan_pubkey := 0x02 :: List.replicate 32 0xff
  spend_pubkey := 0x03 :: List.replicate 32 0xff

/-- A 70-byte payload announcing no spend key and a 255-bit prefix. -/
def keylessStealthRaw : List UInt8 :=
  [0] ++ (0x02 :: List.replicate 32 0xff) ++ [0, 0, 255] ++ List.replicate 33 0xff

/-- **Mainnet Bech32 strings that do not round-trip.**  A key id is written under the
empty human-readable part, which `bech32::Decode` refuses; a witness program is written
under the stealth part and read back with its version symbol taken for data; a stealth
address with a prefix needs 123 characters where `bech32::Decode` takes 122.  And a
Bech32 payload with no spend key and a 255-bit prefix, which is no raw stealth
encoding, decodes to a stealth address.  None of these strings is Base58, so the hash
plays no part. -/
theorem encodeDestination_bech32_no_round_trip (hash : List UInt8 → List UInt8) :
    decodeDestination hash mainAddressParams
        (encodeDestination hash mainAddressParams (.keyID (List.Vector.replicate 20 0xff)) true) =
      .noDestination ∧
    decodeDestination hash mainAddressParams
        (encodeDestination hash mainAddressParams (.witnessUnknown ⟨1, 2, [0xff, 0xff]⟩) true) =
      .witnessUnknown ⟨1, 3, [0x0f, 0xff, 0xf8]⟩ ∧
    prefixedStealth.toRaw.isSome ∧
    decodeDestination hash mainAddressParams
        (encodeDestination hash mainAddressParams (.stealthAddress prefixedStealth) true) =
      .noDestination ∧
    decodeDestination hash mainAddressParams
        (Bech32.encode ['s', 'v'] (toBase32 keylessStealthRaw)) =
      .stealthAddress ⟨0, 255, 0xffffffff, 0, 0x02 :: List.replicate 32 0xff, []⟩ ∧
    isRawStealthEncoding keylessStealthRaw = false := by
  refine ⟨?_, ?_, by decide +kernel, ?_, ?_, by decide +kernel⟩
  · -- "1" followed by the data: no human-readable part
    show decodeDestination hash mainAddressParams
      (Bech32.encode (hrpOfBytes (mainAddressParams.bech32Prefixes .PUBKEY_ADDRESS))
        (toBase32 (List.Vector.replicate 20 0xff).toList)) = _
    rw [decodeDestination_of_decodeBase58 hash mainAddressParams (by decide +kernel)]
    decide +kernel
  · show decodeDestination hash mainAddressParams
      (Bech32.encode mainAddressParams.bech32_hrp_stealth (1 :: toBase32 [0xff, 0xff])) = _
    rw [decodeDestination_of_decodeBase58 hash mainAddressParams (by decide +kernel)]
    decide +kernel
  · show decodeDestination hash mainAddressParams
      ((bitcoinAddressOfStealth mainAddressParams prefixedStealth true).toString hash) = _
    rw [CBase58Data.toString_of_fBech32 hash (by decide +kernel),
      decodeDestination_of_decodeBase58 hash mainAddressParams (by decide +kernel)]
    decide +kernel
  · rw [decodeDestination_of_decodeBase58 hash mainAddressParams (by decide +kernel)]
    decide +kernel

end Veil
