import Veil.Serialize

/-!
# Transactions: `primitives/transaction.h` and `amount.h`

The data model of a Veil transaction.  Inputs carry a `scriptData` stack that
only anonymous (RingCT) inputs serialize, and outputs are a four-way tagged union
(`CTxOutBase` with its `nVersion` byte): standard, confidential (CT), RingCT and
data outputs, each with its own fields.  A `CTxOutBase` value is always one of the
four concrete types, so the source's `default: throw` branches of
`CTxOutBase::Serialize` have no counterpart here.

Fixed-size byte arrays (`uint256`, a compressed public key, a Pedersen
commitment) are `List.Vector UInt8 n`; scripts and data are byte lists.
-/

namespace Veil

/-! ## Amounts -/

/-- `CAmount` is an `int64_t`. -/
abbrev CAmount := Int64

def COIN : CAmount := 100000000
def CENT : CAmount := 1000000
def MAX_MONEY : CAmount := 300000000 * COIN

/-- `MoneyRange`. -/
def moneyRange (nValue : CAmount) : Bool := 0 ≤ nValue && nValue ≤ MAX_MONEY

/-! ## Byte strings -/

/-- A fixed-size blob of `n` bytes (`base_blob`, `CCmpPubKey`, a commitment). -/
abbrev Blob (n : Nat) := List.Vector UInt8 n

/-- `uint256` as stored and serialized: 32 bytes. -/
abbrev Uint256 := Blob 32

/-- The null `uint256()`. -/
def Uint256.zero : Uint256 := List.Vector.replicate 32 0

/-- `CScript`: the script's bytes. -/
abbrev CScript := List UInt8

def OP_0 : UInt8 := 0x00
def OP_ZEROCOINMINT : UInt8 := 0xc1
def OP_ZEROCOINSPEND : UInt8 := 0xc2
def OP_RETURN : UInt8 := 0x6a
def OP_DUP : UInt8 := 0x76
def OP_EQUAL : UInt8 := 0x87
def OP_EQUALVERIFY : UInt8 := 0x88
def OP_HASH160 : UInt8 := 0xa9
def OP_CHECKSIG : UInt8 := 0xac

/-- `MAX_SCRIPT_SIZE`. -/
def MAX_SCRIPT_SIZE : Nat := 10000

/-- `CScript::IsZerocoinSpend`. -/
def CScript.isZerocoinSpend (s : CScript) : Bool := s.head? == some OP_ZEROCOINSPEND

/-- `CScript::IsZerocoinMint`. -/
def CScript.isZerocoinMint (s : CScript) : Bool := s.head? == some OP_ZEROCOINMINT

/-! ## Inputs -/

/-- `COutPoint`: a transaction hash and an output index. -/
structure COutPoint where
  hash : Uint256
  n : UInt32
  deriving DecidableEq

namespace COutPoint

/-- The index that marks an anonymous (RingCT) input. -/
def ANON_MARKER : UInt32 := 0xffffffa0

/-- `COutPoint::SetNull`. -/
def null : COutPoint := ⟨Uint256.zero, 0xffffffff⟩

def isNull (o : COutPoint) : Bool := o.hash == Uint256.zero && o.n == 0xffffffff

def isAnonInput (o : COutPoint) : Bool := o.n == ANON_MARKER

end COutPoint

/-- `CScriptWitness`: a stack of byte strings. -/
structure CScriptWitness where
  stack : List (List UInt8)
  deriving DecidableEq

def CScriptWitness.isNull (w : CScriptWitness) : Bool := w.stack.isEmpty

/-- `CTxIn`.  `scriptData` is serialized with the input only when the input is
anonymous; `scriptWitness` only with the whole transaction. -/
structure CTxIn where
  prevout : COutPoint
  scriptSig : CScript
  nSequence : UInt32
  scriptData : CScriptWitness
  scriptWitness : CScriptWitness
  deriving DecidableEq

namespace CTxIn

def SEQUENCE_FINAL : UInt32 := 0xffffffff
def SEQUENCE_LOCKTIME_MASK : UInt32 := 0x0000ffff

def isAnonInput (txin : CTxIn) : Bool := txin.prevout.isAnonInput

end CTxIn

/-! ## Outputs -/

def OUTPUT_NULL : UInt8 := 0
def OUTPUT_STANDARD : UInt8 := 1
def OUTPUT_CT : UInt8 := 2
def OUTPUT_RINGCT : UInt8 := 3
def OUTPUT_DATA : UInt8 := 4

/-- `CTxOutBase` and its four subclasses `CTxOutStandard`, `CTxOutCT`,
`CTxOutRingCT` and `CTxOutData`, with their fields in declaration order. -/
inductive CTxOutBase where
  | standard (nValue : CAmount) (scriptPubKey : CScript)
  | ct (commitment : Blob 33) (vData : List UInt8) (scriptPubKey : CScript)
      (vRangeproof : List UInt8)
  | ringct (pk : Blob 33) (vData : List UInt8) (commitment : Blob 33)
      (vRangeproof : List UInt8)
  | data (vData : List UInt8)
  deriving DecidableEq

namespace CTxOutBase

/-- The `nVersion` byte each subclass's constructor sets. -/
def nVersion : CTxOutBase → UInt8
  | standard .. => OUTPUT_STANDARD
  | ct .. => OUTPUT_CT
  | ringct .. => OUTPUT_RINGCT
  | data .. => OUTPUT_DATA

def isType (o : CTxOutBase) (nType : UInt8) : Bool := o.nVersion == nType

def isStandardOutput (o : CTxOutBase) : Bool := o.nVersion == OUTPUT_STANDARD

/-- `CTxOutBase::GetValue`: the value of a standard output, `0` for the others. -/
def getValue : CTxOutBase → CAmount
  | standard nValue _ => nValue
  | _ => 0

/-- `GetPScriptPubKey`: standard and CT outputs have a script. -/
def getPScriptPubKey : CTxOutBase → Option CScript
  | standard _ s => some s
  | ct _ _ s _ => some s
  | _ => none

/-- `GetPRangeproof`: CT and RingCT outputs carry a range proof. -/
def getPRangeproof : CTxOutBase → Option (List UInt8)
  | ct _ _ _ p => some p
  | ringct _ _ _ p => some p
  | _ => none

/-- `IsZerocoinMint`: a standard output whose script is a mint script. -/
def isZerocoinMint : CTxOutBase → Bool
  | standard _ s => s.isZerocoinMint
  | _ => false

/-- `SetValue`: only a standard output takes a value. -/
def setValue (o : CTxOutBase) (value : CAmount) : CTxOutBase :=
  match o with
  | standard _ s => standard value s
  | o => o

/-- `SetScriptPubKey`: standard and CT outputs take a script, the others refuse. -/
def setScriptPubKey (o : CTxOutBase) (s : CScript) : CTxOutBase :=
  match o with
  | standard v _ => standard v s
  | ct c d _ p => ct c d s p
  | o => o

end CTxOutBase

/-- `CTxOut`, the plain output that a `Coin` keeps: a value and a script.  `SetNull` sets
`nValue = -1`, which is what `IsNull` tests. -/
structure CTxOut where
  nValue : CAmount
  scriptPubKey : CScript
  deriving DecidableEq

/-- `CTxOut::IsNull`. -/
def CTxOut.isNull (o : CTxOut) : Bool := o.nValue == -1

/-! ## Transactions -/

/-- `CMutableTransaction` (a `CTransaction` has the same fields and a cached
hash). -/
structure CMutableTransaction where
  vin : List CTxIn
  vpout : List CTxOutBase
  nVersion : Int32
  nLockTime : UInt32
  deriving DecidableEq

/-- A `CTransaction` here is its mutable form: no code modelled reads its cached
hashes. -/
abbrev CTransaction := CMutableTransaction

namespace CMutableTransaction

def CURRENT_VERSION : Int32 := 2

/-- `HasWitness`: some input has a non-empty witness stack. -/
def hasWitness (tx : CMutableTransaction) : Bool := tx.vin.any fun i => !i.scriptWitness.isNull

/-- `CTransaction::IsZerocoinSpend`: the first input spends a zerocoin of a
denomination between 10 and 10000. -/
def isZerocoinSpend (tx : CMutableTransaction) : Bool :=
  match tx.vin with
  | [] => false
  | txin :: _ =>
    let nDenom := txin.nSequence &&& CTxIn.SEQUENCE_LOCKTIME_MASK
    txin.prevout.hash == Uint256.zero && txin.scriptSig.head? == some OP_ZEROCOINSPEND &&
      nDenom ≤ 10000 && nDenom ≥ 10

/-- `CTransaction::IsCoinBase`. -/
def isCoinBase (tx : CMutableTransaction) : Bool :=
  !tx.isZerocoinSpend && match tx.vin with
    | [txin] => txin.prevout.isNull
    | _ => false

/-- `CTransaction::HasBlindedValues`: an anonymous input, or a CT or RingCT
output. -/
def hasBlindedValues (tx : CMutableTransaction) : Bool :=
  tx.vin.any (·.isAnonInput) ||
    tx.vpout.any fun o => o.isType OUTPUT_CT || o.isType OUTPUT_RINGCT

end CMutableTransaction

end Veil
