import Veil.Primitives.Transaction

/-!
# The transaction wire format: `SerializeTransaction` / `UnserializeTransaction`

`SerializeTransaction` writes the low and high byte of `nVersion`, a `bool` that
says whether witness stacks follow, `nLockTime`, the inputs, the outputs (each
as its `nVersion` tag and its type's fields) and, when the flag is set, one
witness stack per input.  `UnserializeTransaction` reads the same fields back;
an input's `scriptData` is on the wire only for anonymous inputs.

Main results:

    TxEncodable tx → unserializeTransaction (serializeTransaction tx ++ rest) = some (tx, rest)
                                                        (unserializeTransaction_serializeTransaction)
    unserializeTransaction bs = some (tx, rest) → the flag byte is canonical →
      bs = serializeTransaction tx ++ rest             (serializeTransaction_of_unserialize)

The flag is a plain `bool`: the bytes `2` to `255` decode to `true`, and `1` with
only empty witness stacks decodes to a transaction without witnesses; neither
re-encodes to the bytes it came from (`unserializeTransaction_flag_two`).
-/

namespace Veil

open Codec Decoder

/-! ## Field codecs -/

/-- A fixed-size blob is written raw (`s.write(data, size)`). -/
def serBlob {n : Nat} (v : Blob n) : List UInt8 := v.toList

def unserBlob (n : Nat) : Decoder (Blob n) := do
  let l ← take n
  if h : l.length = n then pure ⟨l, h⟩ else fail

/-- `COutPoint::SerializationOp`. -/
def serOutPoint (o : COutPoint) : List UInt8 := serBlob o.hash ++ serWriteData32 o.n

def unserOutPoint : Decoder COutPoint := do
  let hash ← unserBlob 32
  let n ← serReadData32
  pure ⟨hash, n⟩

/-- `READWRITE(scriptData.stack)`, done for anonymous inputs only. -/
def serScriptData (anon : Bool) (w : CScriptWitness) : List UInt8 :=
  if anon then serVector serBytes w.stack else []

def unserScriptData (anon : Bool) : Decoder (List (List UInt8)) :=
  if anon then unserVector unserBytes else pure []

/-- `CTxIn::SerializationOp` (the witness is not part of it). -/
def serTxIn (txin : CTxIn) : List UInt8 :=
  serOutPoint txin.prevout ++ serBytes txin.scriptSig ++ serWriteData32 txin.nSequence ++
    serScriptData txin.isAnonInput txin.scriptData

def unserTxIn : Decoder CTxIn := do
  let prevout ← unserOutPoint
  let scriptSig ← unserBytes
  let nSequence ← serReadData32
  let stack ← unserScriptData prevout.isAnonInput
  pure { prevout, scriptSig, nSequence, scriptData := ⟨stack⟩, scriptWitness := ⟨[]⟩ }

/-- `CTxOutStandard`, `CTxOutCT`, `CTxOutRingCT` and `CTxOutData::Serialize`. -/
def serTxOut : CTxOutBase → List UInt8
  | .standard nValue scriptPubKey => serInt64 nValue ++ serBytes scriptPubKey
  | .ct commitment vData scriptPubKey vRangeproof =>
    serBlob commitment ++ serBytes vData ++ serBytes scriptPubKey ++ serBytes vRangeproof
  | .ringct pk vData commitment vRangeproof =>
    serBlob pk ++ serBlob commitment ++ serBytes vData ++ serBytes vRangeproof
  | .data vData => serBytes vData

/-- The body of an output whose tag is `bv`; an unknown tag is the
`output type does not exist` error. -/
def unserTxOut (bv : UInt8) : Decoder CTxOutBase :=
  if bv = OUTPUT_STANDARD then do
    let nValue ← unserInt64
    let scriptPubKey ← unserBytes
    pure (.standard nValue scriptPubKey)
  else if bv = OUTPUT_CT then do
    let commitment ← unserBlob 33
    let vData ← unserBytes
    let scriptPubKey ← unserBytes
    let vRangeproof ← unserBytes
    pure (.ct commitment vData scriptPubKey vRangeproof)
  else if bv = OUTPUT_RINGCT then do
    let pk ← unserBlob 33
    let commitment ← unserBlob 33
    let vData ← unserBytes
    let vRangeproof ← unserBytes
    pure (.ringct pk vData commitment vRangeproof)
  else if bv = OUTPUT_DATA then do
    let vData ← unserBytes
    pure (.data vData)
  else fail

/-- An output as the transaction loop writes it: `s << nVersion; s << *pout`. -/
def serTaggedTxOut (o : CTxOutBase) : List UInt8 := o.nVersion :: serTxOut o

def unserTaggedTxOut : Decoder CTxOutBase := do
  let bv ← byte
  unserTxOut bv

/-! ## The transaction -/

/-- The witness section: each input's witness stack, in order. -/
def serWitnesses (vin : List CTxIn) : List UInt8 :=
  vin.flatMap fun txin => serVector serBytes txin.scriptWitness.stack

/-- `for (auto &txin : tx.vin) s >> txin.scriptWitness.stack`. -/
def unserWitnesses : List CTxIn → Decoder (List CTxIn)
  | [] => pure []
  | txin :: vin => do
    let stack ← unserVector unserBytes
    let vin ← unserWitnesses vin
    pure ({ txin with scriptWitness := ⟨stack⟩ } :: vin)

/-- `SerializeTransaction`. -/
def serializeTransaction (tx : CMutableTransaction) : List UInt8 :=
  [(tx.nVersion &&& 0xFF).toUInt32.toUInt8, ((tx.nVersion >>> 8) &&& 0xFF).toUInt32.toUInt8] ++
    serBool tx.hasWitness ++ serWriteData32 tx.nLockTime ++ serVector serTxIn tx.vin ++
    writeCompactSize tx.vpout.length ++ tx.vpout.flatMap serTaggedTxOut ++
    (if tx.hasWitness then serWitnesses tx.vin else [])

/-- The witness section is read only when the flag byte was non-zero. -/
def unserWitnessesIf (fUseSegwit : Bool) (vin : List CTxIn) : Decoder (List CTxIn) :=
  if fUseSegwit then unserWitnesses vin else pure vin

/-- `UnserializeTransaction`: `nVersion = bv; nVersion |= bv << 8`. -/
def unserializeTransaction : Decoder CMutableTransaction := do
  let bv0 ← byte
  let bv1 ← byte
  let fUseSegwit ← unserBool
  let nLockTime ← serReadData32
  let vin ← unserVector unserTxIn
  let nOutputs ← readCompactSize
  let vpout ← count unserTaggedTxOut nOutputs
  let vin ← unserWitnessesIf fUseSegwit vin
  pure { vin, vpout, nVersion := Int32.ofNat bv0.toNat ||| (Int32.ofNat bv1.toNat <<< 8),
         nLockTime }

/-! ## Field laws -/

theorem unserBlob_reads (n : Nat) : Reads serBlob (unserBlob n) (fun _ => True) := by
  intro v _ rest
  have ht : take n (v.toList ++ rest) = some (v.toList, rest) := by
    have := take_append v.toList rest
    rwa [List.Vector.toList_length] at this
  rw [unserBlob, serBlob, bind_of_some ht, dif_pos (List.Vector.toList_length v)]
  rfl

theorem unserBlob_exact (n : Nat) : Exact serBlob (unserBlob n) := by
  intro bs v rest h
  obtain ⟨l, r, hl, h⟩ := bind_eq_some.mp h
  obtain ⟨hbs, hlen⟩ := take_eq_some hl
  rw [dif_pos hlen] at h
  change some _ = _ at h
  obtain ⟨rfl, rfl⟩ := Prod.mk.inj (Option.some.inj h)
  exact hbs

theorem unserOutPoint_reads : Reads serOutPoint unserOutPoint (fun _ => True) := by
  intro o _ rest
  rw [unserOutPoint, serOutPoint, List.append_assoc,
    bind_of_some (unserBlob_reads 32 o.hash trivial _),
    bind_of_some (serReadData32_reads o.n trivial rest)]
  rfl

theorem unserOutPoint_exact : Exact serOutPoint unserOutPoint := by
  intro bs o rest h
  obtain ⟨hash, r1, hh, h⟩ := bind_eq_some.mp h
  obtain ⟨n, r2, hn, h⟩ := bind_eq_some.mp h
  simp only [pure_apply, Option.some.injEq, Prod.mk.injEq] at h
  obtain ⟨rfl, rfl⟩ := h
  rw [unserBlob_exact 32 bs hash r1 hh, serReadData32_exact r1 n r2 hn, serOutPoint,
    List.append_assoc]

/-- A stack the vector codec carries: at most `MAX_SIZE` items of at most
`MAX_SIZE` bytes each. -/
def StackFits (st : List (List UInt8)) : Prop :=
  st.length ≤ MAX_SIZE ∧ ∀ s ∈ st, s.length ≤ MAX_SIZE

instance (st : List (List UInt8)) : Decidable (StackFits st) :=
  inferInstanceAs (Decidable (_ ∧ _))

theorem unserStack_reads : Reads (serVector serBytes) (unserVector unserBytes) StackFits :=
  unserVector_reads_id unserBytes_reads

theorem unserStack_exact : Exact (serVector serBytes) (unserVector unserBytes) :=
  unserVector_exact unserBytes_exact

theorem unserScriptData_reads {anon : Bool} {w : CScriptWitness} (hfit : StackFits w.stack)
    (hnil : anon = false → w.stack = []) (rest : List UInt8) :
    unserScriptData anon (serScriptData anon w ++ rest) = some (w.stack, rest) := by
  cases anon with
  | false =>
    rw [hnil rfl]
    rfl
  | true => exact unserStack_reads w.stack hfit rest

theorem unserScriptData_exact {anon : Bool} {bs r : List UInt8} {st : List (List UInt8)}
    (h : unserScriptData anon bs = some (st, r)) : bs = serScriptData anon ⟨st⟩ ++ r := by
  cases anon with
  | false =>
    simp only [unserScriptData, Bool.false_eq_true, if_false, pure_apply, Option.some.injEq,
      Prod.mk.injEq] at h
    obtain ⟨rfl, rfl⟩ := h
    rfl
  | true => exact unserStack_exact bs st r h

/-- What the wire format needs of an input to carry it: byte strings and stacks
within `MAX_SIZE`, and no `scriptData` on an input that does not serialize it. -/
structure CTxIn.Encodable (txin : CTxIn) : Prop where
  scriptSig : txin.scriptSig.length ≤ MAX_SIZE
  scriptData : StackFits txin.scriptData.stack
  noScriptData : txin.isAnonInput = false → txin.scriptData.stack = []
  witness : StackFits txin.scriptWitness.stack

/-- The input as `CTxIn::SerializationOp` carries it: without its witness. -/
def CTxIn.stripWitness (txin : CTxIn) : CTxIn := { txin with scriptWitness := ⟨[]⟩ }

@[simp] theorem serTxIn_stripWitness (txin : CTxIn) : serTxIn txin.stripWitness = serTxIn txin :=
  rfl

theorem stripWitness_of_isNull {txin : CTxIn} (h : txin.scriptWitness.isNull = true) :
    txin.stripWitness = txin := by
  obtain ⟨prevout, scriptSig, nSequence, scriptData, ⟨stack⟩⟩ := txin
  have : stack = [] := List.isEmpty_iff.mp h
  subst this
  rfl

theorem unserTxIn_reads : ReadsAs serTxIn unserTxIn CTxIn.Encodable CTxIn.stripWitness := by
  intro txin h rest
  have hnil : txin.prevout.isAnonInput = false → txin.scriptData.stack = [] := h.noScriptData
  simp only [serTxIn, List.append_assoc]
  rw [CTxIn.isAnonInput, unserTxIn, bind_of_some (unserOutPoint_reads _ trivial _),
    bind_of_some (unserBytes_reads _ h.scriptSig _), bind_of_some (serReadData32_reads _ trivial _),
    bind_of_some (unserScriptData_reads h.scriptData hnil rest)]
  rfl

theorem unserTxIn_exact : Exact serTxIn unserTxIn := by
  intro bs txin rest h
  obtain ⟨prevout, r1, h1, h⟩ := bind_eq_some.mp h
  obtain ⟨scriptSig, r2, h2, h⟩ := bind_eq_some.mp h
  obtain ⟨nSequence, r3, h3, h⟩ := bind_eq_some.mp h
  obtain ⟨stack, r4, h4, h⟩ := bind_eq_some.mp h
  simp only [pure_apply, Option.some.injEq, Prod.mk.injEq] at h
  obtain ⟨rfl, rfl⟩ := h
  rw [unserOutPoint_exact bs _ r1 h1, unserBytes_exact r1 _ r2 h2, serReadData32_exact r2 _ r3 h3,
    unserScriptData_exact h4]
  simp [serTxIn, CTxIn.isAnonInput]

/-- A decoded input has no witness yet. -/
theorem unserTxIn_stripWitness {bs r : List UInt8} {txin : CTxIn}
    (h : unserTxIn bs = some (txin, r)) : txin.stripWitness = txin := by
  obtain ⟨prevout, r1, -, h⟩ := bind_eq_some.mp h
  obtain ⟨scriptSig, r2, -, h⟩ := bind_eq_some.mp h
  obtain ⟨nSequence, r3, -, h⟩ := bind_eq_some.mp h
  obtain ⟨stack, r4, -, h⟩ := bind_eq_some.mp h
  simp only [pure_apply, Option.some.injEq, Prod.mk.injEq] at h
  rw [← h.1]
  rfl

/-- What the wire format needs of an output: byte strings within `MAX_SIZE`. -/
def CTxOutBase.Encodable : CTxOutBase → Prop
  | .standard _ scriptPubKey => scriptPubKey.length ≤ MAX_SIZE
  | .ct _ vData scriptPubKey vRangeproof =>
    vData.length ≤ MAX_SIZE ∧ scriptPubKey.length ≤ MAX_SIZE ∧ vRangeproof.length ≤ MAX_SIZE
  | .ringct _ vData _ vRangeproof => vData.length ≤ MAX_SIZE ∧ vRangeproof.length ≤ MAX_SIZE
  | .data vData => vData.length ≤ MAX_SIZE

instance : DecidablePred CTxOutBase.Encodable := fun o => by
  cases o <;> unfold CTxOutBase.Encodable <;> infer_instance

theorem unserTaggedTxOut_reads : Reads serTaggedTxOut unserTaggedTxOut CTxOutBase.Encodable := by
  intro o h rest
  rw [serTaggedTxOut, List.cons_append, unserTaggedTxOut, bind_of_some (byte_cons _ _)]
  cases o with
  | standard nValue scriptPubKey =>
    simp only [serTxOut, CTxOutBase.nVersion, List.append_assoc]
    rw [unserTxOut, if_pos rfl, bind_of_some (unserInt64_reads _ trivial _),
      bind_of_some (unserBytes_reads _ h rest)]
    rfl
  | ct commitment vData scriptPubKey vRangeproof =>
    obtain ⟨h1, h2, h3⟩ := h
    simp only [serTxOut, CTxOutBase.nVersion, List.append_assoc]
    rw [unserTxOut, if_neg (by decide), if_pos rfl, bind_of_some (unserBlob_reads 33 _ trivial _),
      bind_of_some (unserBytes_reads _ h1 _), bind_of_some (unserBytes_reads _ h2 _),
      bind_of_some (unserBytes_reads _ h3 rest)]
    rfl
  | ringct pk vData commitment vRangeproof =>
    obtain ⟨h1, h2⟩ := h
    simp only [serTxOut, CTxOutBase.nVersion, List.append_assoc]
    rw [unserTxOut, if_neg (by decide), if_neg (by decide), if_pos rfl,
      bind_of_some (unserBlob_reads 33 _ trivial _), bind_of_some (unserBlob_reads 33 _ trivial _),
      bind_of_some (unserBytes_reads _ h1 _), bind_of_some (unserBytes_reads _ h2 rest)]
    rfl
  | data vData =>
    simp only [serTxOut, CTxOutBase.nVersion]
    rw [unserTxOut, if_neg (by decide), if_neg (by decide), if_neg (by decide), if_pos rfl,
      bind_of_some (unserBytes_reads _ h rest)]
    rfl

theorem unserTaggedTxOut_exact : Exact serTaggedTxOut unserTaggedTxOut := by
  intro bs o rest h
  obtain ⟨bv, r1, h1, h⟩ := bind_eq_some.mp h
  rw [byte_eq_some.mp h1]
  unfold unserTxOut at h
  -- one branch per output type, in the order of the source's `switch`
  split at h
  · rename_i hbv
    obtain ⟨v, r2, h2, h⟩ := bind_eq_some.mp h
    obtain ⟨s, r3, h3, h⟩ := bind_eq_some.mp h
    simp only [pure_apply, Option.some.injEq, Prod.mk.injEq] at h
    obtain ⟨rfl, rfl⟩ := h
    rw [unserInt64_exact r1 v r2 h2, unserBytes_exact r2 s r3 h3, hbv]
    simp [serTaggedTxOut, serTxOut, CTxOutBase.nVersion]
  split at h
  · rename_i _ hbv
    obtain ⟨c, r2, h2, h⟩ := bind_eq_some.mp h
    obtain ⟨d, r3, h3, h⟩ := bind_eq_some.mp h
    obtain ⟨s, r4, h4, h⟩ := bind_eq_some.mp h
    obtain ⟨p, r5, h5, h⟩ := bind_eq_some.mp h
    simp only [pure_apply, Option.some.injEq, Prod.mk.injEq] at h
    obtain ⟨rfl, rfl⟩ := h
    rw [unserBlob_exact 33 r1 c r2 h2, unserBytes_exact r2 d r3 h3, unserBytes_exact r3 s r4 h4,
      unserBytes_exact r4 p r5 h5, hbv]
    simp [serTaggedTxOut, serTxOut, CTxOutBase.nVersion]
  split at h
  · rename_i _ _ hbv
    obtain ⟨pk, r2, h2, h⟩ := bind_eq_some.mp h
    obtain ⟨c, r3, h3, h⟩ := bind_eq_some.mp h
    obtain ⟨d, r4, h4, h⟩ := bind_eq_some.mp h
    obtain ⟨p, r5, h5, h⟩ := bind_eq_some.mp h
    simp only [pure_apply, Option.some.injEq, Prod.mk.injEq] at h
    obtain ⟨rfl, rfl⟩ := h
    rw [unserBlob_exact 33 r1 pk r2 h2, unserBlob_exact 33 r2 c r3 h3, unserBytes_exact r3 d r4 h4,
      unserBytes_exact r4 p r5 h5, hbv]
    simp [serTaggedTxOut, serTxOut, CTxOutBase.nVersion]
  split at h
  · rename_i _ _ _ hbv
    obtain ⟨d, r2, h2, h⟩ := bind_eq_some.mp h
    simp only [pure_apply, Option.some.injEq, Prod.mk.injEq] at h
    obtain ⟨rfl, rfl⟩ := h
    rw [unserBytes_exact r1 d r2 h2, hbv]
    simp [serTaggedTxOut, serTxOut, CTxOutBase.nVersion]
  · simp at h

/-! ## Witnesses -/

@[simp] theorem serWitnesses_cons (txin : CTxIn) (vin : List CTxIn) :
    serWitnesses (txin :: vin) = serVector serBytes txin.scriptWitness.stack ++ serWitnesses vin :=
  List.flatMap_cons

theorem unserWitnesses_reads (vin : List CTxIn) (h : ∀ txin ∈ vin, StackFits txin.scriptWitness.stack)
    (rest : List UInt8) :
    unserWitnesses (vin.map CTxIn.stripWitness) (serWitnesses vin ++ rest) = some (vin, rest) := by
  induction vin with
  | nil => rfl
  | cons txin vin ih =>
    have hst := unserStack_reads _ (h txin List.mem_cons_self) (serWitnesses vin ++ rest)
    have hvin := ih (fun x hx => h x (List.mem_cons_of_mem txin hx))
    rw [List.map_cons, unserWitnesses, serWitnesses_cons, List.append_assoc, bind_of_some hst,
      bind_of_some hvin]
    rfl

theorem unserWitnesses_exact {vin vin' : List CTxIn} {bs r : List UInt8}
    (h : unserWitnesses vin bs = some (vin', r)) :
    bs = serWitnesses vin' ++ r ∧ vin'.map CTxIn.stripWitness = vin.map CTxIn.stripWitness := by
  induction vin generalizing bs vin' r with
  | nil =>
    simp only [unserWitnesses, pure_apply, Option.some.injEq, Prod.mk.injEq] at h
    obtain ⟨rfl, rfl⟩ := h
    exact ⟨rfl, rfl⟩
  | cons txin vin ih =>
    obtain ⟨stack, r1, h1, h⟩ := bind_eq_some.mp h
    obtain ⟨vin'', r2, h2, h⟩ := bind_eq_some.mp h
    simp only [pure_apply, Option.some.injEq, Prod.mk.injEq] at h
    obtain ⟨rfl, rfl⟩ := h
    obtain ⟨hr1, hmap⟩ := ih h2
    refine ⟨?_, ?_⟩
    · rw [unserStack_exact bs stack r1 h1, hr1, serWitnesses_cons, List.append_assoc]
    · rw [List.map_cons, List.map_cons, hmap]
      rfl

/-- Without a witness flag every input's stack is empty, so stripping changes nothing. -/
theorem stripWitness_of_hasWitness_eq_false {tx : CMutableTransaction} (h : tx.hasWitness = false) :
    tx.vin.map CTxIn.stripWitness = tx.vin := by
  have hnull : ∀ txin ∈ tx.vin, txin.stripWitness = txin := by
    intro txin hx
    apply stripWitness_of_isNull
    simpa [CMutableTransaction.hasWitness] using List.any_eq_false.mp h txin hx
  rw [List.map_congr_left hnull, List.map_id']
/-! ## The version bytes

`SerializeTransaction` writes `nVersion & 0xFF` and `(nVersion >> 8) & 0xFF`;
`UnserializeTransaction` rebuilds `bv0 | (bv1 << 8)`.  The two agree exactly on the
versions in `[0, 2^16)`. -/

theorem nVersion_ofBytes_toNat (a b : UInt8) :
    (Int32.ofNat a.toNat ||| (Int32.ofNat b.toNat <<< 8)).toBitVec.toNat = a.toNat + 256 * b.toNat := by
  have ha := a.toNat_lt
  have hb := b.toNat_lt
  have h8 : ((8 : Int32).toBitVec.smod 32).toNat = 8 := by decide
  have hA : (Int32.ofNat a.toNat).toBitVec.toNat = a.toNat := by simp
  have hB : (Int32.ofNat b.toNat).toBitVec.toNat = b.toNat := by simp
  rw [Int32.toBitVec_or, Int32.toBitVec_shiftLeft, BitVec.toNat_or, BitVec.shiftLeft_eq',
    BitVec.toNat_shiftLeft, h8, hA, hB, Nat.shiftLeft_eq, Nat.mod_eq_of_lt (by omega), Nat.lor_comm]
  -- the high byte is shifted past the low one, so `|||` is `+`
  rw [Nat.mul_comm, ← @Nat.two_pow_add_eq_or_of_lt 8 a.toNat (by omega) b.toNat]
  omega

theorem nVersion_byte0_toNat (v : Int32) :
    ((v &&& 0xFF).toUInt32.toUInt8).toNat = v.toBitVec.toNat % 256 := by
  have : (v &&& 0xFF).toBitVec.toNat = v.toBitVec.toNat % 256 := by
    rw [Int32.toBitVec_and, BitVec.toNat_and]
    have : (0xFF : Int32).toBitVec.toNat = 2 ^ 8 - 1 := by decide
    rw [this, Nat.and_two_pow_sub_one_eq_mod]
  rw [UInt32.toNat_toUInt8, ← Int32.toNat_toBitVec, this]
  omega

/-- On a non-negative version the arithmetic shift `>>` is a division. -/
theorem nVersion_byte1_toNat (v : Int32) (hmsb : v.toBitVec.msb = false) :
    (((v >>> 8) &&& 0xFF).toUInt32.toUInt8).toNat = v.toBitVec.toNat / 256 % 256 := by
  have hsh : (v >>> 8).toBitVec.toNat = v.toBitVec.toNat / 256 := by
    rw [Int32.toBitVec_shiftRight, BitVec.sshiftRight_eq', BitVec.sshiftRight_eq_of_msb_false hmsb]
    have h8 : ((8 : Int32).toBitVec.smod 32).toNat = 8 := by decide
    rw [h8, BitVec.toNat_ushiftRight, Nat.shiftRight_eq_div_pow]
  have : ((v >>> 8) &&& 0xFF).toBitVec.toNat = v.toBitVec.toNat / 256 % 256 := by
    rw [Int32.toBitVec_and, BitVec.toNat_and]
    have : (0xFF : Int32).toBitVec.toNat = 2 ^ 8 - 1 := by decide
    rw [this, Nat.and_two_pow_sub_one_eq_mod, hsh]
  rw [UInt32.toNat_toUInt8, ← Int32.toNat_toBitVec, this]
  omega

theorem msb_eq_false_of_toNat_lt {v : Int32} (h : v.toBitVec.toNat < 2 ^ 16) :
    v.toBitVec.msb = false := by
  rw [BitVec.msb_eq_false_iff_two_mul_lt]
  omega

/-- The bit pattern of `v` is below `2^16` exactly when `v` is a version in `[0, 2^16)`. -/
theorem toNat_lt_iff_toInt (v : Int32) :
    v.toBitVec.toNat < 2 ^ 16 ↔ 0 ≤ v.toInt ∧ v.toInt < 2 ^ 16 := by
  rw [← Int32.toInt_toBitVec, BitVec.toInt_eq_toNat_cond]
  have := v.toBitVec.isLt
  split <;> omega

theorem nVersion_ofBytes_toBytes {v : Int32} (h : 0 ≤ v.toInt ∧ v.toInt < 2 ^ 16) :
    Int32.ofNat ((v &&& 0xFF).toUInt32.toUInt8).toNat |||
      (Int32.ofNat (((v >>> 8) &&& 0xFF).toUInt32.toUInt8).toNat <<< 8) = v := by
  have hlt := (toNat_lt_iff_toInt v).mpr h
  apply Int32.toBitVec_inj.mp
  apply BitVec.eq_of_toNat_eq
  rw [nVersion_ofBytes_toNat, nVersion_byte0_toNat, nVersion_byte1_toNat v (msb_eq_false_of_toNat_lt hlt)]
  omega

theorem nVersion_toBytes_ofBytes (a b : UInt8) :
    ((Int32.ofNat a.toNat ||| (Int32.ofNat b.toNat <<< 8)) &&& 0xFF).toUInt32.toUInt8 = a ∧
      (((Int32.ofNat a.toNat ||| (Int32.ofNat b.toNat <<< 8)) >>> 8) &&& 0xFF).toUInt32.toUInt8 = b := by
  have hv := nVersion_ofBytes_toNat a b
  have ha := a.toNat_lt
  have hb := b.toNat_lt
  have hmsb := @msb_eq_false_of_toNat_lt (Int32.ofNat a.toNat ||| (Int32.ofNat b.toNat <<< 8)) (by omega)
  constructor
  · apply UInt8.toNat_inj.mp
    rw [nVersion_byte0_toNat, hv]
    omega
  · apply UInt8.toNat_inj.mp
    rw [nVersion_byte1_toNat _ hmsb, hv]
    omega

/-! ## The transaction round trip -/

/-- What `SerializeTransaction` needs of a transaction for `UnserializeTransaction`
to read it back: a version in `[0, 2^16)`, and inputs and outputs the vector codec
carries. -/
structure TxEncodable (tx : CMutableTransaction) : Prop where
  nVersion : 0 ≤ tx.nVersion.toInt ∧ tx.nVersion.toInt < 2 ^ 16
  vin_length : tx.vin.length ≤ MAX_SIZE
  vin : ∀ txin ∈ tx.vin, txin.Encodable
  vpout_length : tx.vpout.length ≤ MAX_SIZE
  vpout : ∀ o ∈ tx.vpout, o.Encodable

/-- The witness section reads the stripped inputs back whole, with or without
the flag. -/
theorem unserWitnessesIf_hasWitness {tx : CMutableTransaction}
    (h : ∀ txin ∈ tx.vin, StackFits txin.scriptWitness.stack) (rest : List UInt8) :
    unserWitnessesIf tx.hasWitness (tx.vin.map CTxIn.stripWitness)
      ((if tx.hasWitness then serWitnesses tx.vin else []) ++ rest) = some (tx.vin, rest) := by
  cases hw : tx.hasWitness with
  | false =>
    rw [unserWitnessesIf, if_neg Bool.false_ne_true, stripWitness_of_hasWitness_eq_false hw]
    rfl
  | true => exact unserWitnesses_reads tx.vin h rest

/-- **Round trip.** `UnserializeTransaction` reads back every transaction that
`SerializeTransaction` can carry, all fields and witness stacks included, whatever
bytes follow it. -/
theorem unserializeTransaction_serializeTransaction (tx : CMutableTransaction) (h : TxEncodable tx)
    (rest : List UInt8) :
    unserializeTransaction (serializeTransaction tx ++ rest) = some (tx, rest) := by
  have hvin := unserVector_reads unserTxIn_reads tx.vin ⟨h.vin_length, h.vin⟩
  have hout := count_reads_id unserTaggedTxOut_reads tx.vpout.length tx.vpout ⟨rfl, h.vpout⟩
  have hwit := unserWitnessesIf_hasWitness (fun txin hx => (h.vin txin hx).witness) rest
  simp only [serializeTransaction, List.append_assoc, List.cons_append, List.nil_append]
  rw [unserializeTransaction, bind_of_some (byte_cons _ _), bind_of_some (byte_cons _ _),
    bind_of_some (unserBool_reads _ trivial _), bind_of_some (serReadData32_reads _ trivial _),
    bind_of_some (hvin _), bind_of_some (readCompactSize_reads _ h.vpout_length _),
    bind_of_some (hout _), bind_of_some hwit, nVersion_ofBytes_toBytes h.nVersion]
  rfl

theorem hasWitness_eq_false_of_stripped {tx : CMutableTransaction}
    (h : tx.vin.map CTxIn.stripWitness = tx.vin) : tx.hasWitness = false := by
  rw [CMutableTransaction.hasWitness, ← h]
  simp [CTxIn.stripWitness, CScriptWitness.isNull]

theorem serVector_serTxIn_map_stripWitness (vin : List CTxIn) :
    serVector serTxIn (vin.map CTxIn.stripWitness) = serVector serTxIn vin := by
  simp [serVector, List.flatMap_map]

/-- The inputs as the vector codec reads them carry no witness yet. -/
theorem unserVector_unserTxIn_stripped {bs r : List UInt8} {vin : List CTxIn}
    (h : unserVector unserTxIn bs = some (vin, r)) : vin.map CTxIn.stripWitness = vin := by
  have hitem : ∀ bs' txin r', unserTxIn bs' = some (txin, r') → txin.stripWitness = txin :=
    fun _ _ _ => unserTxIn_stripWitness
  rw [List.map_congr_left (unserVector_forall hitem h), List.map_id']

/-- **Canonical decoding.** Every byte string `UnserializeTransaction` accepts with
a canonical flag byte (`0`, or `1` with a witness present) is the encoding of the
transaction it returns. -/
theorem serializeTransaction_of_unserialize {bs rest : List UInt8} {tx : CMutableTransaction}
    (h : unserializeTransaction bs = some (tx, rest))
    (hflag : bs[2]? = some 0 ∨ (bs[2]? = some 1 ∧ tx.hasWitness = true)) :
    bs = serializeTransaction tx ++ rest := by
  obtain ⟨bv0, r0, h0, h⟩ := bind_eq_some.mp h
  obtain ⟨bv1, r1, h1, h⟩ := bind_eq_some.mp h
  obtain ⟨fUseSegwit, r2, h2, h⟩ := bind_eq_some.mp h
  obtain ⟨nLockTime, r3, h3, h⟩ := bind_eq_some.mp h
  obtain ⟨vin0, r4, h4, h⟩ := bind_eq_some.mp h
  obtain ⟨nOutputs, r5, h5, h⟩ := bind_eq_some.mp h
  obtain ⟨vpout, r6, h6, h⟩ := bind_eq_some.mp h
  obtain ⟨vin, r7, h7, h⟩ := bind_eq_some.mp h
  simp only [pure_apply, Option.some.injEq, Prod.mk.injEq] at h
  obtain ⟨rfl, rfl⟩ := h
  obtain ⟨f, hr1, rfl⟩ := unserBool_eq_some.mp h2
  have hbs : bs = bv0 :: bv1 :: f :: (serWriteData32 nLockTime ++ serVector serTxIn vin0 ++
      writeCompactSize vpout.length ++ vpout.flatMap serTaggedTxOut ++ r6) := by
    rw [byte_eq_some.mp h0, byte_eq_some.mp h1, hr1, serReadData32_exact r2 _ r3 h3,
      unserVector_exact unserTxIn_exact r3 _ r4 h4, readCompactSize_exact r4 _ r5 h5,
      ← count_length h6, count_exact unserTaggedTxOut_exact _ r5 _ r6 h6]
    simp only [List.append_assoc]
  have hstrip := unserVector_unserTxIn_stripped h4
  have hver := nVersion_toBytes_ofBytes bv0 bv1
  rw [hbs] at hflag
  simp only [List.getElem?_cons_succ, List.getElem?_cons_zero, Option.some.injEq] at hflag
  rw [hbs, serializeTransaction]
  dsimp only
  rw [hver.1, hver.2]
  -- the flag byte decides whether the witness section is there
  cases hseg : f != 0 with
  | false =>
    rw [hseg] at h7
    simp only [unserWitnessesIf, Bool.false_eq_true, if_false, pure_apply, Option.some.injEq,
      Prod.mk.injEq] at h7
    obtain ⟨rfl, rfl⟩ := h7
    have hf : f = 0 := by simpa using hseg
    have hw : CMutableTransaction.hasWitness
        ⟨vin0, vpout, Int32.ofNat bv0.toNat ||| (Int32.ofNat bv1.toNat <<< 8), nLockTime⟩ = false :=
      hasWitness_eq_false_of_stripped hstrip
    simp only [hw, hf, serBool, Bool.false_eq_true, if_false, List.append_assoc, List.cons_append,
      List.nil_append, List.append_nil]
  | true =>
    rw [hseg] at h7
    obtain ⟨hr6, hmap⟩ := unserWitnesses_exact h7
    obtain ⟨hf, hw⟩ : f = 1 ∧ _ := by
      rcases hflag with h0 | hflag
      · simp [h0] at hseg
      · exact hflag
    -- the inputs before the witness section are the decoded ones, stripped
    have hser : serVector serTxIn vin = serVector serTxIn vin0 := by
      rw [← serVector_serTxIn_map_stripWitness vin, hmap, hstrip]
    simp only [hw, hf, hser, hr6, serBool, if_true, List.append_assoc, List.cons_append,
      List.nil_append]

/-- The codec is a bijection between encodable transactions and the byte strings
with a canonical flag byte: decoding inverts encoding, and encoding inverts
decoding. -/
theorem transaction_codec_bijection :
    (∀ tx, TxEncodable tx → ∀ rest,
      unserializeTransaction (serializeTransaction tx ++ rest) = some (tx, rest)) ∧
    (∀ bs tx rest, unserializeTransaction bs = some (tx, rest) →
      (bs[2]? = some 0 ∨ (bs[2]? = some 1 ∧ tx.hasWitness = true)) →
      bs = serializeTransaction tx ++ rest) :=
  ⟨unserializeTransaction_serializeTransaction, fun _ _ _ h hflag =>
    serializeTransaction_of_unserialize h hflag⟩

/-- A one-input transaction with a one-item witness stack meets `TxEncodable`
and comes back whole. -/
theorem transaction_codec_bijection_witness :
    TxEncodable ⟨[⟨COutPoint.null, [], CTxIn.SEQUENCE_FINAL, ⟨[]⟩, ⟨[[7]]⟩⟩], [.data [1, 2]], 2, 0⟩ ∧
    unserializeTransaction (serializeTransaction
      ⟨[⟨COutPoint.null, [], CTxIn.SEQUENCE_FINAL, ⟨[]⟩, ⟨[[7]]⟩⟩], [.data [1, 2]], 2, 0⟩ ++ []) =
      some (⟨[⟨COutPoint.null, [], CTxIn.SEQUENCE_FINAL, ⟨[]⟩, ⟨[[7]]⟩⟩], [.data [1, 2]], 2, 0⟩, []) := by
  have henc : TxEncodable
      ⟨[⟨COutPoint.null, [], CTxIn.SEQUENCE_FINAL, ⟨[]⟩, ⟨[[7]]⟩⟩], [.data [1, 2]], 2, 0⟩ := by
    refine ⟨by decide, by decide, ?_, by decide, ?_⟩
    · intro txin hx
      rw [List.mem_singleton.mp hx]
      exact ⟨by decide, by decide, fun _ => rfl, by decide⟩
    · intro o ho
      rw [List.mem_singleton.mp ho]
      decide
  exact ⟨henc, transaction_codec_bijection.1 _ henc []⟩

/-- The flag byte `2` is accepted as `true`: the bytes with flag `2` and with flag
`0` decode, completely, to the same transaction, which encodes with flag `0`. -/
theorem unserializeTransaction_flag_two :
    unserializeTransaction [2, 0, 2, 0, 0, 0, 0, 0, 0] = some (⟨[], [], 2, 0⟩, []) ∧
    unserializeTransaction [2, 0, 0, 0, 0, 0, 0, 0, 0] = some (⟨[], [], 2, 0⟩, []) ∧
    serializeTransaction ⟨[], [], 2, 0⟩ = [2, 0, 0, 0, 0, 0, 0, 0, 0] :=
  ⟨by decide, by decide, by decide⟩

end Veil
