import Veil.RingCT.KeyImages
import Veil.Lib.UpdateFold
/-!
# The RingCT index across `ConnectBlock` and `DisconnectBlock` (`validation.cpp`)

Besides the key-image table, the block tree database holds the RingCT outputs by index
(`DB_RCTOUTPUT`, index → `CAnonOutput`) and the index of each output public key
(`DB_RCTOUTPUT_LINK`). `ConnectBlock` numbers the RingCT outputs of a block from
`pprev->nAnonOutputs + 1` on, in transaction and output order, and leaves the last number in
`pindex->nAnonOutputs`. `DisconnectBlock` walks the transactions and outputs backwards, numbering
down from `pindex->nAnonOutputs`, and `FlushView(fDisconnecting = true)` erases what it collected:
the outputs and links it renumbered and every key image of the block.

Both sides share the view's `nLastRCTOutput == 0` as "not started yet"; `ConnectBlock` indexes a
transaction only when `state.fHasAnonOutput || state.fHasAnonInput`, flags that `CheckTxInputs`
sets per transaction and the coinbase's blinded branch only raises.

The model keeps the RingCT members of the view and of the database; the coin view, the undo data
and the zerocoin tables are left out, and a key image, a public key, a commitment and a txid are
arbitrary types `κ`, `π`, `γ`, `τ`. The key images of an input are the parsed `scriptData` of
`Veil.RingCT.TxIn`.

Main results:

    connectBlock … = some view → view is the block's RingCT outputs entered one after the other
      from `pprev->nAnonOutputs + 1` on, under keys new to the table     (connectBlock_eq_some)
    … → `DisconnectBlock` succeeds and links every output to the index `ConnectBlock` gave it
                                                                (disconnectBlock_of_connectBlock)
    … → `FlushView(true)` gives back the links of db, its outputs but the block's indices, and its
      key images but the block's, which it erases whatever db held under them
                                                                  (disconnectBlock_connectBlock)

The last one says where the undo is not exact: `VerifyMLSAG` admits a key image the table holds
under the transaction's own txid, so a block may record a key image again, and disconnecting it
erases the record of the earlier block.
-/

namespace Veil.RingCT.Index

open Transaction

/-! ## The model -/

/-- An output of `vpout` as the RingCT index sees it: `OUTPUT_STANDARD`, `OUTPUT_CT`,
`OUTPUT_RINGCT` with its public key and commitment, or another type (data, zerocoin mint). -/
inductive TxOut (π γ : Type)
  | standard
  | ct
  | ringCT (pk : π) (commitment : γ)
  | other
  deriving DecidableEq, Repr

namespace TxOut

variable {π γ : Type}

/-- `IsType(OUTPUT_RINGCT)`. -/
def isRingCT : TxOut π γ → Bool
  | .ringCT _ _ => true
  | _ => false

/-- `IsType(OUTPUT_CT) || IsType(OUTPUT_RINGCT)`. -/
def isBlinded : TxOut π γ → Bool
  | .ct => true
  | .ringCT _ _ => true
  | _ => false

/-- The public key of a RingCT output. -/
def ringCTKey? : TxOut π γ → Option π
  | .ringCT pk _ => some pk
  | _ => none

end TxOut

/-- A transaction: the txid and inputs that `VerifyMLSAG` reads, and the outputs. -/
structure CTransaction (κ π γ τ : Type) extends Transaction κ τ where
  vpout : List (TxOut π γ)

/-- `CAnonOutput`: an entry of the RingCT output table. -/
structure CAnonOutput (π γ τ : Type) where
  pubkey : π
  commitment : γ
  outpoint : τ × Nat
  nBlockHeight : Nat
  nCompromised : Nat
  deriving DecidableEq, Repr

/-- The RingCT tables of `pblocktree`. -/
structure RctDB (κ π γ τ : Type) where
  keyImages : κ → Option τ
  outputs : Int → Option (CAnonOutput π γ τ)
  outputLinks : π → Option Int

/-- The RingCT members of `CCoinsViewCache`; `anonOutputLinks` is a `std::map`, kept as a list of
its entries. -/
structure RctView (κ π γ τ : Type) where
  nLastRCTOutput : Int
  anonOutputs : List (Int × CAnonOutput π γ τ)
  anonOutputLinks : List (π × Int)
  keyImages : List (κ × τ)

/-- The flags `ConnectBlock` reads from `state` while it goes through the transactions. -/
structure ConnectState (κ π γ τ : Type) where
  view : RctView κ π γ τ
  fHasAnonOutput : Bool
  fHasAnonInput : Bool

variable {κ π γ τ : Type}

/-- A new view: `nLastRCTOutput = 0` and no entries. -/
def RctView.empty : RctView κ π γ τ := ⟨0, [], [], []⟩

/-- The tables of a new block tree database. -/
def RctDB.empty : RctDB κ π γ τ := ⟨fun _ => none, fun _ => none, fun _ => none⟩

namespace CTransaction

/-- `CTransaction::HasBlindedValues`. -/
def hasBlindedValues (tx : CTransaction κ π γ τ) : Bool :=
  tx.vin.any TxIn.isAnonInput || tx.vpout.any TxOut.isBlinded

/-- The public keys of the RingCT outputs, in output order. -/
def ringCTKeys (tx : CTransaction κ π γ τ) : List π := tx.vpout.filterMap TxOut.ringCTKey?

end CTransaction

/-- `state.fHasAnonOutput` and `state.fHasAnonInput` as `ConnectBlock` sees them for `tx`.
`CheckTxInputs` resets them for a transaction other than the coinbase: an anon output is a RingCT
output beyond the anon inputs (`nRingCT > nRingCTInputs`). The coinbase is not passed to it; its
blinded branch raises `fHasAnonOutput` for a RingCT output, and otherwise both keep their values. -/
def anonFlags (s : ConnectState κ π γ τ) (tx : CTransaction κ π γ τ) : Bool × Bool :=
  if tx.isCoinBase then
    if tx.hasBlindedValues then (s.fHasAnonOutput || tx.vpout.any TxOut.isRingCT, s.fHasAnonInput)
    else (s.fHasAnonOutput, s.fHasAnonInput)
  else (tx.vpout.any TxOut.isRingCT, tx.vin.any TxIn.isAnonInput)

section Model

variable [DecidableEq κ] [DecidableEq π] [DecidableEq τ]

/-- `anonOutputLinks[pk] = index` on the `std::map`. -/
def assignLink (links : List (π × Int)) (pk : π) (index : Int) : List (π × Int) :=
  (pk, index) :: links.filter (·.1 ≠ pk)

/-- The output loop of `ConnectBlock` for one indexed transaction, from output `k` on: each RingCT
output takes the next index, after the checks "Duplicate anon-output" against the table and against
the view (skipped when `fVerifyingDB`). The repair of the index that the first check may start
before it fails is left out. -/
def indexOutputs (db : RctDB κ π γ τ) (fVerifyingDB : Bool) (txhash : τ) (nHeight : Nat) :
    Nat → List (TxOut π γ) → RctView κ π γ τ → Option (RctView κ π γ τ)
  | _, [], view => some view
  | k, .ringCT pk commitment :: vpout, view =>
    if !fVerifyingDB && (db.outputLinks pk).isSome then none
    else if !fVerifyingDB && (view.anonOutputLinks.lookup pk).isSome then none
    else
      indexOutputs db fVerifyingDB txhash nHeight (k + 1) vpout
        { view with
          nLastRCTOutput := view.nLastRCTOutput + 1
          anonOutputLinks := assignLink view.anonOutputLinks pk (view.nLastRCTOutput + 1)
          anonOutputs := view.anonOutputs ++
            [(view.nLastRCTOutput + 1, ⟨pk, commitment, (txhash, k), nHeight, 0⟩)] }
  | k, _ :: vpout, view => indexOutputs db fVerifyingDB txhash nHeight (k + 1) vpout view

/-- One transaction of the loop of `ConnectBlock`, as far as the RingCT index goes: the checks of
`otherChecks` (the coin view, the values, the scripts) and of `CheckInputs` against the key-image
table on disk, `nLastRCTOutput` started at `pprev->nAnonOutputs`, then under the flags the key images
and the RingCT outputs. -/
def connectTx (otherChecks : CTransaction κ π γ τ → Bool)
    (scriptExecutionCache : Transaction κ τ → Bool) (fVerify : Transaction κ τ → Bool)
    (fScriptChecks : Bool) (db : RctDB κ π γ τ) (fVerifyingDB : Bool) (pprevAnonOutputs : Int)
    (nHeight : Nat) (s : ConnectState κ π γ τ) (tx : CTransaction κ π γ τ) :
    Option (ConnectState κ π γ τ) :=
  if !otherChecks tx then none
  else if !tx.isCoinBase &&
      !checkInputs scriptExecutionCache db.keyImages fVerify fScriptChecks tx.toTransaction then none
  else
    let flags := anonFlags s tx
    let view := if s.view.nLastRCTOutput = 0 then
      { s.view with nLastRCTOutput := pprevAnonOutputs } else s.view
    if flags.1 || flags.2 then
      (indexOutputs db fVerifyingDB tx.txhash nHeight 0 tx.vpout
        { view with keyImages := view.keyImages ++ tx.keyImageEntries }).map
          fun view => ⟨view, flags.1, flags.2⟩
    else some ⟨view, flags.1, flags.2⟩

/-- The RingCT part of `ConnectBlock` on a new view, from the flags `state` holds; the view it
leaves, whose `nLastRCTOutput` becomes `pindex->nAnonOutputs`. -/
def connectBlock (otherChecks : CTransaction κ π γ τ → Bool)
    (scriptExecutionCache : Transaction κ τ → Bool) (fVerify : Transaction κ τ → Bool)
    (fScriptChecks : Bool) (db : RctDB κ π γ τ) (fVerifyingDB : Bool) (pprevAnonOutputs : Int)
    (nHeight : Nat) (flags : Bool × Bool) (vtx : List (CTransaction κ π γ τ)) :
    Option (RctView κ π γ τ) :=
  (vtx.foldlM (connectTx otherChecks scriptExecutionCache fVerify fScriptChecks db fVerifyingDB
    pprevAnonOutputs nHeight) ⟨RctView.empty, flags.1, flags.2⟩).map (·.view)

/-- The erasures of `FlushView(fDisconnecting = true)`. -/
def eraseView (db : RctDB κ π γ τ) (view : RctView κ π γ τ) : RctDB κ π γ τ :=
  view.anonOutputLinks.foldl
    (fun db p => { db with
      outputs := Function.update db.outputs p.2 none
      outputLinks := Function.update db.outputLinks p.1 none })
    { db with keyImages := view.keyImages.foldl (fun m p => Function.update m p.1 none) db.keyImages }

/-- The batch of `FlushView(fDisconnecting = false)`. -/
def writeView (db : RctDB κ π γ τ) (view : RctView κ π γ τ) : RctDB κ π γ τ where
  keyImages := RingCT.flushView db.keyImages view.keyImages
  outputs := view.anonOutputs.foldl (fun m p => Function.update m p.1 (some p.2)) db.outputs
  outputLinks := view.anonOutputLinks.foldl (fun m p => Function.update m p.1 (some p.2))
    db.outputLinks

/-- `FlushView(view, state, fDisconnecting)`: the tables after it, and the cleared view. -/
def flushView (db : RctDB κ π γ τ) (view : RctView κ π γ τ) (fDisconnecting : Bool) :
    RctDB κ π γ τ × RctView κ π γ τ :=
  (if fDisconnecting then eraseView db view else writeView db view, RctView.empty)

omit [DecidableEq τ] in
@[simp] theorem flushView_false (db : RctDB κ π γ τ) (view : RctView κ π γ τ) :
    (flushView db view false).1 = writeView db view := rfl

omit [DecidableEq τ] in
@[simp] theorem flushView_true (db : RctDB κ π γ τ) (view : RctView κ π γ τ) :
    (flushView db view true).1 = eraseView db view := rfl

omit [DecidableEq κ] [DecidableEq τ] in
/-- The erasures of the links, read field by field. -/
theorem foldl_eraseLink (links : List (π × Int)) (db : RctDB κ π γ τ) :
    links.foldl (fun db p => { db with
        outputs := Function.update db.outputs p.2 none
        outputLinks := Function.update db.outputLinks p.1 none }) db =
      ⟨db.keyImages, links.foldl (fun m p => Function.update m p.2 none) db.outputs,
        links.foldl (fun m p => Function.update m p.1 none) db.outputLinks⟩ := by
  induction links generalizing db with
  | nil => rfl
  | cons p links ih => exact ih _

omit [DecidableEq τ] in
theorem eraseView_keyImages (db : RctDB κ π γ τ) (view : RctView κ π γ τ) :
    (eraseView db view).keyImages =
      view.keyImages.foldl (fun (m : κ → Option τ) p => Function.update m p.1 none)
        db.keyImages := by
  rw [eraseView, foldl_eraseLink]

omit [DecidableEq τ] in
theorem eraseView_outputs (db : RctDB κ π γ τ) (view : RctView κ π γ τ) :
    (eraseView db view).outputs =
      view.anonOutputLinks.foldl
        (fun (m : Int → Option (CAnonOutput π γ τ)) p => Function.update m p.2 none) db.outputs := by
  rw [eraseView, foldl_eraseLink]

omit [DecidableEq τ] in
theorem eraseView_outputLinks (db : RctDB κ π γ τ) (view : RctView κ π γ τ) :
    (eraseView db view).outputLinks =
      view.anonOutputLinks.foldl (fun (m : π → Option Int) p => Function.update m p.1 none)
        db.outputLinks := by
  rw [eraseView, foldl_eraseLink]

/-- At the first RingCT output it meets, `DisconnectBlock` starts `nLastRCTOutput` at
`pindex->nAnonOutputs` and checks that the table holds this output there ("RCT output missing",
"RCT output mismatch"), unless `fForceDisconnect`. -/
def startUnindex (db : RctDB κ π γ τ) (nAnonOutputs : Int) (fForceDisconnect : Bool) (pk : π)
    (view : RctView κ π γ τ) : Option (RctView κ π γ τ) :=
  if view.nLastRCTOutput = 0 then
    match db.outputs nAnonOutputs with
    | none => if fForceDisconnect then some { view with nLastRCTOutput := nAnonOutputs } else none
    | some ao =>
      if ao.pubkey ≠ pk ∧ fForceDisconnect = false then none
      else some { view with nLastRCTOutput := nAnonOutputs }
  else some view

/-- The output loop of `DisconnectBlock`, over the outputs from the last: each RingCT output is
linked to `nLastRCTOutput`, which then goes down by one. -/
def unindexOutputs (db : RctDB κ π γ τ) (nAnonOutputs : Int) (fForceDisconnect : Bool) :
    List (TxOut π γ) → RctView κ π γ τ → Option (RctView κ π γ τ)
  | [], view => some view
  | .ringCT pk _ :: vpout, view => do
    let view ← startUnindex db nAnonOutputs fForceDisconnect pk view
    unindexOutputs db nAnonOutputs fForceDisconnect vpout
      { view with
        anonOutputLinks := assignLink view.anonOutputLinks pk view.nLastRCTOutput
        nLastRCTOutput := view.nLastRCTOutput - 1 }
  | _ :: vpout, view => unindexOutputs db nAnonOutputs fForceDisconnect vpout view

/-- One transaction of `DisconnectBlock`: the key images of its anon inputs, then its outputs from
the last. -/
def disconnectTx (db : RctDB κ π γ τ) (nAnonOutputs : Int) (fForceDisconnect : Bool)
    (view : RctView κ π γ τ) (tx : CTransaction κ π γ τ) : Option (RctView κ π γ τ) :=
  unindexOutputs db nAnonOutputs fForceDisconnect tx.vpout.reverse
    { view with keyImages := view.keyImages ++ tx.keyImageEntries }

/-- The RingCT part of `DisconnectBlock` on a new view: the transactions from the last. -/
def disconnectBlock (db : RctDB κ π γ τ) (nAnonOutputs : Int) (fForceDisconnect : Bool)
    (vtx : List (CTransaction κ π γ τ)) : Option (RctView κ π γ τ) :=
  vtx.reverse.foldlM (disconnectTx db nAnonOutputs fForceDisconnect) RctView.empty

end Model

/-! ## Connecting and disconnecting a block -/

section Undo

/-- The RingCT outputs of `vpout` from position `k` on, as `ConnectBlock` enters them. -/
def rctOutputs (txhash : τ) (nHeight : Nat) : Nat → List (TxOut π γ) → List (CAnonOutput π γ τ)
  | _, [] => []
  | k, .ringCT pk commitment :: vpout =>
    ⟨pk, commitment, (txhash, k), nHeight, 0⟩ :: rctOutputs txhash nHeight (k + 1) vpout
  | k, _ :: vpout => rctOutputs txhash nHeight (k + 1) vpout

/-- The RingCT outputs of a block, in transaction and output order. -/
def blockOutputs (nHeight : Nat) (vtx : List (CTransaction κ π γ τ)) : List (CAnonOutput π γ τ) :=
  vtx.flatMap fun tx => rctOutputs tx.txhash nHeight 0 tx.vpout

theorem rctOutputs_eq_nil {txhash : τ} {nHeight : Nat} :
    ∀ {k : Nat} {vpout : List (TxOut π γ)}, vpout.any TxOut.isRingCT = false →
      rctOutputs txhash nHeight k vpout = []
  | _, [], _ => rfl
  | _, .ringCT _ _ :: _, h => by simp [TxOut.isRingCT] at h
  | _, .standard :: _, h => by
    simp only [rctOutputs]
    exact rctOutputs_eq_nil (by simpa [TxOut.isRingCT] using h)
  | _, .ct :: _, h => by
    simp only [rctOutputs]
    exact rctOutputs_eq_nil (by simpa [TxOut.isRingCT] using h)
  | _, .other :: _, h => by
    simp only [rctOutputs]
    exact rctOutputs_eq_nil (by simpa [TxOut.isRingCT] using h)

theorem map_pubkey_rctOutputs {txhash : τ} {nHeight : Nat} :
    ∀ (k : Nat) (vpout : List (TxOut π γ)),
      (rctOutputs txhash nHeight k vpout).map (·.pubkey) = vpout.filterMap TxOut.ringCTKey?
  | _, [] => rfl
  | k, .ringCT pk _ :: vpout => by
    rw [rctOutputs, List.map_cons, map_pubkey_rctOutputs (k + 1) vpout]
    rfl
  | k, .standard :: vpout => by
    simp only [rctOutputs, map_pubkey_rctOutputs (k + 1) vpout]
    rfl
  | k, .ct :: vpout => by
    simp only [rctOutputs, map_pubkey_rctOutputs (k + 1) vpout]
    rfl
  | k, .other :: vpout => by
    simp only [rctOutputs, map_pubkey_rctOutputs (k + 1) vpout]
    rfl

/-- Where `ConnectBlock` indexes nothing of a transaction there is nothing to index: a RingCT
output raises `fHasAnonOutput`, an anon input `fHasAnonInput`, and a coinbase has no anon
input. -/
theorem nothing_of_anonFlags {s : ConnectState κ π γ τ} {tx : CTransaction κ π γ τ}
    (h : ((anonFlags s tx).1 || (anonFlags s tx).2) = false) :
    tx.vpout.any TxOut.isRingCT = false ∧ tx.keyImages = [] := by
  cases hcb : tx.isCoinBase
  · simp only [anonFlags, hcb, Bool.false_eq_true, if_false, Bool.or_eq_false_iff] at h
    exact ⟨h.1, Transaction.keyImages_eq_nil h.2⟩
  · refine ⟨?_, Transaction.keyImages_of_isCoinBase hcb⟩
    cases hbl : tx.hasBlindedValues
    · -- a RingCT output is blinded, so the coinbase has none
      simp only [CTransaction.hasBlindedValues, Bool.or_eq_false_iff] at hbl
      simp only [List.any_eq_false] at hbl ⊢
      intro out hout hring
      have hblind := hbl.2 out hout
      cases out <;> simp [TxOut.isRingCT, TxOut.isBlinded] at hring hblind
    · simp only [anonFlags, hcb, hbl, if_true, Bool.or_eq_false_iff] at h
      exact h.1.2

variable [DecidableEq π]

/-- `ConnectBlock` entering one RingCT output under the next index. -/
def RctView.push (view : RctView κ π γ τ) (ao : CAnonOutput π γ τ) : RctView κ π γ τ :=
  { view with
    nLastRCTOutput := view.nLastRCTOutput + 1
    anonOutputLinks := assignLink view.anonOutputLinks ao.pubkey (view.nLastRCTOutput + 1)
    anonOutputs := view.anonOutputs ++ [(view.nLastRCTOutput + 1, ao)] }

/-- `DisconnectBlock` linking one RingCT output to the current index and stepping down. -/
def RctView.pull (view : RctView κ π γ τ) (pk : π) : RctView κ π γ τ :=
  { view with
    anonOutputLinks := assignLink view.anonOutputLinks pk view.nLastRCTOutput
    nLastRCTOutput := view.nLastRCTOutput - 1 }

/-- The pairs `(a, i), (a', i + 1), …` of a list numbered upwards from `i`. -/
def linksUp {α : Type} : Int → List α → List (α × Int)
  | _, [] => []
  | i, pk :: pks => (pk, i) :: linksUp (i + 1) pks

/-- The pairs `(a, i), (a', i - 1), …` of a list numbered downwards from `i`. -/
def linksDown {α : Type} : Int → List α → List (α × Int)
  | _, [] => []
  | i, pk :: pks => (pk, i) :: linksDown (i - 1) pks

theorem lookup_isSome_iff {l : List (π × Int)} {pk : π} :
    (l.lookup pk).isSome ↔ pk ∈ l.map Prod.fst := by
  induction l with
  | nil => simp
  | cons p l ih =>
    obtain ⟨k, i⟩ := p
    rw [List.lookup_cons]
    by_cases hk : pk = k
    · subst hk
      simp
    · have hbeq : (pk == k) = false := beq_eq_false_iff_ne.mpr hk
      simp only [hbeq, ih, List.map_cons, List.mem_cons, hk, false_or]

theorem mem_keys_assignLink {links : List (π × Int)} {pk x : π} {index : Int} :
    x ∈ (assignLink links pk index).map Prod.fst ↔ x = pk ∨ x ∈ links.map Prod.fst := by
  by_cases hx : x = pk
  · simp [assignLink, hx]
  · simp [assignLink, hx]

/-- A key not linked yet is linked in front, the other links kept. -/
theorem assignLink_of_not_mem {links : List (π × Int)} {pk : π} (h : pk ∉ links.map Prod.fst)
    (index : Int) : assignLink links pk index = (pk, index) :: links := by
  rw [assignLink, List.filter_eq_self.mpr]
  intro p hp
  have hne : p.1 ≠ pk := fun he => h (List.mem_map.mpr ⟨p, hp, he⟩)
  simpa using hne

theorem linksUp_append {α : Type} (i : Int) (l : List α) (a : α) :
    linksUp i (l ++ [a]) = linksUp i l ++ [(a, i + l.length)] := by
  induction l generalizing i with
  | nil => simp [linksUp]
  | cons b l ih =>
    rw [List.cons_append, linksUp, linksUp, ih, List.length_cons, List.cons_append]
    have hi : i + 1 + (l.length : Int) = i + ((l.length + 1 : Nat) : Int) := by omega
    rw [hi]

theorem map_fst_linksUp {α : Type} (i : Int) (l : List α) : (linksUp i l).map Prod.fst = l := by
  induction l generalizing i with
  | nil => rfl
  | cons a l ih => rw [linksUp, List.map_cons, ih]

theorem mem_map_snd_linksUp {α : Type} (i : Int) (l : List α) (x : Int) :
    x ∈ (linksUp i l).map Prod.snd ↔ i ≤ x ∧ x < i + l.length := by
  induction l generalizing i with
  | nil => simp [linksUp]
  | cons a l ih =>
    rw [linksUp, List.map_cons, List.mem_cons, ih, List.length_cons]
    omega

theorem nodup_map_snd_linksUp {α : Type} (i : Int) (l : List α) :
    ((linksUp i l).map Prod.snd).Nodup := by
  induction l generalizing i with
  | nil => exact List.nodup_nil
  | cons a l ih =>
    rw [linksUp, List.map_cons, List.nodup_cons, mem_map_snd_linksUp]
    exact ⟨by omega, ih (i + 1)⟩

theorem linksDown_append {α : Type} (i : Int) (l : List α) (pk : α) :
    linksDown i (l ++ [pk]) = linksDown i l ++ [(pk, i - l.length)] := by
  induction l generalizing i with
  | nil => simp [linksDown]
  | cons b l ih =>
    rw [List.cons_append, linksDown, linksDown, ih, List.length_cons, List.cons_append]
    have hi : i - 1 - (l.length : Int) = i - ((l.length + 1 : Nat) : Int) := by omega
    rw [hi]

/-- Numbering the keys down from the last index lists the pairs of numbering them up,
backwards: `DisconnectBlock` links each key to the index `ConnectBlock` gave it. -/
theorem linksDown_reverse {α : Type} (i : Int) (l : List α) :
    linksDown (i + l.length - 1) l.reverse = (linksUp i l).reverse := by
  induction l generalizing i with
  | nil => rfl
  | cons pk l ih =>
    rw [List.reverse_cons, linksDown_append, linksUp, List.reverse_cons, List.length_reverse]
    have hi : i + (l.length + 1 : Nat) - 1 = (i + 1) + l.length - 1 := by omega
    rw [List.length_cons, hi, ih]
    have hi' : i + 1 + (l.length : Int) - 1 - (l.length : Int) = i := by omega
    rw [hi']

/-! ### The two loops over the RingCT outputs -/

theorem foldl_push_nLastRCTOutput (aos : List (CAnonOutput π γ τ)) (view : RctView κ π γ τ) :
    (aos.foldl RctView.push view).nLastRCTOutput = view.nLastRCTOutput + aos.length := by
  induction aos generalizing view with
  | nil => simp
  | cons ao aos ih =>
    rw [List.foldl_cons, ih, List.length_cons]
    dsimp only [RctView.push]
    omega

theorem foldl_push_keyImages (aos : List (CAnonOutput π γ τ)) (view : RctView κ π γ τ) :
    (aos.foldl RctView.push view).keyImages = view.keyImages := by
  induction aos generalizing view with
  | nil => rfl
  | cons ao aos ih => rw [List.foldl_cons, ih]; rfl

theorem foldl_push_anonOutputs (aos : List (CAnonOutput π γ τ)) (view : RctView κ π γ τ) :
    (aos.foldl RctView.push view).anonOutputs =
      view.anonOutputs ++ (linksUp (view.nLastRCTOutput + 1) aos).map Prod.swap := by
  induction aos generalizing view with
  | nil => simp [linksUp]
  | cons ao aos ih =>
    rw [List.foldl_cons, ih]
    simp only [RctView.push, linksUp, List.map_cons, List.append_assoc, List.singleton_append,
      Prod.swap_prod_mk]

/-- With keys new to the view and distinct, each output is linked in front. -/
theorem foldl_push_anonOutputLinks (aos : List (CAnonOutput π γ τ)) (view : RctView κ π γ τ)
    (hnodup : (aos.map (·.pubkey)).Nodup)
    (hnew : ∀ ao ∈ aos, ao.pubkey ∉ view.anonOutputLinks.map Prod.fst) :
    (aos.foldl RctView.push view).anonOutputLinks =
      (linksUp (view.nLastRCTOutput + 1) (aos.map (·.pubkey))).reverse ++ view.anonOutputLinks := by
  induction aos generalizing view with
  | nil => simp [linksUp]
  | cons ao aos ih =>
    rw [List.map_cons, List.nodup_cons] at hnodup
    have hrest : ∀ ao' ∈ aos, ao'.pubkey ∉ (view.push ao).anonOutputLinks.map Prod.fst := by
      intro ao' hao' hmem
      rw [RctView.push, mem_keys_assignLink] at hmem
      rcases hmem with heq | hmem
      · exact hnodup.1 (heq ▸ List.mem_map_of_mem hao')
      · exact hnew ao' (List.mem_cons_of_mem _ hao') hmem
    rw [List.foldl_cons, ih _ hnodup.2 hrest, List.map_cons, linksUp, List.reverse_cons,
      List.append_assoc]
    simp only [RctView.push, assignLink_of_not_mem (hnew ao List.mem_cons_self), List.singleton_append]

/-- With keys new to the view and distinct, each key is linked in front. -/
theorem foldl_pull_anonOutputLinks (pks : List π) (view : RctView κ π γ τ) (hnodup : pks.Nodup)
    (hnew : ∀ pk ∈ pks, pk ∉ view.anonOutputLinks.map Prod.fst) :
    (pks.foldl RctView.pull view).anonOutputLinks =
      (linksDown view.nLastRCTOutput pks).reverse ++ view.anonOutputLinks := by
  induction pks generalizing view with
  | nil => simp [linksDown]
  | cons pk pks ih =>
    rw [List.nodup_cons] at hnodup
    have hrest : ∀ pk' ∈ pks, pk' ∉ (view.pull pk).anonOutputLinks.map Prod.fst := by
      intro pk' hpk' hmem
      rw [RctView.pull, mem_keys_assignLink] at hmem
      rcases hmem with heq | hmem
      · exact hnodup.1 (heq ▸ hpk')
      · exact hnew pk' (List.mem_cons_of_mem _ hpk') hmem
    rw [List.foldl_cons, ih _ hnodup.2 hrest, linksDown, List.reverse_cons, List.append_assoc]
    simp only [RctView.pull, assignLink_of_not_mem (hnew pk List.mem_cons_self),
      List.singleton_append]

/-- The output loop of `ConnectBlock` enters the transaction's RingCT outputs one after the
other, each key new to the table and to the view. -/
theorem indexOutputs_eq_some {db : RctDB κ π γ τ} {txhash : τ} {nHeight : Nat} :
    ∀ {k : Nat} {vpout : List (TxOut π γ)} {view view' : RctView κ π γ τ},
      indexOutputs db false txhash nHeight k vpout view = some view' →
      view' = (rctOutputs txhash nHeight k vpout).foldl RctView.push view ∧
      (∀ ao ∈ rctOutputs txhash nHeight k vpout, db.outputLinks ao.pubkey = none ∧
        ao.pubkey ∉ view.anonOutputLinks.map Prod.fst) ∧
      ((rctOutputs txhash nHeight k vpout).map (·.pubkey)).Nodup
  | _, [], _, _, h => by
    cases h
    exact ⟨rfl, by simp [rctOutputs], by simp [rctOutputs]⟩
  | k, .ringCT pk commitment :: vpout, view, view', h => by
    simp only [indexOutputs, Bool.not_false, Bool.true_and] at h
    split_ifs at h with hdb hview
    obtain ⟨hv', hfresh, hnodup⟩ := indexOutputs_eq_some h
    have hdb' : db.outputLinks pk = none := by simpa using hdb
    have hview' : pk ∉ view.anonOutputLinks.map Prod.fst := fun hmem =>
      hview (lookup_isSome_iff.mpr hmem)
    refine ⟨by rw [rctOutputs, List.foldl_cons]; exact hv', ?_, ?_⟩
    · intro ao hao
      rw [rctOutputs, List.mem_cons] at hao
      rcases hao with rfl | hao
      · exact ⟨hdb', hview'⟩
      · obtain ⟨hdbao, hnew⟩ := hfresh ao hao
        refine ⟨hdbao, fun hmem => hnew ?_⟩
        exact mem_keys_assignLink.mpr (Or.inr hmem)
    · rw [rctOutputs, List.map_cons, List.nodup_cons]
      refine ⟨fun hmem => ?_, hnodup⟩
      obtain ⟨ao, hao, hpk⟩ := List.mem_map.mp hmem
      exact (hfresh ao hao).2 (mem_keys_assignLink.mpr (Or.inl hpk))
  | k, .standard :: vpout, view, view', h => by
    simp only [indexOutputs] at h
    simpa only [rctOutputs] using indexOutputs_eq_some h
  | k, .ct :: vpout, view, view', h => by
    simp only [indexOutputs] at h
    simpa only [rctOutputs] using indexOutputs_eq_some h
  | k, .other :: vpout, view, view', h => by
    simp only [indexOutputs] at h
    simpa only [rctOutputs] using indexOutputs_eq_some h

theorem foldl_push_setKeyImages (aos : List (CAnonOutput π γ τ)) (view : RctView κ π γ τ)
    (keyImages : List (κ × τ)) :
    aos.foldl RctView.push { view with keyImages := keyImages } =
      { aos.foldl RctView.push view with keyImages := keyImages } := by
  induction aos generalizing view with
  | nil => rfl
  | cons ao aos ih => exact ih (view.push ao)

/-- `nLastRCTOutput` as `ConnectBlock` leaves it after a transaction: not negative, and `0`
only where the count of `pprev` is `0` as well, so that the next transaction does not start
it again. -/
def Started (pprevAnonOutputs : Int) (view : RctView κ π γ τ) : Prop :=
  0 ≤ view.nLastRCTOutput ∧ (view.nLastRCTOutput = 0 → pprevAnonOutputs = 0)

omit [DecidableEq π] in
theorem start_of_started {pprevAnonOutputs : Int} {view : RctView κ π γ τ} (h : Started pprevAnonOutputs view) :
    (if view.nLastRCTOutput = 0 then { view with nLastRCTOutput := pprevAnonOutputs } else view) =
      view := by
  split_ifs with h0
  · rw [h.2 h0, ← h0]
  · rfl

theorem started_foldl_push {pprevAnonOutputs : Int} {view : RctView κ π γ τ} (h : Started pprevAnonOutputs view)
    (aos : List (CAnonOutput π γ τ)) : Started pprevAnonOutputs (aos.foldl RctView.push view) := by
  unfold Started at h ⊢
  rw [foldl_push_nLastRCTOutput]
  omega

/-- The RingCT part of `DisconnectBlock` over the keys of the outputs, in the order it meets
them. -/
def unindexKeys (db : RctDB κ π γ τ) (nAnonOutputs : Int) (fForceDisconnect : Bool) :
    List π → RctView κ π γ τ → Option (RctView κ π γ τ)
  | [], view => some view
  | pk :: pks, view => (startUnindex db nAnonOutputs fForceDisconnect pk view).bind fun view =>
    unindexKeys db nAnonOutputs fForceDisconnect pks (view.pull pk)

section Disconnect

variable {db : RctDB κ π γ τ} {nAnonOutputs : Int} {fForceDisconnect : Bool}

theorem unindexOutputs_eq_unindexKeys :
    ∀ (vpout : List (TxOut π γ)) (view : RctView κ π γ τ),
      unindexOutputs db nAnonOutputs fForceDisconnect vpout view =
        unindexKeys db nAnonOutputs fForceDisconnect (vpout.filterMap TxOut.ringCTKey?) view
  | [], _ => rfl
  | .ringCT pk _ :: vpout, view => by
    simp only [unindexOutputs, List.filterMap_cons, TxOut.ringCTKey?, unindexKeys]
    congr 1
    funext view'
    exact unindexOutputs_eq_unindexKeys vpout _
  | .standard :: vpout, view => unindexOutputs_eq_unindexKeys vpout view
  | .ct :: vpout, view => unindexOutputs_eq_unindexKeys vpout view
  | .other :: vpout, view => unindexOutputs_eq_unindexKeys vpout view

theorem unindexKeys_append (l₁ l₂ : List π) (view : RctView κ π γ τ) :
    unindexKeys db nAnonOutputs fForceDisconnect (l₁ ++ l₂) view =
      (unindexKeys db nAnonOutputs fForceDisconnect l₁ view).bind
        (unindexKeys db nAnonOutputs fForceDisconnect l₂) := by
  induction l₁ generalizing view with
  | nil => rfl
  | cons pk l₁ ih =>
    simp only [List.cons_append, unindexKeys, Option.bind_assoc]
    congr 1
    funext view'
    exact ih _

/-- The key images do not take part in the walk over the outputs. -/
theorem unindexKeys_setKeyImages (l : List π) (view : RctView κ π γ τ)
    (keyImages : List (κ × τ)) :
    unindexKeys db nAnonOutputs fForceDisconnect l { view with keyImages := keyImages } =
      (unindexKeys db nAnonOutputs fForceDisconnect l view).map
        fun view' => { view' with keyImages := keyImages } := by
  induction l generalizing view with
  | nil => rfl
  | cons pk l ih =>
    have hstart : startUnindex db nAnonOutputs fForceDisconnect pk { view with keyImages := keyImages } =
        (startUnindex db nAnonOutputs fForceDisconnect pk view).map
          fun view' => { view' with keyImages := keyImages } := by
      unfold startUnindex
      split_ifs <;> (try split) <;> (try split_ifs) <;> rfl
    simp only [unindexKeys, hstart, Option.bind_map, Option.map_bind]
    congr 1
    funext view'
    exact ih (view'.pull pk)

/-- `DisconnectBlock` over the transactions from the last is one walk over their keys, each
transaction's from its last output, with the key images collected beside it. -/
theorem foldlM_disconnectTx :
    ∀ (L : List (CTransaction κ π γ τ)) (view : RctView κ π γ τ),
      L.foldlM (disconnectTx db nAnonOutputs fForceDisconnect) view =
        (unindexKeys db nAnonOutputs fForceDisconnect
          (L.flatMap fun tx => (tx.vpout.filterMap TxOut.ringCTKey?).reverse) view).map
          fun view' => { view' with keyImages := view.keyImages ++ L.flatMap (·.keyImageEntries) }
  | [], view => by
    simp only [List.foldlM_nil, List.flatMap_nil, unindexKeys, List.append_nil, Option.map_some]
    rfl
  | tx :: L, view => by
    rw [List.foldlM_cons, List.flatMap_cons, List.flatMap_cons, unindexKeys_append, disconnectTx,
      unindexOutputs_eq_unindexKeys, List.filterMap_reverse, unindexKeys_setKeyImages]
    simp only [Option.bind_eq_bind, Option.bind_map, Option.map_bind]
    congr 1
    funext view'
    simp only [Function.comp_apply]
    rw [foldlM_disconnectTx L, unindexKeys_setKeyImages, Option.map_map]
    congr 1
    funext view''
    simp only [Function.comp_apply, List.append_assoc]

/-- Once `nLastRCTOutput` is started above the number of keys left, no check is made again. -/
theorem unindexKeys_of_le :
    ∀ (l : List π) (view : RctView κ π γ τ), (l.length : Int) ≤ view.nLastRCTOutput →
      unindexKeys db nAnonOutputs fForceDisconnect l view = some (l.foldl RctView.pull view)
  | [], _, _ => rfl
  | pk :: l, view, h => by
    rw [List.length_cons] at h
    have hne : view.nLastRCTOutput ≠ 0 := by omega
    rw [unindexKeys, startUnindex, if_neg hne, Option.bind_some, List.foldl_cons]
    exact unindexKeys_of_le l _ (by dsimp only [RctView.pull]; omega)

/-- The first key met starts `nLastRCTOutput` at `pindex->nAnonOutputs`, where the table holds
its output. -/
theorem unindexKeys_start {pk : π} {l : List π} {view : RctView κ π γ τ}
    {ao : CAnonOutput π γ τ} (h0 : view.nLastRCTOutput = 0) (hdb : db.outputs nAnonOutputs = some ao)
    (hpk : ao.pubkey = pk) (hlen : (l.length : Int) < nAnonOutputs) :
    unindexKeys db nAnonOutputs false (pk :: l) view =
      some ((pk :: l).foldl RctView.pull { view with nLastRCTOutput := nAnonOutputs }) := by
  rw [unindexKeys, startUnindex, if_pos h0, hdb]
  simp only [hpk, ne_eq, not_true_eq_false, false_and, if_false, Option.bind_some]
  rw [List.foldl_cons]
  exact unindexKeys_of_le l _ (by dsimp only [RctView.pull]; omega)

end Disconnect

section Connect

variable [DecidableEq κ] [DecidableEq τ]
variable {otherChecks : CTransaction κ π γ τ → Bool} {scriptExecutionCache : Transaction κ τ → Bool}
  {fVerify : Transaction κ τ → Bool} {fScriptChecks : Bool} {db : RctDB κ π γ τ}
  {pprevAnonOutputs : Int} {nHeight : Nat}

/-- One transaction of `ConnectBlock`: its key images and then its RingCT outputs enter the
view, each output under a key new to the table and to the view. -/
theorem connectTx_eq_some {s s' : ConnectState κ π γ τ} {tx : CTransaction κ π γ τ}
    (h : connectTx otherChecks scriptExecutionCache fVerify fScriptChecks db false
      pprevAnonOutputs nHeight s tx = some s') :
    s'.view = (rctOutputs tx.txhash nHeight 0 tx.vpout).foldl RctView.push
        { (if s.view.nLastRCTOutput = 0 then { s.view with nLastRCTOutput := pprevAnonOutputs }
            else s.view) with keyImages := s.view.keyImages ++ tx.keyImageEntries } ∧
      (∀ ao ∈ rctOutputs tx.txhash nHeight 0 tx.vpout, db.outputLinks ao.pubkey = none ∧
        ao.pubkey ∉ s.view.anonOutputLinks.map Prod.fst) ∧
      ((rctOutputs tx.txhash nHeight 0 tx.vpout).map (·.pubkey)).Nodup := by
  simp only [connectTx] at h
  -- `nLastRCTOutput` started or not, the links and the key images are those of `s.view`
  have hlinks : (if s.view.nLastRCTOutput = 0 then { s.view with nLastRCTOutput := pprevAnonOutputs }
      else s.view).anonOutputLinks = s.view.anonOutputLinks := by
    split_ifs <;> rfl
  have hkeys : (if s.view.nLastRCTOutput = 0 then { s.view with nLastRCTOutput := pprevAnonOutputs }
      else s.view).keyImages = s.view.keyImages := by
    split_ifs <;> rfl
  generalize (if s.view.nLastRCTOutput = 0 then { s.view with nLastRCTOutput := pprevAnonOutputs }
      else s.view) = view at h hlinks hkeys ⊢
  split_ifs at h with hother hinputs hflags
  · obtain ⟨v, hv, rfl⟩ := Option.map_eq_some_iff.mp h
    obtain ⟨hv', hfresh, hnodup⟩ := indexOutputs_eq_some hv
    rw [← hkeys]
    refine ⟨hv', fun ao hao => ?_, hnodup⟩
    rw [← hlinks]
    exact hfresh ao hao
  · cases h
    obtain ⟨hring, hki⟩ := nothing_of_anonFlags (Bool.eq_false_iff.mpr hflags)
    rw [rctOutputs_eq_nil hring, ← hkeys]
    simp [Transaction.keyImageEntries, hki]

/-- The transactions of a block from a started `nLastRCTOutput` on: each one adds its key
images and its outputs, under keys new to the table, to the view and to each other. -/
theorem connectLoop_eq_some :
    ∀ {vtx : List (CTransaction κ π γ τ)} {s s' : ConnectState κ π γ τ},
      Started pprevAnonOutputs s.view →
      vtx.foldlM (connectTx otherChecks scriptExecutionCache fVerify fScriptChecks db false
        pprevAnonOutputs nHeight) s = some s' →
      s'.view = (blockOutputs nHeight vtx).foldl RctView.push
          { s.view with keyImages := s.view.keyImages ++ vtx.flatMap (·.keyImageEntries) } ∧
        (∀ ao ∈ blockOutputs nHeight vtx, db.outputLinks ao.pubkey = none ∧
          ao.pubkey ∉ s.view.anonOutputLinks.map Prod.fst) ∧
        ((blockOutputs nHeight vtx).map (·.pubkey)).Nodup
  | [], s, s', _, h => by
    cases h
    simp [blockOutputs]
  | tx :: vtx, s, s', hs, h => by
    rw [List.foldlM_cons] at h
    obtain ⟨s1, h1, hrest⟩ := Option.bind_eq_some_iff.mp h
    obtain ⟨hv1, hfresh1, hnodup1⟩ := connectTx_eq_some h1
    rw [start_of_started hs, foldl_push_setKeyImages] at hv1
    have hs1 : Started pprevAnonOutputs s1.view := by
      rw [hv1]
      exact started_foldl_push hs _
    obtain ⟨hv, hfresh, hnodup⟩ := connectLoop_eq_some hs1 hrest
    have hlinks1 : s1.view.anonOutputLinks =
        (linksUp (s.view.nLastRCTOutput + 1)
          ((rctOutputs tx.txhash nHeight 0 tx.vpout).map (·.pubkey))).reverse ++
          s.view.anonOutputLinks := by
      rw [hv1]
      exact foldl_push_anonOutputLinks _ _ hnodup1 fun ao hao => (hfresh1 ao hao).2
    refine ⟨?_, fun ao hao => ?_, ?_⟩
    · -- the first transaction's key images and outputs, then the others'
      have hcomb : { s1.view with keyImages := s1.view.keyImages ++ vtx.flatMap (·.keyImageEntries) } =
          (rctOutputs tx.txhash nHeight 0 tx.vpout).foldl RctView.push
            { s.view with keyImages :=
                s.view.keyImages ++ (tx.keyImageEntries ++ vtx.flatMap (·.keyImageEntries)) } := by
        simp only [foldl_push_setKeyImages, hv1, List.append_assoc]
      rw [hv, hcomb, ← List.foldl_append]
      rfl
    · rw [blockOutputs, List.flatMap_cons, List.mem_append, ← blockOutputs] at hao
      rcases hao with hao | hao
      · exact hfresh1 ao hao
      · refine ⟨(hfresh ao hao).1, fun hmem => (hfresh ao hao).2 ?_⟩
        rw [hlinks1, List.map_append]
        exact List.mem_append_right _ hmem
    · rw [blockOutputs, List.flatMap_cons, List.map_append, List.nodup_append, ← blockOutputs]
      refine ⟨hnodup1, hnodup, fun a ha b hb hab => ?_⟩
      obtain ⟨ao, hao, rfl⟩ := List.mem_map.mp hb
      refine (hfresh ao hao).2 ?_
      rw [hlinks1, List.map_append, List.map_reverse, map_fst_linksUp]
      exact List.mem_append_left _ (List.mem_reverse.mpr (hab ▸ ha))

/-- The first transaction starts `nLastRCTOutput` of a new view at the count of `pprev`, as if
the view had been started there. -/
theorem connectTx_empty {f₁ f₂ : Bool} {tx : CTransaction κ π γ τ} :
    connectTx otherChecks scriptExecutionCache fVerify fScriptChecks db false pprevAnonOutputs
        nHeight ⟨RctView.empty, f₁, f₂⟩ tx =
      connectTx otherChecks scriptExecutionCache fVerify fScriptChecks db false pprevAnonOutputs
        nHeight ⟨⟨pprevAnonOutputs, [], [], []⟩, f₁, f₂⟩ tx := by
  simp only [connectTx, anonFlags, RctView.empty, if_pos, ite_self]

/-- `ConnectBlock` numbers the RingCT outputs of the block from `pprev->nAnonOutputs + 1` on,
in transaction and output order, under keys new to the table and distinct, and records every
key image of the block. -/
theorem connectBlock_eq_some (hprev : 0 ≤ pprevAnonOutputs) {flags : Bool × Bool}
    {vtx : List (CTransaction κ π γ τ)} {view : RctView κ π γ τ} (hne : vtx ≠ [])
    (h : connectBlock otherChecks scriptExecutionCache fVerify fScriptChecks db false
      pprevAnonOutputs nHeight flags vtx = some view) :
    view = (blockOutputs nHeight vtx).foldl RctView.push
        ⟨pprevAnonOutputs, [], [], vtx.flatMap (·.keyImageEntries)⟩ ∧
      (∀ ao ∈ blockOutputs nHeight vtx, db.outputLinks ao.pubkey = none) ∧
      ((blockOutputs nHeight vtx).map (·.pubkey)).Nodup := by
  obtain ⟨tx, rest, rfl⟩ := List.exists_cons_of_ne_nil hne
  obtain ⟨s', hs', rfl⟩ := Option.map_eq_some_iff.mp h
  rw [List.foldlM_cons, connectTx_empty, ← List.foldlM_cons] at hs'
  obtain ⟨hv, hfresh, hnodup⟩ :=
    connectLoop_eq_some (s := ⟨⟨pprevAnonOutputs, [], [], []⟩, flags.1, flags.2⟩) ⟨hprev, id⟩ hs'
  exact ⟨hv, fun ao hao => (hfresh ao hao).1, hnodup⟩

/-- After `ConnectBlock` and its flush, `DisconnectBlock` meets the block's RingCT outputs
from the last, starts at the index the last one was given and links every output to the
index `ConnectBlock` gave it; it collects every key image of the block. -/
theorem disconnectBlock_of_connectBlock (hprev : 0 ≤ pprevAnonOutputs) {flags : Bool × Bool}
    {vtx : List (CTransaction κ π γ τ)} {view : RctView κ π γ τ} (hne : vtx ≠ [])
    (hconn : connectBlock otherChecks scriptExecutionCache fVerify fScriptChecks db false
      pprevAnonOutputs nHeight flags vtx = some view) :
    ∃ view', disconnectBlock (flushView db view false).1 view.nLastRCTOutput false vtx = some view' ∧
      view'.anonOutputLinks =
        linksUp (pprevAnonOutputs + 1) ((blockOutputs nHeight vtx).map (·.pubkey)) ∧
      view'.keyImages = vtx.reverse.flatMap (·.keyImageEntries) := by
  obtain ⟨hview, -, hnodup⟩ := connectBlock_eq_some hprev hne hconn
  -- the keys `DisconnectBlock` meets are the block's, backwards
  have hkeys : (vtx.reverse.flatMap fun tx => (tx.vpout.filterMap TxOut.ringCTKey?).reverse) =
      ((blockOutputs nHeight vtx).map (·.pubkey)).reverse := by
    rw [List.flatMap_reverse, blockOutputs, List.map_flatMap]
    simp only [Function.comp_def, List.reverse_reverse, map_pubkey_rctOutputs]
  rw [disconnectBlock, foldlM_disconnectTx, hkeys]
  rcases List.eq_nil_or_concat (blockOutputs nHeight vtx) with hnil | ⟨aos, ao, happ⟩
  · simp only [hnil, List.map_nil, List.reverse_nil, unindexKeys, Option.map_some]
    exact ⟨_, rfl, rfl, rfl⟩
  · rw [List.concat_eq_append] at happ
    rw [happ] at hview hnodup ⊢
    have hlast : view.nLastRCTOutput = pprevAnonOutputs + 1 + aos.length := by
      rw [hview, foldl_push_nLastRCTOutput, List.length_append, List.length_singleton]
      push_cast
      omega
    -- the table holds the last output at the index `pindex->nAnonOutputs`
    have hdb : (flushView db view false).1.outputs view.nLastRCTOutput = some ao := by
      have hmem : (view.nLastRCTOutput, ao) ∈ view.anonOutputs := by
        rw [hlast, hview, foldl_push_anonOutputs, linksUp_append]
        simp
      have hkeys : (view.anonOutputs.map Prod.fst).Nodup := by
        rw [hview, foldl_push_anonOutputs, List.nil_append, List.map_map]
        exact nodup_map_snd_linksUp _ _
      exact UpdateFold.foldl_update_of_mem Prod.fst (fun p => some p.2) hkeys hmem _
    rw [List.map_append, List.map_singleton, List.reverse_append, List.reverse_singleton,
      List.singleton_append, unindexKeys_start rfl hdb rfl (by rw [hlast]; simp; omega)]
    refine ⟨_, rfl, ?_, rfl⟩
    -- numbering down from the last index lists the links numbered up
    have hrev : ao.pubkey :: (aos.map (·.pubkey)).reverse =
        ((aos ++ [ao]).map (·.pubkey)).reverse := by
      simp
    have hm : view.nLastRCTOutput =
        pprevAnonOutputs + 1 + (((aos ++ [ao]).map (·.pubkey)).length : Int) - 1 := by
      rw [hlast]
      simp
      omega
    dsimp only
    rw [hrev, foldl_pull_anonOutputLinks _ _ (List.nodup_reverse.mpr hnodup)
      (fun _ _ h => by simp [RctView.empty] at h)]
    dsimp only
    rw [hm, linksDown_reverse, List.reverse_reverse]
    simp [RctView.empty]

/-- `DisconnectBlock` and `FlushView(true)` undo `ConnectBlock` and its flush: the links of the
table come back, its outputs too but those numbered from `pprev->nAnonOutputs + 1` to
`pindex->nAnonOutputs`, which are erased, and its key images but the block's, which are erased
whatever the table held under them before. -/
theorem disconnectBlock_connectBlock (hprev : 0 ≤ pprevAnonOutputs) {flags : Bool × Bool}
    {vtx : List (CTransaction κ π γ τ)} {view : RctView κ π γ τ}
    (hconn : connectBlock otherChecks scriptExecutionCache fVerify fScriptChecks db false
      pprevAnonOutputs nHeight flags vtx = some view) :
    ∃ view', disconnectBlock (flushView db view false).1 view.nLastRCTOutput false vtx = some view' ∧
      (flushView (flushView db view false).1 view' true).1.outputLinks = db.outputLinks ∧
      (∀ i, (flushView (flushView db view false).1 view' true).1.outputs i =
        if pprevAnonOutputs < i ∧ i ≤ view.nLastRCTOutput then none else db.outputs i) ∧
      (∀ ki, (flushView (flushView db view false).1 view' true).1.keyImages ki =
        if ki ∈ vtx.flatMap (·.keyImages) then none else db.keyImages ki) := by
  by_cases hnil : vtx = []
  · -- an empty block leaves an empty view, and both flushes write nothing
    subst hnil
    obtain rfl : RctView.empty = view := Option.some.inj hconn
    refine ⟨RctView.empty, rfl, rfl, fun i => ?_, fun ki => ?_⟩
    · rw [if_neg (by simp only [RctView.empty]; omega)]
      rfl
    · rw [List.flatMap_nil, if_neg List.not_mem_nil]
      rfl
  obtain ⟨hview, hfresh, hnodup⟩ := connectBlock_eq_some hprev hnil hconn
  obtain ⟨view', hdis, hlinks', hki'⟩ := disconnectBlock_of_connectBlock hprev hnil hconn
  refine ⟨view', hdis, ?_, fun i => ?_, fun ki => ?_⟩
  · -- a link is erased exactly where the connect flush wrote one, under a key new to the table
    funext pk
    have hlinks : view.anonOutputLinks.map Prod.fst =
        ((blockOutputs nHeight vtx).map (·.pubkey)).reverse := by
      rw [hview, foldl_push_anonOutputLinks _ _ hnodup (fun _ _ h => by simp at h),
        List.append_nil, List.map_reverse, map_fst_linksUp]
    rw [flushView_true, eraseView_outputLinks, UpdateFold.foldl_update_const, hlinks',
      map_fst_linksUp]
    split_ifs with hpk
    · obtain ⟨ao, hao, rfl⟩ := List.mem_map.mp hpk
      exact (hfresh ao hao).symm
    · rw [flushView_false, writeView]
      exact UpdateFold.foldl_update_of_not_mem Prod.fst _ (by rwa [hlinks, List.mem_reverse]) _
  · -- the outputs are written and erased at the same indices
    have hlast : view.nLastRCTOutput = pprevAnonOutputs + (blockOutputs nHeight vtx).length := by
      rw [hview, foldl_push_nLastRCTOutput]
    have houts : view.anonOutputs.map Prod.fst =
        (linksUp (pprevAnonOutputs + 1) (blockOutputs nHeight vtx)).map Prod.snd := by
      rw [hview, foldl_push_anonOutputs, List.nil_append, List.map_map]
      rfl
    have hrange : i ∈ (linksUp (pprevAnonOutputs + 1)
        ((blockOutputs nHeight vtx).map (·.pubkey))).map Prod.snd ↔
        pprevAnonOutputs < i ∧ i ≤ view.nLastRCTOutput := by
      rw [mem_map_snd_linksUp, List.length_map, hlast]
      omega
    rw [flushView_true, eraseView_outputs, UpdateFold.foldl_update_const, hlinks']
    by_cases hi : pprevAnonOutputs < i ∧ i ≤ view.nLastRCTOutput
    · rw [if_pos (hrange.mpr hi), if_pos hi]
    · rw [if_neg (mt hrange.mp hi), if_neg hi, flushView_false, writeView]
      refine UpdateFold.foldl_update_of_not_mem Prod.fst _ ?_ _
      rw [houts, mem_map_snd_linksUp]
      omega
  · -- the key images are written and erased under the same keys
    have hmem : ∀ L : List (CTransaction κ π γ τ),
        ki ∈ (L.flatMap (·.keyImageEntries)).map Prod.fst ↔ ki ∈ L.flatMap (·.keyImages) := by
      intro L
      simp [List.map_flatMap, Transaction.keyImageEntries, Function.comp_def]
    have hrev : ki ∈ vtx.reverse.flatMap (·.keyImages) ↔ ki ∈ vtx.flatMap (·.keyImages) := by
      simp only [List.mem_flatMap, List.mem_reverse]
    rw [flushView_true, eraseView_keyImages, UpdateFold.foldl_update_const, hki']
    by_cases hki : ki ∈ vtx.flatMap (·.keyImages)
    · rw [if_pos ((hmem _).mpr (hrev.mpr hki)), if_pos hki]
    · rw [if_neg (fun h => hki (hrev.mp ((hmem _).mp h))), if_neg hki, flushView_false, writeView]
      refine UpdateFold.foldl_update_of_not_mem Prod.fst _ ?_ _
      rwa [hview, foldl_push_keyImages, hmem]

/-- A block of one transaction with an anon input (key image `5`) and a RingCT output
(key `3`) after a standard one. -/
def oneBlock : List (CTransaction Nat Nat Nat Nat) := [⟨⟨10, [.anon [5]]⟩, [.standard, .ringCT 3 0]⟩]

/-- The view `ConnectBlock` leaves for `oneBlock` at height `1` on a new table. -/
def oneBlockView : RctView Nat Nat Nat Nat := ⟨1, [(1, ⟨3, 0, (10, 1), 1, 0⟩)], [(3, 1)], [(5, 10)]⟩

theorem disconnectBlock_connectBlock_oneBlock :
    (0 : Int) ≤ 0 ∧
      connectBlock (fun _ => true) (fun _ => false) (fun _ => true) true RctDB.empty false 0 1
        (false, false) oneBlock = some oneBlockView ∧
      ∃ view', disconnectBlock (flushView RctDB.empty oneBlockView false).1
          oneBlockView.nLastRCTOutput false oneBlock = some view' ∧
        (flushView (flushView RctDB.empty oneBlockView false).1 view' true).1.outputLinks =
          (RctDB.empty : RctDB Nat Nat Nat Nat).outputLinks ∧
        (∀ i, (flushView (flushView RctDB.empty oneBlockView false).1 view' true).1.outputs i =
          if 0 < i ∧ i ≤ oneBlockView.nLastRCTOutput then none else (RctDB.empty : RctDB Nat Nat Nat Nat).outputs i) ∧
        (∀ ki, (flushView (flushView RctDB.empty oneBlockView false).1 view' true).1.keyImages ki =
          if ki ∈ oneBlock.flatMap (·.keyImages) then none else (RctDB.empty : RctDB Nat Nat Nat Nat).keyImages ki) :=
  by
  have hconn : connectBlock (fun _ => true) (fun _ => false) (fun _ => true) true RctDB.empty false
      0 1 (false, false) oneBlock = some oneBlockView := rfl
  exact ⟨Int.le_refl 0, hconn, disconnectBlock_connectBlock (Int.le_refl 0) hconn⟩

end Connect

end Undo

end Veil.RingCT.Index
