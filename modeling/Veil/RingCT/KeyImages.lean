import Mathlib.Data.List.Nodup
import Mathlib.Logic.Function.Basic

/-!
# RingCT key images along a chain (`veil/ringct/anon.cpp`, `validation.cpp`)

What keeps an anon output from being spent twice: `VerifyMLSAG` rejects a key image
that repeats within the transaction (`setHaveKI`) or that the key-image table on
disk holds under another txid; `CheckInputs` runs it unless the script-execution
cache already holds the transaction; `ConnectBlock` appends the key images of each
transaction to `view.keyImages`, and `FlushView` writes them to the table after the
block.

Key images are an arbitrary type `κ`, txids a type `τ`.  The ring signature, the
commitment checks and the standard input scripts are one opaque predicate
`fVerify`; none of the results below depend on it.

Main results:

    verifyMLSAG = true ↔ all inputs anon, key images distinct and each new or
      recorded under the same txid, fVerify               (verifyMLSAG_iff)
    no cache, distinct txids, distinct key images within each block →
      the key images of the whole chain are distinct      (connectChain_keyImages_nodup)
    one block with two transactions sharing a key image, and a cached
      transaction reusing one from an earlier block, are connected
                                                          (connectChain_accepts_double_spend)
-/

namespace Veil.RingCT

/-- An input as `VerifyMLSAG` sees it: an anon input with the key images of its
`scriptData`, the null prevout of a coinbase, or any other input. -/
inductive TxIn (κ : Type)
  | anon (keyImages : List κ)
  | null
  | other
  deriving DecidableEq, Repr

structure Transaction (κ τ : Type) where
  txhash : τ
  vin : List (TxIn κ)
  deriving DecidableEq, Repr

/-- `CTxIn::IsAnonInput`. -/
def TxIn.isAnonInput {κ : Type} : TxIn κ → Bool
  | .anon _ => true
  | _ => false

def TxIn.keyImages {κ : Type} : TxIn κ → List κ
  | .anon keyImages => keyImages
  | _ => []

namespace Transaction

variable {κ τ : Type}

/-- `CTransaction::IsCoinBase`: one input, with a null prevout. -/
def isCoinBase (tx : Transaction κ τ) : Bool :=
  match tx.vin with
  | [.null] => true
  | _ => false

/-- The key images of all anon inputs, in order. -/
def keyImages (tx : Transaction κ τ) : List κ := tx.vin.flatMap TxIn.keyImages

/-- The pairs `ConnectBlock` appends to `view.keyImages`. -/
def keyImageEntries (tx : Transaction κ τ) : List (κ × τ) := tx.keyImages.map (·, tx.txhash)

theorem keyImages_of_isCoinBase {tx : Transaction κ τ} (h : tx.isCoinBase = true) :
    tx.keyImages = [] := by
  unfold isCoinBase at h
  unfold keyImages
  split at h
  next hv => rw [hv]; rfl
  next => cases h

/-- Without an anon input a transaction has no key images. -/
theorem keyImages_eq_nil {tx : Transaction κ τ} (h : tx.vin.any TxIn.isAnonInput = false) :
    tx.keyImages = [] := by
  rw [keyImages, List.flatMap_eq_nil_iff]
  intro txin hmem
  have hna : txin.isAnonInput = false := by
    rw [List.any_eq_false] at h
    simpa using h txin hmem
  cases txin with
  | anon => cases hna
  | null => rfl
  | other => rfl

theorem mem_keyImageEntries {tx : Transaction κ τ} {p : κ × τ} (h : p ∈ tx.keyImageEntries) :
    p.1 ∈ tx.keyImages ∧ p.2 = tx.txhash := by
  obtain ⟨ki, hki, rfl⟩ := List.mem_map.mp h
  exact ⟨hki, rfl⟩

end Transaction

open Transaction

variable {κ τ : Type} [DecidableEq κ] [DecidableEq τ]

/-- The key-image loop of `VerifyMLSAG` for one input: `setHaveKI` so far, and the
extended set, or `none` on "bad-anonin-dup-ki-tx-double" or
"bad-anonin-dup-keyimage". -/
def verifyKeyImages (keyImageDB : κ → Option τ) (txhash : τ) :
    List κ → List κ → Option (List κ)
  | setHaveKI, [] => some setHaveKI
  | setHaveKI, ki :: kis =>
    if ki ∈ setHaveKI then none
    else match keyImageDB ki with
      | some txhashKI =>
        if txhashKI ≠ txhash then none
        else verifyKeyImages keyImageDB txhash (ki :: setHaveKI) kis
      | none => verifyKeyImages keyImageDB txhash (ki :: setHaveKI) kis

/-- The input loop of `VerifyMLSAG`: "bad-anon-input" on an input that is not anon;
the ring signature of each input and the commitment tally are `fVerify`. -/
def verifyInputs (keyImageDB : κ → Option τ) (txhash : τ) :
    List κ → List (TxIn κ) → Bool
  | _, [] => true
  | setHaveKI, .anon keyImages :: vin =>
    match verifyKeyImages keyImageDB txhash setHaveKI keyImages with
    | none => false
    | some setHaveKI => verifyInputs keyImageDB txhash setHaveKI vin
  | _, .null :: _ => false
  | _, .other :: _ => false

/-- `VerifyMLSAG`. -/
def verifyMLSAG (keyImageDB : κ → Option τ) (fVerify : Transaction κ τ → Bool)
    (tx : Transaction κ τ) : Bool :=
  verifyInputs keyImageDB tx.txhash [] tx.vin && fVerify tx

/-- `CheckInputs` for a transaction that is not a coinbase: nothing without
`fScriptChecks`, nothing on a hit in the script-execution cache, else the scripts
and, with an anon input, `VerifyMLSAG`. -/
def checkInputs (scriptExecutionCache : Transaction κ τ → Bool) (keyImageDB : κ → Option τ)
    (fVerify : Transaction κ τ → Bool) (fScriptChecks : Bool) (tx : Transaction κ τ) : Bool :=
  if !fScriptChecks then true
  else if scriptExecutionCache tx then true
  else if tx.vin.any TxIn.isAnonInput then verifyMLSAG keyImageDB fVerify tx
  else fVerify tx

/-- The per-transaction loop of `ConnectBlock`, as far as key images go: each
transaction but the coinbase through `CheckInputs` against the table on disk, then
its key images appended to `view.keyImages`. -/
def connectBlockKeyImages (scriptExecutionCache : Transaction κ τ → Bool)
    (keyImageDB : κ → Option τ) (fVerify : Transaction κ τ → Bool) (fScriptChecks : Bool) :
    List (Transaction κ τ) → List (κ × τ) → Option (List (κ × τ))
  | [], keyImages => some keyImages
  | tx :: vtx, keyImages =>
    if !tx.isCoinBase && !checkInputs scriptExecutionCache keyImageDB fVerify fScriptChecks tx then
      none
    else connectBlockKeyImages scriptExecutionCache keyImageDB fVerify fScriptChecks vtx
      (keyImages ++ tx.keyImageEntries)

/-- `FlushView`: the batch writes `view.keyImages` to the table in order. -/
def flushView (keyImageDB : κ → Option τ) (keyImages : List (κ × τ)) : κ → Option τ :=
  keyImages.foldl (fun db p => Function.update db p.1 (some p.2)) keyImageDB

/-- Blocks connected in order, each flushed before the next. -/
def connectChain (scriptExecutionCache : Transaction κ τ → Bool)
    (fVerify : Transaction κ τ → Bool) (fScriptChecks : Bool) :
    (κ → Option τ) → List (List (Transaction κ τ)) → Option (κ → Option τ)
  | keyImageDB, [] => some keyImageDB
  | keyImageDB, block :: blocks =>
    match connectBlockKeyImages scriptExecutionCache keyImageDB fVerify fScriptChecks block [] with
    | none => none
    | some keyImages =>
      connectChain scriptExecutionCache fVerify fScriptChecks (flushView keyImageDB keyImages) blocks

/-- The key images of a list of blocks, in chain order. -/
def chainKeyImages (blocks : List (List (Transaction κ τ))) : List κ :=
  blocks.flatMap fun block => block.flatMap Transaction.keyImages

/-! ## `VerifyMLSAG` -/

section Verify

variable (keyImageDB : κ → Option τ) (txhash : τ)

/-- A key image `VerifyMLSAG` lets through: not on disk, or on disk under the
transaction's own txid. -/
def Admitted (ki : κ) : Prop := keyImageDB ki = none ∨ keyImageDB ki = some txhash

instance (ki : κ) : Decidable (Admitted keyImageDB txhash ki) :=
  inferInstanceAs (Decidable (keyImageDB ki = none ∨ keyImageDB ki = some txhash))

/-- One key image: it must be new to the set and admitted by the table. -/
theorem verifyKeyImages_cons (setHaveKI : List κ) (ki : κ) (kis : List κ) :
    verifyKeyImages keyImageDB txhash setHaveKI (ki :: kis) =
      if ki ∉ setHaveKI ∧ Admitted keyImageDB txhash ki then
        verifyKeyImages keyImageDB txhash (ki :: setHaveKI) kis
      else none := by
  rw [verifyKeyImages]
  by_cases hin : ki ∈ setHaveKI
  · simp [hin]
  · cases hdb : keyImageDB ki with
    | none => simp [hin, Admitted, hdb]
    | some txhashKI =>
      by_cases heq : txhashKI = txhash
      · simp [hin, Admitted, hdb, heq]
      · simp [hin, Admitted, hdb, heq]

theorem verifyKeyImages_eq_some_iff (setHaveKI setHaveKI' : List κ) (kis : List κ) :
    verifyKeyImages keyImageDB txhash setHaveKI kis = some setHaveKI' ↔
      kis.Nodup ∧ (∀ ki ∈ kis, ki ∉ setHaveKI ∧ Admitted keyImageDB txhash ki) ∧
        setHaveKI' = kis.reverse ++ setHaveKI := by
  induction kis generalizing setHaveKI with
  | nil => simp [verifyKeyImages, eq_comm]
  | cons ki kis ih =>
    rw [verifyKeyImages_cons]
    split_ifs with hki
    · -- `ki` joins the set; the rest is checked against the larger set
      rw [ih, List.nodup_cons, List.forall_mem_cons, List.reverse_cons, List.append_assoc,
        List.singleton_append]
      constructor
      · rintro ⟨hnd, hall, rfl⟩
        refine ⟨⟨fun hk => (hall ki hk).1 List.mem_cons_self, hnd⟩, ⟨hki, fun x hx => ?_⟩, rfl⟩
        exact ⟨fun hs => (hall x hx).1 (List.mem_cons_of_mem _ hs), (hall x hx).2⟩
      · rintro ⟨⟨hnk, hnd⟩, ⟨-, hall⟩, rfl⟩
        refine ⟨hnd, fun x hx => ⟨fun hm => ?_, (hall x hx).2⟩, rfl⟩
        rcases List.mem_cons.mp hm with rfl | hs
        · exact hnk hx
        · exact (hall x hx).1 hs
    · simp only [false_iff]
      rintro ⟨-, hall, -⟩
      exact hki (hall ki List.mem_cons_self)

theorem verifyInputs_eq_true_iff (setHaveKI : List κ) (vin : List (TxIn κ)) :
    verifyInputs keyImageDB txhash setHaveKI vin = true ↔
      (∀ i ∈ vin, i.isAnonInput = true) ∧ (vin.flatMap TxIn.keyImages).Nodup ∧
        ∀ ki ∈ vin.flatMap TxIn.keyImages, ki ∉ setHaveKI ∧ Admitted keyImageDB txhash ki := by
  induction vin generalizing setHaveKI with
  | nil => simp [verifyInputs]
  | cons txin vin ih =>
    cases txin with
    | null => simp [verifyInputs, TxIn.isAnonInput]
    | other => simp [verifyInputs, TxIn.isAnonInput]
    | anon kis =>
      simp only [verifyInputs, List.forall_mem_cons, TxIn.isAnonInput, true_and, List.flatMap_cons,
        TxIn.keyImages, List.nodup_append, List.mem_append]
      cases hv : verifyKeyImages keyImageDB txhash setHaveKI kis with
      | none =>
        -- the input's own key images fail, so the whole list does
        simp only [Bool.false_eq_true, false_iff]
        rintro ⟨-, ⟨hnd, -, -⟩, hall⟩
        have hsome := (verifyKeyImages_eq_some_iff keyImageDB txhash setHaveKI _ kis).mpr
          ⟨hnd, fun ki hk => hall ki (.inl hk), rfl⟩
        rw [hv] at hsome
        cases hsome
      | some setHaveKI' =>
        obtain ⟨hnd, hkis, rfl⟩ := (verifyKeyImages_eq_some_iff keyImageDB txhash _ _ _).mp hv
        simp only
        rw [ih]
        constructor
        · rintro ⟨hanon, hnd', hall⟩
          refine ⟨hanon, ⟨hnd, hnd', fun a ha b hb hab => ?_⟩, fun ki hk => ?_⟩
          · subst hab
            exact (hall a hb).1 (List.mem_append_left _ (List.mem_reverse.mpr ha))
          · rcases hk with hk | hk
            · exact hkis ki hk
            · exact ⟨fun hs => (hall ki hk).1 (List.mem_append_right _ hs), (hall ki hk).2⟩
        · rintro ⟨hanon, ⟨-, hnd', hdisj⟩, hall⟩
          refine ⟨hanon, hnd', fun ki hk => ⟨?_, (hall ki (.inr hk)).2⟩⟩
          rw [List.mem_append, List.mem_reverse]
          rintro (hk' | hs)
          · exact hdisj ki hk' ki hk rfl
          · exact (hall ki (.inr hk)).1 hs

/-- **What `VerifyMLSAG` checks of key images**: within the transaction they are
distinct, and each is new to the table or recorded under this txid.  It looks at
nothing else, in particular not at the block being connected. -/
theorem verifyMLSAG_iff (fVerify : Transaction κ τ → Bool) (tx : Transaction κ τ) :
    verifyMLSAG keyImageDB fVerify tx = true ↔
      (∀ i ∈ tx.vin, i.isAnonInput = true) ∧ tx.keyImages.Nodup ∧
        (∀ ki ∈ tx.keyImages, Admitted keyImageDB tx.txhash ki) ∧ fVerify tx = true := by
  rw [verifyMLSAG, Bool.and_eq_true, verifyInputs_eq_true_iff, keyImages]
  simp only [List.not_mem_nil, not_false_eq_true, true_and, and_assoc]

end Verify

/-- A transaction `CheckInputs` passes without a cache hit has distinct key images,
each admitted by the table. -/
theorem checkInputs_admitted {scriptExecutionCache : Transaction κ τ → Bool}
    {keyImageDB : κ → Option τ} {fVerify : Transaction κ τ → Bool} {tx : Transaction κ τ}
    (h : checkInputs scriptExecutionCache keyImageDB fVerify true tx = true)
    (hcache : scriptExecutionCache tx = false) :
    tx.keyImages.Nodup ∧ ∀ ki ∈ tx.keyImages, Admitted keyImageDB tx.txhash ki := by
  simp only [checkInputs, Bool.not_true, Bool.false_eq_true, if_false, hcache] at h
  by_cases hany : tx.vin.any TxIn.isAnonInput = true
  · rw [if_pos hany] at h
    obtain ⟨-, hnd, hadm, -⟩ := (verifyMLSAG_iff keyImageDB fVerify tx).mp h
    exact ⟨hnd, hadm⟩
  · rw [keyImages_eq_nil (by simpa using hany)]
    simp

/-! ## `ConnectBlock` and `FlushView` -/

/-- A block `ConnectBlock` accepts: every transaction but the coinbase passed
`CheckInputs`, and `view.keyImages` is extended by the block's key images in order. -/
theorem connectBlockKeyImages_eq_some {scriptExecutionCache : Transaction κ τ → Bool}
    {keyImageDB : κ → Option τ} {fVerify : Transaction κ τ → Bool} {fScriptChecks : Bool} :
    ∀ {vtx : List (Transaction κ τ)} {keyImages r : List (κ × τ)},
      connectBlockKeyImages scriptExecutionCache keyImageDB fVerify fScriptChecks vtx keyImages =
        some r →
      r = keyImages ++ vtx.flatMap keyImageEntries ∧
        ∀ tx ∈ vtx, tx.isCoinBase = false →
          checkInputs scriptExecutionCache keyImageDB fVerify fScriptChecks tx = true
  | [], keyImages, r, h => by
    simp only [connectBlockKeyImages, Option.some.injEq] at h
    subst h
    simp
  | tx :: vtx, keyImages, r, h => by
    rw [connectBlockKeyImages] at h
    split_ifs at h with hbad
    obtain ⟨hr, hrest⟩ := connectBlockKeyImages_eq_some h
    refine ⟨by rw [hr, List.flatMap_cons, List.append_assoc], fun tx' hmem hcb => ?_⟩
    rcases List.mem_cons.mp hmem with rfl | hmem
    · simpa [hcb] using hbad
    · exact hrest tx' hmem hcb

omit [DecidableEq τ] in
theorem flushView_eq_none_iff (keyImageDB : κ → Option τ) (keyImages : List (κ × τ)) (ki : κ) :
    flushView keyImageDB keyImages ki = none ↔ keyImageDB ki = none ∧ ∀ p ∈ keyImages, p.1 ≠ ki := by
  induction keyImages generalizing keyImageDB with
  | nil => simp [flushView]
  | cons p keyImages ih =>
    rw [flushView, List.foldl_cons, ← flushView, ih, List.forall_mem_cons]
    by_cases hp : p.1 = ki
    · subst hp
      simp
    · rw [Function.update_of_ne (Ne.symm hp)]
      simp [hp]

omit [DecidableEq τ] in
theorem flushView_eq_some {keyImageDB : κ → Option τ} {keyImages : List (κ × τ)} {ki : κ}
    {txhash : τ} (h : flushView keyImageDB keyImages ki = some txhash) :
    keyImageDB ki = some txhash ∨ (ki, txhash) ∈ keyImages := by
  induction keyImages generalizing keyImageDB with
  | nil => exact .inl h
  | cons p keyImages ih =>
    rw [flushView, List.foldl_cons, ← flushView] at h
    rcases ih h with hdb | hmem
    · by_cases hp : p.1 = ki
      · subst hp
        rw [Function.update_self, Option.some.injEq] at hdb
        exact .inr (hdb ▸ List.mem_cons_self)
      · rw [Function.update_of_ne (Ne.symm hp)] at hdb
        exact .inl hdb
    · exact .inr (List.mem_cons_of_mem _ hmem)

/-! ## Along a chain -/

section Chain

variable {scriptExecutionCache : Transaction κ τ → Bool} {fVerify : Transaction κ τ → Bool}

/-- The txids of a list of blocks, in chain order. -/
def chainTxids (blocks : List (List (Transaction κ τ))) : List τ :=
  blocks.flatMap fun block => block.map Transaction.txhash

/-- The induction behind `connectChain_keyImages_nodup`: while the table holds no txid
of a transaction still to come, every key image still to come is new to it. -/
theorem connectChain_fresh (hcache : ∀ tx, scriptExecutionCache tx = false) :
    ∀ (blocks : List (List (Transaction κ τ))) (keyImageDB keyImageDB' : κ → Option τ),
      connectChain scriptExecutionCache fVerify true keyImageDB blocks = some keyImageDB' →
      (∀ ki txhash, keyImageDB ki = some txhash → txhash ∉ chainTxids blocks) →
      (∀ block ∈ blocks, (block.flatMap Transaction.keyImages).Nodup) →
      (chainTxids blocks).Nodup →
      (chainKeyImages blocks).Nodup ∧ ∀ ki ∈ chainKeyImages blocks, keyImageDB ki = none
  | [], _, _, _, _, _, _ => by simp [chainKeyImages]
  | block :: rest, keyImageDB, keyImageDB', h, hdb, hblocks, hhash => by
    rw [connectChain] at h
    cases hb : connectBlockKeyImages scriptExecutionCache keyImageDB fVerify true block [] with
    | none => rw [hb] at h; cases h
    | some r =>
      rw [hb] at h
      obtain ⟨hr, hcheck⟩ := connectBlockKeyImages_eq_some hb
      rw [List.nil_append] at hr
      rw [chainTxids, List.flatMap_cons, List.nodup_append] at hhash
      obtain ⟨-, hhashRest, hdisj⟩ := hhash
      have hmemTx : ∀ tx ∈ block, tx.txhash ∈ chainTxids (block :: rest) := fun tx htx => by
        rw [chainTxids, List.flatMap_cons]
        exact List.mem_append_left _ (List.mem_map_of_mem htx)
      -- every key image of the block is new to the table
      have hnew : ∀ ki ∈ block.flatMap Transaction.keyImages, keyImageDB ki = none := by
        intro ki hki
        obtain ⟨tx, htx, hk⟩ := List.mem_flatMap.mp hki
        cases hcb : tx.isCoinBase
        · rcases (checkInputs_admitted (hcheck tx htx hcb) (hcache tx)).2 ki hk with hnone | hsome
          · exact hnone
          · exact absurd (hmemTx tx htx) (hdb ki _ hsome)
        · rw [keyImages_of_isCoinBase hcb] at hk
          cases hk
      -- the flushed table still holds no txid to come
      have hdb' : ∀ ki txhash, flushView keyImageDB r ki = some txhash → txhash ∉ chainTxids rest := by
        intro ki txhash hf hmem
        rcases flushView_eq_some hf with hold | hentry
        · refine hdb ki txhash hold ?_
          rw [chainTxids, List.flatMap_cons]
          exact List.mem_append_right _ hmem
        · rw [hr] at hentry
          obtain ⟨tx, htx, hk⟩ := List.mem_flatMap.mp hentry
          exact hdisj _ (List.mem_map_of_mem htx) _ hmem (mem_keyImageEntries hk).2.symm
      obtain ⟨hnd, hnone⟩ := connectChain_fresh hcache rest _ _ h hdb'
        (fun b hb => hblocks b (List.mem_cons_of_mem _ hb)) hhashRest
      refine ⟨?_, ?_⟩
      · rw [chainKeyImages, List.flatMap_cons, List.nodup_append]
        refine ⟨hblocks block List.mem_cons_self, hnd, fun a ha b hb hab => ?_⟩
        subst hab
        obtain ⟨tx, htx, hk⟩ := List.mem_flatMap.mp ha
        have hflushed := (flushView_eq_none_iff keyImageDB r a).mp (hnone a hb)
        refine hflushed.2 (a, tx.txhash) ?_ rfl
        rw [hr]
        exact List.mem_flatMap.mpr ⟨tx, htx, List.mem_map_of_mem hk⟩
      · intro ki hki
        rw [chainKeyImages, List.flatMap_cons, List.mem_append] at hki
        rcases hki with hblock | hrest
        · exact hnew ki hblock
        · exact ((flushView_eq_none_iff keyImageDB r ki).mp (hnone ki hrest)).1

/-- **What the checks do guarantee.**  With no script-execution cache, a chain of
distinct transactions whose blocks each carry distinct key images spends every key
image once.  The two conditions are exactly what `ConnectBlock` does not check. -/
theorem connectChain_keyImages_nodup (hcache : ∀ tx, scriptExecutionCache tx = false)
    {blocks : List (List (Transaction κ τ))} {keyImageDB' : κ → Option τ}
    (h : connectChain scriptExecutionCache fVerify true (fun _ => none) blocks = some keyImageDB')
    (hblocks : ∀ block ∈ blocks, (block.flatMap Transaction.keyImages).Nodup)
    (hhash : (chainTxids blocks).Nodup) : (chainKeyImages blocks).Nodup :=
  (connectChain_fresh hcache blocks _ _ h (fun _ _ hdb => by cases hdb) hblocks hhash).1

/-- Two blocks of one transaction each, spending the key images `5` and `6`, connect, and the
chain spends each once. -/
theorem connectChain_keyImages_nodup_twoBlocks :
    (connectChain (fun _ => false) (fun _ => true) true (fun _ => none)
      [[(⟨1, [.anon [5]]⟩ : Transaction Nat Nat)], [⟨2, [.anon [6]]⟩]]).isSome = true ∧
    (chainKeyImages [[(⟨1, [.anon [5]]⟩ : Transaction Nat Nat)], [⟨2, [.anon [6]]⟩]]).Nodup :=
  have hsome : (connectChain (fun _ => false) (fun _ => true) true (fun _ => none)
      [[(⟨1, [.anon [5]]⟩ : Transaction Nat Nat)], [⟨2, [.anon [6]]⟩]]).isSome = true := by decide
  ⟨hsome, connectChain_keyImages_nodup (fun _ => rfl) (Option.some_get hsome).symm
    (by decide) (by decide)⟩

end Chain

/-- **Double spends connect.**  Two transactions of one block spend the key image `5`,
their ring signatures valid: `VerifyMLSAG` sees only the table on disk, which does
not hold it yet.  And a transaction held in the script-execution cache spends in a
later block the key image an earlier block recorded: `CheckInputs` returns before
`VerifyMLSAG`. -/
theorem connectChain_accepts_double_spend :
    (connectChain (fun _ => false) (fun _ => true) true (fun _ => none)
      [[(⟨1, [.anon [5]]⟩ : Transaction Nat Nat), ⟨2, [.anon [5]]⟩]]).isSome = true ∧
    ¬ (chainKeyImages [[(⟨1, [.anon [5]]⟩ : Transaction Nat Nat), ⟨2, [.anon [5]]⟩]]).Nodup ∧
    (connectChain (fun tx => decide (tx = ⟨2, [.anon [5]]⟩)) (fun _ => true) true (fun _ => none)
      [[(⟨1, [.anon [5]]⟩ : Transaction Nat Nat)], [⟨2, [.anon [5]]⟩]]).isSome = true ∧
    ¬ (chainKeyImages [[(⟨1, [.anon [5]]⟩ : Transaction Nat Nat)], [⟨2, [.anon [5]]⟩]]).Nodup := by
  decide

end Veil.RingCT
