import Veil.Lib.TransitionSystem
import Mathlib.Data.List.Nodup
import Mathlib.Logic.Function.Basic

/-!
# The mempool's key images (`txmempool.cpp`, `validation.cpp`, `veil/ringct/anon.cpp`)

`CTxMemPool::mapKeyImages` maps each key image spent by an anon input of a mempool
transaction to that transaction's hash.  `AcceptToMemoryPoolWorker` rejects a transaction
with a key image the map or the chain's table already holds, removes the entries BIP125
replacement displaces, adds the transaction to `mapTx`, trims the pool, and only then
enters its key images (`AddKeyImagesToMempool`).  Every removal from `mapTx` goes through
`removeUnchecked`, which erases the key images of the removed transaction
(`RemoveKeyImagesFromMempool`); `removeConflicts` looks up the key images of a block's
transactions and removes the mempool transactions that spend them.

The pool is `mapTx`, as the list of its transactions, and `mapKeyImages`.  Which entries
replacement, trimming, expiry, reorgs, descendants and the zerocoin and prevout conflicts
remove is decided by code the model does not follow (fees, sizes, times, `mapNextTx`): those
are parameters of the events, any list of entries.  The checks of the acceptance path that
do not read key images are one result `otherChecks`.

The map stays exact over every run (`reachable_keyImagesExact`): while a transaction is
between `addUnchecked` and `AddKeyImagesToMempool` its key images are held by no other
transaction (`KeyImagesExact` with a pending transaction), and `removeUnchecked` keeps the
invariant whether or not it removes the pending one.  `clear`, which no event here calls,
empties `mapTx` and keeps `mapKeyImages` (`clear_keeps_keyImages`).
-/

namespace Veil.TxMemPool

open TransitionSystem

/-- `CCmpPubKey`: a compressed public key, here a key image, as its 33 bytes. -/
abbrev CCmpPubKey := List UInt8

/-- An input as the key-image code reads it: an anon input with `nInputs` of `GetAnonInfo`
and the bytes `vKeyImages = scriptData.stack[0]`, or any other input. -/
inductive CTxIn
  | anon (nInputs : Nat) (vKeyImages : List UInt8)
  | other
  deriving DecidableEq, Repr

/-- `*((CCmpPubKey*)&vKeyImages[k*33])`. -/
def keyImageAt (vKeyImages : List UInt8) (k : Nat) : CCmpPubKey := (vKeyImages.drop (k * 33)).take 33

namespace CTxIn

/-- `vKeyImages.size() == nInputs * 33` for an anon input. -/
def sizeOk : CTxIn → Bool
  | .anon nInputs vKeyImages => vKeyImages.length == nInputs * 33
  | .other => true

/-- The key images an anon input spends, `k = 0 .. nInputs - 1`. -/
def keyImages : CTxIn → List CCmpPubKey
  | .anon nInputs vKeyImages => (List.range nInputs).map (keyImageAt vKeyImages)
  | .other => []

end CTxIn

structure CTransaction (τ : Type) where
  /-- `GetHash()`. -/
  hash : τ
  vin : List CTxIn
  deriving DecidableEq, Repr

/-- The key images of all anon inputs. -/
def CTransaction.keyImages {τ : Type} (tx : CTransaction τ) : List CCmpPubKey :=
  tx.vin.flatMap CTxIn.keyImages

/-- What of `CTxMemPool` the key images touch: the transactions of `mapTx` and `mapKeyImages`. -/
structure CTxMemPool (τ : Type) where
  mapTx : List (CTransaction τ)
  mapKeyImages : CCmpPubKey → Option τ

variable {τ : Type}

/-! ## Entering and erasing key images -/

/-- `pool.mapKeyImages[ki] = txhash` for each key image. -/
def setKeyImages (txhash : τ) (kis : List CCmpPubKey) (m : CCmpPubKey → Option τ) :
    CCmpPubKey → Option τ :=
  kis.foldl (fun m ki => Function.update m ki (some txhash)) m

/-- `pool.mapKeyImages.erase(ki)` for each key image. -/
def eraseKeyImages (kis : List CCmpPubKey) (m : CCmpPubKey → Option τ) : CCmpPubKey → Option τ :=
  kis.foldl (fun m ki => Function.update m ki none) m

/-- A run of `Function.update`s to one value, read at one key. -/
theorem foldl_update_apply (v : Option τ) (kis : List CCmpPubKey) (m : CCmpPubKey → Option τ)
    (ki : CCmpPubKey) :
    kis.foldl (fun m ki => Function.update m ki v) m ki = if ki ∈ kis then v else m ki := by
  induction kis generalizing m with
  | nil => simp
  | cons k kis ih =>
    rw [List.foldl_cons, ih]
    by_cases hin : ki ∈ kis
    · simp [hin]
    · by_cases hk : ki = k
      · subst hk; simp
      · simp [hin, hk]

theorem setKeyImages_apply (txhash : τ) (kis : List CCmpPubKey) (m : CCmpPubKey → Option τ)
    (ki : CCmpPubKey) : setKeyImages txhash kis m ki = if ki ∈ kis then some txhash else m ki :=
  foldl_update_apply _ kis m ki

theorem eraseKeyImages_apply (kis : List CCmpPubKey) (m : CCmpPubKey → Option τ) (ki : CCmpPubKey) :
    eraseKeyImages kis m ki = if ki ∈ kis then none else m ki :=
  foldl_update_apply _ kis m ki

theorem setKeyImages_append (txhash : τ) (a b : List CCmpPubKey) (m : CCmpPubKey → Option τ) :
    setKeyImages txhash (a ++ b) m = setKeyImages txhash b (setKeyImages txhash a m) := by
  rw [setKeyImages, List.foldl_append]
  rfl

theorem eraseKeyImages_append (a b : List CCmpPubKey) (m : CCmpPubKey → Option τ) :
    eraseKeyImages (a ++ b) m = eraseKeyImages b (eraseKeyImages a m) := by
  rw [eraseKeyImages, List.foldl_append]
  rfl

/-- The input loop of `AddKeyImagesToMempool`: `false` at the first anon input whose key
images are not `nInputs * 33` bytes, with those of the inputs before it entered. -/
def addKeyImagesLoop (txhash : τ) : List CTxIn → (CCmpPubKey → Option τ) → (CCmpPubKey → Option τ) × Bool
  | [], m => (m, true)
  | .other :: vin, m => addKeyImagesLoop txhash vin m
  | .anon nInputs vKeyImages :: vin, m =>
    if vKeyImages.length ≠ nInputs * 33 then (m, false)
    else addKeyImagesLoop txhash vin (setKeyImages txhash (CTxIn.anon nInputs vKeyImages).keyImages m)

/-- With every anon input of the right size, `AddKeyImagesToMempool` enters all key images. -/
theorem addKeyImagesLoop_of_sizeOk (txhash : τ) :
    ∀ (vin : List CTxIn) (m : CCmpPubKey → Option τ), (∀ txin ∈ vin, txin.sizeOk = true) →
      addKeyImagesLoop txhash vin m = (setKeyImages txhash (vin.flatMap CTxIn.keyImages) m, true)
  | [], m, _ => rfl
  | .other :: vin, m, h => by
    rw [addKeyImagesLoop, addKeyImagesLoop_of_sizeOk txhash vin m fun t ht => h t (List.mem_cons_of_mem _ ht)]
    rfl
  | .anon nInputs vKeyImages :: vin, m, h => by
    have hsize : vKeyImages.length = nInputs * 33 := by
      simpa [CTxIn.sizeOk] using h _ List.mem_cons_self
    rw [addKeyImagesLoop, if_neg (not_not.mpr hsize),
      addKeyImagesLoop_of_sizeOk txhash vin _ fun t ht => h t (List.mem_cons_of_mem _ ht),
      List.flatMap_cons, setKeyImages_append]

/-- `AddKeyImagesToMempool(tx, pool)`. -/
def addKeyImagesToMempool (tx : CTransaction τ) (pool : CTxMemPool τ) : CTxMemPool τ × Bool :=
  let r := addKeyImagesLoop tx.hash tx.vin pool.mapKeyImages
  ({ pool with mapKeyImages := r.1 }, r.2)

theorem addKeyImagesToMempool_of_sizeOk {pool : CTxMemPool τ} {tx : CTransaction τ}
    (h : ∀ txin ∈ tx.vin, txin.sizeOk = true) :
    addKeyImagesToMempool tx pool =
      ({ pool with mapKeyImages := setKeyImages tx.hash tx.keyImages pool.mapKeyImages }, true) := by
  rw [addKeyImagesToMempool, addKeyImagesLoop_of_sizeOk _ _ _ h]
  rfl

/-- `RemoveKeyImagesFromMempool(hash, txin, pool)`: `false` for an input that is not anon or
whose key images are not `nInputs * 33` bytes; the key images are erased whatever hash they
map to (the `hash` argument is not read). -/
def removeKeyImagesFromMempool (txin : CTxIn) (m : CCmpPubKey → Option τ) :
    (CCmpPubKey → Option τ) × Bool :=
  match txin with
  | .other => (m, false)
  | .anon nInputs vKeyImages =>
    if vKeyImages.length ≠ nInputs * 33 then (m, false)
    else (eraseKeyImages (CTxIn.anon nInputs vKeyImages).keyImages m, true)

/-- With every anon input of the right size, `removeUnchecked` erases all key images. -/
theorem foldl_removeKeyImagesFromMempool :
    ∀ (vin : List CTxIn) (m : CCmpPubKey → Option τ), (∀ txin ∈ vin, txin.sizeOk = true) →
      vin.foldl (fun m txin => (removeKeyImagesFromMempool txin m).1) m =
        eraseKeyImages (vin.flatMap CTxIn.keyImages) m
  | [], m, _ => rfl
  | .other :: vin, m, h => by
    rw [List.foldl_cons, foldl_removeKeyImagesFromMempool vin _ fun t ht => h t (List.mem_cons_of_mem _ ht)]
    rfl
  | .anon nInputs vKeyImages :: vin, m, h => by
    have hsize : vKeyImages.length = nInputs * 33 := by
      simpa [CTxIn.sizeOk] using h _ List.mem_cons_self
    rw [List.foldl_cons, foldl_removeKeyImagesFromMempool vin _ fun t ht => h t (List.mem_cons_of_mem _ ht),
      List.flatMap_cons, eraseKeyImages_append, removeKeyImagesFromMempool, if_neg (not_not.mpr hsize)]

/-! ## The pool -/

variable [DecidableEq τ]

namespace CTxMemPool

/-- A new pool: `mapTx` and `mapKeyImages` empty. -/
def empty : CTxMemPool τ := ⟨[], fun _ => none⟩

/-- `CTxMemPool::exists(hash)`. -/
def «exists» (pool : CTxMemPool τ) (hash : τ) : Bool := pool.mapTx.any (·.hash == hash)

/-- `CTxMemPool::HaveKeyImage(ki, hash)`: the hash it sets when it returns `true`. -/
def haveKeyImage (pool : CTxMemPool τ) (ki : CCmpPubKey) : Option τ := pool.mapKeyImages ki

/-- `CTxMemPool::addUnchecked(hash, entry, ..)` on `mapTx`. -/
def addUnchecked (pool : CTxMemPool τ) (tx : CTransaction τ) : CTxMemPool τ :=
  { pool with mapTx := pool.mapTx ++ [tx] }

/-- `CTxMemPool::clear()`: `_clear` empties `mapTx` and leaves `mapKeyImages`. -/
def clear (pool : CTxMemPool τ) : CTxMemPool τ := { pool with mapTx := [] }

theorem exists_eq_false_iff {pool : CTxMemPool τ} {hash : τ} :
    pool.exists hash = false ↔ ∀ tx ∈ pool.mapTx, tx.hash ≠ hash := by
  simp [CTxMemPool.exists]

end CTxMemPool

open CTxMemPool

/-- `CTxMemPool::removeUnchecked(it, ..)`: the key images of each anon input are erased and the
entry leaves `mapTx`, which is indexed by hash. -/
def removeUnchecked (pool : CTxMemPool τ) (tx : CTransaction τ) : CTxMemPool τ :=
  { mapTx := pool.mapTx.filter (·.hash ≠ tx.hash)
    mapKeyImages := tx.vin.foldl (fun m txin => (removeKeyImagesFromMempool txin m).1) pool.mapKeyImages }

theorem mapKeyImages_removeUnchecked {pool : CTxMemPool τ} {tx : CTransaction τ}
    (h : ∀ txin ∈ tx.vin, txin.sizeOk = true) (ki : CCmpPubKey) :
    (removeUnchecked pool tx).mapKeyImages ki = if ki ∈ tx.keyImages then none else pool.mapKeyImages ki := by
  show tx.vin.foldl (fun m txin => (removeKeyImagesFromMempool txin m).1) pool.mapKeyImages ki = _
  rw [foldl_removeKeyImagesFromMempool _ _ h, eraseKeyImages_apply]
  rfl

theorem mem_removeUnchecked {pool : CTxMemPool τ} {tx tx' : CTransaction τ} :
    tx' ∈ (removeUnchecked pool tx).mapTx ↔ tx' ∈ pool.mapTx ∧ tx'.hash ≠ tx.hash := by
  simp [removeUnchecked]

/-- `CTxMemPool::RemoveStaged(stage, ..)`: `removeUnchecked` of each entry, `none` where an
entry is no longer in `mapTx` (a stale iterator). -/
def removeStaged (pool : CTxMemPool τ) : List (CTransaction τ) → Option (CTxMemPool τ)
  | [] => some pool
  | it :: stage => if it ∈ pool.mapTx then removeStaged (removeUnchecked pool it) stage else none

theorem mem_of_removeStaged : ∀ {stage : List (CTransaction τ)} {pool pool' : CTxMemPool τ}
    {tx : CTransaction τ}, removeStaged pool stage = some pool' → tx ∈ pool'.mapTx → tx ∈ pool.mapTx
  | [], _, _, _, h, htx => by cases h; exact htx
  | it :: stage, _, _, _, h, htx => by
    rw [removeStaged] at h
    split at h
    · exact (mem_removeUnchecked.mp (mem_of_removeStaged h htx)).1
    · cases h

/-! ## Acceptance -/

/-- The key-image loop of `AcceptToMemoryPoolWorker` for one anon input: "keyimage-already-known"
for a key image of the pool, "bad-anonin-dup-keyimage" for one of the chain's table. -/
def checkKeyImages (pool : CTxMemPool τ) (keyImageDB : CCmpPubKey → Option τ) :
    List CCmpPubKey → Except String Unit
  | [] => .ok ()
  | ki :: kis =>
    if (pool.haveKeyImage ki).isSome then .error "keyimage-already-known"
    else if (keyImageDB ki).isSome then .error "bad-anonin-dup-keyimage"
    else checkKeyImages pool keyImageDB kis

/-- The input loop of `AcceptToMemoryPoolWorker` over the anon inputs:
"anonin-badkeyimagesize", then the key images. -/
def checkAnonInputs (pool : CTxMemPool τ) (keyImageDB : CCmpPubKey → Option τ) :
    List CTxIn → Except String Unit
  | [] => .ok ()
  | .other :: vin => checkAnonInputs pool keyImageDB vin
  | .anon nInputs vKeyImages :: vin =>
    if vKeyImages.length ≠ nInputs * 33 then .error "anonin-badkeyimagesize"
    else match checkKeyImages pool keyImageDB (CTxIn.anon nInputs vKeyImages).keyImages with
      | .error e => .error e
      | .ok () => checkAnonInputs pool keyImageDB vin

omit [DecidableEq τ] in
/-- What the key-image checks of the acceptance path guarantee: every anon input has key images
of `nInputs * 33` bytes, none of them in the pool. -/
theorem checkAnonInputs_ok {pool : CTxMemPool τ} {keyImageDB : CCmpPubKey → Option τ} :
    ∀ {vin : List CTxIn}, checkAnonInputs pool keyImageDB vin = .ok () →
      (∀ txin ∈ vin, txin.sizeOk = true) ∧ ∀ ki ∈ vin.flatMap CTxIn.keyImages, pool.mapKeyImages ki = none
  | [], _ => ⟨by simp, by simp⟩
  | .other :: vin, h => by
    have hvin : checkAnonInputs pool keyImageDB vin = .ok () := h
    obtain ⟨h₁, h₂⟩ := checkAnonInputs_ok hvin
    refine ⟨fun txin ht => ?_, by simpa [CTxIn.keyImages] using h₂⟩
    rcases List.mem_cons.mp ht with rfl | ht
    · rfl
    · exact h₁ txin ht
  | .anon nInputs vKeyImages :: vin, h => by
    rw [checkAnonInputs] at h
    split at h
    · cases h
    · next hsize =>
      split at h
      · cases h
      · next hk =>
        obtain ⟨h₁, h₂⟩ := checkAnonInputs_ok h
        have hkis := checkKeyImages_ok hk
        refine ⟨?_, ?_⟩
        · intro txin ht
          rcases List.mem_cons.mp ht with rfl | ht
          · simpa [CTxIn.sizeOk] using hsize
          · exact h₁ txin ht
        · intro ki hki
          rw [List.flatMap_cons, List.mem_append] at hki
          rcases hki with hki | hki
          · exact hkis ki hki
          · exact h₂ ki hki
where
  checkKeyImages_ok {kis : List CCmpPubKey} (h : checkKeyImages pool keyImageDB kis = .ok ()) :
      ∀ ki ∈ kis, pool.mapKeyImages ki = none := by
    induction kis with
    | nil => simp
    | cons k kis ih =>
      rw [checkKeyImages] at h
      split at h
      · cases h
      · next hk =>
        split at h
        · cases h
        · intro ki hki
          rcases List.mem_cons.mp hki with rfl | hki
          · simpa [haveKeyImage] using hk
          · exact ih h ki hki

/-- The end of `AcceptToMemoryPoolWorker`, after `LimitMempoolSize`: "mempool full" if the
transaction was trimmed, else `AddKeyImagesToMempool` and "bad-anonin-keyimages" if it fails. -/
def acceptToMemoryPoolFinish (pool : CTxMemPool τ) (tx : CTransaction τ) (bypass_limits : Bool) :
    CTxMemPool τ × Except String Unit :=
  if !bypass_limits && !pool.exists tx.hash then (pool, .error "mempool full")
  else
    let r := addKeyImagesToMempool tx pool
    if !r.2 then (r.1, .error "bad-anonin-keyimages") else (r.1, .ok ())

/-- `AcceptToMemoryPoolWorker(pool, tx, ..)` on `mapTx` and `mapKeyImages`: the pool it leaves
and its result.  `otherChecks` is the outcome of the checks that read no key image;
`allConflicting` are the entries replacement removes and `trimmed` those `LimitMempoolSize`
removes; `none` for a stale entry among them. -/
def acceptToMemoryPoolWorker (pool : CTxMemPool τ) (tx : CTransaction τ)
    (keyImageDB : CCmpPubKey → Option τ) (otherChecks : Except String Unit)
    (allConflicting trimmed : List (CTransaction τ)) (bypass_limits test_accept : Bool) :
    Option (CTxMemPool τ × Except String Unit) :=
  if pool.exists tx.hash then some (pool, .error "txn-already-in-mempool")
  else match checkAnonInputs pool keyImageDB tx.vin, otherChecks with
    | .error e, _ => some (pool, .error e)
    | .ok (), .error e => some (pool, .error e)
    | .ok (), .ok () =>
      if test_accept then some (pool, .ok ())
      else do
        let pool ← removeStaged pool allConflicting
        let pool := pool.addUnchecked tx
        let pool ← if bypass_limits then some pool else removeStaged pool trimmed
        return acceptToMemoryPoolFinish pool tx bypass_limits

/-! ## Removal for a block -/

/-- The key-image branch of `CTxMemPool::removeConflicts(tx)`: for each key image of `tx` the pool
holds, the transaction holding it, if it is in `mapTx` and is not `tx`, is removed with its
descendants by `removeRecursive`, `calculateDescendants` being the entry and its descendants. -/
def removeKeyImageConflicts (tx : CTransaction τ)
    (calculateDescendants : CTransaction τ → List (CTransaction τ)) (pool : CTxMemPool τ) :
    List CCmpPubKey → Option (CTxMemPool τ)
  | [] => some pool
  | ki :: kis =>
    match pool.haveKeyImage ki with
    | none => removeKeyImageConflicts tx calculateDescendants pool kis
    | some txhashKI =>
      match pool.mapTx.find? (·.hash == txhashKI) with
      | none => removeKeyImageConflicts tx calculateDescendants pool kis
      | some txConflict =>
        if txConflict ≠ tx then
          (removeStaged pool (calculateDescendants txConflict)).bind fun pool =>
            removeKeyImageConflicts tx calculateDescendants pool kis
        else removeKeyImageConflicts tx calculateDescendants pool kis

/-- The first part of `removeForBlock` for one transaction of the block: its mempool entry
leaves, or else the zerocoin mints and spends it conflicts with (`removePubcoins`,
`removeSerials`). -/
def removeEntryForBlock (pool : CTxMemPool τ) (otherRemovals : CTransaction τ → List (CTransaction τ))
    (tx : CTransaction τ) : Option (CTxMemPool τ) :=
  match pool.mapTx.find? (·.hash == tx.hash) with
  | some it => removeStaged pool [it]
  | none => removeStaged pool (otherRemovals tx)

/-- `CTxMemPool::removeForBlock(vtx, ..)`: for each transaction of the block,
`removeEntryForBlock` and then `removeConflicts(tx)`, whose prevout conflicts are among
`otherRemovals`. -/
def removeForBlock (pool : CTxMemPool τ)
    (calculateDescendants otherRemovals : CTransaction τ → List (CTransaction τ)) :
    List (CTransaction τ) → Option (CTxMemPool τ)
  | [] => some pool
  | tx :: vtx => do
    let pool ← removeEntryForBlock pool otherRemovals tx
    let pool ← removeKeyImageConflicts tx calculateDescendants pool tx.keyImages
    removeForBlock pool calculateDescendants otherRemovals vtx

/-! ## Runs -/

/-- The operations on one pool: `AcceptToMemoryPool` (a reorg re-adds with `bypass_limits`),
a `RemoveStaged` of the entries expiry, `LimitMempoolSize`, `removeForReorg` or
`removeRecursive` select, and `removeForBlock`. -/
inductive Event (τ : Type)
  | accept (tx : CTransaction τ) (keyImageDB : CCmpPubKey → Option τ) (otherChecks : Except String Unit)
      (allConflicting trimmed : List (CTransaction τ)) (bypass_limits test_accept : Bool)
  | removeStaged (stage : List (CTransaction τ))
  | removeForBlock (vtx : List (CTransaction τ))
      (calculateDescendants otherRemovals : CTransaction τ → List (CTransaction τ))

def step (pool : CTxMemPool τ) : Event τ → Option (CTxMemPool τ)
  | .accept tx keyImageDB otherChecks allConflicting trimmed bypass_limits test_accept =>
    (acceptToMemoryPoolWorker pool tx keyImageDB otherChecks allConflicting trimmed bypass_limits
      test_accept).map Prod.fst
  | .removeStaged stage => removeStaged pool stage
  | .removeForBlock vtx calculateDescendants otherRemovals =>
    removeForBlock pool calculateDescendants otherRemovals vtx

/-- A pool reachable from a new one. -/
def Reachable (pool : CTxMemPool τ) : Prop :=
  TransitionSystem.Reachable step (fun _ _ => True) (· = CTxMemPool.empty) pool

/-! ## The invariant -/

/-- `mapKeyImages` is exact over `mapTx`, except for the transaction `pending` between
`addUnchecked` and `AddKeyImagesToMempool`: a key image maps to a hash iff a transaction of
`mapTx` other than `pending` with that hash spends it, and no key image of `pending` is
mapped.  Only `pending` has its hash in `mapTx`, the hashes of `mapTx` are distinct, and its
anon inputs have key images of `nInputs * 33` bytes. -/
structure KeyImagesExact (pool : CTxMemPool τ) (pending : Option (CTransaction τ)) : Prop where
  map_iff : ∀ ki hash, pool.mapKeyImages ki = some hash ↔
    ∃ tx ∈ pool.mapTx, (∀ p ∈ pending, tx.hash ≠ p.hash) ∧ tx.hash = hash ∧ ki ∈ tx.keyImages
  fresh : ∀ p ∈ pending, ∀ ki ∈ p.keyImages, pool.mapKeyImages ki = none
  pending_unique : ∀ p ∈ pending, ∀ tx ∈ pool.mapTx, tx.hash = p.hash → tx = p
  nodup : (pool.mapTx.map (·.hash)).Nodup
  sizeOk : ∀ tx ∈ pool.mapTx, ∀ txin ∈ tx.vin, txin.sizeOk = true

namespace KeyImagesExact

variable {pool : CTxMemPool τ} {pending : Option (CTransaction τ)}

omit [DecidableEq τ] in
theorem eq_of_hash_eq (hinv : KeyImagesExact pool pending) {tx₁ tx₂ : CTransaction τ}
    (h₁ : tx₁ ∈ pool.mapTx) (h₂ : tx₂ ∈ pool.mapTx) (h : tx₁.hash = tx₂.hash) : tx₁ = tx₂ :=
  List.inj_on_of_nodup_map hinv.nodup h₁ h₂ h

/-- `removeUnchecked` of an entry keeps the invariant, the pending transaction or another. -/
theorem removeUnchecked (hinv : KeyImagesExact pool pending) {tx : CTransaction τ}
    (htx : tx ∈ pool.mapTx) : KeyImagesExact (TxMemPool.removeUnchecked pool tx) pending where
  map_iff ki hash := by
    rw [mapKeyImages_removeUnchecked (hinv.sizeOk tx htx)]
    split
    · next hki =>
      refine ⟨(fun h => nomatch h), ?_⟩
      rintro ⟨tx', htx', hp', rfl, hki'⟩
      obtain ⟨htx'₁, htx'₂⟩ := mem_removeUnchecked.mp htx'
      have h₁ := (hinv.map_iff ki tx'.hash).mpr ⟨tx', htx'₁, hp', rfl, hki'⟩
      by_cases hp : ∃ q ∈ pending, tx.hash = q.hash
      · -- `tx` is the pending transaction, whose key images are not mapped
        obtain ⟨q, hqmem, hqeq⟩ := hp
        obtain rfl := hinv.pending_unique q hqmem tx htx hqeq
        rw [hinv.fresh _ hqmem ki hki] at h₁
        cases h₁
      · -- both spend `ki`, so the map names both hashes
        have h₂ := (hinv.map_iff ki tx.hash).mpr ⟨tx, htx, fun q hq heq => hp ⟨q, hq, heq⟩, rfl, hki⟩
        rw [h₁, Option.some.injEq] at h₂
        exact absurd h₂ htx'₂
    · next hki =>
      rw [hinv.map_iff]
      constructor
      · rintro ⟨tx', htx', hp', rfl, hki'⟩
        refine ⟨tx', mem_removeUnchecked.mpr ⟨htx', fun heq => ?_⟩, hp', rfl, hki'⟩
        exact hki (hinv.eq_of_hash_eq htx' htx heq ▸ hki')
      · rintro ⟨tx', htx', hp', rfl, hki'⟩
        exact ⟨tx', (mem_removeUnchecked.mp htx').1, hp', rfl, hki'⟩
  fresh p hp ki hki := by
    rw [mapKeyImages_removeUnchecked (hinv.sizeOk tx htx), hinv.fresh p hp ki hki, ite_self]
  pending_unique p hp tx' htx' := hinv.pending_unique p hp tx' (mem_removeUnchecked.mp htx').1
  nodup := hinv.nodup.sublist (List.Sublist.map _ List.filter_sublist)
  sizeOk tx' htx' := hinv.sizeOk tx' (mem_removeUnchecked.mp htx').1

theorem removeStaged : ∀ {stage : List (CTransaction τ)} {pool₀ pool' : CTxMemPool τ},
    KeyImagesExact pool₀ pending → TxMemPool.removeStaged pool₀ stage = some pool' →
      KeyImagesExact pool' pending
  | [], _, _, hinv, h => by cases h; exact hinv
  | it :: stage, _, _, hinv, h => by
    rw [TxMemPool.removeStaged] at h
    split at h
    · next hit => exact (hinv.removeUnchecked hit).removeStaged h
    · cases h

/-- `addUnchecked` of a transaction that passed the checks makes it the pending one. -/
theorem addUnchecked (hinv : KeyImagesExact pool none) {tx : CTransaction τ}
    (hnew : pool.exists tx.hash = false) (hsize : ∀ txin ∈ tx.vin, txin.sizeOk = true)
    (hfresh : ∀ ki ∈ tx.keyImages, pool.mapKeyImages ki = none) :
    KeyImagesExact (pool.addUnchecked tx) (some tx) where
  map_iff ki hash := by
    show pool.mapKeyImages ki = some hash ↔ _
    rw [hinv.map_iff]
    constructor
    · rintro ⟨tx', htx', -, rfl, hki'⟩
      refine ⟨tx', List.mem_append_left _ htx', fun p hp => ?_, rfl, hki'⟩
      obtain rfl := Option.mem_some_iff.mp hp
      exact exists_eq_false_iff.mp hnew tx' htx'
    · rintro ⟨tx', htx', hp', rfl, hki'⟩
      rcases List.mem_append.mp htx' with htx' | htx'
      · exact ⟨tx', htx', (fun p hp => nomatch hp), rfl, hki'⟩
      · rw [List.mem_singleton] at htx'
        subst htx'
        exact absurd rfl (hp' tx' rfl)
  fresh p hp := by
    obtain rfl := Option.mem_some_iff.mp hp
    exact hfresh
  pending_unique p hp tx' htx' heq := by
    obtain rfl := Option.mem_some_iff.mp hp
    rcases List.mem_append.mp htx' with htx' | htx'
    · exact absurd heq (exists_eq_false_iff.mp hnew tx' htx')
    · exact List.mem_singleton.mp htx'
  nodup := by
    rw [CTxMemPool.addUnchecked, List.map_append, List.nodup_append]
    refine ⟨hinv.nodup, List.nodup_singleton _, ?_⟩
    intro a ha b hb
    rw [List.map_singleton, List.mem_singleton] at hb
    obtain ⟨tx', htx', rfl⟩ := List.mem_map.mp ha
    rw [hb]
    exact exists_eq_false_iff.mp hnew tx' htx'
  sizeOk tx' htx' := by
    rcases List.mem_append.mp htx' with htx' | htx'
    · exact hinv.sizeOk tx' htx'
    · exact List.mem_singleton.mp htx' ▸ hsize

/-- `AddKeyImagesToMempool` of the pending transaction, still in `mapTx`, succeeds and makes the
map exact. -/
theorem addKeyImagesToMempool (hinv : KeyImagesExact pool (some p)) (hp : p ∈ pool.mapTx) :
    KeyImagesExact (TxMemPool.addKeyImagesToMempool p pool).1 none ∧
      (TxMemPool.addKeyImagesToMempool p pool).2 = true := by
  rw [addKeyImagesToMempool_of_sizeOk (hinv.sizeOk p hp)]
  refine ⟨⟨fun ki hash => ?_, (fun _ hp => nomatch hp), (fun _ hp => nomatch hp), hinv.nodup, hinv.sizeOk⟩,
    rfl⟩
  show setKeyImages p.hash p.keyImages pool.mapKeyImages ki = some hash ↔ _
  rw [setKeyImages_apply]
  split
  · next hki =>
    rw [Option.some.injEq]
    constructor
    · rintro rfl
      exact ⟨p, hp, (fun _ h => nomatch h), rfl, hki⟩
    · rintro ⟨tx, htx, -, rfl, hki'⟩
      by_contra hne
      -- another transaction spending a key image of `p` would be in the map
      have h₁ := (hinv.map_iff ki tx.hash).mpr ⟨tx, htx, fun q hq => ?_, rfl, hki'⟩
      · rw [hinv.fresh p rfl ki hki] at h₁
        cases h₁
      · obtain rfl := Option.mem_some_iff.mp hq
        exact fun h => hne h.symm
  · next hki =>
    rw [hinv.map_iff]
    constructor
    · rintro ⟨tx, htx, -, rfl, hki'⟩
      exact ⟨tx, htx, (fun _ h => nomatch h), rfl, hki'⟩
    · rintro ⟨tx, htx, -, rfl, hki'⟩
      refine ⟨tx, htx, fun q hq heq => ?_, rfl, hki'⟩
      obtain rfl := Option.mem_some_iff.mp hq
      exact hki (hinv.pending_unique p rfl tx htx heq ▸ hki')

/-- A pending transaction that left `mapTx` leaves the map exact. -/
theorem of_not_exists (hinv : KeyImagesExact pool (some p)) (hp : pool.exists p.hash = false) :
    KeyImagesExact pool none where
  map_iff ki hash := by
    rw [hinv.map_iff]
    constructor
    · rintro ⟨tx, htx, -, rfl, hki⟩
      exact ⟨tx, htx, (fun _ h => nomatch h), rfl, hki⟩
    · rintro ⟨tx, htx, -, rfl, hki⟩
      refine ⟨tx, htx, fun q hq => ?_, rfl, hki⟩
      obtain rfl := Option.mem_some_iff.mp hq
      exact exists_eq_false_iff.mp hp tx htx
  fresh _ h := nomatch h
  pending_unique _ h := nomatch h
  nodup := hinv.nodup
  sizeOk := hinv.sizeOk

omit [DecidableEq τ] in
/-- With nothing pending, `map_iff` reads without its side condition. -/
theorem map_iff_none (hinv : KeyImagesExact pool none) (ki : CCmpPubKey) (hash : τ) :
    pool.mapKeyImages ki = some hash ↔ ∃ tx ∈ pool.mapTx, tx.hash = hash ∧ ki ∈ tx.keyImages := by
  rw [hinv.map_iff]
  constructor
  · rintro ⟨tx, htx, -, hh, hki⟩
    exact ⟨tx, htx, hh, hki⟩
  · rintro ⟨tx, htx, hh, hki⟩
    exact ⟨tx, htx, (fun _ h => nomatch h), hh, hki⟩

omit [DecidableEq τ] in
theorem map_eq_none (hinv : KeyImagesExact pool none) (ki : CCmpPubKey) :
    pool.mapKeyImages ki = none ↔ ∀ tx ∈ pool.mapTx, ki ∉ tx.keyImages := by
  rw [Option.eq_none_iff_forall_ne_some]
  constructor
  · intro h tx htx hki
    exact h tx.hash ((hinv.map_iff_none ki tx.hash).mpr ⟨tx, htx, rfl, hki⟩)
  · intro h hash hsome
    obtain ⟨tx, htx, -, hki⟩ := (hinv.map_iff_none ki hash).mp hsome
    exact h tx htx hki

/-- The end of the acceptance path, from the pending transaction, makes the map exact. -/
theorem acceptToMemoryPoolFinish {tx : CTransaction τ} {bypass_limits : Bool}
    (hinv : KeyImagesExact pool (some tx)) (hmem : bypass_limits = true → tx ∈ pool.mapTx) :
    KeyImagesExact (TxMemPool.acceptToMemoryPoolFinish pool tx bypass_limits).1 none := by
  unfold TxMemPool.acceptToMemoryPoolFinish
  split
  · next htrim =>
    -- trimmed: the pending transaction left `mapTx`
    rw [Bool.and_eq_true, Bool.not_eq_true', Bool.not_eq_true'] at htrim
    exact hinv.of_not_exists htrim.2
  · next hkept =>
    have hp : tx ∈ pool.mapTx := by
      cases hb : bypass_limits
      · rw [hb, Bool.not_false, Bool.true_and, Bool.not_eq_true', Bool.not_eq_false] at hkept
        obtain ⟨tx', htx', heq⟩ := List.any_eq_true.mp hkept
        rw [hinv.pending_unique tx rfl tx' htx' (beq_iff_eq.mp heq)] at htx'
        exact htx'
      · exact hmem hb
    obtain ⟨hinv', hok⟩ := hinv.addKeyImagesToMempool hp
    dsimp only
    rw [hok]
    exact hinv'

/-- `AcceptToMemoryPoolWorker` keeps the map exact, whatever it removes and whether it
accepts, rejects or finds the transaction trimmed. -/
theorem acceptToMemoryPoolWorker (hinv : KeyImagesExact pool none) {tx : CTransaction τ}
    {keyImageDB : CCmpPubKey → Option τ} {otherChecks : Except String Unit}
    {allConflicting trimmed : List (CTransaction τ)} {bypass_limits test_accept : Bool}
    {pool' : CTxMemPool τ} {r : Except String Unit}
    (h : TxMemPool.acceptToMemoryPoolWorker pool tx keyImageDB otherChecks allConflicting trimmed
      bypass_limits test_accept = some (pool', r)) : KeyImagesExact pool' none := by
  unfold TxMemPool.acceptToMemoryPoolWorker at h
  split at h
  · cases h; exact hinv
  · next hnew =>
    rw [Bool.not_eq_true] at hnew
    split at h
    · cases h; exact hinv
    · cases h; exact hinv
    · next _ _ hchk =>
      obtain ⟨hsize, hfresh⟩ := checkAnonInputs_ok hchk
      split at h
      · cases h; exact hinv
      · obtain ⟨pool₁, h₁, h⟩ := Option.bind_eq_some_iff.mp h
        have hinv₁ := hinv.removeStaged h₁
        -- the replaced entries leave no key image of `tx` behind
        have hinv₂ := hinv₁.addUnchecked
          (exists_eq_false_iff.mpr fun tx' htx' => exists_eq_false_iff.mp hnew tx' (mem_of_removeStaged h₁ htx'))
          hsize (fun ki hki => (hinv₁.map_eq_none ki).mpr fun tx' htx' =>
            (hinv.map_eq_none ki).mp (hfresh ki hki) tx' (mem_of_removeStaged h₁ htx'))
        dsimp only at h
        split at h
        · next hb =>
          obtain ⟨pool₃, h₃, h⟩ := Option.bind_eq_some_iff.mp h
          cases h₃
          have hfin : (TxMemPool.acceptToMemoryPoolFinish (pool₁.addUnchecked tx) tx bypass_limits).1 = pool' :=
            congrArg Prod.fst (Option.some.inj h)
          rw [← hfin]
          exact hinv₂.acceptToMemoryPoolFinish fun _ => List.mem_append_right _ (List.mem_singleton_self tx)
        · next hb =>
          obtain ⟨pool₃, h₃, h⟩ := Option.bind_eq_some_iff.mp h
          have hfin : (TxMemPool.acceptToMemoryPoolFinish pool₃ tx bypass_limits).1 = pool' :=
            congrArg Prod.fst (Option.some.inj h)
          rw [← hfin]
          exact (hinv₂.removeStaged h₃).acceptToMemoryPoolFinish fun h => absurd h hb

theorem removeKeyImageConflicts {tx : CTransaction τ}
    {calculateDescendants : CTransaction τ → List (CTransaction τ)} :
    ∀ {kis : List CCmpPubKey} {pool₀ pool' : CTxMemPool τ}, KeyImagesExact pool₀ none →
      TxMemPool.removeKeyImageConflicts tx calculateDescendants pool₀ kis = some pool' →
        KeyImagesExact pool' none
  | [], _, _, hinv, h => by cases h; exact hinv
  | ki :: kis, pool₀, _, hinv, h => by
    rw [TxMemPool.removeKeyImageConflicts] at h
    split at h
    · exact removeKeyImageConflicts hinv h
    · split at h
      · exact removeKeyImageConflicts hinv h
      · split at h
        · obtain ⟨pool₁, h₁, h⟩ := Option.bind_eq_some_iff.mp h
          exact removeKeyImageConflicts (hinv.removeStaged h₁) h
        · exact removeKeyImageConflicts hinv h

theorem removeForBlock {calculateDescendants otherRemovals : CTransaction τ → List (CTransaction τ)} :
    ∀ {vtx : List (CTransaction τ)} {pool₀ pool' : CTxMemPool τ}, KeyImagesExact pool₀ none →
      TxMemPool.removeForBlock pool₀ calculateDescendants otherRemovals vtx = some pool' →
        KeyImagesExact pool' none
  | [], _, _, hinv, h => by cases h; exact hinv
  | tx :: vtx, pool₀, _, hinv, h => by
    rw [TxMemPool.removeForBlock] at h
    obtain ⟨pool₁, h₁, h⟩ := Option.bind_eq_some_iff.mp h
    obtain ⟨pool₂, h₂, h⟩ := Option.bind_eq_some_iff.mp h
    -- the block transaction's own entry, or the zerocoin conflicts, leave first
    have hinv₁ : KeyImagesExact pool₁ none := by
      unfold removeEntryForBlock at h₁
      split at h₁
      · exact hinv.removeStaged h₁
      · exact hinv.removeStaged h₁
    exact removeForBlock ((hinv₁.removeKeyImageConflicts) h₂) h

theorem step {pool₀ pool' : CTxMemPool τ} {e : Event τ} (hinv : KeyImagesExact pool₀ none)
    (h : TxMemPool.step pool₀ e = some pool') : KeyImagesExact pool' none := by
  cases e with
  | accept tx keyImageDB otherChecks allConflicting trimmed bypass_limits test_accept =>
    rw [TxMemPool.step] at h
    obtain ⟨⟨pool'', r⟩, hworker, rfl⟩ := Option.map_eq_some_iff.mp h
    exact hinv.acceptToMemoryPoolWorker hworker
  | removeStaged stage => exact hinv.removeStaged h
  | removeForBlock vtx calculateDescendants otherRemovals => exact hinv.removeForBlock h

omit [DecidableEq τ] in
theorem empty : KeyImagesExact (CTxMemPool.empty : CTxMemPool τ) none where
  map_iff ki hash := by simp [CTxMemPool.empty]
  fresh _ h := nomatch h
  pending_unique _ h := nomatch h
  nodup := List.nodup_nil
  sizeOk _ h := nomatch h

end KeyImagesExact

/-! ## Runs keep the map exact -/

theorem keyImagesExact_of_reachable {pool : CTxMemPool τ} (h : Reachable pool) :
    KeyImagesExact pool none := by
  refine TransitionSystem.Reachable.invariant (P := fun pool => KeyImagesExact pool none) ?_ ?_ h
  · rintro _ rfl
    exact KeyImagesExact.empty
  · intro _ _ _ hinv _ hstep
    exact hinv.step hstep

/-- In every pool reachable from a new one, `mapKeyImages` maps exactly the key images of the
anon inputs of the transactions in `mapTx`, each to the hash of the transaction spending it; no
two transactions of the pool share a key image, and `HaveKeyImage` holds exactly for the key
images the pool's transactions spend. -/
theorem reachable_keyImagesExact {pool : CTxMemPool τ} (h : Reachable pool) :
    (∀ ki hash, pool.mapKeyImages ki = some hash ↔ ∃ tx ∈ pool.mapTx, tx.hash = hash ∧ ki ∈ tx.keyImages) ∧
    (∀ tx₁ ∈ pool.mapTx, ∀ tx₂ ∈ pool.mapTx, ∀ ki ∈ tx₁.keyImages, ki ∈ tx₂.keyImages → tx₁ = tx₂) ∧
    (∀ ki, (pool.haveKeyImage ki).isSome = true ↔ ∃ tx ∈ pool.mapTx, ki ∈ tx.keyImages) := by
  have hinv := keyImagesExact_of_reachable h
  have hiff := hinv.map_iff_none
  refine ⟨hiff, ?_, ?_⟩
  · intro tx₁ htx₁ tx₂ htx₂ ki hki₁ hki₂
    have h₁ := (hiff ki tx₁.hash).mpr ⟨tx₁, htx₁, rfl, hki₁⟩
    have h₂ := (hiff ki tx₂.hash).mpr ⟨tx₂, htx₂, rfl, hki₂⟩
    rw [h₁, Option.some.injEq] at h₂
    exact hinv.eq_of_hash_eq htx₁ htx₂ h₂
  · intro ki
    rw [haveKeyImage, Option.isSome_iff_exists]
    constructor
    · rintro ⟨hash, hh⟩
      obtain ⟨tx, htx, -, hki⟩ := (hiff ki hash).mp hh
      exact ⟨tx, htx, hki⟩
    · rintro ⟨tx, htx, hki⟩
      exact ⟨tx.hash, (hiff ki tx.hash).mpr ⟨tx, htx, rfl, hki⟩⟩

/-- The pool after a new pool accepts the transaction `1` with one anon input of key image
`[7, …, 7]`. -/
def acceptedPool : CTxMemPool Nat :=
  ⟨[⟨1, [.anon 1 (List.replicate 33 7)]⟩],
    Function.update (fun _ => none) (List.replicate 33 7) (some 1)⟩

theorem reachable_acceptedPool : Reachable acceptedPool :=
  ⟨_, [.accept ⟨1, [.anon 1 (List.replicate 33 7)]⟩ (fun _ => none) (.ok ()) [] [] true false], rfl,
    .cons trivial rfl (.nil _)⟩

/-- A new pool that accepts one transaction with one key image is reachable, and `HaveKeyImage`
holds for that key image. -/
theorem reachable_keyImagesExact_accept :
    Reachable (⟨[⟨1, [.anon 1 (List.replicate 33 7)]⟩],
        Function.update (fun _ => none) (List.replicate 33 7) (some 1)⟩ : CTxMemPool Nat) ∧
      ((⟨[⟨1, [.anon 1 (List.replicate 33 7)]⟩],
        Function.update (fun _ => none) (List.replicate 33 7) (some 1)⟩ : CTxMemPool Nat).haveKeyImage
          (List.replicate 33 7)).isSome = true := by
  exact ⟨reachable_acceptedPool,
    ((reachable_keyImagesExact reachable_acceptedPool).2.2 _).mpr
      ⟨_, List.mem_singleton_self _, by decide⟩⟩

/-- `clear` (the `abandontransaction` RPC with its delete flag, `UnloadBlockIndex`) keeps every
key image of a reachable pool: `HaveKeyImage` still holds though no transaction is left. -/
theorem clear_keeps_keyImages {pool : CTxMemPool τ} (h : Reachable pool) {tx : CTransaction τ}
    (htx : tx ∈ pool.mapTx) {ki : CCmpPubKey} (hki : ki ∈ tx.keyImages) :
    (pool.clear.haveKeyImage ki).isSome = true ∧ pool.clear.mapTx = [] := by
  have hinv := keyImagesExact_of_reachable h
  have hmap := (hinv.map_iff_none ki tx.hash).mpr ⟨tx, htx, rfl, hki⟩
  exact ⟨by rw [CTxMemPool.clear, haveKeyImage, hmap]; rfl, rfl⟩

/-- Clearing `acceptedPool` keeps the key image of its one transaction. -/
theorem clear_keeps_keyImages_acceptedPool :
    (acceptedPool.clear.haveKeyImage (List.replicate 33 7)).isSome = true ∧
      acceptedPool.clear.mapTx = [] :=
  clear_keeps_keyImages reachable_acceptedPool List.mem_cons_self (by decide)

end Veil.TxMemPool
