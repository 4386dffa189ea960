import Mathlib
import Veil.Lib.TransitionSystem
import Veil.Lib.Worklist

/-!
# Mempool packages (`txmempool.cpp`, `validation.cpp`)

Every entry of `CTxMemPool::mapTx` carries the statistics of its package: the count,
virtual size, modified fee and (for ancestors) sigop cost of itself and all its in-pool
ancestors, and of itself and all its descendants.  `mapLinks` holds each entry's in-pool
parents and children, and `mapNextTx` maps each outpoint a pool transaction spends to the
spender.  The routines that add and remove transactions keep all three in step
incrementally.

The model follows each routine as the source computes it.  An iterator of `mapTx` is the
hash of its transaction; a `setEntries` is a list without duplicates, taken apart from its
head; `mapNextTx` is an association list.  Each `while` loop over a set of entries runs for
at most as many iterations as the pool has entries (`mapTx.length`), which is enough while
the links point into the pool.  `AcceptToMemoryPool` is the checks of it that read the
pool (the transaction is new, it spends no outpoint or key image a pool transaction spends,
and `CalculateMemPoolAncestors` succeeds); the others, which read scripts, fees and the
chain, are a verdict the events carry, as are the finality and maturity tests of
`removeForReorg`.

Veil's anon (RingCT) and zerocoin-spend inputs have no parent in the pool:
`CalculateMemPoolAncestors` and `addUnchecked` skip both, and `addUnchecked` enters only
the other inputs' prevouts in `mapNextTx`.  `removeUnchecked` skips the anon inputs but
not the zerocoin-spend ones: it erases the prevout of a zerocoin-spend input from
`mapNextTx`, whichever transaction that entry belongs to.
-/

namespace Veil.TxMemPool.Packages

/-! ## Transactions and entries -/

structure COutPoint (τ : Type) where
  hash : τ
  n : Nat
  deriving DecidableEq, Repr

/-- `CCmpPubKey`: a key image. -/
abbrev CCmpPubKey := List UInt8

/-- What the package code reads of an input besides its prevout. -/
inductive TxInKind
  /-- A standard input, spending its `prevout`. -/
  | standard
  /-- `IsAnonInput()`: a RingCT input and the key images it spends. -/
  | anon (keyImages : List CCmpPubKey)
  /-- `scriptSig.IsZerocoinSpend()`. -/
  | zerocoinSpend
  deriving DecidableEq, Repr

structure CTxIn (τ : Type) where
  prevout : COutPoint τ
  kind : TxInKind
  deriving DecidableEq, Repr

/-- `IsAnonInput() || scriptSig.IsZerocoinSpend()`: the inputs the links do not follow. -/
def CTxIn.isSkipped {τ : Type} (txin : CTxIn τ) : Bool :=
  match txin.kind with
  | .standard => false
  | .anon _ => true
  | .zerocoinSpend => true

structure CTransaction (τ : Type) where
  /-- `GetHash()`. -/
  hash : τ
  vin : List (CTxIn τ)
  /-- `GetNumVOuts()`. -/
  nOuts : Nat
  isZerocoinMint : Bool
  isZerocoinSpend : Bool
  /-- `TxToPubcoinHashSet`. -/
  pubcoinHashes : List τ
  /-- `TxToSerialHashSet`. -/
  serialHashes : List τ
  deriving DecidableEq, Repr

/-- `CTxMemPoolEntry`, with the fields the package code reads and writes. -/
structure CTxMemPoolEntry (τ : Type) where
  tx : CTransaction τ
  nFee : Int
  /-- `GetTxSize()`, the virtual size of `nTxWeight` and `sigOpCost`. -/
  txSize : Nat
  sigOpCost : Int
  feeDelta : Int
  nCountWithDescendants : Int
  nSizeWithDescendants : Int
  nModFeesWithDescendants : Int
  nCountWithAncestors : Int
  nSizeWithAncestors : Int
  nModFeesWithAncestors : Int
  nSigOpCostWithAncestors : Int
  setSerialHashes : List τ
  setPubcoinHashes : List τ
  deriving DecidableEq, Repr

namespace CTxMemPoolEntry

variable {τ : Type}

/-- The constructor: a package of the entry alone, and no fee delta. -/
def init (tx : CTransaction τ) (nFee : Int) (txSize : Nat) (sigOpCost : Int) :
    CTxMemPoolEntry τ where
  tx := tx
  nFee := nFee
  txSize := txSize
  sigOpCost := sigOpCost
  feeDelta := 0
  nCountWithDescendants := 1
  nSizeWithDescendants := txSize
  nModFeesWithDescendants := nFee
  nCountWithAncestors := 1
  nSizeWithAncestors := txSize
  nModFeesWithAncestors := nFee
  nSigOpCostWithAncestors := sigOpCost
  setSerialHashes := if tx.isZerocoinSpend then tx.serialHashes else []
  setPubcoinHashes := if tx.isZerocoinMint then tx.pubcoinHashes else []

def getModifiedFee (e : CTxMemPoolEntry τ) : Int := e.nFee + e.feeDelta

def updateFeeDelta (e : CTxMemPoolEntry τ) (newFeeDelta : Int) : CTxMemPoolEntry τ :=
  { e with
    nModFeesWithDescendants := e.nModFeesWithDescendants + (newFeeDelta - e.feeDelta)
    nModFeesWithAncestors := e.nModFeesWithAncestors + (newFeeDelta - e.feeDelta)
    feeDelta := newFeeDelta }

/-- `UpdateDescendantState`, without its asserts. -/
def updateDescendantState (e : CTxMemPoolEntry τ) (modifySize modifyFee modifyCount : Int) :
    CTxMemPoolEntry τ :=
  { e with
    nSizeWithDescendants := e.nSizeWithDescendants + modifySize
    nModFeesWithDescendants := e.nModFeesWithDescendants + modifyFee
    nCountWithDescendants := e.nCountWithDescendants + modifyCount }

/-- `UpdateAncestorState`, without its asserts. -/
def updateAncestorState (e : CTxMemPoolEntry τ) (modifySize modifyFee modifyCount modifySigOps : Int) :
    CTxMemPoolEntry τ :=
  { e with
    nSizeWithAncestors := e.nSizeWithAncestors + modifySize
    nModFeesWithAncestors := e.nModFeesWithAncestors + modifyFee
    nCountWithAncestors := e.nCountWithAncestors + modifyCount
    nSigOpCostWithAncestors := e.nSigOpCostWithAncestors + modifySigOps }

/-- `IsZerocoinMint()`. -/
def isZerocoinMint (e : CTxMemPoolEntry τ) : Bool := e.tx.isZerocoinMint

/-- `IsZerocoinSpend()`. -/
def isZerocoinSpend (e : CTxMemPoolEntry τ) : Bool := e.tx.isZerocoinSpend

end CTxMemPoolEntry

/-! ## The pool -/

structure TxLinks (τ : Type) where
  parents : List τ
  children : List τ
  deriving DecidableEq, Repr

/-- What of `CTxMemPool` the package code reads and writes. -/
structure CTxMemPool (τ : Type) where
  mapTx : List (CTxMemPoolEntry τ)
  mapLinks : τ → TxLinks τ
  mapNextTx : List (COutPoint τ × τ)
  mapDeltas : τ → Option Int
  mapKeyImages : CCmpPubKey → Option τ

/-- The limits `CalculateMemPoolAncestors` checks. -/
structure Limits where
  limitAncestorCount : Nat
  limitAncestorSize : Nat
  limitDescendantCount : Nat
  limitDescendantSize : Nat
  deriving DecidableEq, Repr

/-- `std::numeric_limits<uint64_t>::max()` for all four. -/
def nNoLimit : Limits := ⟨2 ^ 64 - 1, 2 ^ 64 - 1, 2 ^ 64 - 1, 2 ^ 64 - 1⟩

/-- The errors of `CalculateMemPoolAncestors`, with the data of their messages. -/
inductive AncestorError (τ : Type)
  | tooManyUnconfirmedParents (limit : Nat)
  | exceedsDescendantSizeLimit (tx : τ) (limit : Nat)
  | tooManyDescendants (tx : τ) (limit : Nat)
  | exceedsAncestorSizeLimit (limit : Nat)
  | tooManyUnconfirmedAncestors (limit : Nat)
  deriving DecidableEq, Repr

/-- `errString`; `hashString` is `GetHash().ToString()`. -/
def AncestorError.errString {τ : Type} (hashString : τ → String) : AncestorError τ → String
  | .tooManyUnconfirmedParents limit =>
    "too many unconfirmed parents [limit: " ++ toString limit ++ "]"
  | .exceedsDescendantSizeLimit tx limit =>
    "exceeds descendant size limit for tx " ++ hashString tx ++ " [limit: " ++ toString limit ++ "]"
  | .tooManyDescendants tx limit =>
    "too many descendants for tx " ++ hashString tx ++ " [limit: " ++ toString limit ++ "]"
  | .exceedsAncestorSizeLimit limit =>
    "exceeds ancestor size limit [limit: " ++ toString limit ++ "]"
  | .tooManyUnconfirmedAncestors limit =>
    "too many unconfirmed ancestors [limit: " ++ toString limit ++ "]"

/-- `cacheMap`: descendants already found by `UpdateForDescendants`. -/
abbrev CacheMap (τ : Type) := τ → Option (List τ)

/-- A transaction as `UpdateMempoolForReorg` offers it again: the entry's data and whether
the checks of `AcceptToMemoryPool` that do not read the pool (and `fAddToMempool`) pass. -/
structure ReaddedTx (τ : Type) where
  tx : CTransaction τ
  nFee : Int
  txSize : Nat
  sigOpCost : Int
  fAccepted : Bool

namespace CTxMemPool

variable {τ : Type} [DecidableEq τ]

/-- An empty pool. -/
def empty : CTxMemPool τ := ⟨[], fun _ => ⟨[], []⟩, [], fun _ => none, fun _ => none⟩

/-- `mapTx.find(hash)`. -/
def find (pool : CTxMemPool τ) (hash : τ) : Option (CTxMemPoolEntry τ) :=
  pool.mapTx.find? (·.tx.hash == hash)

/-- `mapTx.modify(it, f)`. -/
def modify (pool : CTxMemPool τ) (it : τ) (f : CTxMemPoolEntry τ → CTxMemPoolEntry τ) :
    CTxMemPool τ :=
  { pool with mapTx := pool.mapTx.map fun e => if e.tx.hash = it then f e else e }

/-- `it->GetTxSize()`. -/
def txSizeOf (pool : CTxMemPool τ) (it : τ) : Int := ((pool.find it).map (·.txSize)).getD 0

/-- `it->GetModifiedFee()`. -/
def modifiedFeeOf (pool : CTxMemPool τ) (it : τ) : Int :=
  ((pool.find it).map (·.getModifiedFee)).getD 0

/-- `it->GetSigOpCost()`. -/
def sigOpCostOf (pool : CTxMemPool τ) (it : τ) : Int := ((pool.find it).map (·.sigOpCost)).getD 0

def getMemPoolParents (pool : CTxMemPool τ) (it : τ) : List τ := (pool.mapLinks it).parents

def getMemPoolChildren (pool : CTxMemPool τ) (it : τ) : List τ := (pool.mapLinks it).children

/-- `UpdateChild(entry, child, add)`. -/
def updateChild (pool : CTxMemPool τ) (entry child : τ) (add : Bool) : CTxMemPool τ :=
  let links := pool.mapLinks entry
  let links := { links with
    children := if add then links.children.insert child else links.children.erase child }
  { pool with mapLinks := Function.update pool.mapLinks entry links }

/-- `UpdateParent(entry, parent, add)`. -/
def updateParent (pool : CTxMemPool τ) (entry parent : τ) (add : Bool) : CTxMemPool τ :=
  let links := pool.mapLinks entry
  let links := { links with
    parents := if add then links.parents.insert parent else links.parents.erase parent }
  { pool with mapLinks := Function.update pool.mapLinks entry links }

/-- `mapNextTx.insert(make_pair(&prevout, &tx))`, which keeps an entry already there. -/
def insertNextTx (pool : CTxMemPool τ) (prevout : COutPoint τ) (hash : τ) : CTxMemPool τ :=
  if (pool.mapNextTx.lookup prevout).isSome then pool
  else { pool with mapNextTx := pool.mapNextTx ++ [(prevout, hash)] }

/-- `mapNextTx.erase(prevout)`. -/
def eraseNextTx (pool : CTxMemPool τ) (prevout : COutPoint τ) : CTxMemPool τ :=
  { pool with mapNextTx := pool.mapNextTx.filter (·.1 != prevout) }

/-- `ClearPrioritisation(hash)`. -/
def clearPrioritisation (pool : CTxMemPool τ) (hash : τ) : CTxMemPool τ :=
  { pool with mapDeltas := Function.update pool.mapDeltas hash none }

/-! ## `CalculateMemPoolAncestors` -/

/-- The parent search of `CalculateMemPoolAncestors` over the inputs. -/
def searchParents (pool : CTxMemPool τ) (limitAncestorCount : Nat) :
    List (CTxIn τ) → List τ → Except (AncestorError τ) (List τ)
  | [], parentHashes => pure parentHashes
  | txin :: vin, parentHashes =>
    if txin.isSkipped then searchParents pool limitAncestorCount vin parentHashes
    else match pool.find txin.prevout.hash with
      | none => searchParents pool limitAncestorCount vin parentHashes
      | some _ =>
        let parentHashes := parentHashes.insert txin.prevout.hash
        if parentHashes.length + 1 > limitAncestorCount then
          throw (.tooManyUnconfirmedParents limitAncestorCount)
        else searchParents pool limitAncestorCount vin parentHashes

/-- The loop over `GetMemPoolParents(stageit)`, staging the new ancestors. -/
def stageParents (limitAncestorCount : Nat) (setAncestors : List τ) :
    List τ → List τ → Except (AncestorError τ) (List τ)
  | [], parentHashes => pure parentHashes
  | phash :: parents, parentHashes =>
    -- if this is a new ancestor, add it
    let parentHashes := if phash ∈ setAncestors then parentHashes else parentHashes.insert phash
    if parentHashes.length + setAncestors.length + 1 > limitAncestorCount then
      throw (.tooManyUnconfirmedAncestors limitAncestorCount)
    else stageParents limitAncestorCount setAncestors parents parentHashes

/-- The `while (!parentHashes.empty())` loop: the ancestors found, and the error it
returns with, if any. -/
def ancestorsLoop (pool : CTxMemPool τ) (entrySize : Nat) (limits : Limits) :
    Nat → List τ → List τ → Int → List τ × Option (AncestorError τ)
  | 0, _, setAncestors, _ => (setAncestors, none)
  | _ + 1, [], setAncestors, _ => (setAncestors, none)
  | fuel + 1, stageit :: parentHashes, setAncestors, totalSizeWithAncestors =>
    let setAncestors := setAncestors.insert stageit
    let totalSizeWithAncestors := totalSizeWithAncestors + pool.txSizeOf stageit
    let sizeWithDescendants := ((pool.find stageit).map (·.nSizeWithDescendants)).getD 0
    let countWithDescendants := ((pool.find stageit).map (·.nCountWithDescendants)).getD 0
    if sizeWithDescendants + entrySize > (limits.limitDescendantSize : Int) then
      (setAncestors, some (.exceedsDescendantSizeLimit stageit limits.limitDescendantSize))
    else if countWithDescendants + 1 > (limits.limitDescendantCount : Int) then
      (setAncestors, some (.tooManyDescendants stageit limits.limitDescendantCount))
    else if totalSizeWithAncestors > (limits.limitAncestorSize : Int) then
      (setAncestors, some (.exceedsAncestorSizeLimit limits.limitAncestorSize))
    else
      match stageParents limits.limitAncestorCount setAncestors (pool.getMemPoolParents stageit)
          parentHashes with
      | .error err => (setAncestors, some err)
      | .ok parentHashes =>
        ancestorsLoop pool entrySize limits fuel parentHashes setAncestors totalSizeWithAncestors

/-- `CalculateMemPoolAncestors(entry, setAncestors, limits.., errString, fSearchForParents)`
into an empty `setAncestors`: the set it fills and the error, `none` where it returns `true`.
Without the parent search the parents are the entry's links. -/
def calculateMemPoolAncestors (pool : CTxMemPool τ) (entry : CTxMemPoolEntry τ) (limits : Limits)
    (fSearchForParents : Bool) : List τ × Option (AncestorError τ) :=
  let parents := if fSearchForParents then searchParents pool limits.limitAncestorCount entry.tx.vin []
    else pure (pool.getMemPoolParents entry.tx.hash)
  match parents with
  | .error err => ([], some err)
  | .ok parentHashes => ancestorsLoop pool entry.txSize limits pool.mapTx.length parentHashes [] entry.txSize

/-- The ancestors through the links, as the removal and prioritisation code computes them. -/
def linkedAncestors (pool : CTxMemPool τ) (it : τ) : List τ :=
  match pool.find it with
  | some entry => (pool.calculateMemPoolAncestors entry nNoLimit false).1
  | none => []

/-! ## Adding -/

/-- `UpdateAncestorsOf(add, it, setAncestors)`. -/
def updateAncestorsOf (pool : CTxMemPool τ) (add : Bool) (it : τ) (setAncestors : List τ) :
    CTxMemPool τ :=
  -- add or remove this tx as a child of each parent
  let pool := (pool.getMemPoolParents it).foldl (fun pool piter => pool.updateChild piter it add) pool
  let updateCount : Int := if add then 1 else -1
  let updateSize := updateCount * pool.txSizeOf it
  let updateFee := updateCount * pool.modifiedFeeOf it
  setAncestors.foldl
    (fun pool ancestorIt => pool.modify ancestorIt (·.updateDescendantState updateSize updateFee updateCount))
    pool

/-- `UpdateEntryForAncestors(it, setAncestors)`. -/
def updateEntryForAncestors (pool : CTxMemPool τ) (it : τ) (setAncestors : List τ) : CTxMemPool τ :=
  let updateSize := (setAncestors.map pool.txSizeOf).sum
  let updateFee := (setAncestors.map pool.modifiedFeeOf).sum
  let updateSigOpsCost := (setAncestors.map pool.sigOpCostOf).sum
  pool.modify it (·.updateAncestorState updateSize updateFee setAncestors.length updateSigOpsCost)

/-- The input loop of `addUnchecked`: the prevouts of the inputs the links follow enter
`mapNextTx`, and their hashes are the candidate parents. -/
def addInputs (hash : τ) : List (CTxIn τ) → CTxMemPool τ × List τ → CTxMemPool τ × List τ
  | [], acc => acc
  | txin :: vin, (pool, setParentTransactions) =>
    if txin.isSkipped then addInputs hash vin (pool, setParentTransactions)
    else addInputs hash vin
      (pool.insertNextTx txin.prevout hash, setParentTransactions.insert txin.prevout.hash)

/-- `addUnchecked(hash, entry, setAncestors)`: the entry enters `mapTx` with empty links and
the fee delta `PrioritiseTransaction` recorded for it, its followed inputs enter
`mapNextTx`, it is linked to its in-pool parents and the packages are updated. -/
def addUnchecked (pool : CTxMemPool τ) (hash : τ) (entry : CTxMemPoolEntry τ)
    (setAncestors : List τ) : CTxMemPool τ :=
  let pool := { pool with mapTx := pool.mapTx ++ [entry],
                          mapLinks := Function.update pool.mapLinks hash ⟨[], []⟩ }
  let pool := match pool.mapDeltas hash with
    | some delta => if delta ≠ 0 then pool.modify hash (·.updateFeeDelta delta) else pool
    | none => pool
  let (pool, setParentTransactions) := addInputs hash entry.tx.vin (pool, [])
  let pool := setParentTransactions.foldl
    (fun pool phash => if (pool.find phash).isSome then pool.updateParent hash phash true else pool) pool
  let pool := pool.updateAncestorsOf true hash setAncestors
  pool.updateEntryForAncestors hash setAncestors

/-- `AddKeyImagesToMempool(tx, pool)`. -/
def addKeyImages (pool : CTxMemPool τ) (tx : CTransaction τ) : CTxMemPool τ :=
  tx.vin.foldl (fun pool txin =>
    match txin.kind with
    | .anon keyImages => keyImages.foldl
        (fun pool ki => { pool with mapKeyImages := Function.update pool.mapKeyImages ki (some tx.hash) })
        pool
    | _ => pool) pool

/-- What `AcceptToMemoryPool` checks against the pool: the transaction is new, none of its
followed inputs spends an outpoint of `mapNextTx`, none of its key images is in
`mapKeyImages`, and `CalculateMemPoolAncestors` succeeds.  The ancestors where it does. -/
def acceptChecks (pool : CTxMemPool τ) (entry : CTxMemPoolEntry τ) (limits : Limits) :
    Option (List τ) :=
  if (pool.find entry.tx.hash).isSome then none
  else if entry.tx.vin.any (fun txin => !txin.isSkipped && (pool.mapNextTx.lookup txin.prevout).isSome)
  then none
  else if entry.tx.vin.any (fun txin => match txin.kind with
      | .anon keyImages => keyImages.any fun ki => (pool.mapKeyImages ki).isSome
      | _ => false) then none
  else match pool.calculateMemPoolAncestors entry limits true with
    | (setAncestors, none) => some setAncestors
    | (_, some _) => none

/-- `AcceptToMemoryPool` for a transaction with the given fee, size and sigop cost: the
checks, `addUnchecked`, then `AddKeyImagesToMempool`. -/
def accept (pool : CTxMemPool τ) (tx : CTransaction τ) (nFee : Int) (txSize : Nat) (sigOpCost : Int)
    (limits : Limits) : Option (CTxMemPool τ) :=
  let entry := CTxMemPoolEntry.init tx nFee txSize sigOpCost
  (pool.acceptChecks entry limits).map fun setAncestors =>
    (pool.addUnchecked tx.hash entry setAncestors).addKeyImages tx

/-! ## Removing -/

/-- `CalculateDescendants(entryit, setDescendants)`. -/
def calculateDescendants (pool : CTxMemPool τ) (entryit : τ) (setDescendants : List τ) : List τ :=
  Worklist.visit pool.getMemPoolChildren pool.mapTx.length
    (if entryit ∈ setDescendants then [] else [entryit]) setDescendants

/-- `UpdateChildrenForRemoval(it)`. -/
def updateChildrenForRemoval (pool : CTxMemPool τ) (it : τ) : CTxMemPool τ :=
  (pool.getMemPoolChildren it).foldl (fun pool updateIt => pool.updateParent updateIt it false) pool

/-- The first phase of `UpdateForRemoveFromMempool` with `updateDescendants`: the
descendants of each removed entry drop it from their ancestor state. -/
def updateDescendantsForRemoval (pool : CTxMemPool τ) (removeIt : τ) : CTxMemPool τ :=
  let setDescendants := (pool.calculateDescendants removeIt []).erase removeIt
  let modifySize := -pool.txSizeOf removeIt
  let modifyFee := -pool.modifiedFeeOf removeIt
  let modifySigOps := -pool.sigOpCostOf removeIt
  setDescendants.foldl
    (fun pool dit => pool.modify dit (·.updateAncestorState modifySize modifyFee (-1) modifySigOps)) pool

/-- `UpdateForRemoveFromMempool(entriesToRemove, updateDescendants)`: the statistics first,
with the links as they are, then the links. -/
def updateForRemoveFromMempool (pool : CTxMemPool τ) (entriesToRemove : List τ)
    (updateDescendants : Bool) : CTxMemPool τ :=
  let pool := if updateDescendants then entriesToRemove.foldl updateDescendantsForRemoval pool else pool
  let pool := entriesToRemove.foldl
    (fun pool removeIt => pool.updateAncestorsOf false removeIt (pool.linkedAncestors removeIt)) pool
  entriesToRemove.foldl updateChildrenForRemoval pool

/-- The input loop of `removeUnchecked`: an anon input's key images leave `mapKeyImages`
(`RemoveKeyImagesFromMempool`), and every other input's prevout leaves `mapNextTx`. -/
def removeInputs (pool : CTxMemPool τ) (vin : List (CTxIn τ)) : CTxMemPool τ :=
  vin.foldl (fun pool txin =>
    match txin.kind with
    | .anon keyImages => keyImages.foldl
        (fun pool ki => { pool with mapKeyImages := Function.update pool.mapKeyImages ki none }) pool
    | _ => pool.eraseNextTx txin.prevout) pool

/-- `removeUnchecked(it)`. -/
def removeUnchecked (pool : CTxMemPool τ) (it : τ) : CTxMemPool τ :=
  let pool := match pool.find it with
    | some entry => pool.removeInputs entry.tx.vin
    | none => pool
  { pool with mapLinks := Function.update pool.mapLinks it ⟨[], []⟩,
              mapTx := pool.mapTx.filter (·.tx.hash != it) }

/-- `RemoveStaged(stage, updateDescendants)`. -/
def removeStaged (pool : CTxMemPool τ) (stage : List τ) (updateDescendants : Bool) : CTxMemPool τ :=
  stage.foldl removeUnchecked (pool.updateForRemoveFromMempool stage updateDescendants)

/-- The entries `removeRecursive(origTx)` starts from: the transaction if it is in the pool,
else the pool transactions that spend its outputs. -/
def txToRemove (pool : CTxMemPool τ) (origTx : CTransaction τ) : List τ :=
  match pool.find origTx.hash with
  | some _ => [origTx.hash]
  | none => (List.range origTx.nOuts).foldl (fun txToRemove i =>
      match pool.mapNextTx.lookup ⟨origTx.hash, i⟩ with
      | some spender => txToRemove.insert spender
      | none => txToRemove) []

/-- `removeRecursive(origTx)`: the transaction, or the spenders of its outputs, and all
their descendants. -/
def removeRecursive (pool : CTxMemPool τ) (origTx : CTransaction τ) : CTxMemPool τ :=
  let setAllRemoves := (pool.txToRemove origTx).foldl (fun s it => pool.calculateDescendants it s) []
  pool.removeStaged setAllRemoves false

/-- Remove the entries selected and all their descendants, as `removeForReorg`,
`removePubcoins` and `removeSerials` end. -/
def removeWithDescendants (pool : CTxMemPool τ) (txToRemove : List τ) : CTxMemPool τ :=
  let setAllRemoves := txToRemove.foldl (fun s it => pool.calculateDescendants it s) []
  pool.removeStaged setAllRemoves false

/-- `removeForReorg`: `fails` is whether an entry fails `CheckFinalTx`, `CheckSequenceLocks`
or the maturity of a coinbase it spends, all of which read the chain. -/
def removeForReorg (pool : CTxMemPool τ) (fails : CTxMemPoolEntry τ → Bool) : CTxMemPool τ :=
  pool.removeWithDescendants ((pool.mapTx.filter fails).map (·.tx.hash))

/-- `removePubcoins(setPubcoinHashes)`. -/
def removePubcoins (pool : CTxMemPool τ) (setPubcoinHashes : List τ) : CTxMemPool τ :=
  pool.removeWithDescendants ((pool.mapTx.filter fun e =>
    e.isZerocoinMint && setPubcoinHashes.any (· ∈ e.setPubcoinHashes)).map (·.tx.hash))

/-- `removeSerials(setSerialHashes)`. -/
def removeSerials (pool : CTxMemPool τ) (setSerialHashes : List τ) : CTxMemPool τ :=
  pool.removeWithDescendants ((pool.mapTx.filter fun e =>
    e.isZerocoinSpend && setSerialHashes.any (· ∈ e.setSerialHashes)).map (·.tx.hash))

/-- Remove a conflicting pool transaction, unless it is `tx` itself. -/
def removeConflict (pool : CTxMemPool τ) (tx : CTransaction τ) (conflict : τ) : CTxMemPool τ :=
  match pool.find conflict with
  | some entry =>
    if entry.tx.hash ≠ tx.hash then (pool.clearPrioritisation entry.tx.hash).removeRecursive entry.tx
    else pool
  | none => pool

/-- `removeConflicts(tx)`: the pool transactions holding one of its key images, or spending
the prevout of one of its other inputs, with their descendants. -/
def removeConflicts (pool : CTxMemPool τ) (tx : CTransaction τ) : CTxMemPool τ :=
  tx.vin.foldl (fun pool txin =>
    match txin.kind with
    | .anon keyImages => keyImages.foldl (fun pool ki =>
        match pool.mapKeyImages ki with
        | some txhashKI => pool.removeConflict tx txhashKI
        | none => pool) pool
    | _ => match pool.mapNextTx.lookup txin.prevout with
      | some spender => pool.removeConflict tx spender
      | none => pool) pool

/-- One transaction of `removeForBlock`'s second loop. -/
def removeForBlockTx (pool : CTxMemPool τ) (tx : CTransaction τ) : CTxMemPool τ :=
  let pool := match pool.find tx.hash with
    | some _ => pool.removeStaged [tx.hash] true
    | none =>
      -- remove any mempool mints with the same pubcoin, and spends with the same serial
      let pool := if tx.isZerocoinMint then pool.removePubcoins tx.pubcoinHashes else pool
      if tx.isZerocoinSpend then pool.removeSerials tx.serialHashes else pool
  (pool.removeConflicts tx).clearPrioritisation tx.hash

/-- `removeForBlock(vtx)`. -/
def removeForBlock (pool : CTxMemPool τ) (vtx : List (CTransaction τ)) : CTxMemPool τ :=
  vtx.foldl removeForBlockTx pool

/-! ## Prioritisation and reorgs -/

/-- `PrioritiseTransaction(hash, nFeeDelta)`. -/
def prioritiseTransaction (pool : CTxMemPool τ) (hash : τ) (nFeeDelta : Int) : CTxMemPool τ :=
  let delta := (pool.mapDeltas hash).getD 0 + nFeeDelta
  let pool := { pool with mapDeltas := Function.update pool.mapDeltas hash (some delta) }
  match pool.find hash with
  | none => pool
  | some _ =>
    let pool := pool.modify hash (·.updateFeeDelta delta)
    -- now update all ancestors' modified fees with descendants
    let pool := (pool.linkedAncestors hash).foldl
      (fun pool ancestorIt => pool.modify ancestorIt (·.updateDescendantState 0 nFeeDelta 0)) pool
    -- now update all descendants' modified fees with ancestors
    ((pool.calculateDescendants hash []).erase hash).foldl
      (fun pool descendantIt => pool.modify descendantIt (·.updateAncestorState 0 nFeeDelta 0 0)) pool

/-- Add a descendant set to `cachedDescendants[updateIt]`. -/
def cacheInsert (cache : CacheMap τ) (updateIt cit : τ) : CacheMap τ :=
  Function.update cache updateIt (some (((cache updateIt).getD []).insert cit))

/-- The children of `cit` in the traversal of `UpdateForDescendants`: a cached child adds its
cached descendants without being traversed again, another one not yet found is staged. -/
def stageChildren (pool : CTxMemPool τ) (cache : CacheMap τ) (cit : τ) (stage all : List τ) :
    List τ × List τ :=
  (pool.getMemPoolChildren cit).foldl (fun (stage, all) childEntry =>
    match cache childEntry with
    | some cached => (stage, cached.foldl (fun all c => all.insert c) all)
    | none => if childEntry ∈ all then (stage, all) else (stage.insert childEntry, all)) (stage, all)

/-- The traversal loop of `UpdateForDescendants`. -/
def descendantsLoop (pool : CTxMemPool τ) (cache : CacheMap τ) :
    Nat → List τ → List τ → List τ
  | 0, _, all => all
  | _ + 1, [], all => all
  | fuel + 1, cit :: stage, all =>
    let r := pool.stageChildren cache cit stage (all.insert cit)
    descendantsLoop pool cache fuel r.1 r.2

/-- `UpdateForDescendants(updateIt, cachedDescendants, setExclude)`: each descendant outside
`setExclude` counts `updateIt` as an ancestor, and `updateIt` counts it as a descendant. -/
def updateForDescendants (pool : CTxMemPool τ) (updateIt : τ) (cache : CacheMap τ)
    (setExclude : List τ) : CTxMemPool τ × CacheMap τ :=
  let setAllDescendants := pool.descendantsLoop cache pool.mapTx.length (pool.getMemPoolChildren updateIt) []
  let r := setAllDescendants.foldl (fun (r : CTxMemPool τ × CacheMap τ × Int × Int × Int) cit =>
    let (p, cache, modifySize, modifyFee, modifyCount) := r
    if cit ∈ setExclude then r
    else (p.modify cit (·.updateAncestorState (p.txSizeOf updateIt) (p.modifiedFeeOf updateIt) 1
            (p.sigOpCostOf updateIt)),
          cacheInsert cache updateIt cit,
          modifySize + p.txSizeOf cit, modifyFee + p.modifiedFeeOf cit, modifyCount + 1))
    (pool, cache, 0, 0, 0)
  (r.1.modify updateIt (·.updateDescendantState r.2.2.1 r.2.2.2.1 r.2.2.2.2), r.2.1)

/-- The children loop of `UpdateTransactionsFromBlock` for `hash`, over the `mapNextTx`
entries of its outpoints: a child outside the block is linked to it. -/
def linkChildren (hash : τ) (setAlreadyIncluded : List τ) :
    List (COutPoint τ × τ) → CTxMemPool τ × List τ → CTxMemPool τ × List τ
  | [], acc => acc
  | (_, childHash) :: rest, (pool, setChildren) =>
    if childHash ∉ setChildren ∧ childHash ∉ setAlreadyIncluded then
      linkChildren hash setAlreadyIncluded rest
        ((pool.updateChild hash childHash true).updateParent childHash hash true,
          setChildren.insert childHash)
    else linkChildren hash setAlreadyIncluded rest (pool, setChildren.insert childHash)

/-- `UpdateTransactionsFromBlock(vHashesToUpdate)`, the hashes taken in reverse. -/
def updateTransactionsFromBlock (pool : CTxMemPool τ) (vHashesToUpdate : List τ) : CTxMemPool τ :=
  let r := vHashesToUpdate.reverse.foldl (fun (r : CTxMemPool τ × CacheMap τ) hash =>
    let (pool, cache) := r
    match pool.find hash with
    | none => r
    | some _ =>
      let pool := (linkChildren hash vHashesToUpdate
        (pool.mapNextTx.filter (·.1.hash == hash)) (pool, [])).1
      pool.updateForDescendants hash cache vHashesToUpdate) (pool, fun _ => none)
  r.1

/-- The loop of `UpdateMempoolForReorg` over the disconnected transactions: each one is
accepted again, or `removeRecursive` drops the pool transactions that spend it; the hashes
of those back in the pool. -/
def readdForReorg (limits : Limits) : CTxMemPool τ → List (ReaddedTx τ) → CTxMemPool τ × List τ
  | pool, [] => (pool, [])
  | pool, r :: rs =>
    match (if r.fAccepted then pool.accept r.tx r.nFee r.txSize r.sigOpCost limits else none) with
    | some pool =>
      let rest := readdForReorg limits pool rs
      (rest.1, if (pool.find r.tx.hash).isSome then r.tx.hash :: rest.2 else rest.2)
    | none => readdForReorg limits (pool.removeRecursive r.tx) rs

/-- `UpdateMempoolForReorg` up to `UpdateTransactionsFromBlock`. -/
def updateMempoolForReorg (pool : CTxMemPool τ) (limits : Limits) (vtx : List (ReaddedTx τ)) :
    CTxMemPool τ :=
  let r := readdForReorg limits pool vtx
  r.1.updateTransactionsFromBlock r.2

end CTxMemPool

/-! ## The pool as a transition system -/

/-- What changes the pool: `AcceptToMemoryPool` of one transaction with its fee, size, sigop
cost and package limits; `removeRecursive`, `removeForBlock` and `removeForReorg`;
`PrioritiseTransaction`; and `UpdateMempoolForReorg` with the disconnected blocks'
transactions. -/
inductive Event (τ : Type)
  | accept (tx : CTransaction τ) (nFee : Int) (txSize : Nat) (sigOpCost : Int) (limits : Limits)
  | removeRecursive (tx : CTransaction τ)
  | removeForBlock (vtx : List (CTransaction τ))
  | removeForReorg (fails : CTxMemPoolEntry τ → Bool)
  | prioritiseTransaction (hash : τ) (nFeeDelta : Int)
  | reorg (limits : Limits) (vtx : List (ReaddedTx τ))

variable {τ : Type} [DecidableEq τ]

/-- One event; `none` where `AcceptToMemoryPool` rejects. -/
def step (pool : CTxMemPool τ) : Event τ → Option (CTxMemPool τ)
  | .accept tx nFee txSize sigOpCost limits => pool.accept tx nFee txSize sigOpCost limits
  | .removeRecursive tx => some (pool.removeRecursive tx)
  | .removeForBlock vtx => some (pool.removeForBlock vtx)
  | .removeForReorg fails => some (pool.removeForReorg fails)
  | .prioritiseTransaction hash nFeeDelta => some (pool.prioritiseTransaction hash nFeeDelta)
  | .reorg limits vtx => some (pool.updateMempoolForReorg limits vtx)

/-- Every event can be taken; the checks are in `step`. -/
def Enabled (_ : CTxMemPool τ) (_ : Event τ) : Prop := True

/-- Reachable from the empty pool. -/
def PoolReachable (pool : CTxMemPool τ) : Prop :=
  TransitionSystem.Reachable step Enabled (· = CTxMemPool.empty) pool

end Veil.TxMemPool.Packages
