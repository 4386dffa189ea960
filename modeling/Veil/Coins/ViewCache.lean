import Veil.Coins.Coin
import Mathlib
/-!
# The coins cache (`coins.cpp`, `txdb.cpp`)

`CCoinsViewCache` keeps a map of entries over a base view, another cache or the coins database
`CCoinsViewDB`. An entry holds a coin, spent or not, and two flags: `DIRTY`, the entry may differ
from the base, and `FRESH`, the base has no unspent coin there. `FetchCoin` copies a coin up from
the base on a miss, and the other methods work on what it returns; `Flush` hands the entries to the
base's `BatchWrite`, which merges them by their flags.

The model keeps the map and `hashBlock` of each cache, and the coins and the best-block records of
the database. The memory accounting (`cachedCoinsUsage`), `nBlockHeight` and the RingCT members of
the view (`Veil.RingCT.Index`) are left out, and so is the encoding of a coin in the database
(`Veil.Coins.Coin`): the database holds coins. A stack of caches is a `CoinsStack`, the cache the
code works on, the caches under it, nearest first, and the database. A failed `assert` and a thrown
`std::logic_error` are `CoinsError`s, and so is the null pointer `DisconnectBlock` can dereference
(`Veil.Coins.Undo`).
-/

namespace Veil

/-- `CScript::IsUnspendable`. -/
def CScript.isUnspendable (s : CScript) : Bool :=
  (0 < s.length && s.head? == some OP_RETURN) || s.length > MAX_SCRIPT_SIZE || s.isZerocoinMint

/-- The bound of the bit-field `nHeight` is not zero, as the height literals and `Fin.ofNat` into
`Fin (2 ^ 31)` below ask. -/
@[instance] theorem Coin.nHeight_bound_neZero : NeZero (2 ^ 31 : Nat) := ⟨by decide⟩

/-- `Coin::Clear`: the output set null (`nValue = -1`, no script), height `0`, not a coinbase.
The type and the commitment stay. -/
def Coin.clear (c : Coin) : Coin := { c with out := ⟨-1, []⟩, fCoinBase := false, nHeight := 0 }

namespace Coins

/-- The ways the code fails: an `assert` that does not hold, a `std::logic_error`, and a null
pointer dereferenced, undefined behaviour, where the model stops. -/
inductive CoinsError
  | assertion (expr : String)
  | logicError (what : String)
  | nullDereference (expr : String)
  deriving DecidableEq, Repr

/-- `Coin()`, which `coinEmpty` is: a null output, height `0`, not a coinbase. The constructor
leaves the commitment uninitialised; the model takes it zero. -/
def coinEmpty : Coin := ⟨⟨-1, []⟩, false, 0, OUTPUT_STANDARD, List.Vector.replicate 33 0⟩

/-- `coin = it->second.coin; return !coin.IsSpent();` of `GetCoin`: the coin, if unspent. -/
def unspent (coin : Coin) : Option Coin := if coin.isSpent then none else some coin

/-- `CCoinsCacheEntry`: the coin and the flags `DIRTY` (bit 0) and `FRESH` (bit 1), the only bits
`flags` ever holds. -/
structure CCoinsCacheEntry where
  coin : Coin
  dirty : Bool
  fresh : Bool

/-- `CCoinsMap`, the entries by outpoint. -/
abbrev CCoinsMap := AList fun _ : COutPoint => CCoinsCacheEntry

/-- `CCoinsViewCache`, as far as the coins go. -/
structure CCoinsViewCache where
  hashBlock : Uint256
  cacheCoins : CCoinsMap

/-- The coins database: the coin records `DB_COIN`, `DB_BEST_BLOCK` and `DB_HEAD_BLOCKS`. -/
structure CCoinsViewDB where
  coins : COutPoint → Option Coin
  bestBlock : Option Uint256
  headBlocks : List Uint256

/-! ## One cache -/

namespace CCoinsViewCache

/-- `CCoinsViewCache(baseIn)`: no entries and a null best block. -/
def new : CCoinsViewCache := ⟨Uint256.zero, ∅⟩

/-- `FetchCoin`: the entry of `outpoint`, or on a miss the coin `base->GetCoin` returns `true`
with, entered with no flag, or `FRESH` when it is spent. `fromBase` is what `base->GetCoin`
answers and leaves of the base; it is taken on a miss only, and `base` is the base as it stands. -/
def fetchCoin {β : Type} (c : CCoinsViewCache) (outpoint : COutPoint) (base : β)
    (fromBase : Option Coin × β) : Option CCoinsCacheEntry × CCoinsViewCache × β :=
  match c.cacheCoins.lookup outpoint with
  | some e => (some e, c, base)
  | none =>
    match fromBase with
    | (none, base) => (none, c, base)
    | (some coin, base) =>
      let e : CCoinsCacheEntry := ⟨coin, false, coin.isSpent⟩
      (some e, { c with cacheCoins := c.cacheCoins.insert outpoint e }, base)

/-- `GetBestBlock`: a null `hashBlock` is filled from `base->GetBestBlock()`, which `fromBase`
answers, with the base it leaves. -/
def getBestBlock {β : Type} (c : CCoinsViewCache) (base : β) (fromBase : Uint256 × β) :
    Uint256 × CCoinsViewCache × β :=
  if c.hashBlock = Uint256.zero then (fromBase.1, { c with hashBlock := fromBase.1 }, fromBase.2)
  else (c.hashBlock, c, base)

/-- One entry of `CCoinsViewCache::BatchWrite`, merged into the parent's map. -/
def batchWriteEntry (cacheCoins : CCoinsMap) (it : Σ _ : COutPoint, CCoinsCacheEntry) :
    Except CoinsError CCoinsMap :=
  -- entries that are not dirty are passed over
  if !it.2.dirty then .ok cacheCoins
  else
    match cacheCoins.lookup it.1 with
    | none =>
      -- a fresh entry spent in the child need not reach the parent
      if it.2.fresh && it.2.coin.isSpent then .ok cacheCoins
      else .ok (cacheCoins.insert it.1 ⟨it.2.coin, true, it.2.fresh⟩)
    | some us =>
      if it.2.fresh && !us.coin.isSpent then
        .error (.logicError
          "FRESH flag misapplied to cache entry for base transaction with spendable outputs")
      -- the grandparent has no entry: the parent's goes
      else if us.fresh && it.2.coin.isSpent then .ok (cacheCoins.erase it.1)
      -- a normal modification, which keeps the parent's `FRESH`
      else .ok (cacheCoins.insert it.1 ⟨it.2.coin, true, us.fresh⟩)

/-- `CCoinsViewCache::BatchWrite(mapCoins, hashBlockIn)`. -/
def batchWrite (c : CCoinsViewCache) (mapCoins : CCoinsMap) (hashBlockIn : Uint256) :
    Except CoinsError CCoinsViewCache := do
  let cacheCoins ← mapCoins.entries.foldlM batchWriteEntry c.cacheCoins
  pure ⟨hashBlockIn, cacheCoins⟩

end CCoinsViewCache

/-! ## The database -/

namespace CCoinsViewDB

/-- `CCoinsViewDB::GetBestBlock`: `uint256()` when none is recorded. -/
def getBestBlock (db : CCoinsViewDB) : Uint256 := db.bestBlock.getD Uint256.zero

/-- One entry of the batch of `CCoinsViewDB::BatchWrite`: a dirty coin is erased when spent and
written otherwise. -/
def writeEntry (coins : COutPoint → Option Coin) (it : Σ _ : COutPoint, CCoinsCacheEntry) :
    COutPoint → Option Coin :=
  if it.2.dirty then Function.update coins it.1 (if it.2.coin.isSpent then none else some it.2.coin)
  else coins

/-- `CCoinsViewDB::BatchWrite(mapCoins, hashBlock)`. The partial batches and the crash simulation
are left out; the head blocks it records in the first batch it erases in the last, with the best
block written again. -/
def batchWrite (db : CCoinsViewDB) (mapCoins : CCoinsMap) (hashBlock : Uint256) :
    Except CoinsError CCoinsViewDB :=
  if hashBlock = Uint256.zero then .error (.assertion "!hashBlock.IsNull()")
  -- in the middle of a replay the heads recorded must start at `hashBlock`
  else if db.getBestBlock = Uint256.zero ∧ db.headBlocks.length = 2 ∧
      db.headBlocks.head? ≠ some hashBlock then
    .error (.assertion "old_heads[0] == hashBlock")
  else .ok ⟨mapCoins.entries.foldl writeEntry db.coins, some hashBlock, []⟩

end CCoinsViewDB

/-! ## A stack of caches -/

/-- `GetCoin` of the view `caches` (nearest first) over the database: the coin when it returns
`true`, and the caches after the `FetchCoin`s it made on the way down. -/
def getCoinFrom (db : CCoinsViewDB) :
    List CCoinsViewCache → COutPoint → Option Coin × List CCoinsViewCache
  | [], outpoint => (db.coins outpoint, [])
  | c :: cs, outpoint =>
    let r := c.fetchCoin outpoint cs (getCoinFrom db cs outpoint)
    (r.1.bind fun e => unspent e.coin, r.2.1 :: r.2.2)

/-- `GetBestBlock` of the view `caches` over the database. -/
def getBestBlockFrom (db : CCoinsViewDB) : List CCoinsViewCache → Uint256 × List CCoinsViewCache
  | [] => (db.getBestBlock, [])
  | c :: cs =>
    let r := c.getBestBlock cs (getBestBlockFrom db cs)
    (r.1, r.2.1 :: r.2.2)

/-- The cache the code works on, the caches under it, nearest first, and the database. -/
structure CoinsStack where
  top : CCoinsViewCache
  below : List CCoinsViewCache
  db : CCoinsViewDB

namespace CoinsStack

/-- `FetchCoin` of the top cache, and the stack after it. -/
def fetchCoin (s : CoinsStack) (outpoint : COutPoint) : Option CCoinsCacheEntry × CoinsStack :=
  let r := s.top.fetchCoin outpoint s.below (getCoinFrom s.db s.below outpoint)
  (r.1, ⟨r.2.1, r.2.2, s.db⟩)

/-- `GetCoin`: the coin when it returns `true`. -/
def getCoin (s : CoinsStack) (outpoint : COutPoint) : Option Coin × CoinsStack :=
  ((s.fetchCoin outpoint).1.bind fun e => unspent e.coin, (s.fetchCoin outpoint).2)

/-- `HaveCoin`. -/
def haveCoin (s : CoinsStack) (outpoint : COutPoint) : Bool × CoinsStack :=
  ((s.fetchCoin outpoint).1.any fun e => !e.coin.isSpent, (s.fetchCoin outpoint).2)

/-- `HaveCoinInCache`: the top cache's map, without the base. -/
def haveCoinInCache (s : CoinsStack) (outpoint : COutPoint) : Bool :=
  (s.top.cacheCoins.lookup outpoint).any fun e => !e.coin.isSpent

/-- `AccessCoin`: the fetched coin, or `coinEmpty`. -/
def accessCoin (s : CoinsStack) (outpoint : COutPoint) : Coin × CoinsStack :=
  (((s.fetchCoin outpoint).1.map (·.coin)).getD coinEmpty, (s.fetchCoin outpoint).2)

/-- `AddCoin(outpoint, coin, possible_overwrite)` on the top cache. -/
def addCoin (s : CoinsStack) (outpoint : COutPoint) (coin : Coin) (possibleOverwrite : Bool) :
    Except CoinsError CoinsStack :=
  if coin.isSpent then .error (.assertion "!coin.IsSpent()")
  else if coin.out.scriptPubKey.isUnspendable then .ok s
  else
    -- `emplace` leaves an entry under `outpoint`: the one there, or a new one with a spent coin
    let it := (s.top.cacheCoins.lookup outpoint).getD ⟨coinEmpty, false, false⟩
    if !possibleOverwrite && !it.coin.isSpent then
      .error (.logicError "Adding new coin that replaces non-pruned entry")
    else
      let fresh := !possibleOverwrite && !it.dirty
      let cacheCoins := s.top.cacheCoins.insert outpoint ⟨coin, true, it.fresh || fresh⟩
      .ok { s with top := { s.top with cacheCoins } }

/-- The coin `AddCoins` makes of an output: a standard output's value and script, a CT output's
script with value `0` and its commitment; nothing of the other outputs. The commitment of a
standard coin is not set by the code; the model takes `coinEmpty`'s. -/
def coinOfOutput (out : CTxOutBase) (nHeight : Nat) (fCoinbase : Bool) : Option Coin :=
  match out with
  | .standard nValue scriptPubKey =>
    some ⟨⟨nValue, scriptPubKey⟩, fCoinbase, Fin.ofNat _ nHeight, OUTPUT_STANDARD,
      coinEmpty.commitment⟩
  | .ct commitment _ scriptPubKey _ =>
    some ⟨⟨0, scriptPubKey⟩, fCoinbase, Fin.ofNat _ nHeight, OUTPUT_CT, commitment⟩
  | _ => none

/-- The loop of `AddCoins` from output `i` on: `overwrite` is `HaveCoin` under `check`, else
`fCoinbase`, computed before the output's type is looked at. -/
def addCoinsLoop (txid : Uint256) (fCoinbase : Bool) (nHeight : Nat) (check : Bool) :
    Nat → List CTxOutBase → CoinsStack → Except CoinsError CoinsStack
  | _, [], s => .ok s
  | i, out :: vpout, s =>
    let outpoint : COutPoint := ⟨txid, i.toUInt32⟩
    let r := if check then s.haveCoin outpoint else (fCoinbase, s)
    match coinOfOutput out nHeight fCoinbase with
    | none => addCoinsLoop txid fCoinbase nHeight check (i + 1) vpout r.2
    | some coin => do
      let s ← r.2.addCoin outpoint coin r.1
      addCoinsLoop txid fCoinbase nHeight check (i + 1) vpout s

/-- `AddCoins(cache, tx, nHeight, check)`, where `txid` is `tx.GetHash()`. -/
def addCoins (s : CoinsStack) (tx : CMutableTransaction) (txid : Uint256) (nHeight : Nat)
    (check : Bool) : Except CoinsError CoinsStack :=
  addCoinsLoop txid tx.isCoinBase nHeight check 0 tx.vpout s

/-- `SpendCoin(outpoint, moveout)`: `none` when it returns `false`; else the coin moved out, with
the entry erased when `FRESH`, else marked `DIRTY` with its coin cleared. -/
def spendCoin (s : CoinsStack) (outpoint : COutPoint) : Option Coin × CoinsStack :=
  match s.fetchCoin outpoint with
  | (none, s) => (none, s)
  | (some e, s) =>
    let cacheCoins := if e.fresh then s.top.cacheCoins.erase outpoint
      else s.top.cacheCoins.insert outpoint ⟨e.coin.clear, true, e.fresh⟩
    (some e.coin, { s with top := { s.top with cacheCoins } })

/-- `Uncache`: an entry with no flag is dropped. -/
def uncache (s : CoinsStack) (outpoint : COutPoint) : CoinsStack :=
  match s.top.cacheCoins.lookup outpoint with
  | some e =>
    if !e.dirty && !e.fresh then
      { s with top := { s.top with cacheCoins := s.top.cacheCoins.erase outpoint } }
    else s
  | none => s

/-- `SetBestBlock`. -/
def setBestBlock (s : CoinsStack) (hashBlock : Uint256) : CoinsStack :=
  { s with top := { s.top with hashBlock } }

/-- `GetBestBlock` of the top cache. -/
def getBestBlock (s : CoinsStack) : Uint256 × CoinsStack :=
  let r := s.top.getBestBlock s.below (getBestBlockFrom s.db s.below)
  (r.1, ⟨r.2.1, r.2.2, s.db⟩)

/-- `Flush` of the top cache: `base->BatchWrite(cacheCoins, hashBlock)`, and the map cleared. -/
def flush (s : CoinsStack) : Except CoinsError CoinsStack :=
  match s.below with
  | [] => do
    let db ← s.db.batchWrite s.top.cacheCoins s.top.hashBlock
    pure ⟨{ s.top with cacheCoins := ∅ }, [], db⟩
  | c :: cs => do
    let c ← c.batchWrite s.top.cacheCoins s.top.hashBlock
    pure ⟨{ s.top with cacheCoins := ∅ }, c :: cs, s.db⟩

/-- A new cache over the top one, `CCoinsViewCache view(&top)`. -/
def push (s : CoinsStack) : CoinsStack := ⟨CCoinsViewCache.new, s.top :: s.below, s.db⟩

/-- The top cache destroyed without a flush, its changes forgotten; the last one stays. -/
def pop (s : CoinsStack) : Option CoinsStack :=
  match s.below with
  | [] => none
  | c :: cs => some ⟨c, cs, s.db⟩

end CoinsStack

/-- What the code does to a stack of caches. -/
inductive Event
  | getCoin (outpoint : COutPoint)
  | haveCoin (outpoint : COutPoint)
  | accessCoin (outpoint : COutPoint)
  | spendCoin (outpoint : COutPoint)
  | addCoin (outpoint : COutPoint) (coin : Coin) (possibleOverwrite : Bool)
  | addCoins (tx : CMutableTransaction) (txid : Uint256) (nHeight : Nat) (check : Bool)
  | uncache (outpoint : COutPoint)
  | setBestBlock (hashBlock : Uint256)
  | getBestBlock
  | flush
  | push
  | pop

/-- The stack after an event; `none` when the code fails, or for `pop` on the last cache. -/
def step (s : CoinsStack) : Event → Option CoinsStack
  | .getCoin outpoint => some (s.getCoin outpoint).2
  | .haveCoin outpoint => some (s.haveCoin outpoint).2
  | .accessCoin outpoint => some (s.accessCoin outpoint).2
  | .spendCoin outpoint => some (s.spendCoin outpoint).2
  | .addCoin outpoint coin possibleOverwrite => (s.addCoin outpoint coin possibleOverwrite).toOption
  | .addCoins tx txid nHeight check => (s.addCoins tx txid nHeight check).toOption
  | .uncache outpoint => some (s.uncache outpoint)
  | .setBestBlock hashBlock => some (s.setBestBlock hashBlock)
  | .getBestBlock => some s.getBestBlock.2
  | .flush => s.flush.toOption
  | .push => some s.push
  | .pop => s.pop

end Coins

end Veil
