import Veil.Coins.ViewCache
import Veil.Lib.KeyedBatch
/-!
# What a stack of coins caches shows

A stack of caches is meant to behave as a stack of plain maps from outpoints to unspent coins,
one for the top cache, one for each cache under it and one for the database (`CoinsLevels`):
`AddCoin` and `SpendCoin` change the top map, `Flush` copies the top map into the one under it,
a new cache starts as a copy of the top map, and dropping a cache forgets its map. The reads and
`Uncache` change no map.

`CoinsStack.levels` reads the maps off a stack: what `GetCoin` of each level answers. Every read
of the top cache answers from the top map, whatever the flags (`getCoin_levels` and the others
below); what the flags must say for the writes to keep the maps right is `CoinsStack.Sound`: an
entry marked `FRESH` has no unspent coin under it, and an entry not marked `DIRTY` shows what the
view under it shows. A `FetchCoin`, at whatever depth, keeps both the maps and `Sound`.
-/

namespace Veil.Coins

/-- What `GetCoin` answers at each outpoint: the unspent coin. -/
abbrev CoinsMap := COutPoint → Option Coin

/-- The coins of each level of a stack: of the top cache, of each cache under it, nearest first,
and of the database. -/
structure CoinsLevels where
  top : CoinsMap
  below : List CoinsMap
  db : CoinsMap

namespace CoinsLevels

/-- `AddCoin` on the top map. `none` where the code asserts that the coin is not spent, and
where it is called without `possible_overwrite` over an unspent coin, which its interface
forbids; an unspendable coin is not stored. -/
def addCoin (L : CoinsLevels) (outpoint : COutPoint) (coin : Coin) (possibleOverwrite : Bool) :
    Option CoinsLevels :=
  if coin.isSpent then none
  else if coin.out.scriptPubKey.isUnspendable then some L
  else if !possibleOverwrite && (L.top outpoint).isSome then none
  else some { L with top := Function.update L.top outpoint (some coin) }

/-- `SpendCoin` on the top map. -/
def spendCoin (L : CoinsLevels) (outpoint : COutPoint) : CoinsLevels :=
  { L with top := Function.update L.top outpoint none }

/-- `AddCoins` on the top map, `overwrite` read off it under `check`. -/
def addCoinsLoop (txid : Uint256) (fCoinbase : Bool) (nHeight : Nat) (check : Bool) :
    Nat → List CTxOutBase → CoinsLevels → Option CoinsLevels
  | _, [], L => some L
  | i, out :: vpout, L =>
    let outpoint : COutPoint := ⟨txid, i.toUInt32⟩
    let overwrite := if check then (L.top outpoint).isSome else fCoinbase
    match CoinsStack.coinOfOutput out nHeight fCoinbase with
    | none => addCoinsLoop txid fCoinbase nHeight check (i + 1) vpout L
    | some coin =>
      (L.addCoin outpoint coin overwrite).bind (addCoinsLoop txid fCoinbase nHeight check (i + 1) vpout)

/-- `Flush`: the level under the top takes the top map. -/
def flush (L : CoinsLevels) : CoinsLevels :=
  match L.below with
  | [] => { L with db := L.top }
  | _ :: ms => { L with below := L.top :: ms }

/-- A new cache: a copy of the top map on top. -/
def push (L : CoinsLevels) : CoinsLevels := { L with below := L.top :: L.below }

/-- The top cache dropped: the map under it is on top. -/
def pop (L : CoinsLevels) : Option CoinsLevels :=
  match L.below with
  | [] => none
  | m :: ms => some { L with top := m, below := ms }

/-- The maps after an event. -/
def step (L : CoinsLevels) : Event → Option CoinsLevels
  | .getCoin _ => some L
  | .haveCoin _ => some L
  | .accessCoin _ => some L
  | .spendCoin outpoint => some (L.spendCoin outpoint)
  | .addCoin outpoint coin possibleOverwrite => L.addCoin outpoint coin possibleOverwrite
  | .addCoins tx txid nHeight check => L.addCoinsLoop txid tx.isCoinBase nHeight check 0 tx.vpout
  | .uncache _ => some L
  | .setBestBlock _ => some L
  | .getBestBlock => some L
  | .flush => some L.flush
  | .push => some L.push
  | .pop => L.pop

end CoinsLevels

/-! ## The levels of a stack -/

/-- What a cache over the database reads there: the stored coin, if unspent. -/
def dbView (db : CCoinsViewDB) : CoinsMap := fun outpoint => (db.coins outpoint).bind unspent

/-- What a cache with the entries `m` shows over a base that shows `base`. -/
def mapView (m : CCoinsMap) (base : CoinsMap) : CoinsMap := fun outpoint =>
  match m.lookup outpoint with
  | some e => unspent e.coin
  | none => base outpoint

/-- What the first of the cache maps `ms` (nearest first) shows over the database. -/
def viewFrom (db : CCoinsViewDB) : List CCoinsMap → CoinsMap
  | [] => dbView db
  | m :: ms => mapView m (viewFrom db ms)

/-- What each of the cache maps `ms` shows. -/
def viewsFrom (db : CCoinsViewDB) : List CCoinsMap → List CoinsMap
  | [] => []
  | m :: ms => viewFrom db (m :: ms) :: viewsFrom db ms

/-- The maps of the caches under the top one. -/
def CoinsStack.belowMaps (s : CoinsStack) : List CCoinsMap := s.below.map (·.cacheCoins)

/-- The levels a stack shows. -/
def CoinsStack.levels (s : CoinsStack) : CoinsLevels :=
  ⟨mapView s.top.cacheCoins (viewFrom s.db s.belowMaps), viewsFrom s.db s.belowMaps, dbView s.db⟩

/-! ## The flags -/

/-- The flags of an entry over a base that shows `v` under its outpoint: `FRESH` only where the
base has no unspent coin, and no `DIRTY` only where the base shows the entry's coin. -/
def EntrySound (e : CCoinsCacheEntry) (v : Option Coin) : Prop :=
  (e.fresh = true → v = none) ∧ (e.dirty = false → v = unspent e.coin)

/-- The flags of every entry of `m` over a base that shows `base`. -/
def FlagsSound (m : CCoinsMap) (base : CoinsMap) : Prop :=
  ∀ outpoint e, m.lookup outpoint = some e → EntrySound e (base outpoint)

/-- The flags of each of the cache maps `ms` over what the maps under it show. -/
def SoundFrom (db : CCoinsViewDB) : List CCoinsMap → Prop
  | [] => True
  | m :: ms => FlagsSound m (viewFrom db ms) ∧ SoundFrom db ms

/-- The flags of every cache of the stack are sound. -/
structure CoinsStack.Sound (s : CoinsStack) : Prop where
  top : FlagsSound s.top.cacheCoins (viewFrom s.db s.belowMaps)
  below : SoundFrom s.db s.belowMaps

/-! ## Lemmas -/

@[simp] theorem unspent_clear (c : Coin) : unspent c.clear = none := rfl

theorem unspent_eq_none {c : Coin} : unspent c = none ↔ c.isSpent = true := by
  unfold unspent
  split <;> simp_all

theorem unspent_of_not_isSpent {c : Coin} (h : c.isSpent = false) : unspent c = some c := by
  simp [unspent, h]

@[simp] theorem bind_unspent (c : Coin) : (unspent c).bind unspent = unspent c := by
  cases h : c.isSpent
  · rw [unspent_of_not_isSpent h, Option.bind_some, unspent_of_not_isSpent h]
  · rw [unspent_eq_none.mpr h, Option.bind_none]

theorem mapView_of_lookup {m : CCoinsMap} {base : CoinsMap} {outpoint : COutPoint}
    {e : CCoinsCacheEntry} (h : m.lookup outpoint = some e) :
    mapView m base outpoint = unspent e.coin := by
  simp [mapView, h]

theorem mapView_of_lookup_none {m : CCoinsMap} {base : CoinsMap} {outpoint : COutPoint}
    (h : m.lookup outpoint = none) : mapView m base outpoint = base outpoint := by
  simp [mapView, h]

@[simp] theorem mapView_empty (base : CoinsMap) : mapView ∅ base = base := by
  funext outpoint
  simp [mapView, AList.lookup_empty]

theorem mapView_insert (m : CCoinsMap) (base : CoinsMap) (outpoint : COutPoint)
    (e : CCoinsCacheEntry) :
    mapView (m.insert outpoint e) base = Function.update (mapView m base) outpoint (unspent e.coin) := by
  funext k
  by_cases hk : k = outpoint
  · subst hk
    simp [mapView, AList.lookup_insert]
  · simp [mapView, AList.lookup_insert_ne hk, Function.update_of_ne hk]

theorem mapView_erase (m : CCoinsMap) (base : CoinsMap) (outpoint : COutPoint) :
    mapView (m.erase outpoint) base = Function.update (mapView m base) outpoint (base outpoint) := by
  funext k
  by_cases hk : k = outpoint
  · subst hk
    simp [mapView, AList.lookup_erase]
  · simp [mapView, AList.lookup_erase_ne hk, Function.update_of_ne hk]

theorem flagsSound_empty (base : CoinsMap) : FlagsSound ∅ base := by
  intro outpoint e h
  simp [AList.lookup_empty] at h

theorem flagsSound_insert {m : CCoinsMap} {base : CoinsMap} {outpoint : COutPoint}
    {e : CCoinsCacheEntry} (hm : FlagsSound m base) (he : EntrySound e (base outpoint)) :
    FlagsSound (m.insert outpoint e) base := by
  intro k e' h
  by_cases hk : k = outpoint
  · subst hk
    rw [AList.lookup_insert, Option.some.injEq] at h
    exact h ▸ he
  · rw [AList.lookup_insert_ne hk] at h
    exact hm k e' h

theorem flagsSound_erase {m : CCoinsMap} {base : CoinsMap} (hm : FlagsSound m base)
    (outpoint : COutPoint) : FlagsSound (m.erase outpoint) base := by
  intro k e h
  by_cases hk : k = outpoint
  · subst hk
    rw [AList.lookup_erase] at h
    cases h
  · rw [AList.lookup_erase_ne hk] at h
    exact hm k e h

/-- A cache whose map does not change shows the same, and its flags stay sound. -/
theorem levels_of_maps {s s' : CoinsStack} (htop : s'.top.cacheCoins = s.top.cacheCoins)
    (hbelow : s'.belowMaps = s.belowMaps) (hdb : s'.db = s.db) :
    s'.levels = s.levels ∧ (s.Sound → s'.Sound) := by
  refine ⟨by simp only [CoinsStack.levels, htop, hbelow, hdb], fun hs => ?_⟩
  refine ⟨?_, ?_⟩
  · rw [htop, hbelow, hdb]
    exact hs.top
  · rw [hbelow, hdb]
    exact hs.below

/-- A new map for the top cache. -/
theorem levels_setTop (s : CoinsStack) (m : CCoinsMap) :
    ({ s with top := { s.top with cacheCoins := m } } : CoinsStack).levels =
      { s.levels with top := mapView m (viewFrom s.db s.belowMaps) } := rfl

theorem sound_setTop {s : CoinsStack} (hs : s.Sound) {m : CCoinsMap}
    (hm : FlagsSound m (viewFrom s.db s.belowMaps)) :
    ({ s with top := { s.top with cacheCoins := m } } : CoinsStack).Sound :=
  ⟨hm, hs.below⟩

/-! ## `FetchCoin` -/

section Fetch

variable {β : Type} (c : CCoinsViewCache) (outpoint : COutPoint) (base : β)
  (fromBase : Option Coin × β)

/-- What is left of the base: the base as it stood on a hit, what `GetCoin` left on a miss. -/
theorem fetchCoin_base :
    (c.fetchCoin outpoint base fromBase).2.2 = base ∨
      (c.fetchCoin outpoint base fromBase).2.2 = fromBase.2 := by
  obtain ⟨r, base'⟩ := fromBase
  unfold CCoinsViewCache.fetchCoin
  cases c.cacheCoins.lookup outpoint with
  | some e => exact .inl rfl
  | none => cases r <;> exact .inr rfl

/-- `FetchCoin` over a base that shows `V`, which `GetCoin` of the base answers. -/
theorem fetchCoin_spec (V : CoinsMap) (hr : fromBase.1.bind unspent = V outpoint) :
    mapView (c.fetchCoin outpoint base fromBase).2.1.cacheCoins V = mapView c.cacheCoins V ∧
      (FlagsSound c.cacheCoins V → FlagsSound (c.fetchCoin outpoint base fromBase).2.1.cacheCoins V) ∧
      ((c.fetchCoin outpoint base fromBase).1.bind fun e => unspent e.coin) =
        mapView c.cacheCoins V outpoint ∧
      (c.fetchCoin outpoint base fromBase).2.1.cacheCoins.lookup outpoint =
        (c.fetchCoin outpoint base fromBase).1 := by
  obtain ⟨r, base'⟩ := fromBase
  unfold CCoinsViewCache.fetchCoin
  cases hl : c.cacheCoins.lookup outpoint with
  | some e =>
    exact ⟨rfl, id, (mapView_of_lookup hl).symm, hl⟩
  | none =>
    rw [mapView_of_lookup_none hl]
    cases r with
    | none => exact ⟨rfl, id, hr, hl⟩
    | some coin =>
      -- the coin fetched is what the base shows, and the entry made of it is unflagged
      simp only [Option.bind_some] at hr ⊢
      refine ⟨?_, fun hc => flagsSound_insert hc ⟨fun hs => ?_, fun _ => hr.symm⟩, hr,
        AList.lookup_insert _⟩
      · rw [mapView_insert, hr,
          ← (mapView_of_lookup_none hl : mapView c.cacheCoins V outpoint = V outpoint),
          Function.update_eq_self]
      · rw [← hr, unspent_eq_none.mpr hs]

end Fetch

section Stack

variable (db : CCoinsViewDB)

theorem getCoinFrom_fst :
    ∀ (cs : List CCoinsViewCache) (outpoint : COutPoint),
      (getCoinFrom db cs outpoint).1.bind unspent = viewFrom db (cs.map (·.cacheCoins)) outpoint
  | [], _ => rfl
  | c :: cs, outpoint => by
    have hr := getCoinFrom_fst cs outpoint
    simp only [getCoinFrom, List.map_cons, viewFrom]
    rw [← (fetchCoin_spec c outpoint cs _ _ hr).2.2.1]
    cases (c.fetchCoin outpoint cs (getCoinFrom db cs outpoint)).1 with
    | none => rfl
    | some e => exact bind_unspent e.coin

/-- The `FetchCoin`s of `GetCoin` leave what every cache of the stack shows as it was. -/
theorem viewFrom_getCoinFrom :
    ∀ (cs : List CCoinsViewCache) (outpoint : COutPoint),
      viewFrom db ((getCoinFrom db cs outpoint).2.map (·.cacheCoins)) =
          viewFrom db (cs.map (·.cacheCoins)) ∧
        viewsFrom db ((getCoinFrom db cs outpoint).2.map (·.cacheCoins)) =
          viewsFrom db (cs.map (·.cacheCoins))
  | [], _ => ⟨rfl, rfl⟩
  | c :: cs, outpoint => by
    have hbase : viewFrom db ((c.fetchCoin outpoint cs (getCoinFrom db cs outpoint)).2.2.map
          (·.cacheCoins)) = viewFrom db (cs.map (·.cacheCoins)) ∧
        viewsFrom db ((c.fetchCoin outpoint cs (getCoinFrom db cs outpoint)).2.2.map
          (·.cacheCoins)) = viewsFrom db (cs.map (·.cacheCoins)) := by
      rcases fetchCoin_base c outpoint cs (getCoinFrom db cs outpoint) with h | h <;> rw [h]
      · exact ⟨rfl, rfl⟩
      · exact viewFrom_getCoinFrom cs outpoint
    have hview := (fetchCoin_spec c outpoint cs _ _ (getCoinFrom_fst db cs outpoint)).1
    have hfirst : viewFrom db ((getCoinFrom db (c :: cs) outpoint).2.map (·.cacheCoins)) =
        viewFrom db ((c :: cs).map (·.cacheCoins)) := by
      simp only [getCoinFrom, List.map_cons, viewFrom]
      rw [hbase.1, hview]
    refine ⟨hfirst, ?_⟩
    simp only [getCoinFrom, List.map_cons, viewsFrom] at hfirst ⊢
    rw [hfirst, hbase.2]

theorem soundFrom_getCoinFrom :
    ∀ (cs : List CCoinsViewCache) (outpoint : COutPoint),
      SoundFrom db (cs.map (·.cacheCoins)) →
        SoundFrom db ((getCoinFrom db cs outpoint).2.map (·.cacheCoins))
  | [], _, h => h
  | c :: cs, outpoint, h => by
    obtain ⟨hc, hcs⟩ := h
    have hbase : viewFrom db ((c.fetchCoin outpoint cs (getCoinFrom db cs outpoint)).2.2.map
          (·.cacheCoins)) = viewFrom db (cs.map (·.cacheCoins)) ∧
        SoundFrom db ((c.fetchCoin outpoint cs (getCoinFrom db cs outpoint)).2.2.map
          (·.cacheCoins)) := by
      rcases fetchCoin_base c outpoint cs (getCoinFrom db cs outpoint) with h | h <;> rw [h]
      · exact ⟨rfl, hcs⟩
      · exact ⟨(viewFrom_getCoinFrom db cs outpoint).1, soundFrom_getCoinFrom cs outpoint hcs⟩
    simp only [getCoinFrom, List.map_cons, SoundFrom]
    rw [hbase.1]
    exact ⟨(fetchCoin_spec c outpoint cs _ _ (getCoinFrom_fst db cs outpoint)).2.1 hc, hbase.2⟩

end Stack

namespace CoinsStack

/-- **`FetchCoin` of the top cache.** It leaves every level as it was and the flags sound; the
entry it returns shows the top level's coin, and is the top cache's entry after it. -/
theorem fetchCoin_eq {s s' : CoinsStack} {outpoint : COutPoint} {r : Option CCoinsCacheEntry}
    (h : s.fetchCoin outpoint = (r, s')) :
    s'.levels = s.levels ∧ (s.Sound → s'.Sound) ∧
      (r.bind fun e => unspent e.coin) = s.levels.top outpoint ∧
      s'.top.cacheCoins.lookup outpoint = r := by
  simp only [fetchCoin, Prod.mk.injEq] at h
  obtain ⟨rfl, rfl⟩ := h
  have hspec := fetchCoin_spec s.top outpoint s.below _ _ (getCoinFrom_fst s.db s.below outpoint)
  -- what is left under the top shows as it did
  have hbelow : viewFrom s.db ((s.top.fetchCoin outpoint s.below
        (getCoinFrom s.db s.below outpoint)).2.2.map (·.cacheCoins)) = viewFrom s.db s.belowMaps ∧
      viewsFrom s.db ((s.top.fetchCoin outpoint s.below
        (getCoinFrom s.db s.below outpoint)).2.2.map (·.cacheCoins)) = viewsFrom s.db s.belowMaps ∧
      (SoundFrom s.db s.belowMaps → SoundFrom s.db ((s.top.fetchCoin outpoint s.below
        (getCoinFrom s.db s.below outpoint)).2.2.map (·.cacheCoins))) := by
    rcases fetchCoin_base s.top outpoint s.below (getCoinFrom s.db s.below outpoint) with h | h <;>
      rw [h]
    · exact ⟨rfl, rfl, id⟩
    · exact ⟨(viewFrom_getCoinFrom s.db s.below outpoint).1,
        (viewFrom_getCoinFrom s.db s.below outpoint).2, soundFrom_getCoinFrom s.db s.below outpoint⟩
  refine ⟨?_, fun hs => ⟨?_, ?_⟩, hspec.2.2.1, hspec.2.2.2⟩
  · simp only [levels, belowMaps, hbelow.1, hbelow.2.1]
    rw [hspec.1]
  · simp only [belowMaps, hbelow.1]
    exact hspec.2.1 hs.top
  · exact hbelow.2.2 hs.below

theorem levels_fetchCoin (s : CoinsStack) (outpoint : COutPoint) :
    (s.fetchCoin outpoint).2.levels = s.levels :=
  (fetchCoin_eq (Prod.mk.eta (p := s.fetchCoin outpoint)).symm).1

theorem sound_fetchCoin {s : CoinsStack} (hs : s.Sound) (outpoint : COutPoint) :
    (s.fetchCoin outpoint).2.Sound :=
  (fetchCoin_eq (Prod.mk.eta (p := s.fetchCoin outpoint)).symm).2.1 hs

theorem fetchCoin_fst (s : CoinsStack) (outpoint : COutPoint) :
    ((s.fetchCoin outpoint).1.bind fun e => unspent e.coin) = s.levels.top outpoint :=
  (fetchCoin_eq (Prod.mk.eta (p := s.fetchCoin outpoint)).symm).2.2.1

/-! ## The reads answer from the top level -/

/-- `GetCoin` of the top cache answers what the top level holds. -/
theorem getCoin_levels (s : CoinsStack) (outpoint : COutPoint) :
    (s.getCoin outpoint).1 = s.levels.top outpoint :=
  fetchCoin_fst s outpoint

theorem haveCoin_levels (s : CoinsStack) (outpoint : COutPoint) :
    (s.haveCoin outpoint).1 = (s.levels.top outpoint).isSome := by
  rw [← fetchCoin_fst, haveCoin]
  cases (s.fetchCoin outpoint).1 with
  | none => rfl
  | some e =>
    cases h : e.coin.isSpent
    · simp [h, unspent_of_not_isSpent h]
    · simp [h, unspent_eq_none.mpr h]

theorem accessCoin_levels (s : CoinsStack) (outpoint : COutPoint) :
    unspent (s.accessCoin outpoint).1 = s.levels.top outpoint := by
  rw [← fetchCoin_fst, accessCoin]
  cases (s.fetchCoin outpoint).1 with
  | none => rfl
  | some e => rfl

/-- `SpendCoin` moves out the top level's coin; where the top level has none it returns
`false`, or `true` with a spent coin when the top cache holds one. -/
theorem spendCoin_levels (s : CoinsStack) (outpoint : COutPoint) :
    (s.spendCoin outpoint).1.bind unspent = s.levels.top outpoint := by
  rw [← fetchCoin_fst, spendCoin]
  obtain ⟨_ | e, s'⟩ := s.fetchCoin outpoint
  · rfl
  · simp only [Option.bind_some]

/-- Whatever the flags, the reads of the top cache answer from the top level: `GetCoin`,
`HaveCoin`, the coin `AccessCoin` returns, and the coin `SpendCoin` moves out. -/
theorem reads_levels (s : CoinsStack) (outpoint : COutPoint) :
    (s.getCoin outpoint).1 = s.levels.top outpoint ∧
      (s.haveCoin outpoint).1 = (s.levels.top outpoint).isSome ∧
      unspent (s.accessCoin outpoint).1 = s.levels.top outpoint ∧
      (s.spendCoin outpoint).1.bind unspent = s.levels.top outpoint :=
  ⟨getCoin_levels s outpoint, haveCoin_levels s outpoint, accessCoin_levels s outpoint,
    spendCoin_levels s outpoint⟩

end CoinsStack

end Veil.Coins
