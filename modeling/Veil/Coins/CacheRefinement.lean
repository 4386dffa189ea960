import Veil.Coins.CacheLevels
import Veil.Lib.TransitionSystem
/-!
# The coins cache refines the stack of plain maps

Every event the callers may send (`Enabled`) to a stack whose flags are sound succeeds, keeps the
flags sound and moves the levels as the plain maps move:

    s.Sound → Enabled s e →
      ∃ s', step s e = some s' ∧ s'.Sound ∧ s.levels.step e = some s'.levels     (step_simulates)
    Runs step Enabled s es s' → s.Sound →
      s'.Sound ∧ run CoinsLevels.step s.levels es = some s'.levels                (runs_refine)

So no enabled event throws: `BatchWrite` never meets a `FRESH` entry over an unspent coin, and
`AddCoin` never replaces an unspent coin without `possible_overwrite`. What the callers guarantee
is what the interface asks: no spent coin added, none added without `possible_overwrite` over an
unspent coin (`AddCoins` with `check` computes it from `HaveCoin`; without, `ConnectBlock` relies
on the uniqueness of txids), and a best block for a flush into the database.

The step lemmas take the events one by one; `BatchWrite` is read at each outpoint through
`KeyedBatch`.
-/

namespace Veil.Coins

/-- The assertions of `CCoinsViewDB::BatchWrite`, for a flush of the top cache. -/
def FlushAsserts (s : CoinsStack) : Prop :=
  s.top.hashBlock ≠ Uint256.zero ∧
    ¬(s.db.getBestBlock = Uint256.zero ∧ s.db.headBlocks.length = 2 ∧
      s.db.headBlocks.head? ≠ some s.top.hashBlock)

/-- What the callers of a stack guarantee: the plain maps take the event, and a flush into the
database passes the assertions of `CCoinsViewDB::BatchWrite`. -/
def Enabled (s : CoinsStack) (e : Event) : Prop :=
  (s.levels.step e).isSome ∧ (e = .flush → s.below = [] → FlushAsserts s)

/-- `e = .flush`, as a test. -/
def Event.isFlush : Event → Bool
  | .flush => true
  | _ => false

theorem Event.isFlush_iff (e : Event) : e.isFlush = true ↔ e = .flush := by
  cases e <;> simp [Event.isFlush]

instance (s : CoinsStack) : Decidable (FlushAsserts s) :=
  inferInstanceAs (Decidable (_ ∧ _))

/-- What the callers guarantee can be checked, on a concrete stack, by running it. -/
instance (s : CoinsStack) (e : Event) : Decidable (Enabled s e) :=
  decidable_of_iff ((s.levels.step e).isSome = true ∧
      (e.isFlush = true → s.below.isEmpty = true → FlushAsserts s))
    (by rw [Enabled, Event.isFlush_iff, List.isEmpty_iff])

/-! ## Writing one entry -/

/-- An entry whose flags are sound, entered into a map. -/
theorem insert_spec {m : CCoinsMap} {base : CoinsMap} {outpoint : COutPoint} {e : CCoinsCacheEntry}
    (hm : FlagsSound m base) (he : EntrySound e (base outpoint)) :
    FlagsSound (m.insert outpoint e) base ∧
      (∀ k ≠ outpoint, mapView (m.insert outpoint e) base k = mapView m base k) ∧
      mapView (m.insert outpoint e) base outpoint = unspent e.coin := by
  refine ⟨flagsSound_insert hm he, fun k hk => ?_, ?_⟩
  · rw [mapView_insert, Function.update_of_ne hk]
  · rw [mapView_insert, Function.update_self]

theorem erase_spec {m : CCoinsMap} {base : CoinsMap} (hm : FlagsSound m base)
    (outpoint : COutPoint) :
    FlagsSound (m.erase outpoint) base ∧
      (∀ k ≠ outpoint, mapView (m.erase outpoint) base k = mapView m base k) ∧
      mapView (m.erase outpoint) base outpoint = base outpoint := by
  refine ⟨flagsSound_erase hm outpoint, fun k hk => ?_, ?_⟩
  · rw [mapView_erase, Function.update_of_ne hk]
  · rw [mapView_erase, Function.update_self]

/-- **One entry of `CCoinsViewCache::BatchWrite`.** A child entry whose flags are sound over the
parent is merged without an exception, the parent's flags stay sound, and the parent then shows
the child's coin there and nothing new elsewhere. -/
theorem batchWriteEntry_spec {m : CCoinsMap} {base : CoinsMap}
    (x : Σ _ : COutPoint, CCoinsCacheEntry) (hm : FlagsSound m base)
    (hx : EntrySound x.2 (mapView m base x.1)) :
    ∃ m', CCoinsViewCache.batchWriteEntry m x = .ok m' ∧ FlagsSound m' base ∧
      (∀ k ≠ x.1, mapView m' base k = mapView m base k) ∧ mapView m' base x.1 = unspent x.2.coin := by
  obtain ⟨outpoint, child⟩ := x
  obtain ⟨hfresh, hclean⟩ := hx
  dsimp only at hfresh hclean ⊢
  cases hd : child.dirty
  · -- an entry that is not dirty shows what the parent shows
    exact ⟨m, by simp [CCoinsViewCache.batchWriteEntry, hd], hm, fun _ _ => rfl, hclean hd⟩
  cases hl : m.lookup outpoint with
  | none =>
    rw [mapView_of_lookup_none hl] at hfresh
    by_cases hskip : (child.fresh && child.coin.isSpent) = true
    · -- fresh and spent: the parent's base has no coin either
      rw [Bool.and_eq_true] at hskip
      refine ⟨m, by simp [CCoinsViewCache.batchWriteEntry, hd, hl, hskip], hm, fun _ _ => rfl, ?_⟩
      rw [mapView_of_lookup_none hl, hfresh hskip.1, unspent_eq_none.mpr hskip.2]
    · obtain ⟨hs, hother, hself⟩ := insert_spec (e := ⟨child.coin, true, child.fresh⟩) hm
        ⟨hfresh, fun h => nomatch h⟩
      exact ⟨_, by simp [CCoinsViewCache.batchWriteEntry, hd, hl, hskip], hs, hother, hself⟩
  | some us =>
    obtain ⟨husFresh, -⟩ := hm outpoint us hl
    rw [mapView_of_lookup hl] at hfresh
    -- a fresh child entry over an unspent coin is what the assertion excludes
    have hthrow : (child.fresh && !us.coin.isSpent) = false := by
      cases hcf : child.fresh
      · rfl
      · simpa using unspent_eq_none.mp (hfresh hcf)
    by_cases hdrop : (us.fresh && child.coin.isSpent) = true
    · rw [Bool.and_eq_true] at hdrop
      obtain ⟨hs, hother, hself⟩ := erase_spec hm outpoint
      refine ⟨_, by simp [CCoinsViewCache.batchWriteEntry, hd, hl, hthrow, hdrop], hs, hother, ?_⟩
      rw [hself, husFresh hdrop.1, unspent_eq_none.mpr hdrop.2]
    · obtain ⟨hs, hother, hself⟩ := insert_spec (e := ⟨child.coin, true, us.fresh⟩) hm
        ⟨husFresh, fun h => nomatch h⟩
      exact ⟨_, by simp [CCoinsViewCache.batchWriteEntry, hd, hl, hthrow, hdrop], hs, hother, hself⟩

/-- **`CCoinsViewCache::BatchWrite`.** A child map whose flags are sound over the parent is
merged without an exception; the parent's flags stay sound and it shows what the child showed. -/
theorem batchWrite_spec {c : CCoinsViewCache} {base : CoinsMap} {child : CCoinsMap}
    (hc : FlagsSound c.cacheCoins base) (hchild : FlagsSound child (mapView c.cacheCoins base))
    (hashBlockIn : Uint256) :
    ∃ c', c.batchWrite child hashBlockIn = .ok c' ∧ FlagsSound c'.cacheCoins base ∧
      mapView c'.cacheCoins base = mapView child (mapView c.cacheCoins base) := by
  obtain ⟨m', h', hm', hr'⟩ := KeyedBatch.foldlM_keyed (fun m k => mapView m base k)
    CCoinsViewCache.batchWriteEntry (P := fun m => FlagsSound m base)
    (Q := fun x v => EntrySound x.2 v) (g := fun x => unspent x.2.coin)
    (fun _ x hm hx => batchWriteEntry_spec x hm hx) child.nodupKeys hc
    (fun x hx => hchild x.1 x.2 (AList.mem_lookup_iff.mpr hx))
  refine ⟨⟨hashBlockIn, m'⟩, ?_, hm', ?_⟩
  · simp only [CCoinsViewCache.batchWrite, h']
    rfl
  · funext k
    rw [hr' k]
    simp only [mapView, AList.lookup]
    cases child.entries.dlookup k <;> rfl

/-- One entry of the batch of `CCoinsViewDB::BatchWrite`. -/
theorem writeEntry_spec (coins : COutPoint → Option Coin) (x : Σ _ : COutPoint, CCoinsCacheEntry)
    (hx : EntrySound x.2 ((coins x.1).bind unspent)) :
    (∀ k ≠ x.1, (CCoinsViewDB.writeEntry coins x k).bind unspent = (coins k).bind unspent) ∧
      (CCoinsViewDB.writeEntry coins x x.1).bind unspent = unspent x.2.coin := by
  unfold CCoinsViewDB.writeEntry
  cases hd : x.2.dirty
  · exact ⟨fun _ _ => rfl, hx.2 hd⟩
  refine ⟨fun k hk => by simp [Function.update_of_ne hk], ?_⟩
  -- a spent coin is erased, an unspent one written
  cases hs : x.2.coin.isSpent
  · simp [unspent_of_not_isSpent hs]
  · simp [unspent_eq_none.mpr hs]

/-- **`CCoinsViewDB::BatchWrite`.** With its assertions holding, the database then shows what the
flushed cache showed. -/
theorem dbBatchWrite_spec {db : CCoinsViewDB} {child : CCoinsMap} {hashBlock : Uint256}
    (hchild : FlagsSound child (dbView db)) (hnull : hashBlock ≠ Uint256.zero)
    (hheads : ¬(db.getBestBlock = Uint256.zero ∧ db.headBlocks.length = 2 ∧
      db.headBlocks.head? ≠ some hashBlock)) :
    ∃ db', db.batchWrite child hashBlock = .ok db' ∧ dbView db' = mapView child (dbView db) := by
  obtain ⟨-, hr⟩ := KeyedBatch.foldl_keyed (fun coins k => (coins k).bind unspent)
    CCoinsViewDB.writeEntry (P := fun _ => True) (Q := fun x v => EntrySound x.2 v)
    (g := fun x => unspent x.2.coin) (fun coins x _ hx => ⟨trivial, writeEntry_spec coins x hx⟩)
    child.nodupKeys trivial (fun x hx => hchild x.1 x.2 (AList.mem_lookup_iff.mpr hx))
  refine ⟨⟨child.entries.foldl CCoinsViewDB.writeEntry db.coins, some hashBlock, []⟩,
    by simp [CCoinsViewDB.batchWrite, hnull, hheads], ?_⟩
  funext k
  rw [dbView, hr k]
  simp only [mapView, AList.lookup]
  cases child.entries.dlookup k <;> rfl

/-! ## The events -/

namespace CoinsStack

variable {s : CoinsStack}

theorem spendCoin_step (hs : s.Sound) (outpoint : COutPoint) :
    (s.spendCoin outpoint).2.Sound ∧
      (s.spendCoin outpoint).2.levels = s.levels.spendCoin outpoint := by
  rcases hf : s.fetchCoin outpoint with ⟨r, s'⟩
  obtain ⟨hlev, hsound, hfst, hlookup⟩ := fetchCoin_eq hf
  have hs' := hsound hs
  unfold spendCoin CoinsLevels.spendCoin
  rw [hf, ← hlev]
  cases r with
  | none =>
    -- nothing to spend: the top level has no coin there
    refine ⟨hs', ?_⟩
    rw [← hlev, Option.bind_none] at hfst
    simp only
    rw [Function.update_eq_self_iff.mpr hfst]
  | some e =>
    have he := hs'.top outpoint e hlookup
    simp only
    rw [levels_setTop]
    split
    · -- a fresh entry goes: the base has no coin under it
      next hfresh =>
      obtain ⟨hm, -, -⟩ := erase_spec hs'.top outpoint
      refine ⟨sound_setTop hs' hm, ?_⟩
      rw [mapView_erase, he.1 hfresh]
      rfl
    · obtain ⟨hm, -, -⟩ := insert_spec (e := ⟨e.coin.clear, true, e.fresh⟩) hs'.top
        ⟨he.1, fun h => nomatch h⟩
      refine ⟨sound_setTop hs' hm, ?_⟩
      rw [mapView_insert, unspent_clear]
      rfl

theorem uncache_step (hs : s.Sound) (outpoint : COutPoint) :
    (s.uncache outpoint).Sound ∧ (s.uncache outpoint).levels = s.levels := by
  unfold uncache
  cases hl : s.top.cacheCoins.lookup outpoint with
  | none => exact ⟨hs, rfl⟩
  | some e =>
    simp only
    split
    · -- an unflagged entry shows what the base shows, so dropping it changes nothing
      next hflags =>
      have hclean : e.dirty = false := by simpa using (Bool.and_eq_true _ _).mp hflags |>.1
      obtain ⟨hm, -, -⟩ := erase_spec hs.top outpoint
      refine ⟨sound_setTop hs hm, ?_⟩
      have htop : mapView s.top.cacheCoins (viewFrom s.db s.belowMaps) outpoint = unspent e.coin :=
        mapView_of_lookup hl
      rw [levels_setTop, mapView_erase, (hs.top outpoint e hl).2 hclean, ← htop,
        Function.update_eq_self]
      rfl
    · exact ⟨hs, rfl⟩

/-- The entry `emplace` leaves in the top cache, the one there or a new one with a spent coin:
`FRESH` only over no unspent coin, not dirty only where the base shows the top level's coin, and an
unspent coin in it is the top level's. -/
theorem emplaced_spec (hs : s.Sound) (outpoint : COutPoint) :
    (((s.top.cacheCoins.lookup outpoint).getD ⟨coinEmpty, false, false⟩).fresh = true →
        viewFrom s.db s.belowMaps outpoint = none) ∧
      (((s.top.cacheCoins.lookup outpoint).getD ⟨coinEmpty, false, false⟩).dirty = false →
        viewFrom s.db s.belowMaps outpoint = s.levels.top outpoint) ∧
      (((s.top.cacheCoins.lookup outpoint).getD ⟨coinEmpty, false, false⟩).coin.isSpent = false →
        s.levels.top outpoint ≠ none) := by
  cases hl : s.top.cacheCoins.lookup outpoint with
  | none =>
    have htop : s.levels.top outpoint = viewFrom s.db s.belowMaps outpoint :=
      mapView_of_lookup_none hl
    simp only [Option.getD_none]
    exact ⟨fun h => absurd h (by decide), fun _ => htop.symm, fun h => absurd h (by decide)⟩
  | some e =>
    have htop : s.levels.top outpoint = unspent e.coin := mapView_of_lookup hl
    obtain ⟨hfresh, hclean⟩ := hs.top outpoint e hl
    simp only [Option.getD_some]
    refine ⟨hfresh, fun hd => by rw [hclean hd, htop], fun hspent => ?_⟩
    rw [htop, unspent_of_not_isSpent hspent]
    exact Option.some_ne_none _

/-- **`AddCoin`.** Where the plain map takes the coin, the top cache does, without an exception,
and its flags stay sound: a new entry is `FRESH` only without `possible_overwrite` over an entry
that is not dirty, where the precondition leaves no unspent coin under it. -/
theorem addCoin_step (hs : s.Sound) {outpoint : COutPoint} {coin : Coin}
    {possibleOverwrite : Bool} {L : CoinsLevels}
    (h : s.levels.addCoin outpoint coin possibleOverwrite = some L) :
    ∃ s', s.addCoin outpoint coin possibleOverwrite = .ok s' ∧ s'.Sound ∧ s'.levels = L := by
  unfold CoinsLevels.addCoin at h
  cases hspent : coin.isSpent
  · cases hun : coin.out.scriptPubKey.isUnspendable
    · simp only [hspent, hun, Bool.false_eq_true, if_false] at h
      split_ifs at h with hpre
      cases h
      -- without `possible_overwrite` the top level has no coin there
      have hnone : possibleOverwrite = false → s.levels.top outpoint = none := by
        intro hpo
        simpa [hpo] using hpre
      obtain ⟨hitFresh, hitClean, hitSpent⟩ := emplaced_spec hs outpoint
      set it := (s.top.cacheCoins.lookup outpoint).getD ⟨coinEmpty, false, false⟩ with hit
      have hthrow : (!possibleOverwrite && !it.coin.isSpent) = false := by
        cases hpo : possibleOverwrite
        · cases hc : it.coin.isSpent
          · exact absurd (hnone hpo) (hitSpent hc)
          · rfl
        · rfl
      -- the new entry is `FRESH` only over a base with no unspent coin
      have hfresh : (it.fresh || (!possibleOverwrite && !it.dirty)) = true →
          viewFrom s.db s.belowMaps outpoint = none := by
        intro hf
        rcases Bool.or_eq_true_iff.mp hf with hf | hf
        · exact hitFresh hf
        · simp only [Bool.and_eq_true, Bool.not_eq_true'] at hf
          rw [hitClean hf.2]
          exact hnone hf.1
      let e : CCoinsCacheEntry := ⟨coin, true, it.fresh || (!possibleOverwrite && !it.dirty)⟩
      refine ⟨{ s with top := { s.top with cacheCoins := s.top.cacheCoins.insert outpoint e } }, ?_,
        sound_setTop hs (flagsSound_insert hs.top ⟨hfresh, fun h => nomatch h⟩), ?_⟩
      · simp only [CoinsStack.addCoin, hspent, hun, Bool.false_eq_true, if_false, ← hit, hthrow]
        rfl
      · rw [levels_setTop, mapView_insert, unspent_of_not_isSpent hspent]
        rfl
    · -- an unspendable coin is not stored
      simp only [hspent, hun, Bool.false_eq_true, if_false, if_true, Option.some.injEq] at h
      subst h
      exact ⟨s, by simp [CoinsStack.addCoin, hspent, hun], hs, rfl⟩
  · simp only [hspent, if_true] at h
    cases h

/-- **`AddCoins`.** Output after output, as the plain map takes them: under `check` the
`HaveCoin` it asks answers from the top level. -/
theorem addCoinsLoop_step {txid : Uint256} {fCoinbase : Bool} {nHeight : Nat} {check : Bool} :
    ∀ (i : Nat) (vpout : List CTxOutBase) (s : CoinsStack) (L : CoinsLevels), s.Sound →
      s.levels.addCoinsLoop txid fCoinbase nHeight check i vpout = some L →
      ∃ s', addCoinsLoop txid fCoinbase nHeight check i vpout s = .ok s' ∧ s'.Sound ∧
        s'.levels = L
  | _, [], s, L, hs, h => ⟨s, rfl, hs, Option.some.inj h⟩
  | i, out :: vpout, s, L, hs, h => by
    -- `overwrite` as the code computes it, and the stack after the `HaveCoin`
    have hr : (if check then s.haveCoin ⟨txid, i.toUInt32⟩ else (fCoinbase, s)).1 =
          (if check then (s.levels.top ⟨txid, i.toUInt32⟩).isSome else fCoinbase) ∧
        (if check then s.haveCoin ⟨txid, i.toUInt32⟩ else (fCoinbase, s)).2.Sound ∧
        (if check then s.haveCoin ⟨txid, i.toUInt32⟩ else (fCoinbase, s)).2.levels = s.levels := by
      split
      · exact ⟨haveCoin_levels s _, sound_fetchCoin hs _, levels_fetchCoin s _⟩
      · exact ⟨rfl, hs, rfl⟩
    simp only [CoinsLevels.addCoinsLoop] at h
    simp only [addCoinsLoop]
    generalize (if check then s.haveCoin ⟨txid, i.toUInt32⟩ else (fCoinbase, s)) = r at hr ⊢
    obtain ⟨hov, hsound, hlev⟩ := hr
    cases hc : coinOfOutput out nHeight fCoinbase with
    | none =>
      rw [hc, ← hlev] at h
      exact addCoinsLoop_step (i + 1) vpout r.2 L hsound h
    | some coin =>
      rw [hc] at h
      obtain ⟨L₁, h₁, hrest⟩ := Option.bind_eq_some_iff.mp h
      rw [← hov, ← hlev] at h₁
      obtain ⟨s₁, hs₁, hsound₁, hlev₁⟩ := addCoin_step hsound h₁
      rw [← hlev₁] at hrest
      obtain ⟨s', h', hs', hlev'⟩ := addCoinsLoop_step (i + 1) vpout s₁ L hsound₁ hrest
      refine ⟨s', ?_, hs', hlev'⟩
      simp only [hs₁]
      exact h'

/-- **`Flush`.** The top cache's entries go into the cache under it, or into the database, without
an exception; that level then holds the top map. -/
theorem flush_step (hs : s.Sound) (hasserts : s.below = [] → FlushAsserts s) :
    ∃ s', s.flush = .ok s' ∧ s'.Sound ∧ s'.levels = s.levels.flush := by
  obtain ⟨top, below, db⟩ := s
  cases below with
  | nil =>
    obtain ⟨hnull, hheads⟩ := hasserts rfl
    obtain ⟨db', hdb', hview⟩ := dbBatchWrite_spec hs.top hnull hheads
    refine ⟨⟨{ top with cacheCoins := ∅ }, [], db'⟩, by simp only [flush, hdb']; rfl,
      ⟨flagsSound_empty _, trivial⟩, ?_⟩
    simp only [levels, belowMaps, List.map_nil, viewFrom, viewsFrom, mapView_empty, hview,
      CoinsLevels.flush]
  | cons c cs =>
    obtain ⟨hc, hcs⟩ := hs.below
    obtain ⟨c', hc', hsound', hview'⟩ := batchWrite_spec hc hs.top top.hashBlock
    refine ⟨⟨{ top with cacheCoins := ∅ }, c' :: cs, db⟩, by simp only [flush, hc']; rfl,
      ⟨flagsSound_empty _, hsound', hcs⟩, ?_⟩
    simp only [levels, belowMaps, List.map_cons, viewFrom, viewsFrom, mapView_empty, hview',
      CoinsLevels.flush]

theorem push_step (hs : s.Sound) : s.push.Sound ∧ s.push.levels = s.levels.push :=
  ⟨⟨flagsSound_empty _, hs.top, hs.below⟩, by
    simp only [push, levels, belowMaps, CCoinsViewCache.new, List.map_cons, mapView_empty,
      viewFrom, viewsFrom, CoinsLevels.push]⟩

theorem pop_step (hs : s.Sound) {s' : CoinsStack} (h : s.pop = some s') :
    s'.Sound ∧ s.levels.pop = some s'.levels := by
  obtain ⟨top, below, db⟩ := s
  cases below with
  | nil => cases h
  | cons c cs =>
    cases h
    exact ⟨⟨hs.below.1, hs.below.2⟩, rfl⟩

/-- `GetBestBlock` fills `hashBlock`s and leaves every map as it was. -/
theorem cacheCoins_getBestBlockFrom (db : CCoinsViewDB) :
    ∀ cs : List CCoinsViewCache,
      (getBestBlockFrom db cs).2.map (·.cacheCoins) = cs.map (·.cacheCoins)
  | [] => rfl
  | c :: cs => by
    simp only [getBestBlockFrom, CCoinsViewCache.getBestBlock]
    split
    · simp only [List.map_cons, cacheCoins_getBestBlockFrom db cs]
    · rfl

theorem getBestBlock_step (hs : s.Sound) :
    s.getBestBlock.2.Sound ∧ s.getBestBlock.2.levels = s.levels := by
  have htop : s.getBestBlock.2.top.cacheCoins = s.top.cacheCoins := by
    simp only [getBestBlock, CCoinsViewCache.getBestBlock]
    split <;> rfl
  have hbelow : s.getBestBlock.2.belowMaps = s.belowMaps := by
    simp only [getBestBlock, CCoinsViewCache.getBestBlock, belowMaps]
    split
    · exact cacheCoins_getBestBlockFrom s.db s.below
    · rfl
  obtain ⟨hlev, hsound⟩ := levels_of_maps htop hbelow rfl
  exact ⟨hsound hs, hlev⟩

end CoinsStack

open CoinsStack

/-- **Simulation.** An event the callers may send to a stack with sound flags succeeds, keeps the
flags sound, and moves the levels as the plain maps move. -/
theorem step_simulates {s : CoinsStack} {e : Event} (hs : s.Sound) (hen : Enabled s e) :
    ∃ s', step s e = some s' ∧ s'.Sound ∧ s.levels.step e = some s'.levels := by
  obtain ⟨hdef, hflush⟩ := hen
  cases e with
  | getCoin outpoint =>
    exact ⟨_, rfl, sound_fetchCoin hs outpoint, congrArg some (levels_fetchCoin s outpoint).symm⟩
  | haveCoin outpoint =>
    exact ⟨_, rfl, sound_fetchCoin hs outpoint, congrArg some (levels_fetchCoin s outpoint).symm⟩
  | accessCoin outpoint =>
    exact ⟨_, rfl, sound_fetchCoin hs outpoint, congrArg some (levels_fetchCoin s outpoint).symm⟩
  | spendCoin outpoint =>
    obtain ⟨hs', hlev⟩ := spendCoin_step hs outpoint
    exact ⟨_, rfl, hs', congrArg some hlev.symm⟩
  | addCoin outpoint coin possibleOverwrite =>
    obtain ⟨L, hL⟩ := Option.isSome_iff_exists.mp hdef
    obtain ⟨s', h', hs', hlev⟩ := addCoin_step hs hL
    exact ⟨s', by simp only [step, h']; rfl, hs', by rw [hlev]; exact hL⟩
  | addCoins tx txid nHeight check =>
    obtain ⟨L, hL⟩ := Option.isSome_iff_exists.mp hdef
    obtain ⟨s', h', hs', hlev⟩ := addCoinsLoop_step 0 tx.vpout s L hs hL
    exact ⟨s', by simp only [step, addCoins, h']; rfl, hs', by rw [hlev]; exact hL⟩
  | uncache outpoint =>
    obtain ⟨hs', hlev⟩ := uncache_step hs outpoint
    exact ⟨_, rfl, hs', congrArg some hlev.symm⟩
  | setBestBlock hashBlock =>
    obtain ⟨hlev, hsound⟩ := levels_of_maps
      (show (s.setBestBlock hashBlock).top.cacheCoins = s.top.cacheCoins from rfl) rfl rfl
    exact ⟨_, rfl, hsound hs, congrArg some hlev.symm⟩
  | getBestBlock =>
    obtain ⟨hs', hlev⟩ := getBestBlock_step hs
    exact ⟨_, rfl, hs', congrArg some hlev.symm⟩
  | flush =>
    obtain ⟨s', h', hs', hlev⟩ := flush_step hs (hflush rfl)
    exact ⟨s', by simp only [step, h']; rfl, hs', congrArg some hlev.symm⟩
  | push =>
    obtain ⟨hs', hlev⟩ := push_step hs
    exact ⟨_, rfl, hs', congrArg some hlev.symm⟩
  | pop =>
    obtain ⟨L, hL⟩ := Option.isSome_iff_exists.mp hdef
    cases hp : s.pop with
    | none =>
      -- the last cache: the plain maps have no level to drop either
      obtain ⟨top, below, db⟩ := s
      cases below with
      | nil => cases hL
      | cons c cs => cases hp
    | some s' =>
      obtain ⟨hs', hlev⟩ := pop_step hs hp
      exact ⟨s', hp, hs', hlev⟩

theorem step_refines {s s' : CoinsStack} {e : Event} (hs : s.Sound) (hen : Enabled s e)
    (h : step s e = some s') : s'.Sound ∧ s.levels.step e = some s'.levels := by
  obtain ⟨s'', h'', hs'', hlev⟩ := step_simulates hs hen
  rw [h, Option.some.injEq] at h''
  subst h''
  exact ⟨hs'', hlev⟩

/-- **Refinement.** Every run of events the callers may send, from a stack with sound flags,
keeps them sound and is a run of the plain maps. -/
theorem runs_refine {s s' : CoinsStack} {es : List Event}
    (h : TransitionSystem.Runs step Enabled s es s') (hs : s.Sound) :
    s'.Sound ∧ TransitionSystem.run CoinsLevels.step s.levels es = some s'.levels :=
  h.refines (fun _ _ _ hs hen hstep => step_refines hs hen hstep) hs

/-- A new cache over the database has no entries, so no flag to be wrong. -/
theorem sound_new (db : CCoinsViewDB) : (⟨CCoinsViewCache.new, [], db⟩ : CoinsStack).Sound :=
  ⟨flagsSound_empty _, trivial⟩

/-- From a new cache over the database, after any run of events the callers may send, `GetCoin`
of the top cache answers what the plain maps answer after the same events, and the database
holds the last map. -/
theorem getCoin_after_runs {db : CCoinsViewDB} {es : List Event} {s : CoinsStack}
    (h : TransitionSystem.Runs step Enabled ⟨CCoinsViewCache.new, [], db⟩ es s) :
    ∃ L, TransitionSystem.run CoinsLevels.step ⟨dbView db, [], dbView db⟩ es = some L ∧
      (∀ outpoint, (s.getCoin outpoint).1 = L.top outpoint) ∧ dbView s.db = L.db := by
  obtain ⟨-, hrun⟩ := h.refines (fun _ _ _ hs hen hstep => step_refines hs hen hstep) (sound_new db)
  have hinit : (⟨CCoinsViewCache.new, [], db⟩ : CoinsStack).levels = ⟨dbView db, [], dbView db⟩ := by
    simp only [levels, belowMaps, CCoinsViewCache.new, List.map_nil, viewFrom, viewsFrom,
      mapView_empty]
  rw [hinit] at hrun
  exact ⟨s.levels, hrun, fun outpoint => getCoin_levels s outpoint, rfl⟩

/-! ## `AddCoins` with `check` -/

/-- The coin `AddCoins` makes of an output whose value is not `-1` is not spent. -/
theorem coinOfOutput_not_isSpent {out : CTxOutBase} {nHeight : Nat} {fCoinbase : Bool}
    {coin : Coin} (h : coinOfOutput out nHeight fCoinbase = some coin) (hval : out.getValue ≠ -1) :
    coin.isSpent = false := by
  cases out with
  | standard nValue scriptPubKey =>
    cases h
    simpa [Coin.isSpent, CTxOut.isNull, CTxOutBase.getValue] using hval
  | ct commitment vData scriptPubKey vRangeproof =>
    cases h
    rfl
  | ringct => cases h
  | data => cases h

/-- With `possible_overwrite` set wherever the top map has a coin, the plain map takes every
unspent coin. -/
theorem addCoin_overwrite_isSome (L : CoinsLevels) (outpoint : COutPoint) {coin : Coin}
    (hspent : coin.isSpent = false) :
    (L.addCoin outpoint coin (L.top outpoint).isSome).isSome := by
  unfold CoinsLevels.addCoin
  rw [if_neg (by simp [hspent])]
  split
  · rfl
  · rw [if_neg (by cases (L.top outpoint).isSome <;> decide)]
    rfl

theorem addCoinsLoop_check_isSome {txid : Uint256} {fCoinbase : Bool} {nHeight : Nat} :
    ∀ (i : Nat) (vpout : List CTxOutBase) (L : CoinsLevels), (∀ out ∈ vpout, out.getValue ≠ -1) →
      (L.addCoinsLoop txid fCoinbase nHeight true i vpout).isSome
  | _, [], _, _ => rfl
  | i, out :: vpout, L, hval => by
    have hrest : ∀ out ∈ vpout, out.getValue ≠ -1 := fun o h => hval o (List.mem_cons_of_mem _ h)
    simp only [CoinsLevels.addCoinsLoop, if_true]
    cases hc : coinOfOutput out nHeight fCoinbase with
    | none => exact addCoinsLoop_check_isSome (i + 1) vpout L hrest
    | some coin =>
      obtain ⟨L₁, h₁⟩ := Option.isSome_iff_exists.mp (addCoin_overwrite_isSome L ⟨txid, i.toUInt32⟩
        (coinOfOutput_not_isSpent hc (hval out List.mem_cons_self)))
      simp only [h₁, Option.bind_some]
      exact addCoinsLoop_check_isSome (i + 1) vpout L₁ hrest

/-- **`AddCoins` with `check`.** `possible_overwrite` is then `HaveCoin`, so any transaction whose
outputs are not null is added without an exception, the flags stay sound, and the top map moves as
the plain map does. -/
theorem addCoins_check_ok {s : CoinsStack} (hs : s.Sound) {tx : CMutableTransaction}
    {txid : Uint256} {nHeight : Nat} (hval : ∀ out ∈ tx.vpout, out.getValue ≠ -1) :
    ∃ s', s.addCoins tx txid nHeight true = .ok s' ∧ s'.Sound ∧
      s.levels.addCoinsLoop txid tx.isCoinBase nHeight true 0 tx.vpout = some s'.levels := by
  obtain ⟨L, hL⟩ := Option.isSome_iff_exists.mp (addCoinsLoop_check_isSome 0 tx.vpout s.levels hval)
  obtain ⟨s', h', hs', hlev⟩ := addCoinsLoop_step 0 tx.vpout s L hs hL
  exact ⟨s', h', hs', by rw [hlev]; exact hL⟩

/-! ## A stack the theorems are run on -/

/-- The outpoint of the one coin of `fundedStack`. -/
def fundedOutpoint : COutPoint := ⟨Uint256.zero, 0⟩

/-- A stack of one new cache over a database holding one standard coin of value `10` at
`fundedOutpoint`. -/
def fundedStack : CoinsStack :=
  ⟨CCoinsViewCache.new, [],
    ⟨fun o => if o = fundedOutpoint then some ⟨⟨10, [0x51]⟩, false, 1, OUTPUT_STANDARD,
      List.Vector.replicate 33 0⟩ else none, none, []⟩⟩

/-- The top level of `fundedStack` is its database's one coin. -/
theorem fundedStack_top (o : COutPoint) :
    fundedStack.levels.top o = if o = fundedOutpoint then
      some ⟨⟨10, [0x51]⟩, false, 1, OUTPUT_STANDARD, List.Vector.replicate 33 0⟩ else none := by
  by_cases ho : o = fundedOutpoint
  · subst ho
    rfl
  · simp [ho, fundedStack, CoinsStack.levels, CoinsStack.belowMaps, viewFrom, dbView,
      CCoinsViewCache.new]

/-- A txid other than that of `fundedOutpoint`. -/
def onesHash : Uint256 := List.Vector.replicate 32 1

/-- A run over `fundedStack`: a child cache pushed, the funded coin spent and a new coin added in
it, the child flushed into its parent and dropped, and the parent flushed into the database at a
best block. -/
def fundedEvents : List Event :=
  [.push, .spendCoin fundedOutpoint,
    .addCoin ⟨onesHash, 0⟩ ⟨⟨5, [0x51]⟩, false, 2, OUTPUT_STANDARD, List.Vector.replicate 33 0⟩ false,
    .flush, .pop, .setBestBlock onesHash, .flush]

theorem runs_fundedEvents :
    ∃ s', TransitionSystem.Runs step Enabled fundedStack fundedEvents s' := by
  have hrun : (TransitionSystem.run step fundedStack fundedEvents).isSome = true := by decide
  have hen : TransitionSystem.EnabledAlong step Enabled fundedStack fundedEvents := by decide
  exact ⟨_, TransitionSystem.runs_get_of_enabledAlong hrun hen⟩

/-- The run of `fundedEvents` keeps the flags sound and is the run of the plain maps. -/
theorem runs_refine_fundedEvents :
    ∃ s', TransitionSystem.Runs step Enabled fundedStack fundedEvents s' ∧ s'.Sound ∧
      TransitionSystem.run CoinsLevels.step fundedStack.levels fundedEvents = some s'.levels := by
  obtain ⟨s', hruns⟩ := runs_fundedEvents
  exact ⟨s', hruns, runs_refine hruns (sound_new _)⟩

/-- After the run of `fundedEvents`, `GetCoin` answers the plain maps, and the database holds the
new coin and no longer the funded one. -/
theorem getCoin_after_runs_fundedEvents :
    ∃ s, TransitionSystem.Runs step Enabled fundedStack fundedEvents s ∧ ∃ L,
      TransitionSystem.run CoinsLevels.step ⟨dbView fundedStack.db, [], dbView fundedStack.db⟩
          fundedEvents = some L ∧
        (∀ outpoint, (s.getCoin outpoint).1 = L.top outpoint) ∧ dbView s.db = L.db ∧
        (L.db fundedOutpoint).isNone ∧ (L.db ⟨onesHash, 0⟩).isSome := by
  obtain ⟨s, hruns⟩ := runs_fundedEvents
  obtain ⟨L, hL, hget, hdb⟩ := getCoin_after_runs hruns
  change TransitionSystem.run CoinsLevels.step ⟨dbView fundedStack.db, [], dbView fundedStack.db⟩
    fundedEvents = some L at hL
  have hspent : ((TransitionSystem.run CoinsLevels.step
      ⟨dbView fundedStack.db, [], dbView fundedStack.db⟩ fundedEvents).bind
        fun L => L.db fundedOutpoint).isNone = true := by decide
  have hadded : ((TransitionSystem.run CoinsLevels.step
      ⟨dbView fundedStack.db, [], dbView fundedStack.db⟩ fundedEvents).bind
        fun L => L.db ⟨onesHash, 0⟩).isSome = true := by decide
  rw [hL, Option.bind_some] at hspent hadded
  exact ⟨s, hruns, L, hL, hget, hdb, hspent, hadded⟩

/-- `AddCoins` with `check` of one output, over no coin, and at `fundedOutpoint`, which holds a
coin: there `HaveCoin` finds it, so the new coin overwrites it. -/
theorem addCoins_check_ok_new :
    ((⟨CCoinsViewCache.new, [], ⟨fun _ => none, none, []⟩⟩ : CoinsStack).Sound ∧
      (∀ out ∈ [CTxOutBase.standard 5 []], out.getValue ≠ -1) ∧
      ∃ s', (⟨CCoinsViewCache.new, [], ⟨fun _ => none, none, []⟩⟩ : CoinsStack).addCoins
          ⟨[], [.standard 5 []], 2, 0⟩ Uint256.zero 1 true = .ok s' ∧ s'.Sound ∧
        (⟨CCoinsViewCache.new, [], ⟨fun _ => none, none, []⟩⟩ : CoinsStack).levels.addCoinsLoop
          Uint256.zero (CMutableTransaction.isCoinBase ⟨[], [.standard 5 []], 2, 0⟩) 1 true 0
          [.standard 5 []] = some s'.levels) ∧
    (fundedStack.Sound ∧ (fundedStack.levels.top fundedOutpoint).isSome ∧
      (∀ out ∈ [CTxOutBase.standard 5 [0x51]], out.getValue ≠ -1) ∧
      ∃ s', fundedStack.addCoins ⟨[], [.standard 5 [0x51]], 2, 0⟩ Uint256.zero 1 true = .ok s' ∧
        s'.Sound ∧
        fundedStack.levels.addCoinsLoop Uint256.zero
          (CMutableTransaction.isCoinBase ⟨[], [.standard 5 [0x51]], 2, 0⟩) 1 true 0
          [.standard 5 [0x51]] = some s'.levels) :=
  ⟨⟨sound_new _, by decide, addCoins_check_ok (sound_new _) (by decide)⟩,
    ⟨sound_new _, by rw [fundedStack_top, if_pos rfl]; rfl, by decide,
      addCoins_check_ok (sound_new _) (by decide)⟩⟩

end Veil.Coins
