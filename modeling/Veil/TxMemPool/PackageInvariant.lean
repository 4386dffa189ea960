import Veil.TxMemPool.Packages
import Mathlib.Logic.Relation

/-!
# What the package statistics are meant to be

`PackagesExact pool` is the state the package code maintains: the links are the spending
relation of the pool's followed inputs, `mapNextTx` holds exactly the outpoints those
inputs spend, and every entry's statistics are the count and the sums of size, modified
fee and sigop cost over the entry and its transitive in-pool ancestors, and over the entry
and its descendants.

It does not survive every run of the pool (`zerocoinSpend_removal_loses_mapNextTx`): a
zerocoin-spend input whose prevout is an outpoint a pool transaction spends is entered
nowhere, since `addUnchecked` skips it, but when its transaction is removed,
`removeUnchecked` erases that outpoint from `mapNextTx`, although its spender stays in the
pool.
-/

namespace Veil.TxMemPool.Packages

variable {τ : Type} [DecidableEq τ]

/-- `p` is a parent of `c` in the pool: a pool entry whose outputs `c` spends through an
input that is neither anon nor a zerocoin spend. -/
def SpendsFrom (pool : CTxMemPool τ) (c p : CTxMemPoolEntry τ) : Prop :=
  p ∈ pool.mapTx ∧ ∃ txin ∈ c.tx.vin, txin.isSkipped = false ∧ txin.prevout.hash = p.tx.hash

/-- `a` is a transitive in-pool ancestor of `c`. -/
def IsAncestor (pool : CTxMemPool τ) (a c : CTxMemPoolEntry τ) : Prop :=
  Relation.TransGen (fun a c => SpendsFrom pool c a) a c

open Classical in
/-- The entry and its in-pool ancestors. -/
noncomputable def ancestorPackage (pool : CTxMemPool τ) (e : CTxMemPoolEntry τ) :
    List (CTxMemPoolEntry τ) :=
  pool.mapTx.filter fun a => a = e ∨ IsAncestor pool a e

open Classical in
/-- The entry and its in-pool descendants. -/
noncomputable def descendantPackage (pool : CTxMemPool τ) (e : CTxMemPoolEntry τ) :
    List (CTxMemPoolEntry τ) :=
  pool.mapTx.filter fun d => d = e ∨ IsAncestor pool e d

/-- The statistics of a package, as the entry's `WithAncestors` or `WithDescendants`
fields hold them. -/
def PackageStats (package : List (CTxMemPoolEntry τ)) (count size modFees : Int) : Prop :=
  count = package.length ∧ size = (package.map fun a => (a.txSize : Int)).sum ∧
    modFees = (package.map (·.getModifiedFee)).sum

/-- The state the package code keeps. -/
structure PackagesExact (pool : CTxMemPool τ) : Prop where
  /-- `mapTx` is keyed by the hash. -/
  nodup : (pool.mapTx.map (·.tx.hash)).Nodup
  /-- The parents of an entry are the pool transactions it spends from. -/
  parents : ∀ e ∈ pool.mapTx, ∀ h,
    h ∈ pool.getMemPoolParents e.tx.hash ↔ ∃ p, SpendsFrom pool e p ∧ p.tx.hash = h
  /-- The children of an entry are the pool transactions that spend from it. -/
  children : ∀ e ∈ pool.mapTx, ∀ h,
    h ∈ pool.getMemPoolChildren e.tx.hash ↔ ∃ c ∈ pool.mapTx, SpendsFrom pool c e ∧ c.tx.hash = h
  /-- `mapNextTx` maps exactly the outpoints the followed inputs spend to their spender. -/
  nextTx : ∀ prevout h, pool.mapNextTx.lookup prevout = some h ↔
    ∃ e ∈ pool.mapTx, e.tx.hash = h ∧ ∃ txin ∈ e.tx.vin, txin.isSkipped = false ∧ txin.prevout = prevout
  /-- The ancestor statistics. -/
  ancestors : ∀ e ∈ pool.mapTx,
    PackageStats (ancestorPackage pool e) e.nCountWithAncestors e.nSizeWithAncestors
      e.nModFeesWithAncestors ∧
    e.nSigOpCostWithAncestors = ((ancestorPackage pool e).map (·.sigOpCost)).sum
  /-- The descendant statistics. -/
  descendants : ∀ e ∈ pool.mapTx,
    PackageStats (descendantPackage pool e) e.nCountWithDescendants e.nSizeWithDescendants
      e.nModFeesWithDescendants

/-! ## A run that loses an outpoint of `mapNextTx` -/

/-- An outpoint of the chain, spent by `spenderTx`. -/
def spentOutpoint : COutPoint Nat := ⟨7, 0⟩

/-- A pool transaction spending `spentOutpoint` through a standard input. -/
def spenderTx : CTransaction Nat := ⟨1, [⟨spentOutpoint, .standard⟩], 1, false, false, [], []⟩

/-- A zerocoin spend whose second zerocoin-spend input names `spentOutpoint` as its prevout,
which nothing checks: `CheckTransaction` skips the prevout checks for zerocoin spends, and
the spend's signature of knowledge covers the outputs only. -/
def zerocoinSpendTx : CTransaction Nat :=
  ⟨2, [⟨⟨0, 0⟩, .zerocoinSpend⟩, ⟨spentOutpoint, .zerocoinSpend⟩], 1, false, true, [], [5]⟩

/-- Both transactions accepted, then a block with the zerocoin spend connected. -/
def zerocoinSpendRun : List (Event Nat) :=
  [.accept spenderTx 1000 100 4 nNoLimit, .accept zerocoinSpendTx 0 200 0 nNoLimit,
    .removeForBlock [zerocoinSpendTx]]

/-- After the run `spenderTx` is still in the pool, but `mapNextTx` no longer holds the
outpoint it spends: the run's end is reachable and `PackagesExact` fails there. -/
theorem zerocoinSpend_removal_loses_mapNextTx :
    ∃ pool, TransitionSystem.run step CTxMemPool.empty zerocoinSpendRun = some pool ∧
      PoolReachable pool ∧ pool.mapTx.map (·.tx) = [spenderTx] ∧
      pool.mapNextTx.lookup spentOutpoint = none ∧ ¬ PackagesExact pool := by
  obtain ⟨pool, hrun⟩ :
      ∃ pool, TransitionSystem.run step CTxMemPool.empty zerocoinSpendRun = some pool := ⟨_, rfl⟩
  have hnext :
      (TransitionSystem.run step CTxMemPool.empty zerocoinSpendRun).map (·.mapNextTx) = some [] := by
    decide
  have htxs : (TransitionSystem.run step CTxMemPool.empty zerocoinSpendRun).map
      (fun p => p.mapTx.map (·.tx)) = some [spenderTx] := by
    decide
  rw [hrun, Option.map_some, Option.some_inj] at hnext htxs
  have hlookup : pool.mapNextTx.lookup spentOutpoint = none := by
    rw [hnext]
    rfl
  refine ⟨pool, hrun, TransitionSystem.Reachable.of_run rfl (fun _ _ _ => trivial) hrun, htxs,
    hlookup, ?_⟩
  intro hexact
  -- the spender is in the pool, so `nextTx` asks for its outpoint in `mapNextTx`
  obtain ⟨e, he, hetx⟩ : ∃ e ∈ pool.mapTx, e.tx = spenderTx := by
    have : spenderTx ∈ pool.mapTx.map (·.tx) := by
      rw [htxs]
      exact List.mem_singleton_self _
    simpa using this
  have hspent := (hexact.nextTx spentOutpoint spenderTx.hash).2
    ⟨e, he, by rw [hetx], ⟨spentOutpoint, .standard⟩, by rw [hetx]; simp [spenderTx], rfl, rfl⟩
  rw [hlookup] at hspent
  cases hspent

end Veil.TxMemPool.Packages
