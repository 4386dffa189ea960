import Veil.Dandelion.Inventory
import Veil.Lib.TransitionSystem

/-!
# Dandelion relay (`net_processing.cpp`, `rpc/rawtransaction.cpp`, `wallet/rpcwallet.cpp`)

The relay of one node as a transition system over `RelayState`: the dandelion
inventory, the mempool (entry times), `mapRelay` (expiry times), the connected
nodes with their `setInventoryTxToSend`, `filterInventoryKnown` and mempool-request
flags, the adjusted time, and the record `sent` of every announcement (`INV`) and
every transaction served (`TX`, `TX_DAND`), each with the dandelion entry of its
hash at that moment.

The events are the code's entry points: a local dandelion send (`sendrawtransaction`,
or `sendtoaddress` and the GUI, whose wallet commit relays first), a `TX`/`TX_DAND`
from a peer, `Process`, a `MEMPOOL` request and `SendMessages`' reply to it, one
transaction of the trickle loop, `GETDATA`, expiry of `mapRelay`, removal from the
mempool, and the clock.  The trickle loop and the mempool reply are taken one
transaction a step: the dandelion state each transaction reads is only ever written
at its own hash.  Filters the model does not track (fee filter, bloom filter) are a
choice `fFiltered`.

The invariants over runs are in `Veil.Dandelion.Privacy`.
-/

namespace Veil.Dandelion

open DandelionInventory TransitionSystem

/-- What a node holds for one peer. -/
structure PeerState (η : Type) where
  setInventoryTxToSend : η → Bool
  filterInventoryKnown : η → Bool
  fSendMempool : Bool
  timeLastMempoolReq : Int

/-- Which message a send is, and the branch of its path that sent it: a plain `INV`,
a stem-phase `INV` carrying the stem end, a `TX`, or a `TX_DAND`. -/
inductive SendKind
  | inv
  | invStem (nTimeStemPhaseEnd : Int)
  | tx
  | txDand (nTimeStemEnd : Int)
  deriving DecidableEq, Repr

/-- The stem-phase branches. -/
def SendKind.isStem : SendKind → Bool
  | .invStem _ | .txDand _ => true
  | .inv | .tx => false

/-- One message sent for a transaction, with the dandelion entry of its hash then. -/
structure Send (η : Type) where
  peer : NodeId
  hash : η
  nTime : Int
  kind : SendKind
  stem : Option Stem
  deriving DecidableEq, Repr

structure RelayState (η : Type) where
  dandelion : DandelionInventory η
  mempool : η → Option Int
  mapRelay : η → Option Int
  vNodes : List NodeId
  peer : NodeId → PeerState η
  nTime : Int
  sent : List (Send η)

inductive Event (η : Type)
  | advance (dt : Nat)
  /-- `sendrawtransaction` (`fRelayWallet = false`), or `sendtoaddress` and the GUI,
  with dandelion; the uninitialised fields of the new `Stem` are arguments. -/
  | sendDandelion (hash : η) (fRelayWallet : Bool) (nTimeLastRoll nNodeIDSentTo : Int)
  /-- `TX` (`nTimeStemPhase = 0`) or `TX_DAND` from `pfrom`; `fAccepted` is the
  verdict of `AcceptToMemoryPool` on a transaction not yet held. -/
  | receiveTx (pfrom : NodeId) (hash : η) (nTimeStemPhase : Int) (fAccepted : Bool)
      (nTimeLastRoll nNodeIDSentTo : Int)
  | process (vDandelionNodes : List NodeId) (pick : η → NodeId) (fSend : η → Bool)
  | mempoolRequest (pfrom : NodeId)
  | mempoolInv (pto : NodeId) (hash : η) (fFiltered : Bool)
  | mempoolDone (pto : NodeId)
  | trickleInv (pto : NodeId) (hash : η) (fFiltered : Bool)
  | getData (pfrom : NodeId) (hash : η)
  | expireRelay (hash : η)
  | removeFromMempool (hash : η)

namespace PeerState

variable {η : Type} [DecidableEq η]

def init : PeerState η := ⟨fun _ => false, fun _ => false, false, 0⟩

/-- `CNode::PushInventory` of a transaction. -/
def pushInventory (ps : PeerState η) (hash : η) : PeerState η :=
  if ps.filterInventoryKnown hash then ps
  else { ps with setInventoryTxToSend := Function.update ps.setInventoryTxToSend hash true }

/-- `CNode::AddInventoryKnown`. -/
def addInventoryKnown (ps : PeerState η) (hash : η) : PeerState η :=
  { ps with filterInventoryKnown := Function.update ps.filterInventoryKnown hash true }

def eraseToSend (ps : PeerState η) (hash : η) : PeerState η :=
  { ps with setInventoryTxToSend := Function.update ps.setInventoryTxToSend hash false }

end PeerState

/-- The events without a side condition. -/
def Event.isFree {η : Type} : Event η → Bool
  | .process .. => false
  | _ => true

namespace RelayState

variable {η : Type}

def updPeer (s : RelayState η) (q : NodeId) (f : PeerState η → PeerState η) : RelayState η :=
  { s with peer := Function.update s.peer q (f (s.peer q)) }

/-- Record a message for `hash`, with the dandelion entry `stem` it was sent under. -/
def record (s : RelayState η) (peer : NodeId) (hash : η) (kind : SendKind) (stem : Option Stem) :
    RelayState η :=
  { s with sent := ⟨peer, hash, s.nTime, kind, stem⟩ :: s.sent }

/-! The helpers touch only their own fields. -/

@[simp] theorem updPeer_dandelion (s : RelayState η) (q : NodeId) (f : PeerState η → PeerState η) :
    (s.updPeer q f).dandelion = s.dandelion := rfl
@[simp] theorem updPeer_sent (s : RelayState η) (q : NodeId) (f : PeerState η → PeerState η) :
    (s.updPeer q f).sent = s.sent := rfl
@[simp] theorem updPeer_nTime (s : RelayState η) (q : NodeId) (f : PeerState η → PeerState η) :
    (s.updPeer q f).nTime = s.nTime := rfl
@[simp] theorem updPeer_mempool (s : RelayState η) (q : NodeId) (f : PeerState η → PeerState η) :
    (s.updPeer q f).mempool = s.mempool := rfl

@[simp] theorem record_dandelion (s : RelayState η) (peer : NodeId) (hash : η) (kind : SendKind)
    (stem : Option Stem) : (s.record peer hash kind stem).dandelion = s.dandelion := rfl
@[simp] theorem record_sent (s : RelayState η) (peer : NodeId) (hash : η) (kind : SendKind)
    (stem : Option Stem) :
    (s.record peer hash kind stem).sent = ⟨peer, hash, s.nTime, kind, stem⟩ :: s.sent := rfl
@[simp] theorem record_nTime (s : RelayState η) (peer : NodeId) (hash : η) (kind : SendKind)
    (stem : Option Stem) : (s.record peer hash kind stem).nTime = s.nTime := rfl

variable [DecidableEq η]

def init (vNodes : List NodeId) (nTime : Int) : RelayState η :=
  { dandelion := .empty, mempool := fun _ => none, mapRelay := fun _ => none, vNodes,
    peer := fun _ => .init, nTime, sent := [] }

/-- `RelayTransaction`: `PushInventory` to every connected node. -/
def relayTransaction (s : RelayState η) (hash : η) : RelayState η :=
  { s with peer := fun q => if q ∈ s.vNodes then (s.peer q).pushInventory hash else s.peer q }

/-- `AcceptToMemoryPool` succeeding; a transaction already held keeps its entry time. -/
def acceptToMemoryPool (s : RelayState η) (hash : η) : RelayState η :=
  { s with mempool := Function.update s.mempool hash (some ((s.mempool hash).getD s.nTime)) }

/-- `mapRelay.insert`, with the expiry `vRelayExpiration` gets; an existing entry stays. -/
def relayInsert (s : RelayState η) (hash : η) : RelayState η :=
  { s with
    mapRelay := Function.update s.mapRelay hash (some ((s.mapRelay hash).getD (s.nTime + 15 * 60))) }

/-- One transaction of the trickle loop of `SendMessages` for `pto`.  A hash that is
not a candidate stays queued: there is no step. -/
def trickleInv (s : RelayState η) (pto : NodeId) (hash : η) (fFiltered : Bool) :
    Option (RelayState η) :=
  let d := s.dandelion
  let fStemPhase := d.isInStemPhase hash s.nTime
  if pto ∉ s.vNodes ∨ (s.peer pto).setInventoryTxToSend hash = false then none
  -- "don't send any dandelion inventory unless marked for sending"
  else if fStemPhase && (!d.isQueuedToSend hash || d.isFromNode hash pto ||
      !d.isCorrectNodeToSend hash pto) then none
  else
    -- "Remove it from the to-be-sent set"
    let s' := s.updPeer pto (·.eraseToSend hash)
    if (s.peer pto).filterInventoryKnown hash || (s.mempool hash).isNone || fFiltered then some s'
    -- "Don't send stem phase to more than one peer"
    else if fStemPhase && d.isSent hash then some s'
    else
      let kind := if fStemPhase then .invStem (d.getTimeStemPhaseEnd hash) else .inv
      -- "Record that this is the node that inventory was sent to"
      let s' := if fStemPhase then { s' with dandelion := d.setInventorySent hash pto } else s'
      some (((s'.updPeer pto (·.addInventoryKnown hash)).relayInsert hash).record pto hash kind
        (d.mapStemInventory hash))

/-- The transaction branch of `ProcessGetData`. -/
def getData (s : RelayState η) (pfrom : NodeId) (hash : η) : Option (RelayState η) :=
  let d := s.dandelion
  if pfrom ∉ s.vNodes then none
  else match s.mapRelay hash with
  | some _ =>
    if d.isInStemPhase hash s.nTime then
      -- "Only relay dandelion transactions if pfrom node was sent the inventory"
      if !d.isNodePendingSend hash pfrom then some s
      else some ({ s with dandelion := d.markSent hash }.record pfrom hash
        (.txDand (d.getTimeStemPhaseEnd hash)) (d.mapStemInventory hash))
    else some (s.record pfrom hash .tx (d.mapStemInventory hash))
  | none =>
    -- "do not answer getdata using the mempool when that TX couldn't have been INVed in
    -- reply to a MEMPOOL request"
    match s.mempool hash with
    | some nTimeTx =>
      if (s.peer pfrom).timeLastMempoolReq ≠ 0 ∧ nTimeTx ≤ (s.peer pfrom).timeLastMempoolReq then
        some (s.record pfrom hash .tx (d.mapStemInventory hash))
      else some s
    | none => some s

/-! The helpers touch only their own fields. -/

@[simp] theorem relayTransaction_dandelion (s : RelayState η) (hash : η) :
    (s.relayTransaction hash).dandelion = s.dandelion := rfl
@[simp] theorem relayTransaction_sent (s : RelayState η) (hash : η) :
    (s.relayTransaction hash).sent = s.sent := rfl
@[simp] theorem relayTransaction_nTime (s : RelayState η) (hash : η) :
    (s.relayTransaction hash).nTime = s.nTime := rfl

@[simp] theorem acceptToMemoryPool_dandelion (s : RelayState η) (hash : η) :
    (s.acceptToMemoryPool hash).dandelion = s.dandelion := rfl
@[simp] theorem acceptToMemoryPool_sent (s : RelayState η) (hash : η) :
    (s.acceptToMemoryPool hash).sent = s.sent := rfl
@[simp] theorem acceptToMemoryPool_nTime (s : RelayState η) (hash : η) :
    (s.acceptToMemoryPool hash).nTime = s.nTime := rfl

@[simp] theorem relayInsert_dandelion (s : RelayState η) (hash : η) :
    (s.relayInsert hash).dandelion = s.dandelion := rfl
@[simp] theorem relayInsert_sent (s : RelayState η) (hash : η) :
    (s.relayInsert hash).sent = s.sent := rfl
@[simp] theorem relayInsert_nTime (s : RelayState η) (hash : η) :
    (s.relayInsert hash).nTime = s.nTime := rfl

/-- The transitions. -/
def step (s : RelayState η) : Event η → Option (RelayState η)
  | .advance dt => some { s with nTime := s.nTime + dt }
  | .sendDandelion hash fRelayWallet nTimeLastRoll nNodeIDSentTo =>
    let s := s.acceptToMemoryPool hash
    let s := if fRelayWallet then s.relayTransaction hash else s
    some { s with
      dandelion := s.dandelion.add hash (s.nTime + nDefaultStemTime) nDefaultNodeID
        nTimeLastRoll nNodeIDSentTo }
  | .receiveTx pfrom hash nTimeStemPhase fAccepted nTimeLastRoll nNodeIDSentTo =>
    if pfrom ∉ s.vNodes then none
    else
      let s := s.updPeer pfrom (·.addInventoryKnown hash)
      if fAccepted && (s.mempool hash).isNone then
        let s := s.acceptToMemoryPool hash
        -- `inv.IsDandelion()`: a non-zero stem end
        if nTimeStemPhase ≠ 0 then
          some { s with
            dandelion := s.dandelion.add hash nTimeStemPhase pfrom nTimeLastRoll nNodeIDSentTo }
        else some (s.relayTransaction hash)
      else some s
  | .process _ pick fSend => some { s with dandelion := s.dandelion.process s.nTime pick fSend }
  | .mempoolRequest pfrom =>
    -- with the default `-peerbloomfilters` the node has `NODE_BLOOM` and accepts it
    if pfrom ∉ s.vNodes then none
    else some (s.updPeer pfrom fun ps => { ps with fSendMempool := true })
  | .mempoolInv pto hash fFiltered =>
    if pto ∉ s.vNodes ∨ (s.peer pto).fSendMempool = false ∨ (s.mempool hash).isNone then none
    -- "Don't send any transactions in the stem phase, handle this elsewhere"
    else if s.dandelion.isInStemPhase hash s.nTime then some s
    else
      let s := s.updPeer pto (·.eraseToSend hash)
      if fFiltered then some s
      else some ((s.updPeer pto (·.addInventoryKnown hash)).record pto hash .inv
        (s.dandelion.mapStemInventory hash))
  | .mempoolDone pto =>
    if pto ∉ s.vNodes ∨ (s.peer pto).fSendMempool = false then none
    else some (s.updPeer pto fun ps => { ps with fSendMempool := false, timeLastMempoolReq := s.nTime })
  | .trickleInv pto hash fFiltered => s.trickleInv pto hash fFiltered
  | .getData pfrom hash => s.getData pfrom hash
  | .expireRelay hash =>
    match s.mapRelay hash with
    | some nExpire =>
      if nExpire < s.nTime then some { s with mapRelay := Function.update s.mapRelay hash none }
      else none
    | none => none
  | .removeFromMempool hash => some { s with mempool := Function.update s.mempool hash none }

/-- The side condition `step` cannot check: `Process` runs over nodes that are
connected, and returns only with draws the do-while can make. -/
def Enabled (s : RelayState η) : Event η → Prop
  | .process vDandelionNodes pick _ =>
    vDandelionNodes.Sublist s.vNodes ∧ s.dandelion.PickValid vDandelionNodes s.nTime pick
  | _ => True

omit [DecidableEq η] in
theorem enabled_of_isFree {e : Event η} (h : e.isFree = true) (s : RelayState η) :
    s.Enabled e := by
  cases e with
  | process => cases h
  | _ => trivial

/-- Reachable from a node that has just started, with the nodes `vNodes` connected. -/
def Reachable (s : RelayState η) : Prop :=
  TransitionSystem.Reachable step Enabled
    (fun s₀ => ∃ vNodes nTime, s₀ = RelayState.init vNodes nTime) s

end RelayState

end Veil.Dandelion
