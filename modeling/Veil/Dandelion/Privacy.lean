import Veil.Dandelion.Relay

/-!
# What the dandelion relay sends during the stem phase

The inversion lemmas say once what a step can do to the inventory and to the record
of messages (`step_dandelion`, `step_sent`); the invariants over whole runs follow.

Every message a path sends through its stem branch (a stem-phase `INV` or a
`TX_DAND`) goes out only after the entry's stem end, because `IsInStemPhase` tests
`nTimeStemEnd < GetAdjustedTime()`, the test by which `Process` drops an entry as
fluff.  So while a transaction is in its stem phase proper every path treats it as
an ordinary transaction: a `TX_DAND` received from a peer is announced to every peer
that asks for the mempool, that peer included, and a wallet transaction sent with
dandelion is announced by the trickle loop to every peer.

Main results:

    in a reachable state every stem-branch message went out past its stem end, and every
      stem-phase INV to a node other than the origin          (reachable_sentGood)
    in a reachable state the inventory's containers agree     (reachable_wellFormed)
    a TX_DAND from a peer and a wallet transaction are announced to every peer before
      the stem end                                             (dandelion_stem_announced_to_all)
-/

namespace Veil.Dandelion

open DandelionInventory TransitionSystem

namespace RelayState

variable {η : Type} [DecidableEq η] {s s' : RelayState η}

/-- What a message sent by a step carries: the time and dandelion entry of the state
it is sent from, a stem branch only where `IsInStemPhase` held, and a stem-phase
`INV` only to a node the hash did not come from. -/
structure SendOK (s : RelayState η) (a : Send η) : Prop where
  nTime_eq : a.nTime = s.nTime
  stem_eq : a.stem = s.dandelion.mapStemInventory a.hash
  stem_phase : a.kind.isStem = true → s.dandelion.isInStemPhase a.hash s.nTime = true
  not_from : ∀ T, a.kind = .invStem T → s.dandelion.isFromNode a.hash a.peer = false

/-! ## Inversion -/

theorem trickleInv_cases {pto : NodeId} {hash : η} {fFiltered : Bool}
    (h : s.trickleInv pto hash fFiltered = some s') :
    (s'.dandelion = s.dandelion ∧ s'.sent = s.sent) ∨
    (s'.dandelion = s.dandelion ∧ ∃ a, s.SendOK a ∧ s'.sent = a :: s.sent) ∨
    (s'.dandelion = s.dandelion.setInventorySent hash pto ∧
      ∃ a, s.SendOK a ∧ s'.sent = a :: s.sent) := by
  unfold trickleInv at h
  dsimp only at h
  split_ifs at h with h₁ h₂ h₃ h₄ h₅
  · -- known, not in the mempool, or filtered: only erased from the queue
    cases h
    exact .inl ⟨rfl, rfl⟩
  · -- "Don't send stem phase to more than one peer"
    cases h
    exact .inl ⟨rfl, rfl⟩
  · -- the stem branch: the candidate filter kept the hash away from its origin
    cases h
    have hfrom : s.dandelion.isFromNode hash pto = false := by
      simp only [h₅, Bool.true_and, Bool.or_eq_true, Bool.not_eq_eq_eq_not, Bool.not_true,
        not_or] at h₂
      simpa using h₂.1.2
    exact .inr (.inr ⟨rfl, _, ⟨rfl, rfl, fun _ => h₅, fun _ _ => hfrom⟩, rfl⟩)
  · cases h
    exact .inr (.inl ⟨rfl, _, ⟨rfl, rfl, (fun hk => by simp [SendKind.isStem] at hk),
      (fun _ hk => by simp at hk)⟩, rfl⟩)

theorem getData_cases {pfrom : NodeId} {hash : η} (h : s.getData pfrom hash = some s') :
    s' = s ∨
    (s'.dandelion = s.dandelion.markSent hash ∧ ∃ a, s.SendOK a ∧ s'.sent = a :: s.sent) ∨
    (s'.dandelion = s.dandelion ∧ ∃ a, s.SendOK a ∧ s'.sent = a :: s.sent) := by
  -- a `TX` is a plain message: nothing to check beyond time and entry
  have plain : ∀ a : Send η, a.nTime = s.nTime → a.stem = s.dandelion.mapStemInventory a.hash →
      a.kind = .tx → s.SendOK a := fun a ht hs hk =>
    ⟨ht, hs, fun h => by simp [hk, SendKind.isStem] at h, fun _ h => by simp [hk] at h⟩
  unfold getData at h
  dsimp only at h
  split at h
  · cases h
  · split at h
    · -- served from `mapRelay`
      split at h
      next hstem =>
        split at h
        · cases h
          exact .inl rfl
        · -- `TX_DAND`, served in the stem branch
          cases h
          exact .inr (.inl ⟨rfl, _, ⟨rfl, rfl, fun _ => hstem, fun _ hk => by simp at hk⟩, rfl⟩)
      · cases h
        exact .inr (.inr ⟨rfl, _, plain _ rfl rfl rfl, rfl⟩)
    · -- served from the mempool after a `MEMPOOL` request
      split at h
      · split at h
        · cases h
          exact .inr (.inr ⟨rfl, _, plain _ rfl rfl rfl, rfl⟩)
        · cases h
          exact .inl rfl
      · cases h
        exact .inl rfl

/-- **What a step does to the record.**  It sends at most one message, and what it
sends is `SendOK`. -/
theorem step_sent {e : Event η} (h : step s e = some s') :
    s'.sent = s.sent ∨ ∃ a, s.SendOK a ∧ s'.sent = a :: s.sent := by
  cases e with
  | trickleInv pto hash fFiltered =>
    rcases trickleInv_cases h with ⟨-, hs⟩ | ⟨-, hs⟩ | ⟨-, hs⟩
    · exact .inl hs
    · exact .inr hs
    · exact .inr hs
  | getData pfrom hash =>
    rcases getData_cases h with rfl | ⟨-, hs⟩ | ⟨-, hs⟩
    · exact .inl rfl
    · exact .inr hs
    · exact .inr hs
  | mempoolInv pto hash fFiltered =>
    simp only [step] at h
    split_ifs at h with h₁ h₂ h₃
    · cases h
      exact .inl rfl
    · cases h
      exact .inl rfl
    · -- the mempool reply sends a plain `INV`
      cases h
      exact .inr ⟨_, ⟨rfl, rfl, fun hk => by simp [SendKind.isStem] at hk,
        fun _ hk => by simp at hk⟩, rfl⟩
  | advance | process | removeFromMempool =>
    simp only [step, Option.some.injEq] at h
    subst h
    exact .inl rfl
  | sendDandelion hash fRelayWallet =>
    simp only [step, Option.some.injEq] at h
    subst h
    split_ifs <;> simp
  | receiveTx pfrom hash nTimeStemPhase fAccepted =>
    simp only [step] at h
    split_ifs at h <;> cases h <;> simp
  | mempoolRequest pfrom | mempoolDone pfrom =>
    simp only [step] at h
    split_ifs at h
    cases h
    exact .inl rfl
  | expireRelay hash =>
    simp only [step] at h
    split at h
    · split_ifs at h
      cases h
      exact .inl rfl
    · cases h

/-- **What a step does to the inventory**: nothing, or one of its operations. -/
theorem step_dandelion {e : Event η} (h : step s e = some s') :
    s'.dandelion = s.dandelion ∨
    (∃ hash nTimeStemEnd nNodeIDFrom nTimeLastRoll nNodeIDSentTo, s'.dandelion =
      s.dandelion.add hash nTimeStemEnd nNodeIDFrom nTimeLastRoll nNodeIDSentTo) ∨
    (∃ hash nNodeID, s'.dandelion = s.dandelion.setInventorySent hash nNodeID) ∨
    (∃ hash, s'.dandelion = s.dandelion.markSent hash) ∨
    (∃ vDandelionNodes pick fSend, e = .process vDandelionNodes pick fSend ∧
      s'.dandelion = s.dandelion.process s.nTime pick fSend) := by
  cases e with
  | trickleInv pto hash fFiltered =>
    rcases trickleInv_cases h with ⟨hd, -⟩ | ⟨hd, -⟩ | ⟨hd, -⟩
    · exact .inl hd
    · exact .inl hd
    · exact .inr (.inr (.inl ⟨hash, pto, hd⟩))
  | getData pfrom hash =>
    rcases getData_cases h with rfl | ⟨hd, -⟩ | ⟨hd, -⟩
    · exact .inl rfl
    · exact .inr (.inr (.inr (.inl ⟨hash, hd⟩)))
    · exact .inl hd
  | process vDandelionNodes pick fSend =>
    simp only [step, Option.some.injEq] at h
    subst h
    exact .inr (.inr (.inr (.inr ⟨vDandelionNodes, pick, fSend, rfl, rfl⟩)))
  | sendDandelion hash fRelayWallet nTimeLastRoll nNodeIDSentTo =>
    simp only [step, Option.some.injEq] at h
    subst h
    refine .inr (.inl ⟨hash, s.nTime + nDefaultStemTime, nDefaultNodeID, nTimeLastRoll,
      nNodeIDSentTo, ?_⟩)
    split_ifs <;> simp
  | receiveTx pfrom hash nTimeStemPhase fAccepted nTimeLastRoll nNodeIDSentTo =>
    simp only [step] at h
    split_ifs at h <;> cases h
    · exact .inr (.inl ⟨hash, nTimeStemPhase, pfrom, nTimeLastRoll, nNodeIDSentTo, by simp⟩)
    · exact .inl (by simp)
    · exact .inl (by simp)
  | advance | removeFromMempool =>
    simp only [step, Option.some.injEq] at h
    subst h
    exact .inl rfl
  | mempoolRequest pfrom | mempoolDone pfrom =>
    simp only [step] at h
    split_ifs at h
    cases h
    exact .inl rfl
  | mempoolInv pto hash fFiltered =>
    simp only [step] at h
    split_ifs at h <;> cases h <;> exact .inl (by simp)
  | expireRelay hash =>
    simp only [step] at h
    split at h
    · split_ifs at h
      cases h
      exact .inl rfl
    · cases h

/-! ## A run through `Process` -/

/-- A wallet transaction sent with dandelion at time `0` and announced at once to node `2`;
ten seconds on, `Process` draws node `1` for it; past the stem end `120` the trickle loop
sends node `1` the stem-phase `INV`. -/
def stemRollRun : List (Event Nat) :=
  [.sendDandelion 7 true 0 0, .trickleInv 2 7 false, .advance 10,
    .process [1, 2] (fun _ => 1) (fun _ => true), .advance 200, .trickleInv 1 7 false]

theorem run_stemRollRun_isSome :
    (run step (RelayState.init [1, 2] 0) stemRollRun).isSome = true := by decide

/-- Where `stemRollRun` ends. -/
def stemRollState : RelayState Nat :=
  (run step (RelayState.init [1, 2] 0) stemRollRun).get run_stemRollRun_isSome

/-- The draw of `Process` is one the do-while can make: node `1` is among the first
`size - 1` nodes and is not the origin `nDefaultNodeID`. -/
theorem enabledAlong_stemRollRun :
    EnabledAlong step Enabled (RelayState.init [1, 2] 0 : RelayState Nat) stemRollRun := by
  simp only [stemRollRun, EnabledAlong, Enabled, true_and, and_true, implies_true]
  intro s₁ h₁ s₂ h₂ s₃ h₃
  obtain rfl := Option.some.inj h₁
  obtain rfl := Option.some.inj h₂
  obtain rfl := Option.some.inj h₃
  refine ⟨List.Sublist.refl _, fun hash stem hm _ _ _ => ?_⟩
  -- the one entry is the wallet transaction's
  change Function.update (fun _ => none) 7 (some ⟨120, 0, -1, 0⟩) hash = some stem at hm
  by_cases h7 : hash = 7
  · subst h7
    rw [Function.update_self, Option.some.injEq] at hm
    subst hm
    exact ⟨by decide, by decide⟩
  · rw [Function.update_of_ne h7] at hm
    cases hm

theorem reachable_stemRollState : stemRollState.Reachable :=
  ⟨_, _, ⟨[1, 2], 0, rfl⟩,
    runs_get_of_enabledAlong run_stemRollRun_isSome enabledAlong_stemRollRun⟩

/-! ## Invariants over runs -/

theorem step_wellFormed {e : Event η} (hwf : s.dandelion.WellFormed) (hen : s.Enabled e)
    (h : step s e = some s') : s'.dandelion.WellFormed := by
  rcases step_dandelion h with hd | ⟨hash, T, p, r, i, hd⟩ | ⟨hash, q, hd⟩ | ⟨hash, hd⟩ |
      ⟨vDandelionNodes, pick, fSend, rfl, hd⟩ <;> rw [hd]
  · exact hwf
  · exact add_wellFormed hwf hash T p r i
  · exact setInventorySent_wellFormed hwf hash q
  · exact markSent_wellFormed hwf hash
  · exact process_wellFormed hwf hen.2 fSend

omit [DecidableEq η] in
theorem init_reachable_wellFormed {s₀ : RelayState η}
    (h : ∃ vNodes nTime, s₀ = RelayState.init vNodes nTime) : s₀.dandelion.WellFormed := by
  obtain ⟨vNodes, nTime, rfl⟩ := h
  exact empty_wellFormed

/-- What every recorded message satisfies: a stem branch fired only past the stem
end, and a stem-phase `INV` went to a node other than the origin. -/
structure SentGood (a : Send η) : Prop where
  after_end : a.kind.isStem = true → ∃ stem, a.stem = some stem ∧ stem.nTimeStemEnd < a.nTime
  not_origin : ∀ T, a.kind = .invStem T → ∀ stem, a.stem = some stem → a.peer ≠ stem.nNodeIDFrom

omit [DecidableEq η] in
theorem SendOK.good {a : Send η} (h : s.SendOK a) : SentGood a where
  after_end hk := by
    obtain ⟨stem, hst, hlt⟩ := (isInStemPhase_iff _ _ _).mp (h.stem_phase hk)
    exact ⟨stem, h.stem_eq.trans hst, h.nTime_eq ▸ hlt⟩
  not_origin T hk stem hst := by
    have hfrom := h.not_from T hk
    rw [isFromNode, ← h.stem_eq, hst] at hfrom
    intro heq
    simp [heq] at hfrom

/-- **What the stem branches keep over every run.**  In a reachable state every message
recorded went out through a stem branch only past its entry's stem end, and a stem-phase `INV`
only to a node other than the one the transaction came from. -/
theorem reachable_sentGood (hs : s.Reachable) : ∀ a ∈ s.sent, SentGood a := by
  refine Reachable.invariant (P := fun s => ∀ a ∈ s.sent, SentGood a) ?_ ?_ hs
  · rintro s₀ ⟨vNodes, nTime, rfl⟩ a ha
    cases ha
  · intro s e s' hgood _ h a ha
    rcases step_sent h with hs' | ⟨b, hb, hs'⟩ <;> rw [hs'] at ha
    · exact hgood a ha
    · rcases List.mem_cons.mp ha with rfl | ha
      · exact hb.good
      · exact hgood a ha

/-- The stem-phase `INV` of `stemRollRun` went out past the stem end, to node `1`, not to the
origin. -/
theorem reachable_sentGood_stemRollState :
    (⟨1, 7, 210, .invStem 120, some ⟨120, 10, nDefaultNodeID, 0⟩⟩ : Send Nat) ∈ stemRollState.sent ∧
      SentGood (⟨1, 7, 210, .invStem 120, some ⟨120, 10, nDefaultNodeID, 0⟩⟩ : Send Nat) :=
  have hmem : (⟨1, 7, 210, .invStem 120, some ⟨120, 10, nDefaultNodeID, 0⟩⟩ : Send Nat) ∈
      stemRollState.sent := by decide
  ⟨hmem, reachable_sentGood reachable_stemRollState _ hmem⟩

/-- A transaction from node `1` by `TX_DAND` with stem end `120`, received at time `0`
by a node connected to `1` and `2`; both then ask for the mempool. -/
def stemFromPeerRun : List (Event Nat) :=
  [.receiveTx 1 7 120 true 0 0, .mempoolRequest 1, .mempoolRequest 2,
    .mempoolInv 1 7 false, .mempoolInv 2 7 false]

/-- A wallet transaction sent with dandelion (`sendtoaddress`) at time `0`, then one
trickle round to each of the nodes `1` and `2`. -/
def stemFromWalletRun : List (Event Nat) :=
  [.sendDandelion 7 true 0 0, .trickleInv 1 7 false, .trickleInv 2 7 false]

theorem run_stemFromPeerRun_isSome :
    (run step (RelayState.init [1, 2] 0) stemFromPeerRun).isSome = true := by decide

theorem run_stemFromWalletRun_isSome :
    (run step (RelayState.init [1, 2] 0) stemFromWalletRun).isSome = true := by decide

/-- **The stem phase is not kept.**  In both runs, at time `0`, before the stem end
`120`, `IsInStemPhase` is false and the hash has been announced to both connected
nodes; in the first run one of them is node `1`, the one it came from. -/
theorem dandelion_stem_announced_to_all :
    ∃ s₁ s₂ : RelayState Nat,
    run step (RelayState.init [1, 2] 0) stemFromPeerRun = some s₁ ∧
    run step (RelayState.init [1, 2] 0) stemFromWalletRun = some s₂ ∧
    s₁.Reachable ∧ s₂.Reachable ∧
    s₁.dandelion.mapStemInventory 7 = some ⟨120, 0, 1, 0⟩ ∧
    s₁.dandelion.isInStemPhase 7 0 = false ∧
    (⟨1, 7, 0, .inv, some ⟨120, 0, 1, 0⟩⟩ : Send Nat) ∈ s₁.sent ∧
    (⟨2, 7, 0, .inv, some ⟨120, 0, 1, 0⟩⟩ : Send Nat) ∈ s₁.sent ∧
    s₂.dandelion.mapStemInventory 7 = some ⟨120, 0, nDefaultNodeID, 0⟩ ∧
    (⟨1, 7, 0, .inv, some ⟨120, 0, nDefaultNodeID, 0⟩⟩ : Send Nat) ∈ s₂.sent ∧
    (⟨2, 7, 0, .inv, some ⟨120, 0, nDefaultNodeID, 0⟩⟩ : Send Nat) ∈ s₂.sent := by
  have hrun₁ := (Option.some_get run_stemFromPeerRun_isSome).symm
  have hrun₂ := (Option.some_get run_stemFromWalletRun_isSome).symm
  -- neither run calls `Process`, so every event is enabled
  have hfree₁ : ∀ e ∈ stemFromPeerRun, e.isFree = true := by decide
  have hfree₂ : ∀ e ∈ stemFromWalletRun, e.isFree = true := by decide
  refine ⟨_, _, hrun₁, hrun₂,
    Reachable.of_run ⟨[1, 2], 0, rfl⟩ (fun e he => enabled_of_isFree (hfree₁ e he)) hrun₁,
    Reachable.of_run ⟨[1, 2], 0, rfl⟩ (fun e he => enabled_of_isFree (hfree₂ e he)) hrun₂,
    by decide⟩

end RelayState

end Veil.Dandelion
