import Walrus.Contracts.BlsAggregate
import Walrus.Contracts.Move
import Walrus.Machine.Run

/-! # Event-blob certification

`walrus::event_blob` and the two functions of `walrus::system_state_inner` that drive it.
Storage nodes certify the blobs holding the chain's event stream: each node attests, with
its `StorageNodeCap`, the blob it built up to a checkpoint; `certify_event_blob` adds the
node's weight to the attested `(blob_id, checkpoint)` pair and certifies it once the
weight forms a quorum. A certification, and every epoch change, drops all tallies.

The state here holds what these calls read and write: the committee (whose epoch is the
system's epoch), the certification state, and the `last_event_blob_attestation` field of
every node's cap, by node ID (a node has one cap). When a quorum is reached,
`certify_event_blob` also reserves storage for the event blob, creates, certifies and burns
it; none of that touches this state, and a Move abort in it reverts the whole call, so
leaving it out only adds runs. Of `advance_epoch`, the committee change and the reset of the
certification state are kept.
-/

namespace Walrus.System

open Machine

/-- `EventBlobAttestation`: the checkpoint and epoch a node last attested. -/
structure EventBlobAttestation where
  checkpointSequenceNum : Nat
  epoch : Nat
deriving DecidableEq, Repr

/-- `EventBlob`: a blob ID with the last checkpoint its events cover. -/
structure EventBlob where
  blobId : Nat
  endingCheckpointSequenceNumber : Nat
deriving DecidableEq, Repr

/-- `EventBlobCertificationState`. -/
structure EventBlobCertificationState where
  latestCertifiedBlob : Option EventBlob
  aggregateWeightPerBlob : VecMap EventBlob Nat

namespace EventBlobCertificationState

/-- `create_with_empty_state`. -/
def createWithEmptyState : EventBlobCertificationState :=
  ⟨none, .empty⟩

/-- `get_latest_certified_checkpoint_sequence_number`. -/
def getLatestCertifiedCheckpointSequenceNumber (self : EventBlobCertificationState) :
    Option Nat :=
  self.latestCertifiedBlob.map EventBlob.endingCheckpointSequenceNumber

/-- `is_blob_already_certified`. -/
def isBlobAlreadyCertified (self : EventBlobCertificationState)
    (endingCheckpointSequenceNum : Nat) : Bool :=
  (self.getLatestCertifiedCheckpointSequenceNumber.map fun latest =>
    decide (latest ≥ endingCheckpointSequenceNum)).getD false

/-- `update_latest_certified_event_blob`. -/
def updateLatestCertifiedEventBlob (self : EventBlobCertificationState)
    (checkpointSequenceNumber blobId : Nat) : Except Abort EventBlobCertificationState := do
  match self.getLatestCertifiedCheckpointSequenceNumber with
  | some latest =>
    unless checkpointSequenceNumber > latest do throw .invalidSequenceNumber
  | none => pure ()
  return { self with latestCertifiedBlob := some ⟨blobId, checkpointSequenceNumber⟩ }

/-- `update_aggregate_weight`: add the weight to the tally of the blob, returning the new
tally. -/
def updateAggregateWeight (self : EventBlobCertificationState)
    (blobId endingCheckpointSequenceNumber weight : Nat) :
    Except Abort (EventBlobCertificationState × Nat) := do
  let eventBlob : EventBlob := ⟨blobId, endingCheckpointSequenceNumber⟩
  let aggWeight ← liftVecMap (self.aggregateWeightPerBlob.get eventBlob)
  let aggWeight ← u16Add aggWeight weight
  let aggregateWeightPerBlob ←
    liftVecMap (self.aggregateWeightPerBlob.set eventBlob aggWeight)
  return ({ self with aggregateWeightPerBlob }, aggWeight)

/-- `start_tracking_blob`: a blob not yet tracked starts with weight `0`. -/
def startTrackingBlob (self : EventBlobCertificationState)
    (blobId endingCheckpointSequenceNumber : Nat) : Except Abort EventBlobCertificationState := do
  let eventBlob : EventBlob := ⟨blobId, endingCheckpointSequenceNumber⟩
  if !self.aggregateWeightPerBlob.contains eventBlob then
    let aggregateWeightPerBlob ← liftVecMap (self.aggregateWeightPerBlob.insert eventBlob 0)
    return { self with aggregateWeightPerBlob }
  return self

/-- `reset`: stop tracking every blob. -/
def reset (self : EventBlobCertificationState) : EventBlobCertificationState :=
  { self with aggregateWeightPerBlob := .empty }

end EventBlobCertificationState

/-- The part of `SystemStateInnerV1`, and of the storage nodes' caps, that event-blob
certification reads and writes. -/
structure EventBlobSystem where
  committee : BlsCommittee
  eventBlobCertificationState : EventBlobCertificationState
  lastEventBlobAttestation : ObjectID → Option EventBlobAttestation

namespace EventBlobSystem

/-- `epoch`: the epoch of the committee. -/
def epoch (self : EventBlobSystem) : Nat :=
  self.committee.epoch

/-- The state `create_empty` starts from: the empty committee of epoch `0`, no certified
blob, and caps that never attested. -/
def createEmpty : EventBlobSystem :=
  ⟨.empty 0, .createWithEmptyState, fun _ => none⟩

/-- The checks `certify_event_blob` makes on the node's previous attestation: in the epoch
of that attestation, a node attests only higher checkpoints, and only once the checkpoint it
attested is certified. -/
def checkLastAttestation (self : EventBlobSystem) (endingCheckpointSequenceNum : Nat) :
    Option EventBlobAttestation → Except Abort Unit
  | none => pure ()
  | some attestation => do
    unless attestation.epoch < self.epoch ||
        endingCheckpointSequenceNum > attestation.checkpointSequenceNum do
      throw .repeatedAttestation
    match self.eventBlobCertificationState.getLatestCertifiedCheckpointSequenceNumber with
    | some latestCertifiedCpSeqNum =>
      unless attestation.epoch < self.epoch ||
          attestation.checkpointSequenceNum ≤ latestCertifiedCpSeqNum do
        throw .incorrectAttestation
    | none =>
      unless attestation.epoch < self.epoch do throw .incorrectAttestation

/-- `set_last_event_blob_attestation` on the cap of `nodeId`. -/
def setLastEventBlobAttestation (self : EventBlobSystem) (nodeId : ObjectID)
    (attestation : EventBlobAttestation) : EventBlobSystem :=
  { self with
    lastEventBlobAttestation :=
      Function.update self.lastEventBlobAttestation nodeId (some attestation) }

/-- `certify_event_blob`, called with the cap of `nodeId`. -/
def certifyEventBlob (self : EventBlobSystem) (nodeId : ObjectID)
    (blobId endingCheckpointSequenceNum epoch : Nat) : Except Abort EventBlobSystem := do
  unless self.committee.contains nodeId do throw .notCommitteeMember
  unless epoch = self.epoch do throw .invalidIdEpoch
  self.checkLastAttestation endingCheckpointSequenceNum (self.lastEventBlobAttestation nodeId)
  let self := self.setLastEventBlobAttestation nodeId ⟨endingCheckpointSequenceNum, epoch⟩
  if self.eventBlobCertificationState.isBlobAlreadyCertified endingCheckpointSequenceNum then
    return self
  let state ←
    self.eventBlobCertificationState.startTrackingBlob blobId endingCheckpointSequenceNum
  let weight := self.committee.getMemberWeight nodeId
  let (state, aggWeight) ←
    state.updateAggregateWeight blobId endingCheckpointSequenceNum weight
  if !self.committee.isQuorum aggWeight then
    return { self with eventBlobCertificationState := state }
  -- the event blob's storage is reserved and the blob created, certified and burnt here
  let state ← state.updateLatestCertifiedEventBlob endingCheckpointSequenceNum blobId
  return { self with eventBlobCertificationState := state.reset }

/-- The event-blob part of `advance_epoch`: the next committee takes over and every tally
is dropped. -/
def advanceEpoch (self : EventBlobSystem) (newCommittee : BlsCommittee) :
    Except Abort EventBlobSystem := do
  let newEpoch ← u32Add self.epoch 1
  unless newCommittee.epoch = newEpoch do throw .incorrectCommittee
  return { self with
    committee := newCommittee
    eventBlobCertificationState := self.eventBlobCertificationState.reset }

end EventBlobSystem

/-- A call that reads or writes event-blob certification. -/
inductive EventBlobCall
  | certifyEventBlob (nodeId : ObjectID) (blobId endingCheckpointSequenceNum epoch : Nat)
  | advanceEpoch (newCommittee : BlsCommittee)

/-- One transaction. -/
def EventBlobSystem.step (self : EventBlobSystem) : EventBlobCall → Except Abort EventBlobSystem
  | .certifyEventBlob nodeId blobId cp epoch => self.certifyEventBlob nodeId blobId cp epoch
  | .advanceEpoch newCommittee => self.advanceEpoch newCommittee

/-! ## Spec lemmas

What each function returns, stated once; the proofs about runs use these and never unfold
the functions. -/

section Spec

open EventBlobCertificationState

@[simp] theorem setLastEventBlobAttestation_committee (s : EventBlobSystem) (n : ObjectID)
    (a : EventBlobAttestation) : (s.setLastEventBlobAttestation n a).committee = s.committee :=
  rfl

@[simp] theorem setLastEventBlobAttestation_eventBlobCertificationState (s : EventBlobSystem)
    (n : ObjectID) (a : EventBlobAttestation) :
    (s.setLastEventBlobAttestation n a).eventBlobCertificationState =
      s.eventBlobCertificationState :=
  rfl

@[simp] theorem setLastEventBlobAttestation_lastEventBlobAttestation (s : EventBlobSystem)
    (n : ObjectID) (a : EventBlobAttestation) :
    (s.setLastEventBlobAttestation n a).lastEventBlobAttestation =
      Function.update s.lastEventBlobAttestation n (some a) :=
  rfl

theorem isBlobAlreadyCertified_eq_false {st : EventBlobCertificationState} {cp : Nat} :
    st.isBlobAlreadyCertified cp = false ↔
      ∀ l ∈ st.latestCertifiedBlob, l.endingCheckpointSequenceNumber < cp := by
  cases h : st.latestCertifiedBlob <;>
    simp [isBlobAlreadyCertified, getLatestCertifiedCheckpointSequenceNumber, h]

/-- Tracking a blob never aborts: it keeps every tally, and a blob not yet tracked gets the
tally `0`. -/
theorem startTrackingBlob_eq_ok (st : EventBlobCertificationState) (b cp : Nat) :
    ∃ st', st.startTrackingBlob b cp = .ok st' ∧
      st'.latestCertifiedBlob = st.latestCertifiedBlob ∧
      ∀ k, st'.aggregateWeightPerBlob.get? k =
        if k = ⟨b, cp⟩ then some ((st.aggregateWeightPerBlob.get? k).getD 0)
        else st.aggregateWeightPerBlob.get? k := by
  unfold startTrackingBlob
  cases hc : st.aggregateWeightPerBlob.contains ⟨b, cp⟩ with
  | false =>
    obtain ⟨m', hm'⟩ := VecMap.insert_isOk 0 hc
    refine ⟨{ st with aggregateWeightPerBlob := m' }, ?_, rfl, fun k => ?_⟩
    · simp [hc, liftVecMap, hm', Except.mapError, bind, Except.bind, pure, Except.pure]
    · rw [VecMap.get?_insert hm' k]
      split
      · rename_i hk
        rw [hk, VecMap.get?_eq_none_iff.mpr hc]
        rfl
      · rfl
  | true =>
    refine ⟨st, by simp [hc, pure, Except.pure], rfl, fun k => ?_⟩
    split
    · rename_i hk
      obtain ⟨a, ha⟩ := Option.isSome_iff_exists.mp (hk ▸ hc)
      simp [ha]
    · rfl

/-- A successful `update_aggregate_weight` found the blob tracked, and stores and returns
its tally plus the weight, below the `u16` bound. -/
theorem updateAggregateWeight_eq_ok {st st' : EventBlobCertificationState} {b cp w agg : Nat}
    (h : st.updateAggregateWeight b cp w = .ok (st', agg)) :
    ∃ a, st.aggregateWeightPerBlob.get? ⟨b, cp⟩ = some a ∧ a + w = agg ∧ agg ≤ u16Max ∧
      st'.latestCertifiedBlob = st.latestCertifiedBlob ∧
      ∀ k, st'.aggregateWeightPerBlob.get? k =
        if k = ⟨b, cp⟩ then some agg else st.aggregateWeightPerBlob.get? k := by
  unfold updateAggregateWeight at h
  obtain ⟨a, ha, h⟩ := bind_eq_ok.mp h
  obtain ⟨a', ha', h⟩ := bind_eq_ok.mp h
  obtain ⟨m', hm', h⟩ := bind_eq_ok.mp h
  rw [liftVecMap_eq_ok] at ha hm'
  rw [u16Add_eq_ok] at ha'
  simp only [pure, Except.pure, Except.ok.injEq, Prod.mk.injEq] at h
  obtain ⟨rfl, rfl⟩ := h
  refine ⟨a, ?_, ha'.2, ha'.2 ▸ ha'.1, rfl, VecMap.get?_set hm'⟩
  unfold VecMap.get at ha
  split at ha
  · rename_i v hv
    cases ha
    exact hv
  · cases ha

/-- `update_aggregate_weight` succeeds on a tracked blob whose tally stays within `u16`. -/
theorem updateAggregateWeight_isOk {st : EventBlobCertificationState} {b cp w a : Nat}
    (ha : st.aggregateWeightPerBlob.get? ⟨b, cp⟩ = some a) (hw : a + w ≤ u16Max) :
    ∃ st', st.updateAggregateWeight b cp w = .ok (st', a + w) := by
  have hc : st.aggregateWeightPerBlob.contains ⟨b, cp⟩ = true := by
    simp [VecMap.contains, ha]
  obtain ⟨m', hm'⟩ := VecMap.set_isOk (a + w) hc
  refine ⟨{ st with aggregateWeightPerBlob := m' }, ?_⟩
  simp [updateAggregateWeight, VecMap.get_of_get? ha, liftVecMap, Except.mapError, u16Add, hw,
    hm', bind, Except.bind, pure, Except.pure]

/-- `update_aggregate_weight` fails only on an untracked blob or a `u16` overflow. -/
theorem updateAggregateWeight_eq_error {st : EventBlobCertificationState} {b cp w : Nat}
    {err : Abort} (h : st.updateAggregateWeight b cp w = .error err) :
    st.aggregateWeightPerBlob.get? ⟨b, cp⟩ = none ∨
      ∃ a, st.aggregateWeightPerBlob.get? ⟨b, cp⟩ = some a ∧ u16Max < a + w ∧
        err = .arithmeticError := by
  cases ha : st.aggregateWeightPerBlob.get? ⟨b, cp⟩ with
  | none => exact .inl rfl
  | some a =>
    refine .inr ⟨a, rfl, ?_⟩
    by_cases hw : a + w ≤ u16Max
    · obtain ⟨st', hst'⟩ := updateAggregateWeight_isOk ha hw
      rw [hst'] at h
      cases h
    · have hc : st.aggregateWeightPerBlob.contains ⟨b, cp⟩ = true := by
        simp [VecMap.contains, ha]
      simp [updateAggregateWeight, VecMap.get_of_get? ha, liftVecMap, Except.mapError, u16Add,
        hw, bind, Except.bind] at h
      exact ⟨by omega, h.symm⟩

/-- The latest certified blob moves to a higher checkpoint without aborting. -/
theorem updateLatestCertifiedEventBlob_of_not_certified {st : EventBlobCertificationState}
    {cp : Nat} (b : Nat) (h : st.isBlobAlreadyCertified cp = false) :
    st.updateLatestCertifiedEventBlob cp b =
      .ok { st with latestCertifiedBlob := some ⟨b, cp⟩ } := by
  rw [isBlobAlreadyCertified_eq_false] at h
  unfold updateLatestCertifiedEventBlob getLatestCertifiedCheckpointSequenceNumber
  cases hl : st.latestCertifiedBlob with
  | none => rfl
  | some l =>
    have hlt := h l hl
    simp [hlt, pure, Except.pure]

/-- The checks on the previous attestation fail only with their two aborts. -/
theorem checkLastAttestation_eq_error {s : EventBlobSystem} {cp : Nat}
    {a : Option EventBlobAttestation} {err : Abort}
    (h : s.checkLastAttestation cp a = .error err) :
    err = .repeatedAttestation ∨ err = .incorrectAttestation := by
  unfold EventBlobSystem.checkLastAttestation at h
  split at h
  · cases h
  · dsimp only at h
    split at h
    · -- past the first check, only the second one can fail
      split at h <;> split at h <;> cases h
      all_goals exact .inr rfl
    · obtain h | ⟨u, hu, -⟩ := bind_eq_error.mp h
      · cases h
        exact .inl rfl
      · cases hu

/-- The tally of `(blobId, checkpoint)` once the weight of `nodeId` is added to it. -/
def EventBlobSystem.tallyWith (s : EventBlobSystem) (nodeId : ObjectID) (blobId cp : Nat) : Nat :=
  (s.eventBlobCertificationState.aggregateWeightPerBlob.get? ⟨blobId, cp⟩).getD 0 +
    s.committee.getMemberWeight nodeId

/-- Everything a successful `certify_event_blob` does. The guards held and the caller's cap
records the attestation. The certification state is then untouched (the checkpoint is
already certified), or the blob's tally grows by the caller's weight, or, when that makes a
quorum, the blob is the latest certified one and no blob is tracked. -/
theorem certifyEventBlob_eq_ok {s s' : EventBlobSystem} {n : ObjectID} {b cp e : Nat}
    (h : s.certifyEventBlob n b cp e = .ok s') :
    s.committee.contains n = true ∧ e = s.epoch ∧
      s.checkLastAttestation cp (s.lastEventBlobAttestation n) = .ok () ∧
      s'.committee = s.committee ∧
      s'.lastEventBlobAttestation =
        Function.update s.lastEventBlobAttestation n (some ⟨cp, e⟩) ∧
      ((s.eventBlobCertificationState.isBlobAlreadyCertified cp = true ∧
          s'.eventBlobCertificationState = s.eventBlobCertificationState) ∨
        (s.eventBlobCertificationState.isBlobAlreadyCertified cp = false ∧
          s.tallyWith n b cp ≤ u16Max ∧
          ((s.committee.isQuorum (s.tallyWith n b cp) = false ∧
              s'.eventBlobCertificationState.latestCertifiedBlob =
                s.eventBlobCertificationState.latestCertifiedBlob ∧
              ∀ k, s'.eventBlobCertificationState.aggregateWeightPerBlob.get? k =
                if k = ⟨b, cp⟩ then some (s.tallyWith n b cp)
                else s.eventBlobCertificationState.aggregateWeightPerBlob.get? k) ∨
            (s.committee.isQuorum (s.tallyWith n b cp) = true ∧
              s'.eventBlobCertificationState = ⟨some ⟨b, cp⟩, .empty⟩)))) := by
  unfold EventBlobSystem.certifyEventBlob at h
  dsimp only at h
  split at h
  · rename_i hmem
    split at h
    · rename_i hep
      obtain ⟨u, hchk, h⟩ := bind_eq_ok.mp h
      refine ⟨hmem, hep, hchk, ?_⟩
      simp only [setLastEventBlobAttestation_eventBlobCertificationState,
        setLastEventBlobAttestation_committee] at h
      by_cases hcert : s.eventBlobCertificationState.isBlobAlreadyCertified cp = true
      · simp only [hcert, if_true] at h
        cases h
        exact ⟨rfl, rfl, .inl ⟨hcert, rfl⟩⟩
      · have hcert' : s.eventBlobCertificationState.isBlobAlreadyCertified cp = false := by
          simpa using hcert
        simp only [hcert', Bool.false_eq_true, if_false] at h
        obtain ⟨st, hst, h⟩ := bind_eq_ok.mp h
        obtain ⟨⟨st₂, agg⟩, hupd, h⟩ := bind_eq_ok.mp h
        obtain ⟨st₀, hst₀, hlat₀, hget₀⟩ := startTrackingBlob_eq_ok s.eventBlobCertificationState b cp
        rw [hst₀] at hst
        cases hst
        obtain ⟨a, ha, hagg, hle, hlat, hget⟩ := updateAggregateWeight_eq_ok hupd
        -- the tracked tally is the one the state held, or `0`
        have hagg' : agg = s.tallyWith n b cp := by
          rw [hget₀, if_pos rfl, Option.some.injEq] at ha
          rw [← hagg, ← ha]
          rfl
        subst hagg'
        dsimp only at h
        by_cases hq : (!s.committee.isQuorum (s.tallyWith n b cp)) = true
        · simp only [hq, if_true] at h
          cases h
          refine ⟨rfl, rfl, .inr ⟨hcert', hle, .inl ⟨by simpa using hq, ?_, fun k => ?_⟩⟩⟩
          · exact hlat.trans hlat₀
          · rw [hget k]
            split
            · rfl
            · rename_i hk
              rw [hget₀ k, if_neg hk]
        · simp only [hq] at h
          obtain ⟨st₃, hl₃, h⟩ := bind_eq_ok.mp h
          have hnot : st₂.isBlobAlreadyCertified cp = false := by
            rw [isBlobAlreadyCertified_eq_false] at hcert' ⊢
            rwa [hlat, hlat₀]
          rw [updateLatestCertifiedEventBlob_of_not_certified b hnot] at hl₃
          cases hl₃
          cases h
          exact ⟨rfl, rfl, .inr ⟨hcert', hle, .inr ⟨by simpa using hq, rfl⟩⟩⟩
    · obtain ⟨u, hu, -⟩ := bind_eq_ok.mp h
      cases hu
  · obtain ⟨u, hu, -⟩ := bind_eq_ok.mp h
    cases hu

/-- `certify_event_blob` aborts only in its four guards, or on a `u16` overflow of a tally:
never in `update_latest_certified_event_blob` nor in a `VecMap` operation. -/
theorem certifyEventBlob_eq_error {s : EventBlobSystem} {n : ObjectID} {b cp e : Nat}
    {err : Abort} (h : s.certifyEventBlob n b cp e = .error err) :
    err = .notCommitteeMember ∨ err = .invalidIdEpoch ∨ err = .repeatedAttestation ∨
      err = .incorrectAttestation ∨
      (err = .arithmeticError ∧
        s.checkLastAttestation cp (s.lastEventBlobAttestation n) = .ok () ∧
        s.eventBlobCertificationState.isBlobAlreadyCertified cp = false ∧
        u16Max < s.tallyWith n b cp) := by
  unfold EventBlobSystem.certifyEventBlob at h
  dsimp only at h
  split at h
  · split at h
    · obtain h | ⟨u, hchk, h⟩ := bind_eq_error.mp h
      · rcases checkLastAttestation_eq_error h with rfl | rfl <;> simp
      simp only [setLastEventBlobAttestation_eventBlobCertificationState,
        setLastEventBlobAttestation_committee] at h
      by_cases hcert : s.eventBlobCertificationState.isBlobAlreadyCertified cp = true
      · simp only [hcert, if_true] at h
        cases h
      have hcert' : s.eventBlobCertificationState.isBlobAlreadyCertified cp = false := by
        simpa using hcert
      simp only [hcert', Bool.false_eq_true, if_false] at h
      obtain ⟨st₀, hst₀, hlat₀, hget₀⟩ := startTrackingBlob_eq_ok s.eventBlobCertificationState b cp
      rw [hst₀] at h
      obtain h | ⟨st, hst, h⟩ := bind_eq_error.mp h
      · cases h
      cases hst
      obtain h | ⟨⟨st₂, agg⟩, hupd, h⟩ := bind_eq_error.mp h
      · -- the tally overflowed: tracking made the blob present
        rcases updateAggregateWeight_eq_error h with hnone | ⟨a, ha, hov, rfl⟩
        · rw [hget₀, if_pos rfl] at hnone
          cases hnone
        · rw [hget₀, if_pos rfl, Option.some.injEq] at ha
          refine .inr (.inr (.inr (.inr ⟨rfl, hchk, hcert', ?_⟩)))
          rw [EventBlobSystem.tallyWith, ha]
          exact hov
      · -- past the tally, the call cannot abort
        obtain ⟨a, -, -, -, hlat, -⟩ := updateAggregateWeight_eq_ok hupd
        dsimp only at h
        by_cases hq : (!s.committee.isQuorum agg) = true
        · simp only [hq, if_true] at h
          cases h
        · simp only [hq] at h
          have hnot : st₂.isBlobAlreadyCertified cp = false := by
            rw [isBlobAlreadyCertified_eq_false] at hcert' ⊢
            rwa [hlat, hlat₀]
          rw [updateLatestCertifiedEventBlob_of_not_certified b hnot] at h
          cases h
    · obtain h | ⟨u, hu, -⟩ := bind_eq_error.mp h
      · cases h
        simp
      · cases hu
  · obtain h | ⟨u, hu, -⟩ := bind_eq_error.mp h
    · cases h
      simp
    · cases hu

/-- A node passes the checks on its previous attestation only if that attestation is from
an earlier epoch, or is below the new checkpoint and at most the latest certified one. -/
theorem checkLastAttestation_eq_ok {s : EventBlobSystem} {cp : Nat} {a : EventBlobAttestation}
    (h : s.checkLastAttestation cp (some a) = .ok ()) :
    a.epoch < s.epoch ∨
      (a.checkpointSequenceNum < cp ∧ ∃ l ∈ s.eventBlobCertificationState.latestCertifiedBlob,
        a.checkpointSequenceNum ≤ l.endingCheckpointSequenceNumber) := by
  unfold EventBlobSystem.checkLastAttestation at h
  dsimp only at h
  by_cases hep : a.epoch < s.epoch
  · exact .inl hep
  refine .inr ⟨?_, ?_⟩
  · by_contra hcp
    simp [hep, hcp, bind, Except.bind] at h
  · cases hl : s.eventBlobCertificationState.latestCertifiedBlob with
    | none =>
      simp [hep, hl, getLatestCertifiedCheckpointSequenceNumber, bind, Except.bind] at h
      split at h <;> cases h
    | some l =>
      refine ⟨l, rfl, ?_⟩
      by_contra hle
      simp [hep, hl, hle, getLatestCertifiedCheckpointSequenceNumber, bind, Except.bind] at h
      split at h <;> cases h

/-- A successful epoch change installs the committee of the next epoch and drops every
tally. -/
theorem advanceEpoch_eq_ok {s s' : EventBlobSystem} {c : BlsCommittee}
    (h : s.advanceEpoch c = .ok s') :
    s.epoch + 1 ≤ u32Max ∧ c.epoch = s.epoch + 1 ∧
      s' = { s with
        committee := c
        eventBlobCertificationState := s.eventBlobCertificationState.reset } := by
  unfold EventBlobSystem.advanceEpoch at h
  obtain ⟨ep, hep, h⟩ := bind_eq_ok.mp h
  rw [u32Add_eq_ok] at hep
  obtain ⟨hle, rfl⟩ := hep
  dsimp only at h
  split at h
  · rename_i hc
    cases h
    exact ⟨hle, hc, rfl⟩
  · obtain ⟨u, hu, -⟩ := bind_eq_ok.mp h
    cases hu

end Spec

end Walrus.System
