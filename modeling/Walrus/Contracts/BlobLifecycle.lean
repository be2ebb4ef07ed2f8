import Walrus.Contracts.StorageAccountingSafety
import Walrus.Contracts.EventBlob
import Walrus.Contracts.Messages
import Walrus.Contracts.Redstuff

/-! # Blob objects and the events the contracts emit for them

`walrus::blob` and the calls of `walrus::system_state_inner` that create, certify, extend and
delete `Blob` objects. Each of them emits `BlobRegistered`, `BlobCertified` or `BlobDeleted`,
which the storage nodes read to keep their blob information; what the nodes may assume about
the events of one object is what this module proves.

The state (`BlobSystem`) is the accounting of `StorageAccounting`, the committee and the
event-blob certification of `EventBlob`, the live `Blob` objects (owned, or wrapped in a
`SharedBlob`), the object IDs handed out so far, and the history of the run: each event with
the epoch of the transaction that emitted it, and ghost entries for what a call verified
before it certified a blob.

Scope of the model:
* any call may be made by anyone on any live blob; ownership only removes runs;
* the storage passed to `register_blob` and `extend_blob_with_resource` is any `Storage`
  value, which covers whatever a sender holds after reserving, splitting and fusing storage;
  those calls change only the accounting and are left out here;
* a transaction that aborts is reverted, its events included;
* the write payment of `register_blob` and the rewards are left out, since an abort there
  only removes runs;
* `SharedBlob::extend` is `extend_blob` on the wrapped blob, and `SharedBlob::new` changes
  nothing modelled here.

The shape of the events of one object is the automaton `EventShape`. The invariant `Inv`
ties its state for every object to the object, and `Inv.step` shows that every call keeps
it.
-/

namespace Walrus.System

open Machine

/-! ## Encoding and messages -/

/-- `encoding::RS2`. -/
def rs2 : Nat := 1

/-- `encoding::encoded_blob_length`. -/
def encodedBlobLength (unencodedLength encodingType nShards : Nat) : Except Abort Nat := do
  -- Currently only supports the two RedStuff variants.
  unless encodingType = rs2 do throw .invalidEncodingType
  Redstuff.encodedBlobLength unencodedLength nShards

/-- `BlobPersistenceType::is_deletable`. -/
def BlobPersistenceType.isDeletable : BlobPersistenceType → Bool
  | .deletable _ => true
  | .permanent => false

/-- `BlobPersistenceType::object_id`. -/
def BlobPersistenceType.objectId : BlobPersistenceType → Except Abort ObjectID
  | .deletable objectId => .ok objectId
  | .permanent => .error .notDeletable

/-- `messages::certified_event_blob_message`. -/
def certifiedEventBlobMessage (blobId : Nat) : CertifiedBlobMessage :=
  ⟨blobId, .permanent⟩

/-- `verify_quorum_in_epoch`. -/
def BlsCommittee.verifyQuorumInEpoch (self : BlsCommittee)
    (blsVerify : List BlsCommitteeMember → Bool) (signersBitmap : List Nat)
    (message : List UInt8) : Except Abort CertifiedMessage := do
  let stakeSupport ← self.verifyCertificateAndWeight blsVerify signersBitmap .quorum
  newCertifiedMessage message self.epoch stakeSupport

/-! ## Blobs and their events -/

/-- `blob::Blob`. The metadata dynamic field is left out. -/
structure Blob where
  id : ObjectID
  registeredEpoch : Nat
  blobId : Nat
  size : Nat
  encodingType : Nat
  -- Stores the epoch first certified.
  certifiedEpoch : Option Nat
  storage : Storage
  -- Marks if this blob can be deleted.
  deletable : Bool

/-- `events::BlobRegistered`. -/
structure BlobRegistered where
  epoch : Nat
  blobId : Nat
  size : Nat
  encodingType : Nat
  endEpoch : Nat
  deletable : Bool
  objectId : ObjectID

/-- `events::BlobCertified`. -/
structure BlobCertified where
  epoch : Nat
  blobId : Nat
  endEpoch : Nat
  deletable : Bool
  objectId : ObjectID
  isExtension : Bool

/-- `events::BlobDeleted`. -/
structure BlobDeleted where
  epoch : Nat
  blobId : Nat
  endEpoch : Nat
  objectId : ObjectID
  wasCertified : Bool

namespace Blob

/-- `blob::new`, returning the blob and the event it emits. -/
def new (blake2b256 : List UInt8 → Vector UInt8 32) (id : ObjectID) (storage : Storage)
    (blobId rootHash size encodingType : Nat) (deletable : Bool) (registeredEpoch nShards : Nat) :
    Except Abort (Blob × BlobRegistered) := do
  -- Check resource bounds.
  unless registeredEpoch ≥ storage.startEpoch do throw .resourceBounds
  unless registeredEpoch < storage.endEpoch do throw .resourceBounds
  -- check that the encoded size is less than the storage size
  let encodedSize ← encodedBlobLength size encodingType nShards
  unless encodedSize ≤ storage.storageSize do throw .resourceSize
  -- Cryptographically verify that the Blob ID authenticates
  -- both the size and encoding_type (sanity check).
  let derivedBlobId ← deriveBlobId blake2b256 rootHash encodingType size
  unless derivedBlobId = blobId do throw .invalidBlobId
  pure (⟨id, registeredEpoch, blobId, size, encodingType, none, storage, deletable⟩,
    ⟨registeredEpoch, blobId, size, encodingType, storage.endEpoch, deletable, id⟩)

/-- `assert_certified_not_expired`. -/
def assertCertifiedNotExpired (self : Blob) (currentEpoch : Nat) : Except Abort Unit := do
  unless self.certifiedEpoch.isSome do throw .notCertified
  unless currentEpoch < self.storage.endEpoch do throw .resourceBounds

/-- `emit_certified`: an extension carries the epoch of the first certification too. -/
def emitCertified (self : Blob) (isExtension : Bool) : Except Abort BlobCertified :=
  match self.certifiedEpoch with
  | some epoch =>
    .ok ⟨epoch, self.blobId, self.storage.endEpoch, self.deletable, self.id, isExtension⟩
  | none => .error .optionNotSet

/-- `certify_with_certified_msg`. -/
def certifyWithCertifiedMsg (blob : Blob) (currentEpoch : Nat) (message : CertifiedBlobMessage) :
    Except Abort (Blob × BlobCertified) := do
  -- Check that the blob is registered in the system
  unless blob.blobId = message.blobId do throw .invalidBlobId
  -- Check that the blob is not already certified
  unless blob.certifiedEpoch.isNone do throw .alreadyCertified
  -- Check that the storage in the blob is still valid
  unless currentEpoch < blob.storage.endEpoch do throw .resourceBounds
  -- Check the blob persistence type
  unless blob.deletable = message.blobPersistenceType.isDeletable do
    throw .blobPersistenceTypeMismatch
  -- Check that the object id matches the message
  if blob.deletable then
    let objectId ← message.blobPersistenceType.objectId
    unless objectId = blob.id do throw .invalidBlobObject
  let blob := { blob with certifiedEpoch := some currentEpoch }
  let event ← blob.emitCertified false
  pure (blob, event)

/-- `delete`: the storage comes back and the event is emitted. -/
def delete (self : Blob) (epoch : Nat) : Except Abort (Storage × BlobDeleted) := do
  unless self.deletable do throw .blobNotDeletable
  unless self.storage.endEpoch > epoch do throw .resourceBounds
  pure (self.storage,
    ⟨epoch, self.blobId, self.storage.endEpoch, self.id, self.certifiedEpoch.isSome⟩)

/-- `extend_with_resource`. -/
def extendWithResource (blob : Blob) (extension : Storage) (currentEpoch : Nat) :
    Except Abort (Blob × BlobCertified) := do
  blob.assertCertifiedNotExpired currentEpoch
  unless extension.endEpoch > blob.storage.endEpoch do throw .resourceBounds
  -- Note: if the amounts do not match there will be an abort here.
  let storage ← blob.storage.fusePeriods extension
  let blob := { blob with storage }
  let event ← blob.emitCertified true
  pure (blob, event)

end Blob

/-- An entry of the history of a run: an event, or a ghost record of what a call verified
before it certified a blob. -/
inductive TraceItem
  | blobRegistered (e : BlobRegistered)
  | blobCertified (e : BlobCertified)
  | blobDeleted (e : BlobDeleted)
  /-- `verify_quorum_in_epoch` of `committee` accepted a certificate and returned
  `message`. -/
  | quorumCertificate (committee : BlsCommittee) (message : CertifiedMessage)
  /-- `certify_event_blob` found that the attestations to the event blob reached the stake
  `tally` of `committee`. -/
  | eventBlobCertification (committee : BlsCommittee) (blobId endingCheckpointSequenceNum tally : Nat)

/-- The object an event is about; ghost entries are about none. -/
def TraceItem.objectId? : TraceItem → Option ObjectID
  | .blobRegistered e => some e.objectId
  | .blobCertified e => some e.objectId
  | .blobDeleted e => some e.objectId
  | .quorumCertificate _ _ => none
  | .eventBlobCertification _ _ _ _ => none

/-! ## The system -/

/-- The part of `SystemStateInnerV1` the blob calls read and write, the live blobs, the IDs
handed out, and the history of the run with the epoch of each entry. -/
structure BlobSystem where
  accounting : StorageSystem
  eventBlobs : EventBlobSystem
  blobs : ObjectID → Option Blob
  usedIds : List ObjectID
  history : List (Nat × TraceItem)

namespace BlobSystem

/-- `epoch`: the epoch of the committee. -/
def epoch (self : BlobSystem) : Nat := self.eventBlobs.epoch

/-- The committee of the current epoch. -/
def committee (self : BlobSystem) : BlsCommittee := self.eventBlobs.committee

/-- `n_shards`. -/
def nShards (self : BlobSystem) : Nat := self.committee.nShards

/-- The state `create_empty` starts from, with no blob and an empty history. -/
def createEmpty (maxEpochsAhead : Nat) : BlobSystem :=
  ⟨.createEmpty maxEpochsAhead, .createEmpty, fun _ => none, [], []⟩

/-- The live blob `id`; a transaction naming another is rejected. -/
def getBlob (self : BlobSystem) (id : ObjectID) : Except Abort Blob :=
  match self.blobs id with
  | some blob => .ok blob
  | none => .error .noSuchObject

/-- `register_blob`, creating the blob `id`. -/
def registerBlob (blake2b256 : List UInt8 → Vector UInt8 32) (self : BlobSystem) (id : ObjectID)
    (storage : Storage) (blobId rootHash size encodingType : Nat) (deletable : Bool) :
    Except Abort (Blob × BlobRegistered) :=
  Blob.new blake2b256 id storage blobId rootHash size encodingType deletable self.epoch self.nShards

/-- `certify_blob`, returning the certified message it verified. -/
def certifyBlob (self : BlobSystem) (blob : Blob) (blsVerify : List BlsCommitteeMember → Bool)
    (signersBitmap : List Nat) (message : List UInt8) :
    Except Abort (CertifiedMessage × Blob × BlobCertified) := do
  let certifiedMsg ← self.committee.verifyQuorumInEpoch blsVerify signersBitmap message
  unless certifiedMsg.certEpoch = self.epoch do throw .invalidIdEpoch
  let certifiedBlobMsg ← certifyBlobMessage certifiedMsg
  let (blob, event) ← blob.certifyWithCertifiedMsg self.epoch certifiedBlobMsg
  pure (certifiedMsg, blob, event)

/-- `extend_blob`: the blob must be certified; the rest of `assert_certified_not_expired` is
the first check of the accounting's `extendBlob`, which charges the new epochs. -/
def extendBlob (self : BlobSystem) (blob : Blob) (extendedEpochs : Nat) :
    Except Abort (StorageSystem × Blob × BlobCertified) := do
  unless blob.certifiedEpoch.isSome do throw .notCertified
  let (accounting, storage) ← self.accounting.extendBlob blob.storage extendedEpochs
  let blob := { blob with storage }
  let event ← blob.emitCertified true
  pure (accounting, blob, event)

/-- `certify_event_blob` with the cap of `nodeId`. The attestation is counted by
`EventBlobSystem.certifyEventBlob`; the call certifies the blob exactly when that records a
new latest certified blob, and then reserves its storage, creates the blob `id`, certifies
it and burns it. -/
def certifyEventBlob (blake2b256 : List UInt8 → Vector UInt8 32) (self : BlobSystem)
    (nodeId id : ObjectID) (blobId rootHash size encodingType endingCheckpointSequenceNum epoch : Nat) :
    Except Abort (EventBlobSystem × Option (StorageSystem × Blob × BlobRegistered × BlobCertified)) := do
  let eventBlobs ← self.eventBlobs.certifyEventBlob nodeId blobId endingCheckpointSequenceNum epoch
  if eventBlobs.eventBlobCertificationState.latestCertifiedBlob =
      self.eventBlobs.eventBlobCertificationState.latestCertifiedBlob then
    return (eventBlobs, none)
  let numShards := self.nShards
  let epochsAhead := self.accounting.futureAccounting.maxEpochsAhead
  let encodedSize ← encodedBlobLength size encodingType numShards
  -- Do not check total capacity, event blobs are certified already at this point.
  let (accounting, storage) ←
    self.accounting.reserveSpaceWithoutPayment encodedSize 0 epochsAhead false
  let (blob, registered) ←
    Blob.new blake2b256 id storage blobId rootHash size encodingType false self.epoch numShards
  let (blob, certified) ←
    blob.certifyWithCertifiedMsg self.epoch (certifiedEventBlobMessage blobId)
  return (eventBlobs, some (accounting, blob, registered, certified))

/-- `advance_epoch`: the next committee, and the accounting moved one epoch on. -/
def advanceEpoch (self : BlobSystem) (newCommittee : BlsCommittee) (capacity : Nat) :
    Except Abort BlobSystem := do
  let eventBlobs ← self.eventBlobs.advanceEpoch newCommittee
  let accounting ← self.accounting.advanceEpoch capacity
  return { self with eventBlobs, accounting }

/-- The object `id` now holds `blob`, or is gone. -/
def setBlob (self : BlobSystem) (id : ObjectID) (blob : Option Blob) : BlobSystem :=
  { self with blobs := Function.update self.blobs id blob }

/-- The entries of a call, in the current epoch, appended to the history. -/
def emit (self : BlobSystem) (items : List TraceItem) : BlobSystem :=
  { self with history := self.history ++ items.map (self.epoch, ·) }

end BlobSystem

/-- A call of the walrus package on blobs, or an epoch change. The ID an object is created
with is the one `object::new` hands out; `blsVerify` stands for the check of the aggregate
signature against the signers' keys. -/
inductive BlobCall
  | registerBlob (id : ObjectID) (storage : Storage) (blobId rootHash size encodingType : Nat)
      (deletable : Bool)
  | certifyBlob (id : ObjectID) (blsVerify : List BlsCommitteeMember → Bool)
      (signersBitmap : List Nat) (message : List UInt8)
  | deleteBlob (id : ObjectID)
  | extendBlobWithResource (id : ObjectID) (extension : Storage)
  /-- `extend_blob`, also as `SharedBlob::extend` calls it. -/
  | extendBlob (id : ObjectID) (extendedEpochs : Nat)
  /-- `Blob::burn`. -/
  | burn (id : ObjectID)
  | certifyEventBlob (nodeId id : ObjectID)
      (blobId rootHash size encodingType endingCheckpointSequenceNum epoch : Nat)
  | advanceEpoch (newCommittee : BlsCommittee) (capacity : Nat)

namespace BlobSystem

/-- One transaction. -/
def step (blake2b256 : List UInt8 → Vector UInt8 32) (self : BlobSystem) :
    BlobCall → Except Abort BlobSystem
  | .registerBlob id storage blobId rootHash size encodingType deletable => do
    unless id ∉ self.usedIds do throw .objectIdInUse
    let (blob, event) ←
      self.registerBlob blake2b256 id storage blobId rootHash size encodingType deletable
    return { (self.setBlob id (some blob)).emit [.blobRegistered event] with
      usedIds := id :: self.usedIds }
  | .certifyBlob id blsVerify signersBitmap message => do
    let blob ← self.getBlob id
    let (certifiedMsg, blob, event) ← self.certifyBlob blob blsVerify signersBitmap message
    return (self.setBlob id (some blob)).emit
      [.quorumCertificate self.committee certifiedMsg, .blobCertified event]
  | .deleteBlob id => do
    let blob ← self.getBlob id
    let (_, event) ← blob.delete self.epoch
    return (self.setBlob id none).emit [.blobDeleted event]
  | .extendBlobWithResource id extension => do
    let blob ← self.getBlob id
    let (blob, event) ← blob.extendWithResource extension self.epoch
    return (self.setBlob id (some blob)).emit [.blobCertified event]
  | .extendBlob id extendedEpochs => do
    let blob ← self.getBlob id
    let (accounting, blob, event) ← self.extendBlob blob extendedEpochs
    return { (self.setBlob id (some blob)).emit [.blobCertified event] with accounting }
  | .burn id => do
    let _ ← self.getBlob id
    return self.setBlob id none
  | .certifyEventBlob nodeId id blobId rootHash size encodingType cp epoch => do
    let (eventBlobs, certified) ←
      self.certifyEventBlob blake2b256 nodeId id blobId rootHash size encodingType cp epoch
    match certified with
    | none => return { self with eventBlobs }
    | some (accounting, _, registered, certifiedEvent) =>
      unless id ∉ self.usedIds do throw .objectIdInUse
      -- the blob is burnt at the end of the call
      let tally := self.eventBlobs.tallyWith nodeId blobId cp
      return { self.emit [.blobRegistered registered,
          .eventBlobCertification self.committee blobId cp tally, .blobCertified certifiedEvent] with
        eventBlobs, accounting, usedIds := id :: self.usedIds }
  | .advanceEpoch newCommittee capacity => self.advanceEpoch newCommittee capacity

/-- The state after a sequence of transactions from `create_empty`; an aborted transaction
changes nothing. -/
def run (blake2b256 : List UInt8 → Vector UInt8 32) (maxEpochsAhead : Nat)
    (calls : List BlobCall) : BlobSystem :=
  Machine.run (commit fun s c => (s.step blake2b256 c).toOption) (createEmpty maxEpochsAhead) calls

end BlobSystem

/-! ## Spec lemmas

What each call returns, stated once; the invariant proofs use these and never unfold the
calls. -/

section Spec

/-- A certificate accepted with `RequiredWeight::Quorum` is signed by a quorum. -/
theorem verifyCertificateAndWeight_quorum {self : BlsCommittee}
    {blsVerify : List BlsCommitteeMember → Bool} {signersBitmap : List Nat} {w : Nat}
    (h : self.verifyCertificateAndWeight blsVerify signersBitmap .quorum = .ok w) :
    self.isQuorum w = true := by
  unfold BlsCommittee.verifyCertificateAndWeight at h
  obtain ⟨maxLen, -, h⟩ := bind_eq_ok.mp h
  rw [ite_throw_bind_eq_ok] at h
  obtain ⟨walk, -, h⟩ := bind_eq_ok.mp h.2
  obtain ⟨weight, -, h⟩ := bind_eq_ok.mp h
  dsimp only at h
  rw [ite_throw_bind_eq_ok] at h
  obtain ⟨hq, h⟩ := h
  rw [ite_throw_bind_eq_ok] at h
  obtain ⟨-, rfl⟩ := u16Cast_eq_ok.mp h.2
  exact hq

/-- `new_certified_message` keeps the committee's epoch and the stake it is given. -/
theorem newCertifiedMessage_eq_ok {bytes : List UInt8} {epoch stakeSupport : Nat}
    {message : CertifiedMessage} (h : newCertifiedMessage bytes epoch stakeSupport = .ok message) :
    message.certEpoch = epoch ∧ message.stakeSupport = stakeSupport := by
  unfold newCertifiedMessage at h
  obtain ⟨⟨intentType, bytes₁⟩, -, h⟩ := bind_eq_ok.mp h
  obtain ⟨⟨intentVersion', bytes₂⟩, -, h⟩ := bind_eq_ok.mp h
  rw [ite_throw_bind_eq_ok] at h
  obtain ⟨⟨intentApp, bytes₃⟩, -, h⟩ := bind_eq_ok.mp h.2
  rw [ite_throw_bind_eq_ok] at h
  obtain ⟨⟨certEpoch, bytes₄⟩, -, h⟩ := bind_eq_ok.mp h.2
  rw [ite_throw_bind_eq_ok] at h
  obtain ⟨hepoch, h⟩ := h
  cases h
  exact ⟨hepoch, rfl⟩

theorem BlsCommittee.verifyQuorumInEpoch_eq_ok {self : BlsCommittee}
    {blsVerify : List BlsCommitteeMember → Bool} {signersBitmap : List Nat} {bytes : List UInt8}
    {message : CertifiedMessage}
    (h : self.verifyQuorumInEpoch blsVerify signersBitmap bytes = .ok message) :
    self.isQuorum message.stakeSupport = true ∧ message.certEpoch = self.epoch := by
  obtain ⟨w, hw, h⟩ := bind_eq_ok.mp h
  obtain ⟨hepoch, rfl⟩ := newCertifiedMessage_eq_ok h
  exact ⟨verifyCertificateAndWeight_quorum hw, hepoch⟩

namespace Blob

theorem new_eq_ok {blake2b256 : List UInt8 → Vector UInt8 32} {id : ObjectID} {storage : Storage}
    {blobId rootHash size encodingType registeredEpoch nShards : Nat} {deletable : Bool}
    {blob : Blob} {event : BlobRegistered}
    (h : new blake2b256 id storage blobId rootHash size encodingType deletable registeredEpoch
      nShards = .ok (blob, event)) :
    storage.startEpoch ≤ registeredEpoch ∧ registeredEpoch < storage.endEpoch ∧
      blob = ⟨id, registeredEpoch, blobId, size, encodingType, none, storage, deletable⟩ ∧
      event = ⟨registeredEpoch, blobId, size, encodingType, storage.endEpoch, deletable, id⟩ := by
  unfold new at h
  rw [ite_throw_bind_eq_ok] at h
  obtain ⟨hstart, h⟩ := h
  rw [ite_throw_bind_eq_ok] at h
  obtain ⟨hend, h⟩ := h
  obtain ⟨encodedSize, -, h⟩ := bind_eq_ok.mp h
  rw [ite_throw_bind_eq_ok] at h
  obtain ⟨derived, -, h⟩ := bind_eq_ok.mp h.2
  rw [ite_throw_bind_eq_ok] at h
  simp only [pure, Except.pure, Except.ok.injEq, Prod.mk.injEq] at h
  exact ⟨hstart, hend, h.2.1.symm, h.2.2.symm⟩

@[simp] theorem emitCertified_of_certified {self : Blob} {c : Nat} (h : self.certifiedEpoch = some c)
    (isExtension : Bool) :
    self.emitCertified isExtension =
      .ok ⟨c, self.blobId, self.storage.endEpoch, self.deletable, self.id, isExtension⟩ := by
  simp [emitCertified, h]

/-- The persistence type a certificate carries for a blob: its object ID if deletable. -/
def persistence (blob : Blob) : BlobPersistenceType :=
  if blob.deletable then .deletable blob.id else .permanent

theorem certifyWithCertifiedMsg_eq_ok {blob blob' : Blob} {currentEpoch : Nat}
    {message : CertifiedBlobMessage} {event : BlobCertified}
    (h : blob.certifyWithCertifiedMsg currentEpoch message = .ok (blob', event)) :
    message = ⟨blob.blobId, blob.persistence⟩ ∧ blob.certifiedEpoch = none ∧
      currentEpoch < blob.storage.endEpoch ∧
      blob' = { blob with certifiedEpoch := some currentEpoch } ∧
      event = ⟨currentEpoch, blob.blobId, blob.storage.endEpoch, blob.deletable, blob.id, false⟩ := by
  unfold certifyWithCertifiedMsg at h
  rw [ite_throw_bind_eq_ok] at h
  obtain ⟨hid, h⟩ := h
  rw [ite_throw_bind_eq_ok] at h
  obtain ⟨hnone, h⟩ := h
  rw [ite_throw_bind_eq_ok] at h
  obtain ⟨hlive, h⟩ := h
  rw [ite_throw_bind_eq_ok] at h
  obtain ⟨hdel, h⟩ := h
  -- a deletable blob checks the object ID of the message, a permanent one does not
  have htype : message.blobPersistenceType = blob.persistence := by
    cases hd : blob.deletable
    case false =>
      rw [hd] at hdel
      cases ht : message.blobPersistenceType <;> simp_all [persistence, BlobPersistenceType.isDeletable]
    case true =>
      simp only [hd, if_true] at h
      obtain ⟨objectId, hobj, h⟩ := bind_eq_ok.mp h
      rw [ite_throw_bind_eq_ok] at h
      cases ht : message.blobPersistenceType <;>
        simp_all [persistence, BlobPersistenceType.objectId]
  have hcert : ({ blob with certifiedEpoch := some currentEpoch } : Blob).certifiedEpoch =
      some currentEpoch := rfl
  have hrest : (do
      let event ← ({ blob with certifiedEpoch := some currentEpoch } : Blob).emitCertified false
      pure ({ blob with certifiedEpoch := some currentEpoch }, event) :
        Except Abort (Blob × BlobCertified)) = .ok (blob', event) := by
    cases hd : blob.deletable
    case false => simpa [hd] using h
    case true =>
      simp only [hd, if_true] at h
      obtain ⟨objectId, hobj, h⟩ := bind_eq_ok.mp h
      rw [ite_throw_bind_eq_ok] at h
      exact h.2
  rw [emitCertified_of_certified hcert] at hrest
  simp only [bind, Except.bind, pure, Except.pure, Except.ok.injEq, Prod.mk.injEq] at hrest
  refine ⟨?_, Option.isNone_iff_eq_none.mp hnone, hlive, hrest.1.symm, hrest.2.symm⟩
  rw [← htype, hid]

theorem delete_eq_ok {self : Blob} {epoch : Nat} {storage : Storage} {event : BlobDeleted}
    (h : self.delete epoch = .ok (storage, event)) :
    self.deletable = true ∧ epoch < self.storage.endEpoch ∧
      event = ⟨epoch, self.blobId, self.storage.endEpoch, self.id, self.certifiedEpoch.isSome⟩ := by
  unfold delete at h
  rw [ite_throw_bind_eq_ok] at h
  obtain ⟨hdel, h⟩ := h
  rw [ite_throw_bind_eq_ok] at h
  obtain ⟨hlive, h⟩ := h
  simp only [pure, Except.pure, Except.ok.injEq, Prod.mk.injEq] at h
  exact ⟨hdel, hlive, h.2.symm⟩

theorem assertCertifiedNotExpired_eq_ok {self : Blob} {currentEpoch : Nat} :
    self.assertCertifiedNotExpired currentEpoch = .ok () ↔
      self.certifiedEpoch.isSome ∧ currentEpoch < self.storage.endEpoch := by
  unfold assertCertifiedNotExpired
  by_cases hcert : self.certifiedEpoch.isSome <;>
    by_cases hlive : currentEpoch < self.storage.endEpoch <;>
    simp [hcert, hlive, pure, Except.pure, throw, throwThe, MonadExceptOf.throw, bind, Except.bind]

/-- An extension with a resource fuses it after the blob's end, which moves the end to the
resource's end: the other way of fusing would need the blob's storage to start after it
ends. -/
theorem extendWithResource_eq_ok {blob blob' : Blob} {extension : Storage} {currentEpoch : Nat}
    {event : BlobCertified} (hvalid : blob.storage.startEpoch < blob.storage.endEpoch)
    (h : blob.extendWithResource extension currentEpoch = .ok (blob', event)) :
    ∃ c, blob.certifiedEpoch = some c ∧ currentEpoch < blob.storage.endEpoch ∧
      blob.storage.endEpoch < extension.endEpoch ∧
      blob' = { blob with storage := { blob.storage with endEpoch := extension.endEpoch } } ∧
      event = ⟨c, blob.blobId, extension.endEpoch, blob.deletable, blob.id, true⟩ := by
  unfold extendWithResource at h
  obtain ⟨u, hassert, h⟩ := bind_eq_ok.mp h
  obtain ⟨hcert, hlive⟩ := assertCertifiedNotExpired_eq_ok.mp hassert
  obtain ⟨c, hc⟩ := Option.isSome_iff_exists.mp hcert
  rw [ite_throw_bind_eq_ok] at h
  obtain ⟨hlater, h⟩ := h
  obtain ⟨storage, hfuse, h⟩ := bind_eq_ok.mp h
  have hstorage : storage = { blob.storage with endEpoch := extension.endEpoch } := by
    rcases Storage.fusePeriods_eq_ok.mp hfuse with ⟨-, ⟨-, rfl⟩ | ⟨-, hstart, -⟩⟩
    · rfl
    · omega
  subst hstorage
  have hc' : ({ blob with storage := { blob.storage with endEpoch := extension.endEpoch } } :
      Blob).certifiedEpoch = some c := hc
  dsimp only at h
  rw [emitCertified_of_certified hc'] at h
  simp only [bind, Except.bind, pure, Except.pure, Except.ok.injEq, Prod.mk.injEq] at h
  exact ⟨c, hc, hlive, hlater, h.1.symm, h.2.symm⟩

end Blob

namespace BlobSystem

@[simp] theorem setBlob_epoch (s : BlobSystem) (id : ObjectID) (b : Option Blob) :
    (s.setBlob id b).epoch = s.epoch := rfl

@[simp] theorem setBlob_committee (s : BlobSystem) (id : ObjectID) (b : Option Blob) :
    (s.setBlob id b).committee = s.committee := rfl

@[simp] theorem setBlob_blobs (s : BlobSystem) (id : ObjectID) (b : Option Blob) :
    (s.setBlob id b).blobs = Function.update s.blobs id b := rfl

@[simp] theorem setBlob_usedIds (s : BlobSystem) (id : ObjectID) (b : Option Blob) :
    (s.setBlob id b).usedIds = s.usedIds := rfl

@[simp] theorem setBlob_history (s : BlobSystem) (id : ObjectID) (b : Option Blob) :
    (s.setBlob id b).history = s.history := rfl

@[simp] theorem setBlob_accounting (s : BlobSystem) (id : ObjectID) (b : Option Blob) :
    (s.setBlob id b).accounting = s.accounting := rfl

@[simp] theorem emit_epoch (s : BlobSystem) (items : List TraceItem) :
    (s.emit items).epoch = s.epoch := rfl

@[simp] theorem emit_committee (s : BlobSystem) (items : List TraceItem) :
    (s.emit items).committee = s.committee := rfl

@[simp] theorem emit_blobs (s : BlobSystem) (items : List TraceItem) :
    (s.emit items).blobs = s.blobs := rfl

@[simp] theorem emit_usedIds (s : BlobSystem) (items : List TraceItem) :
    (s.emit items).usedIds = s.usedIds := rfl

@[simp] theorem emit_accounting (s : BlobSystem) (items : List TraceItem) :
    (s.emit items).accounting = s.accounting := rfl

@[simp] theorem emit_history (s : BlobSystem) (items : List TraceItem) :
    (s.emit items).history = s.history ++ items.map (s.epoch, ·) := rfl

end BlobSystem

/-- `extend_blob` goes on by a positive number of epochs. -/
theorem StorageSystem.extendBlob_pos {s : StorageSystem} {st : Storage} {x : Nat}
    {r : StorageSystem × Storage} (h : s.extendBlob st x = .ok r) : 0 < x := by
  unfold StorageSystem.extendBlob at h
  dsimp only at h
  rw [ite_throw_bind_eq_ok] at h
  obtain ⟨lo, -, h⟩ := bind_eq_ok.mp h.2
  obtain ⟨hi, -, h⟩ := bind_eq_ok.mp h
  rw [ite_throw_bind_eq_ok] at h
  exact h.1

namespace BlobSystem

theorem certifyBlob_eq_ok {s : BlobSystem} {blob blob' : Blob}
    {blsVerify : List BlsCommitteeMember → Bool} {signersBitmap : List Nat} {bytes : List UInt8}
    {message : CertifiedMessage} {event : BlobCertified}
    (h : s.certifyBlob blob blsVerify signersBitmap bytes = .ok (message, blob', event)) :
    s.committee.isQuorum message.stakeSupport = true ∧ message.certEpoch = s.epoch ∧
      certifyBlobMessage message = .ok ⟨blob.blobId, blob.persistence⟩ ∧
      blob.certifiedEpoch = none ∧ s.epoch < blob.storage.endEpoch ∧
      blob' = { blob with certifiedEpoch := some s.epoch } ∧
      event = ⟨s.epoch, blob.blobId, blob.storage.endEpoch, blob.deletable, blob.id, false⟩ := by
  unfold certifyBlob at h
  obtain ⟨m, hm, h⟩ := bind_eq_ok.mp h
  obtain ⟨hquorum, -⟩ := BlsCommittee.verifyQuorumInEpoch_eq_ok hm
  rw [ite_throw_bind_eq_ok] at h
  obtain ⟨hepoch, h⟩ := h
  obtain ⟨cbm, hcbm, h⟩ := bind_eq_ok.mp h
  obtain ⟨⟨b, e⟩, hcert, h⟩ := bind_eq_ok.mp h
  simp only [pure, Except.pure, Except.ok.injEq, Prod.mk.injEq] at h
  obtain ⟨rfl, rfl, rfl⟩ := h
  obtain ⟨rfl, hnone, hlive, rfl, rfl⟩ := Blob.certifyWithCertifiedMsg_eq_ok hcert
  exact ⟨hquorum, hepoch, hcbm, hnone, hlive, rfl, rfl⟩

theorem extendBlob_eq_ok {s : BlobSystem} {blob blob' : Blob} {x : Nat} {acc : StorageSystem}
    {event : BlobCertified} (hring : s.accounting.RingOk)
    (h : s.extendBlob blob x = .ok (acc, blob', event)) :
    ∃ c, blob.certifiedEpoch = some c ∧ s.accounting.epoch < blob.storage.endEpoch ∧ 0 < x ∧
      acc.epoch = s.accounting.epoch ∧ acc.RingOk ∧
      blob' = { blob with storage := { blob.storage with endEpoch := blob.storage.endEpoch + x } } ∧
      event = ⟨c, blob.blobId, blob.storage.endEpoch + x, blob.deletable, blob.id, true⟩ := by
  unfold extendBlob at h
  rw [ite_throw_bind_eq_ok] at h
  obtain ⟨hcert, h⟩ := h
  obtain ⟨c, hc⟩ := Option.isSome_iff_exists.mp hcert
  obtain ⟨⟨acc', st'⟩, hext, h⟩ := bind_eq_ok.mp h
  have hpos := StorageSystem.extendBlob_pos hext
  obtain ⟨hlive, -, hcharged, rfl⟩ := StorageSystem.extendBlob_eq_ok hring hext
  have hc' : ({ blob with storage := { blob.storage with endEpoch := blob.storage.endEpoch + x } } :
      Blob).certifiedEpoch = some c := hc
  dsimp only at h
  rw [Blob.emitCertified_of_certified hc'] at h
  simp only [bind, Except.bind, pure, Except.pure, Except.ok.injEq, Prod.mk.injEq] at h
  obtain ⟨rfl, rfl, rfl⟩ := h
  exact ⟨c, hc, hlive, hpos, hcharged.epoch, hcharged.ringOk hring, rfl, rfl⟩

/-- `certify_event_blob` that certifies no blob changes no committee. -/
theorem certifyEventBlob_eq_ok_none {H : List UInt8 → Vector UInt8 32} {s : BlobSystem}
    {nodeId id : ObjectID} {blobId rootHash size encodingType cp epoch : Nat}
    {eventBlobs : EventBlobSystem}
    (h : s.certifyEventBlob H nodeId id blobId rootHash size encodingType cp epoch =
      .ok (eventBlobs, none)) :
    eventBlobs.committee = s.committee := by
  unfold certifyEventBlob at h
  obtain ⟨eb, heb, h⟩ := bind_eq_ok.mp h
  obtain ⟨-, -, -, hcommittee, -⟩ := certifyEventBlob_eq_ok heb
  split at h
  case isTrue =>
    cases h
    exact hcommittee
  case isFalse =>
    obtain ⟨_, -, h⟩ := bind_eq_ok.mp h
    obtain ⟨_, -, h⟩ := bind_eq_ok.mp h
    obtain ⟨_, -, h⟩ := bind_eq_ok.mp h
    obtain ⟨_, -, h⟩ := bind_eq_ok.mp h
    cases h

/-- `certify_event_blob` that certifies its blob: the attestations reached a quorum, and the
blob is registered and certified in the current epoch, before its end epoch. -/
theorem certifyEventBlob_eq_ok_some {H : List UInt8 → Vector UInt8 32} {s : BlobSystem}
    {nodeId id : ObjectID} {blobId rootHash size encodingType cp epoch : Nat}
    {eventBlobs : EventBlobSystem} {acc : StorageSystem} {blob : Blob}
    {registered : BlobRegistered} {certified : BlobCertified} (hring : s.accounting.RingOk)
    (h : s.certifyEventBlob H nodeId id blobId rootHash size encodingType cp epoch =
      .ok (eventBlobs, some (acc, blob, registered, certified))) :
    eventBlobs.committee = s.committee ∧
      s.committee.isQuorum (s.eventBlobs.tallyWith nodeId blobId cp) = true ∧
      acc.epoch = s.accounting.epoch ∧ acc.RingOk ∧
      ∃ endEpoch, s.epoch < endEpoch ∧
        registered = ⟨s.epoch, blobId, size, encodingType, endEpoch, false, id⟩ ∧
        certified = ⟨s.epoch, blobId, endEpoch, false, id, false⟩ := by
  unfold certifyEventBlob at h
  obtain ⟨eb, heb, h⟩ := bind_eq_ok.mp h
  obtain ⟨-, -, -, hcommittee, -, hcases⟩ := certifyEventBlob_eq_ok heb
  split at h
  case isTrue => cases h
  case isFalse hchanged =>
    -- only the branch that reaches a quorum records a new latest certified blob
    have hquorum : s.eventBlobs.committee.isQuorum (s.eventBlobs.tallyWith nodeId blobId cp) =
        true := by
      rcases hcases with ⟨-, hsame⟩ | ⟨-, -, ⟨-, hsame, -⟩ | ⟨hq, -⟩⟩
      · exact absurd (by rw [hsame]) hchanged
      · exact absurd hsame hchanged
      · exact hq
    obtain ⟨encodedSize, -, h⟩ := bind_eq_ok.mp h
    obtain ⟨⟨acc', storage⟩, hreserve, h⟩ := bind_eq_ok.mp h
    obtain ⟨-, -, hcharged, -⟩ := StorageSystem.reserveSpaceWithoutPayment_eq_ok hring hreserve
    obtain ⟨⟨blob₁, reg⟩, hnew, h⟩ := bind_eq_ok.mp h
    obtain ⟨-, hend, rfl, rfl⟩ := Blob.new_eq_ok hnew
    obtain ⟨⟨blob₂, cert⟩, hcert, h⟩ := bind_eq_ok.mp h
    obtain ⟨-, -, -, -, rfl⟩ := Blob.certifyWithCertifiedMsg_eq_ok hcert
    simp only [pure, Except.pure, Except.ok.injEq, Prod.mk.injEq, Option.some.injEq] at h
    obtain ⟨rfl, rfl, -, rfl, rfl⟩ := h
    exact ⟨hcommittee, hquorum, hcharged.epoch, hcharged.ringOk hring, _, hend, rfl, rfl⟩

/-- An epoch change moves both the committee and the accounting one epoch on, and leaves
the blobs and the history. -/
theorem advanceEpoch_eq_ok {s s' : BlobSystem} {newCommittee : BlsCommittee} {capacity : Nat}
    (hring : s.accounting.RingOk) (h : s.advanceEpoch newCommittee capacity = .ok s') :
    s'.epoch = s.epoch + 1 ∧ s'.accounting.epoch = s.accounting.epoch + 1 ∧
      s'.accounting.RingOk ∧ s'.blobs = s.blobs ∧ s'.usedIds = s.usedIds ∧
      s'.history = s.history := by
  unfold advanceEpoch at h
  obtain ⟨eb, heb, h⟩ := bind_eq_ok.mp h
  obtain ⟨acc, hacc, h⟩ := bind_eq_ok.mp h
  obtain ⟨-, hepoch, rfl⟩ := Walrus.System.advanceEpoch_eq_ok heb
  obtain ⟨-, -, -, haccEpoch, -, -, hringOk, -, -⟩ := StorageSystem.advanceEpoch_eq_ok hring hacc
  simp only [pure, Except.pure, Except.ok.injEq] at h
  subst h
  exact ⟨hepoch, haccEpoch, hringOk, rfl, rfl, rfl⟩

end BlobSystem

end Spec

/-! ## The shape of the events of one object -/

/-- How far the events of one `Blob` object have got. -/
inductive EventShape
  /-- no event yet -/
  | none
  | registered (blobId registeredEpoch endEpoch : Nat) (deletable : Bool)
  | certified (blobId registeredEpoch certifiedEpoch endEpoch : Nat) (deletable : Bool)
  | deleted
deriving DecidableEq, Repr

/-- The next event of an object, emitted in epoch `t`, and the shape it leads to; `none` where
the shape does not allow the event. Every event is emitted before the end epoch in force
and names the object's blob ID and `deletable` flag. The registration comes first; the first
certification keeps the registered end epoch and comes in an epoch not before the
registration; an extension carries the epoch of the first certification and moves the end
epoch later; a deletion is of a deletable object, says whether it was certified, and is the
last event. -/
def EventShape.next : EventShape → Nat → TraceItem → Option EventShape
  | .none, t, .blobRegistered e =>
    if e.epoch = t ∧ t < e.endEpoch then some (.registered e.blobId t e.endEpoch e.deletable)
    else none
  | .registered b r E d, t, .blobCertified e =>
    if e.isExtension = false ∧ e.blobId = b ∧ e.deletable = d ∧ e.endEpoch = E ∧ e.epoch = t ∧
        r ≤ t ∧ t < E then some (.certified b r t E d)
    else none
  | .certified b r c E d, t, .blobCertified e =>
    if e.isExtension = true ∧ e.blobId = b ∧ e.deletable = d ∧ e.epoch = c ∧ E < e.endEpoch ∧
        c ≤ t ∧ t < E then some (.certified b r c e.endEpoch d)
    else none
  | .registered b r E d, t, .blobDeleted e =>
    if d = true ∧ e.blobId = b ∧ e.endEpoch = E ∧ e.epoch = t ∧ r ≤ t ∧ t < E ∧
        e.wasCertified = false then some .deleted
    else none
  | .certified b _ c E d, t, .blobDeleted e =>
    if d = true ∧ e.blobId = b ∧ e.endEpoch = E ∧ e.epoch = t ∧ c ≤ t ∧ t < E ∧
        e.wasCertified = true then some .deleted
    else none
  | _, _, _ => none

/-- The entries of a history about the object `o`. -/
def objectHistory (entries : List (Nat × TraceItem)) (o : ObjectID) : List (Nat × TraceItem) :=
  entries.filter fun x => x.2.objectId? = some o

/-- The shape the events of `o` reach, or `none` if one of them breaks it. -/
def shapeOf (entries : List (Nat × TraceItem)) (o : ObjectID) : Option EventShape :=
  (objectHistory entries o).foldlM (fun sh x => sh.next x.1 x.2) .none

/-- The shape the events of a live blob have reached. -/
def Blob.shape (blob : Blob) : EventShape :=
  match blob.certifiedEpoch with
  | none => .registered blob.blobId blob.registeredEpoch blob.storage.endEpoch blob.deletable
  | some c => .certified blob.blobId blob.registeredEpoch c blob.storage.endEpoch blob.deletable

/-- The persistence type of the blob of a certification event. -/
def BlobCertified.persistence (e : BlobCertified) : BlobPersistenceType :=
  if e.deletable then .deletable e.objectId else .permanent

/-- What the entry before a first certification `e` must be: a certificate accepted by a
quorum of the committee of `e`'s epoch over a message carrying that epoch, the blob ID and
the persistence type; or, for a permanent event blob, attestations of that committee with a
quorum of stake. -/
def Justifies : Option (Nat × TraceItem) → BlobCertified → Prop
  | some (_, .quorumCertificate committee message), e =>
    committee.epoch = e.epoch ∧ committee.isQuorum message.stakeSupport = true ∧
      message.certEpoch = e.epoch ∧ certifyBlobMessage message = .ok ⟨e.blobId, e.persistence⟩
  | some (_, .eventBlobCertification committee blobId _ tally), e =>
    committee.epoch = e.epoch ∧ committee.isQuorum tally = true ∧ blobId = e.blobId ∧
      e.deletable = false
  | _, _ => False

/-- Every first certification in a history comes right after an entry that justifies it. -/
def CertifiedFollows (entries : List (Nat × TraceItem)) : Prop :=
  ∀ k epoch e, entries[k]? = some (epoch, .blobCertified e) → e.isExtension = false →
    ∃ j, k = j + 1 ∧ Justifies entries[j]? e

theorem shapeOf_emit (s : BlobSystem) (items : List TraceItem) (o : ObjectID) :
    shapeOf (s.emit items).history o = shapeOf s.history o >>= fun sh =>
      (items.filter fun x => x.objectId? = some o).foldlM (fun sh x => sh.next s.epoch x) sh := by
  simp only [shapeOf, objectHistory, BlobSystem.emit_history, List.filter_append,
    List.foldlM_append, List.filter_map, List.foldlM_map]
  rfl

/-- Entries about other objects leave the shape of `o`. -/
theorem shapeOf_emit_of_ne {s : BlobSystem} {items : List TraceItem} {o : ObjectID}
    (h : ∀ x ∈ items, x.objectId? ≠ some o) : shapeOf (s.emit items).history o = shapeOf s.history o := by
  rw [shapeOf_emit, List.filter_eq_nil_iff.mpr (by simpa using h)]
  simp

theorem CertifiedFollows.append {entries new : List (Nat × TraceItem)}
    (hentries : CertifiedFollows entries) (hnew : CertifiedFollows new) :
    CertifiedFollows (entries ++ new) := by
  intro k epoch e hk hext
  by_cases hlt : k < entries.length
  case pos =>
    rw [List.getElem?_append_left hlt] at hk
    obtain ⟨j, rfl, hj⟩ := hentries k epoch e hk hext
    exact ⟨j, rfl, by rwa [List.getElem?_append_left (by omega)]⟩
  case neg =>
    rw [List.getElem?_append_right (by omega)] at hk
    obtain ⟨j, hj, hjust⟩ := hnew _ epoch e hk hext
    refine ⟨entries.length + j, by omega, ?_⟩
    rwa [List.getElem?_append_right (by omega), Nat.add_sub_cancel_left]

/-- Entries with no first certification among them need nothing before them. -/
theorem certifiedFollows_of_forall {new : List (Nat × TraceItem)}
    (h : ∀ x ∈ new, ∀ e, x.2 = .blobCertified e → e.isExtension = true) : CertifiedFollows new := by
  intro k epoch e hk hext
  have := h _ (List.mem_of_getElem? hk) e rfl
  rw [hext] at this
  cases this

/-- A first certification right after the entry that justifies it. -/
theorem certifiedFollows_pair {t : Nat} {g : TraceItem} {e : BlobCertified}
    (hg : ∀ e', g ≠ .blobCertified e') (hj : Justifies (some (t, g)) e) :
    CertifiedFollows [(t, g), (t, .blobCertified e)] := by
  intro k epoch e' hk hext
  match k with
  | 0 =>
    simp only [List.getElem?_cons_zero, Option.some.injEq, Prod.mk.injEq] at hk
    exact absurd hk.2 (hg e')
  | 1 =>
    simp only [List.getElem?_cons_succ, List.getElem?_cons_zero, Option.some.injEq,
      Prod.mk.injEq, TraceItem.blobCertified.injEq] at hk
    obtain ⟨-, rfl⟩ := hk
    exact ⟨0, rfl, hj⟩
  | k + 2 => simp at hk

/-! ## The invariant -/

namespace BlobSystem

/-- What holds of a live blob `o`: its events have reached its shape, and its epochs are
not after the current one. -/
structure LiveBlob (s : BlobSystem) (o : ObjectID) (blob : Blob) : Prop where
  used : o ∈ s.usedIds
  id_eq : blob.id = o
  storage_valid : blob.storage.startEpoch < blob.storage.endEpoch
  registered_le : blob.registeredEpoch ≤ s.epoch
  certified_le : ∀ c, blob.certifiedEpoch = some c → blob.registeredEpoch ≤ c ∧ c ≤ s.epoch
  shape : shapeOf s.history o = some blob.shape

/-- What holds of an object ID: the events of a live blob have its shape; those of a blob
that is gone have an allowed shape; an ID not handed out has no event. -/
structure ObjectOk (s : BlobSystem) (o : ObjectID) : Prop where
  live : ∀ blob, s.blobs o = some blob → LiveBlob s o blob
  gone : o ∈ s.usedIds → s.blobs o = none → (shapeOf s.history o).isSome
  unused : o ∉ s.usedIds → shapeOf s.history o = some .none

/-- The invariant of every reachable state. -/
structure Inv (s : BlobSystem) : Prop where
  ringOk : s.accounting.RingOk
  epoch_eq : s.accounting.epoch = s.epoch
  objects : ∀ o, ObjectOk s o
  certified : CertifiedFollows s.history

variable {s s' : BlobSystem}

/-- An object that a step does not touch stays as it was. -/
theorem ObjectOk.frame {o : ObjectID} (h : ObjectOk s o) (hblobs : s'.blobs o = s.blobs o)
    (hused : o ∈ s'.usedIds ↔ o ∈ s.usedIds) (hepoch : s.epoch ≤ s'.epoch)
    (hshape : shapeOf s'.history o = shapeOf s.history o) : ObjectOk s' o where
  live blob hb := by
    have hl := h.live blob (hblobs ▸ hb)
    refine ⟨hused.mpr hl.used, hl.id_eq, hl.storage_valid, Nat.le_trans hl.registered_le hepoch,
      fun c hc => ?_, hshape ▸ hl.shape⟩
    exact ⟨(hl.certified_le c hc).1, Nat.le_trans (hl.certified_le c hc).2 hepoch⟩
  gone hu hb := hshape ▸ h.gone (hused.mp hu) (hblobs ▸ hb)
  unused hu := hshape ▸ h.unused (fun h' => hu (hused.mpr h'))

theorem inv_createEmpty (maxEpochsAhead : Nat) : (createEmpty maxEpochsAhead).Inv where
  ringOk := (StorageSystem.init_inv maxEpochsAhead).ringOk
  epoch_eq := rfl
  objects _ := ⟨fun _ hb => (by cases hb), fun hu => (by cases hu), fun _ => rfl⟩
  certified k _ _ hk := by cases hk

/-- `register_blob` on a fresh ID: the new blob's events are its registration. -/
theorem Inv.registerBlob (hI : s.Inv) {H : List UInt8 → Vector UInt8 32} {id : ObjectID}
    {storage : Storage} {blobId rootHash size encodingType : Nat} {deletable : Bool}
    {blob : Blob} {event : BlobRegistered} (hfresh : id ∉ s.usedIds)
    (h : s.registerBlob H id storage blobId rootHash size encodingType deletable =
      .ok (blob, event)) :
    Inv { (s.setBlob id (some blob)).emit [.blobRegistered event] with
      usedIds := id :: s.usedIds } := by
  obtain ⟨hstart, hend, rfl, rfl⟩ := Blob.new_eq_ok h
  refine ⟨hI.ringOk, hI.epoch_eq, fun o => ?_, ?_⟩
  · by_cases ho : o = id
    case pos =>
      subst ho
      have hshape : shapeOf ((s.setBlob o (some ⟨o, s.epoch, blobId, size, encodingType, none,
          storage, deletable⟩)).emit [.blobRegistered
          ⟨s.epoch, blobId, size, encodingType, storage.endEpoch, deletable, o⟩]).history o =
          some (.registered blobId s.epoch storage.endEpoch deletable) := by
        rw [shapeOf_emit, BlobSystem.setBlob_history, (hI.objects o).unused hfresh]
        simp [TraceItem.objectId?, EventShape.next, hend]
      refine ⟨fun b hb => ?_, fun _ hb => by simp at hb, fun hu => absurd List.mem_cons_self hu⟩
      simp only [BlobSystem.emit_blobs, BlobSystem.setBlob_blobs, Function.update_self,
        Option.some.injEq] at hb
      subst hb
      exact ⟨List.mem_cons_self, rfl, (by dsimp only; omega), Nat.le_refl _,
        fun c hc => (by cases hc), hshape⟩
    case neg =>
      refine (hI.objects o).frame ?_ ?_ (Nat.le_refl _) ?_
      · simp [Function.update_of_ne ho]
      · simp [ho]
      · exact shapeOf_emit_of_ne (by simp [TraceItem.objectId?, Ne.symm ho])
  · exact hI.certified.append (certifiedFollows_of_forall (by simp))

theorem getBlob_eq_ok {id : ObjectID} {blob : Blob} (h : s.getBlob id = .ok blob) :
    s.blobs id = some blob := by
  unfold getBlob at h
  split at h
  · rename_i hb
    cases h
    exact hb
  · cases h

/-- `certify_blob`: the first certification, right after the certificate it verified. -/
theorem Inv.certifyBlob (hI : s.Inv) {id : ObjectID} {blob blob' : Blob}
    {blsVerify : List BlsCommitteeMember → Bool} {signersBitmap : List Nat} {bytes : List UInt8}
    {message : CertifiedMessage} {event : BlobCertified} (hb : s.blobs id = some blob)
    (h : s.certifyBlob blob blsVerify signersBitmap bytes = .ok (message, blob', event)) :
    Inv ((s.setBlob id (some blob')).emit
      [.quorumCertificate s.committee message, .blobCertified event]) := by
  obtain ⟨hquorum, hcertEpoch, hmsg, hnone, hlive, rfl, rfl⟩ := certifyBlob_eq_ok h
  have hl := (hI.objects id).live blob hb
  refine ⟨hI.ringOk, hI.epoch_eq, fun o => ?_, ?_⟩
  · by_cases ho : o = id
    case pos =>
      subst ho
      refine ⟨fun b hb' => ?_, fun _ hb' => by simp at hb', fun hu => absurd hl.used hu⟩
      simp only [emit_blobs, setBlob_blobs, Function.update_self, Option.some.injEq] at hb'
      subst hb'
      refine ⟨hl.used, hl.id_eq, hl.storage_valid, hl.registered_le, fun c hc => ?_, ?_⟩
      · cases hc
        exact ⟨hl.registered_le, Nat.le_refl _⟩
      · rw [shapeOf_emit, setBlob_history, hl.shape]
        simp [Blob.shape, hnone, TraceItem.objectId?, hl.id_eq, EventShape.next, hlive,
          hl.registered_le]
    case neg =>
      refine (hI.objects o).frame ?_ Iff.rfl (Nat.le_refl _) ?_
      · simp [Function.update_of_ne ho]
      · exact shapeOf_emit_of_ne (by simp [TraceItem.objectId?, hl.id_eq, Ne.symm ho])
  · -- the certificate names the blob's ID and persistence type, as the event does
    exact hI.certified.append (certifiedFollows_pair (fun _ => by simp)
      ⟨rfl, hquorum, hcertEpoch, hmsg⟩)

/-- `delete_blob`: the deletion ends the blob's events. -/
theorem Inv.deleteBlob (hI : s.Inv) {id : ObjectID} {blob : Blob} {storage : Storage}
    {event : BlobDeleted} (hb : s.blobs id = some blob)
    (h : blob.delete s.epoch = .ok (storage, event)) :
    Inv ((s.setBlob id none).emit [.blobDeleted event]) := by
  obtain ⟨hdel, hlive, rfl⟩ := Blob.delete_eq_ok h
  have hl := (hI.objects id).live blob hb
  refine ⟨hI.ringOk, hI.epoch_eq, fun o => ?_,
    hI.certified.append (certifiedFollows_of_forall (by simp))⟩
  by_cases ho : o = id
  case pos =>
    subst ho
    refine ⟨fun b hb' => by simp at hb', fun _ _ => ?_, fun hu => absurd hl.used hu⟩
    rw [shapeOf_emit, setBlob_history, hl.shape]
    -- the deletion follows the registration or the certification, whichever came last
    cases hc : blob.certifiedEpoch with
    | none =>
      simp [Blob.shape, hc, TraceItem.objectId?, hl.id_eq, EventShape.next, hdel, hlive,
        hl.registered_le]
    | some c =>
      simp [Blob.shape, hc, TraceItem.objectId?, hl.id_eq, EventShape.next, hdel, hlive,
        (hl.certified_le c hc).2]
  case neg =>
    refine (hI.objects o).frame ?_ Iff.rfl (Nat.le_refl _) ?_
    · simp [Function.update_of_ne ho]
    · exact shapeOf_emit_of_ne (by simp [TraceItem.objectId?, hl.id_eq, Ne.symm ho])

/-- An extension of a certified blob to a later end epoch, with the accounting `acc` after
it; both ways of extending end here. -/
theorem Inv.extend (hI : s.Inv) {id : ObjectID} {blob : Blob} {c endEpoch : Nat}
    {acc : StorageSystem} (hb : s.blobs id = some blob) (hc : blob.certifiedEpoch = some c)
    (hlive : s.epoch < blob.storage.endEpoch) (hlater : blob.storage.endEpoch < endEpoch)
    (hring : acc.RingOk) (hacc : acc.epoch = s.epoch) :
    Inv { (s.setBlob id (some { blob with storage := { blob.storage with endEpoch } })).emit
        [.blobCertified ⟨c, blob.blobId, endEpoch, blob.deletable, blob.id, true⟩] with
      accounting := acc } := by
  have hl := (hI.objects id).live blob hb
  refine ⟨hring, hacc, fun o => ?_, hI.certified.append (certifiedFollows_of_forall (by simp))⟩
  by_cases ho : o = id
  case pos =>
    subst ho
    refine ⟨fun b hb' => ?_, fun _ hb' => by simp at hb', fun hu => absurd hl.used hu⟩
    simp only [emit_blobs, setBlob_blobs, Function.update_self, Option.some.injEq] at hb'
    subst hb'
    have hvalid := hl.storage_valid
    refine ⟨hl.used, hl.id_eq, (by dsimp only; omega), hl.registered_le, hl.certified_le, ?_⟩
    simp only [shapeOf_emit, setBlob_history, hl.shape]
    simp [Blob.shape, hc, TraceItem.objectId?, hl.id_eq, EventShape.next, hlive, hlater,
      (hl.certified_le c hc).2]
  case neg =>
    refine (hI.objects o).frame ?_ Iff.rfl (Nat.le_refl _) ?_
    · simp [Function.update_of_ne ho]
    · exact shapeOf_emit_of_ne (by simp [TraceItem.objectId?, hl.id_eq, Ne.symm ho])

/-- `Blob::burn`: the blob is gone with no event. -/
theorem Inv.burn (hI : s.Inv) {id : ObjectID} {blob : Blob} (hb : s.blobs id = some blob) :
    Inv (s.setBlob id none) := by
  have hl := (hI.objects id).live blob hb
  refine ⟨hI.ringOk, hI.epoch_eq, fun o => ?_, hI.certified⟩
  by_cases ho : o = id
  case pos =>
    subst ho
    exact ⟨fun b hb' => by simp at hb', fun _ _ => by simp [hl.shape],
      fun hu => absurd hl.used hu⟩
  case neg =>
    exact (hI.objects o).frame (by simp [Function.update_of_ne ho]) Iff.rfl (Nat.le_refl _) rfl

/-- Event-blob certification that keeps the committee changes nothing else. -/
theorem Inv.eventBlobs (hI : s.Inv) {eventBlobs : EventBlobSystem}
    (hc : eventBlobs.committee = s.committee) : Inv { s with eventBlobs } := by
  have hepoch : ({ s with eventBlobs } : BlobSystem).epoch = s.epoch :=
    congrArg BlsCommittee.epoch hc
  exact ⟨hI.ringOk, hI.epoch_eq.trans hepoch.symm,
    fun o => (hI.objects o).frame rfl Iff.rfl (Nat.le_of_eq hepoch.symm) rfl, hI.certified⟩

/-- `certify_event_blob` that certifies its blob: a registration and a first certification
of a fresh, permanent blob, which is burnt. -/
theorem Inv.certifyEventBlob (hI : s.Inv) {eventBlobs : EventBlobSystem} {acc : StorageSystem}
    {id : ObjectID} {blobId size encodingType cp tally endEpoch : Nat}
    (hfresh : id ∉ s.usedIds) (hcommittee : eventBlobs.committee = s.committee)
    (hquorum : s.committee.isQuorum tally = true) (hacc : acc.epoch = s.accounting.epoch)
    (hring : acc.RingOk) (hend : s.epoch < endEpoch) :
    Inv { s.emit [.blobRegistered ⟨s.epoch, blobId, size, encodingType, endEpoch, false, id⟩,
          .eventBlobCertification s.committee blobId cp tally,
          .blobCertified ⟨s.epoch, blobId, endEpoch, false, id, false⟩] with
      eventBlobs, accounting := acc, usedIds := id :: s.usedIds } := by
  have hepoch : eventBlobs.committee.epoch = s.epoch := congrArg BlsCommittee.epoch hcommittee
  -- the ID was never handed out, so no blob holds it
  have hnone : s.blobs id = none := by
    cases hb : s.blobs id with
    | none => rfl
    | some b => exact absurd ((hI.objects id).live b hb).used hfresh
  refine ⟨hring, hacc.trans (hI.epoch_eq.trans hepoch.symm), fun o => ?_, ?_⟩
  · by_cases ho : o = id
    case pos =>
      subst ho
      refine ⟨fun b hb => by simp [hnone] at hb, fun _ _ => ?_, fun hu => absurd List.mem_cons_self hu⟩
      simp only [shapeOf_emit, (hI.objects o).unused hfresh]
      simp [TraceItem.objectId?, EventShape.next, hend]
    case neg =>
      refine (hI.objects o).frame rfl (by simp [ho]) (Nat.le_of_eq hepoch.symm) ?_
      exact shapeOf_emit_of_ne (by simp [TraceItem.objectId?, Ne.symm ho])
  · have hpair := certifiedFollows_pair (t := s.epoch) (fun _ => by simp)
      (show Justifies (some (s.epoch, .eventBlobCertification s.committee blobId cp tally))
        ⟨s.epoch, blobId, endEpoch, false, id, false⟩ from ⟨rfl, hquorum, rfl, rfl⟩)
    have hreg : CertifiedFollows
        [(s.epoch, .blobRegistered ⟨s.epoch, blobId, size, encodingType, endEpoch, false, id⟩)] :=
      certifiedFollows_of_forall (by simp)
    have h := (hI.certified.append hreg).append hpair
    rw [List.append_assoc] at h
    exact h

/-- An epoch change moves every epoch bound on and leaves the blobs and their events. -/
theorem Inv.advanceEpoch (hI : s.Inv) {newCommittee : BlsCommittee} {capacity : Nat}
    (h : s.advanceEpoch newCommittee capacity = .ok s') : s'.Inv := by
  obtain ⟨hepoch, haccEpoch, hring, hblobs, hused, hhistory⟩ := advanceEpoch_eq_ok hI.ringOk h
  refine ⟨hring, by rw [haccEpoch, hepoch, hI.epoch_eq], fun o => ?_, hhistory ▸ hI.certified⟩
  exact (hI.objects o).frame (by rw [hblobs]) (by rw [hused]) (by omega) (by rw [hhistory])

/-- Every call keeps the invariant. -/
theorem Inv.step (hI : s.Inv) {H : List UInt8 → Vector UInt8 32} {c : BlobCall}
    (h : s.step H c = .ok s') : s'.Inv := by
  cases c with
  | registerBlob id storage blobId rootHash size encodingType deletable =>
    unfold BlobSystem.step at h
    rw [ite_throw_bind_eq_ok] at h
    obtain ⟨hfresh, h⟩ := h
    obtain ⟨⟨blob, event⟩, hreg, h⟩ := bind_eq_ok.mp h
    cases h
    exact hI.registerBlob hfresh hreg
  | certifyBlob id blsVerify signersBitmap message =>
    obtain ⟨blob, hb, h⟩ := bind_eq_ok.mp h
    obtain ⟨⟨m, blob', event⟩, hcert, h⟩ := bind_eq_ok.mp h
    cases h
    exact hI.certifyBlob (getBlob_eq_ok hb) hcert
  | deleteBlob id =>
    obtain ⟨blob, hb, h⟩ := bind_eq_ok.mp h
    obtain ⟨⟨storage, event⟩, hdel, h⟩ := bind_eq_ok.mp h
    cases h
    exact hI.deleteBlob (getBlob_eq_ok hb) hdel
  | extendBlobWithResource id extension =>
    obtain ⟨blob, hb, h⟩ := bind_eq_ok.mp h
    obtain ⟨⟨blob', event⟩, hext, h⟩ := bind_eq_ok.mp h
    cases h
    have hb' := getBlob_eq_ok hb
    obtain ⟨c, hc, hlive, hlater, rfl, rfl⟩ :=
      Blob.extendWithResource_eq_ok ((hI.objects id).live blob hb').storage_valid hext
    exact hI.extend hb' hc hlive hlater hI.ringOk hI.epoch_eq
  | extendBlob id extendedEpochs =>
    obtain ⟨blob, hb, h⟩ := bind_eq_ok.mp h
    obtain ⟨⟨acc, blob', event⟩, hext, h⟩ := bind_eq_ok.mp h
    cases h
    obtain ⟨c, hc, hlive, hpos, hacc, hring, rfl, rfl⟩ := extendBlob_eq_ok hI.ringOk hext
    rw [hI.epoch_eq] at hlive hacc
    exact hI.extend (getBlob_eq_ok hb) hc hlive (by omega) hring hacc
  | burn id =>
    obtain ⟨blob, hb, h⟩ := bind_eq_ok.mp h
    cases h
    exact hI.burn (getBlob_eq_ok hb)
  | certifyEventBlob nodeId id blobId rootHash size encodingType cp epoch =>
    obtain ⟨⟨eventBlobs, certified⟩, hcert, h⟩ := bind_eq_ok.mp h
    cases certified with
    | none =>
      cases h
      exact hI.eventBlobs (certifyEventBlob_eq_ok_none hcert)
    | some r =>
      obtain ⟨acc, blob, registered, certifiedEvent⟩ := r
      dsimp only at h
      rw [ite_throw_bind_eq_ok] at h
      obtain ⟨hfresh, h⟩ := h
      cases h
      obtain ⟨hcommittee, hquorum, hacc, hring, endEpoch, hend, rfl, rfl⟩ :=
        certifyEventBlob_eq_ok_some hI.ringOk hcert
      exact hI.certifyEventBlob hfresh hcommittee hquorum hacc hring hend
  | advanceEpoch newCommittee capacity => exact hI.advanceEpoch h

/-- The invariant holds after every run. -/
theorem inv_run (H : List UInt8 → Vector UInt8 32) (maxEpochsAhead : Nat)
    (calls : List BlobCall) : (run H maxEpochsAhead calls).Inv :=
  Machine.run_invariant
    (fun s c hs => commit_invariant (fun _ _ _ ht h => ht.step (toOption_eq_some.mp h)) s c hs)
    calls _ (inv_createEmpty maxEpochsAhead)

end BlobSystem

/-! ## Runs without event blobs -/

/-- Whether a call is `certify_event_blob`. -/
def BlobCall.isCertifyEventBlob : BlobCall → Bool
  | .certifyEventBlob .. => true
  | _ => false

/-- Whether an entry records an event-blob certification. -/
def TraceItem.isEventBlobCertification : TraceItem → Bool
  | .eventBlobCertification .. => true
  | _ => false

namespace BlobSystem

variable {s s' : BlobSystem}

theorem emit_noEventBlobCertification {items : List TraceItem}
    (hs : ∀ x ∈ s.history, x.2.isEventBlobCertification = false)
    (hitems : ∀ x ∈ items, x.isEventBlobCertification = false) :
    ∀ x ∈ (s.emit items).history, x.2.isEventBlobCertification = false := by
  intro x hx
  rw [emit_history, List.mem_append] at hx
  rcases hx with hx | hx
  · exact hs x hx
  · obtain ⟨y, hy, rfl⟩ := List.mem_map.mp hx
    exact hitems y hy

/-- Only `certify_event_blob` records an event-blob certification. -/
theorem step_noEventBlobCertification {H : List UInt8 → Vector UInt8 32} {c : BlobCall}
    (h : s.step H c = .ok s') (hc : c.isCertifyEventBlob = false)
    (hs : ∀ x ∈ s.history, x.2.isEventBlobCertification = false) :
    ∀ x ∈ s'.history, x.2.isEventBlobCertification = false := by
  cases c with
  | registerBlob id storage blobId rootHash size encodingType deletable =>
    unfold BlobSystem.step at h
    rw [ite_throw_bind_eq_ok] at h
    obtain ⟨⟨blob, event⟩, -, h⟩ := bind_eq_ok.mp h.2
    cases h
    exact emit_noEventBlobCertification hs (by simp [TraceItem.isEventBlobCertification])
  | certifyBlob id blsVerify signersBitmap message =>
    obtain ⟨blob, -, h⟩ := bind_eq_ok.mp h
    obtain ⟨⟨m, blob', event⟩, -, h⟩ := bind_eq_ok.mp h
    cases h
    exact emit_noEventBlobCertification hs (by simp [TraceItem.isEventBlobCertification])
  | deleteBlob id =>
    obtain ⟨blob, -, h⟩ := bind_eq_ok.mp h
    obtain ⟨⟨storage, event⟩, -, h⟩ := bind_eq_ok.mp h
    cases h
    exact emit_noEventBlobCertification hs (by simp [TraceItem.isEventBlobCertification])
  | extendBlobWithResource id extension =>
    obtain ⟨blob, -, h⟩ := bind_eq_ok.mp h
    obtain ⟨⟨blob', event⟩, -, h⟩ := bind_eq_ok.mp h
    cases h
    exact emit_noEventBlobCertification hs (by simp [TraceItem.isEventBlobCertification])
  | extendBlob id extendedEpochs =>
    obtain ⟨blob, -, h⟩ := bind_eq_ok.mp h
    obtain ⟨⟨acc, blob', event⟩, -, h⟩ := bind_eq_ok.mp h
    cases h
    exact emit_noEventBlobCertification hs (by simp [TraceItem.isEventBlobCertification])
  | burn id =>
    obtain ⟨blob, -, h⟩ := bind_eq_ok.mp h
    cases h
    exact hs
  | certifyEventBlob => cases hc
  | advanceEpoch newCommittee capacity =>
    obtain ⟨eventBlobs, -, h⟩ := bind_eq_ok.mp h
    obtain ⟨accounting, -, h⟩ := bind_eq_ok.mp h
    cases h
    exact hs

theorem run_noEventBlobCertification (H : List UInt8 → Vector UInt8 32) (maxEpochsAhead : Nat)
    (calls : List BlobCall) (hcalls : ∀ c ∈ calls, c.isCertifyEventBlob = false) :
    ∀ x ∈ (run H maxEpochsAhead calls).history, x.2.isEventBlobCertification = false := by
  refine @Machine.run_invariant_of_forall _ _ _
    (fun s => ∀ x ∈ s.history, x.2.isEventBlobCertification = false)
    (fun c => c.isCertifyEventBlob = false)
    (fun s c hc hs => commit_invariant
      (fun _ _ _ ht h => step_noEventBlobCertification (toOption_eq_some.mp h) hc ht) s c hs)
    calls _ hcalls ?_
  -- `create_empty` starts with no history
  intro x hx
  cases hx

end BlobSystem

/-- Over every run of the blob calls from `create_empty`, by any senders in any order: the
events of every object have the shape `EventShape` allows; every first certification comes
right after the check that justified it; and in a run without `certify_event_blob` that check
is a certificate accepted by a quorum of the committee of the certification's epoch, over a
message carrying that epoch, the blob ID and the persistence type (with the object ID of a
deletable blob). -/
theorem blob_events_well_formed (H : List UInt8 → Vector UInt8 32) (maxEpochsAhead : Nat)
    (calls : List BlobCall) :
    (∀ o, (shapeOf (BlobSystem.run H maxEpochsAhead calls).history o).isSome) ∧
      (∀ (k epoch : Nat) (e : BlobCertified), (BlobSystem.run H maxEpochsAhead calls).history[k]? =
          some (epoch, .blobCertified e) → e.isExtension = false →
        ∃ j < k, Justifies (BlobSystem.run H maxEpochsAhead calls).history[j]? e) ∧
      ((∀ c ∈ calls, c.isCertifyEventBlob = false) → ∀ (k epoch : Nat) (e : BlobCertified),
        (BlobSystem.run H maxEpochsAhead calls).history[k]? = some (epoch, .blobCertified e) →
        e.isExtension = false →
        ∃ j < k, ∃ (t : Nat) (committee : BlsCommittee) (message : CertifiedMessage),
          (BlobSystem.run H maxEpochsAhead calls).history[j]? =
            some (t, .quorumCertificate committee message) ∧
          committee.epoch = e.epoch ∧ committee.isQuorum message.stakeSupport = true ∧
          message.certEpoch = e.epoch ∧
          certifyBlobMessage message = .ok ⟨e.blobId, e.persistence⟩) := by
  have hI := BlobSystem.inv_run H maxEpochsAhead calls
  -- every first certification is justified by the entry right before it
  have hjust : ∀ (k epoch : Nat) (e : BlobCertified),
      (BlobSystem.run H maxEpochsAhead calls).history[k]? =
      some (epoch, .blobCertified e) → e.isExtension = false →
      ∃ j < k, Justifies (BlobSystem.run H maxEpochsAhead calls).history[j]? e := by
    intro k epoch e hk hext
    obtain ⟨j, rfl, hj⟩ := hI.certified k epoch e hk hext
    exact ⟨j, Nat.lt_succ_self j, hj⟩
  refine ⟨fun o => ?_, hjust, fun hcalls k epoch e hk hext => ?_⟩
  · -- a live blob, a blob that is gone, or an ID never handed out
    have ho := hI.objects o
    cases hb : (BlobSystem.run H maxEpochsAhead calls).blobs o with
    | some blob => simp [(ho.live blob hb).shape]
    | none =>
      by_cases hu : o ∈ (BlobSystem.run H maxEpochsAhead calls).usedIds
      · exact ho.gone hu hb
      · simp [ho.unused hu]
  · obtain ⟨j, hjk, hj⟩ := hjust k epoch e hk hext
    have hnone := BlobSystem.run_noEventBlobCertification H maxEpochsAhead calls hcalls
    cases hentry : (BlobSystem.run H maxEpochsAhead calls).history[j]? with
    | none => simp [hentry, Justifies] at hj
    | some x =>
      obtain ⟨t, item⟩ := x
      rw [hentry] at hj
      cases item with
      | quorumCertificate committee message => exact ⟨j, hjk, t, committee, message, hentry, hj⟩
      | eventBlobCertification committee blobId cp tally =>
        have := hnone _ (List.mem_of_getElem? hentry)
        simp [TraceItem.isEventBlobCertification] at this
      | blobRegistered => simp [Justifies] at hj
      | blobCertified => simp [Justifies] at hj
      | blobDeleted => simp [Justifies] at hj

/-- A committee of one node with all ten shards for epoch 1; a permanent blob registered in
epoch 1 on storage up to epoch 3; and its certificate, signed by that node, over the message of
intent `BLOB_CERT_MSG_TYPE`, version 0, app 3 and epoch 1 for blob ID `0`, the ID that the
all-zero hash derives. -/
def certifiedBlobCalls : List BlobCall :=
  [.advanceEpoch ⟨[⟨10, ⟨Vector.replicate 32 1⟩⟩], 1, by simp, by decide⟩ 1000000000,
    .registerBlob ⟨Vector.replicate 32 5⟩ ⟨1, 3, 1000000⟩ 0 0 100 1 false,
    .certifyBlob ⟨Vector.replicate 32 5⟩ (fun _ => true) [1]
      ([1, 0, 3, 1, 0, 0, 0] ++ List.replicate 32 0 ++ [0])]

/-- The certification of the run above is preceded by the certificate of epoch 1 that a quorum
signed for it. -/
theorem blob_events_well_formed_without_event_blobs :
    (∀ c ∈ certifiedBlobCalls, c.isCertifyEventBlob = false) ∧
      (BlobSystem.run (fun _ => Vector.replicate 32 0) 2 certifiedBlobCalls).history[2]? =
        some (1, .blobCertified ⟨1, 0, 3, false, ⟨Vector.replicate 32 5⟩, false⟩) ∧
      ∃ j < 2, ∃ (t : Nat) (committee : BlsCommittee) (message : CertifiedMessage),
        (BlobSystem.run (fun _ => Vector.replicate 32 0) 2 certifiedBlobCalls).history[j]? =
          some (t, .quorumCertificate committee message) ∧
        committee.epoch = 1 ∧ committee.isQuorum message.stakeSupport = true ∧
        message.certEpoch = 1 ∧ certifyBlobMessage message = .ok ⟨0, .permanent⟩ := by
  have hcalls : ∀ c ∈ certifiedBlobCalls, c.isCertifyEventBlob = false := by decide
  have hcertified :
      (BlobSystem.run (fun _ => Vector.replicate 32 0) 2 certifiedBlobCalls).history[2]? =
        some (1, .blobCertified ⟨1, 0, 3, false, ⟨Vector.replicate 32 5⟩, false⟩) := rfl
  exact ⟨hcalls, hcertified, (blob_events_well_formed (fun _ => Vector.replicate 32 0) 2
    certifiedBlobCalls).2.2 hcalls 2 1 _ hcertified rfl⟩

end Walrus.System
