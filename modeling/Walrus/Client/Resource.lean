import Mathlib.Data.List.Perm.Subperm
import Mathlib.Data.List.Sort
import Walrus.Core.Metadata
import Walrus.Machine.Ring
import Walrus.Machine.Run
import Walrus.Machine.Select

/-! # Choosing the wallet's resources for a store

Before it stores blobs, the client registers them on chain (`ResourceManager` of `walrus-sdk`,
`client/resource.rs`). For each request, the metadata of a blob with its encoded length,
`get_existing_or_register_with_resources` takes the first of:

* a `Blob` object of the wallet for that blob ID, still valid, of the requested persistence
  (and uncertified unless status checks are on): reused as it is when it lives to the target
  epoch, and otherwise extended to it, certified or not;
* a `Storage` resource of the wallet that lives to the target epoch and is large enough: for
  the largest requests first, the smallest such, the earliest to end among equals, each
  resource taken out of the available ones once chosen (`swap_remove`);
* storage reserved and a blob registered from scratch.

It returns the four groups one after the other, not in the order of the requests, and
`register_or_reuse_resources` gives each blob back a result of its blob ID through a map from
blob IDs to the vectors of their results.

What a result provides its request with is `Serves`. Every run that returns gives each request
one result (`getExistingOrRegisterWithResources_serves`): a reused registration lives to the
target epoch, an extended one is extended to it, and a storage resource is large enough and lives
to the target epoch. The storage resources are those `register_blobs` is called with, each a
resource of the wallet taken at most once. An owned blob goes to two requests only when they have
the same blob ID (`ownedBlobs_subperm`): `.find` returns the same blob for both, as it does for
`walletManager`. The results always match the requests' blob IDs, so the regrouping never panics
(`registerOrReuseResources_ne_missingBlobId`).

Translation notes.
* The calls to `SuiContractClient` are the fields of `SuiContractClient`, their results taken
  as given: the wallet's valid blobs and storage resources, and the two registrations, which
  return one blob per request, in order, with the request's blob ID (a field of the
  structure).
* Epochs are `u32`. The target epoch `write_committee_epoch + epochs_ahead` wraps in the
  release profile (`u32Add`).
* A `ClientError` is kept by its message. `StoreFailure` tells errors and panics apart; the
  panic `missing blob ID: {blob_id}` carries its blob ID.
* The blobs `register_or_reuse_resources` takes are in the `WithStatus` state
  (`BlobWithStatus`): their identifier and metadata. Their sliver pairs and status go along
  unread and are left out, as are the fields of `Blob` and `StorageResource` the manager does
  not read and the fields of `BlobObjectMetadata` only the chain reads. `{:?}` of the
  identifier is `toString`.
* The map from blob IDs to vectors is `Machine.groupBy`: a key that is absent and a key whose
  vector is empty both panic.
-/

namespace Walrus

open Encoding

/-- `BlobMetadataApi::encoded_size`: the encoded length for as many shards as the metadata has
sliver pairs, `None` when that count is not a `NonZeroU16`. The outer `Except` is the panic of
`compute_symbol_size`. -/
def BlobMetadata.encodedSize (self : BlobMetadata) : Except String (Option Nat) :=
  if h : 0 < self.hashes.length ∧ self.hashes.length ≤ u16Max then
    encodedBlobLengthForNShards ⟨self.hashes.length, h.1, h.2⟩ self.unencodedLength.toNat
      self.encodingType
  else pure none

end Walrus

namespace Walrus.Client

open Machine Walrus.Encoding

/-- `u32` addition of the release profile, which wraps. -/
def u32Add (a b : Nat) : Nat := (a + b) % 2 ^ 32

/-- `BlobPersistence`. -/
inductive BlobPersistence where
  | permanent
  | deletable
deriving DecidableEq, Repr

/-- `BlobPersistence::is_deletable`. -/
def BlobPersistence.isDeletable : BlobPersistence → Bool
  | .permanent => false
  | .deletable => true

/-- `StoreOptimizations`. -/
structure StoreOptimizations where
  checkStatus : Bool
  reuseResources : Bool
deriving DecidableEq, Repr

/-- `StoreOptimizations::should_check_status`. -/
def StoreOptimizations.shouldCheckStatus (self : StoreOptimizations) : Bool := self.checkStatus

/-- `StoreOptimizations::should_check_existing_resources`. -/
def StoreOptimizations.shouldCheckExistingResources (self : StoreOptimizations) : Bool :=
  self.reuseResources

/-- `StorageResource` of `walrus-sui`: its object, end epoch (exclusive) and size. -/
structure StorageResource where
  id : ObjectID
  endEpoch : Nat
  storageSize : Nat
deriving DecidableEq, Repr

/-- `Blob` of `walrus-sui`: the fields the resource manager reads. -/
structure Blob where
  id : ObjectID
  blobId : BlobId
  certifiedEpoch : Option Nat
  storage : StorageResource
  deletable : Bool
deriving DecidableEq, Repr

/-- The blob with its storage extended to `endEpoch`: `extended_blob.storage.end_epoch = ..`
on a clone. -/
def Blob.withEndEpoch (blob : Blob) (endEpoch : Nat) : Blob :=
  { blob with storage := { blob.storage with endEpoch := endEpoch } }

/-- `RegisterBlobOp`. -/
inductive RegisterBlobOp where
  | registerFromScratch (encodedLength epochsAhead : Nat)
  | reuseStorage (encodedLength : Nat)
  | reuseRegistration (encodedLength : Nat)
  | reuseAndExtend (encodedLength epochsExtended : Nat)
  | reuseAndExtendNonCertified (encodedLength epochsExtended : Nat)
deriving DecidableEq, Repr

/-- `StoreOp`. The only `NoOp` the resource manager makes is
`BlobStoreResult::AlreadyCertified` with the blob's object. -/
inductive StoreOp where
  | noOpAlreadyCertified (blobId : BlobId) (object : ObjectID) (endEpoch : Nat)
  | registerNew (blob : Blob) (operation : RegisterBlobOp)
deriving DecidableEq, Repr

/-- `StoreOp::new`: a reused registration of a certified blob needs nothing more. -/
def StoreOp.new (registerOp : RegisterBlobOp) (blob : Blob) : StoreOp :=
  match registerOp with
  | .reuseRegistration _ =>
    if blob.certifiedEpoch.isSome then
      .noOpAlreadyCertified blob.blobId blob.id blob.storage.endEpoch
    else .registerNew blob registerOp
  | _ => .registerNew blob registerOp

/-- The `ClientError`s of these functions. -/
inductive StoreError where
  /-- A `SuiClientError`: of a call to the chain, or of converting metadata. -/
  | suiClient (msg : String)
  /-- `ClientError::store_blob_internal`. -/
  | storeBlobInternal (msg : String)
deriving DecidableEq, Repr

/-- How a call ends without a result: an error, or a panic. -/
inductive StoreFailure where
  | error (e : StoreError)
  | panic (msg : String)
  /-- The panic `missing blob ID: {blob_id}`. -/
  | missingBlobId (blobId : BlobId)
deriving DecidableEq, Repr

/-- `BlobObjectMetadata`: what a registration sends for a blob. -/
structure BlobObjectMetadata where
  blobId : BlobId
  encodedSize : Nat
deriving DecidableEq, Repr

/-- `BlobObjectMetadata::try_from`. -/
def BlobObjectMetadata.tryFrom (metadata : VerifiedBlobMetadataWithId) :
    Except StoreFailure BlobObjectMetadata := do
  let encodedSize ← metadata.metadata.encodedSize.mapError .panic
  match encodedSize with
  | none => throw (.error (.suiClient "cannot compute encoded size"))
  | some encodedSize => pure ⟨metadata.blobId, encodedSize⟩

/-- The calls of the resource manager to `SuiContractClient`, with their results: the wallet's
valid blobs and storage resources, and the two registrations, each of which returns one blob
per request, in order, with the request's blob ID. -/
structure SuiContractClient where
  /-- `owned_blobs(None, ExpirySelectionPolicy::Valid)`. -/
  ownedBlobs : Except StoreError (List Blob)
  /-- `owned_storage(ExpirySelectionPolicy::Valid)`. -/
  ownedStorage : Except StoreError (List StorageResource)
  /-- `register_blobs`. -/
  registerBlobs : List (BlobObjectMetadata × StorageResource) → BlobPersistence →
    Except StoreError (List Blob)
  /-- `reserve_and_register_blobs`. -/
  reserveAndRegisterBlobs : Nat → List BlobObjectMetadata → BlobPersistence →
    Except StoreError (List Blob)
  registerBlobs_blobIds : ∀ requests persistence blobs,
    registerBlobs requests persistence = .ok blobs →
      List.Forall₂ (fun request blob => blob.blobId = request.1.blobId) requests blobs
  reserveAndRegisterBlobs_blobIds : ∀ epochsAhead requests persistence blobs,
    reserveAndRegisterBlobs epochsAhead requests persistence = .ok blobs →
      List.Forall₂ (fun request blob => blob.blobId = request.blobId) requests blobs

/-- `ResourceManager`. -/
structure ResourceManager where
  suiClient : SuiContractClient
  writeCommitteeEpoch : Nat

/-- A blob in the `WithStatus` state: its identifier and metadata. -/
structure BlobWithStatus (T : Type) where
  identifier : T
  metadata : VerifiedBlobMetadataWithId

/-- `WalrusStoreBlobApi::encoded_size` of a blob with status. -/
def BlobWithStatus.encodedSize {T : Type} (blob : BlobWithStatus T) : Except String (Option Nat) :=
  blob.metadata.metadata.encodedSize

/-! ## The resource manager -/

namespace ResourceManager

/-- `find_blob_owned_by_wallet`: the first owned blob of the blob ID that is still valid, of
the persistence asked for, and uncertified unless `includeCertified`. -/
def findBlobOwnedByWallet (self : ResourceManager) (blobId : BlobId)
    (persistence : BlobPersistence) (includeCertified : Bool) (ownedBlobs : List Blob) :
    Option Blob :=
  ownedBlobs.find? fun blob =>
    decide (blob.blobId = blobId) && decide (blob.storage.endEpoch > self.writeCommitteeEpoch) &&
      blob.deletable == persistence.isDeletable && (includeCertified || blob.certifiedEpoch.isNone)

/-- The vectors the first loop of `get_existing_or_register_with_resources` fills. -/
structure ExistingGroups where
  results : List (Blob × RegisterBlobOp)
  extendedBlobs : List (Blob × RegisterBlobOp)
  extendedBlobsNoncertified : List (Blob × RegisterBlobOp)
  blobProcessingItems : List (VerifiedBlobMetadataWithId × Nat)

/-- A round of the first loop: an owned blob of the request's blob ID is reused, or extended to
the target epoch when it ends before; a request without one is kept for the second loop. -/
def checkExisting (self : ResourceManager) (epochsAhead : Nat) (persistence : BlobPersistence)
    (includeCertified : Bool) (ownedBlobs : List Blob) (groups : ExistingGroups)
    (request : VerifiedBlobMetadataWithId × Nat) : ExistingGroups :=
  match self.findBlobOwnedByWallet request.1.blobId persistence includeCertified ownedBlobs with
  | some blob =>
    let targetEpoch := u32Add self.writeCommitteeEpoch epochsAhead
    if blob.storage.endEpoch < targetEpoch then
      let epochDelta := targetEpoch - blob.storage.endEpoch
      let extendedBlob := blob.withEndEpoch targetEpoch
      if blob.certifiedEpoch.isSome then
        { groups with extendedBlobs := groups.extendedBlobs ++
            [(extendedBlob, .reuseAndExtend request.2 epochDelta)] }
      else
        { groups with extendedBlobsNoncertified := groups.extendedBlobsNoncertified ++
            [(extendedBlob, .reuseAndExtendNonCertified request.2 epochDelta)] }
    else
      { groups with results := groups.results ++ [(blob, .reuseRegistration request.2)] }
  | none => { groups with blobProcessingItems := groups.blobProcessingItems ++ [request] }

/-- The order the best resource is chosen by: size, then end epoch. -/
def compareStorage (a b : StorageResource × Nat) : Ordering :=
  match compare a.1.storageSize b.1.storageSize with
  | .eq => compare a.1.endEpoch b.1.endEpoch
  | ordering => ordering

/-- `best_resource_idx`: the index of the first least resource large enough for the length. -/
def bestResourceIdx (availableResources : List StorageResource) (encodedLength : Nat) :
    Option Nat :=
  (minBy compareStorage
    (availableResources.zipIdx.filter fun resource => resource.1.storageSize ≥ encodedLength)).map
    (·.2)

/-- The vectors the second loop of `get_existing_or_register_with_resources` works on. -/
structure StorageSelection where
  availableResources : List StorageResource
  reusedMetadataWithStorage : List (BlobObjectMetadata × StorageResource)
  reusedEncodedLengths : List Nat
  newMetadataList : List VerifiedBlobMetadataWithId
  newEncodedLengths : List Nat

/-- A round of the second loop: the best resource for the request is taken out of the available
ones, or the request is left for a registration from scratch. -/
def selectStorage (selection : StorageSelection) (item : VerifiedBlobMetadataWithId × Nat) :
    Except StoreFailure StorageSelection :=
  match bestResourceIdx selection.availableResources item.2 with
  | some idx =>
    match swapRemove selection.availableResources idx with
    | none =>
      let len := selection.availableResources.length
      throw (.panic s!"swap_remove index (is {idx}) should be < len (is {len})")
    | some (storageResource, availableResources) => do
      let metadata ← BlobObjectMetadata.tryFrom item.1
      pure { selection with
        availableResources := availableResources
        reusedMetadataWithStorage :=
          selection.reusedMetadataWithStorage ++ [(metadata, storageResource)]
        reusedEncodedLengths := selection.reusedEncodedLengths ++ [item.2] }
  | none =>
    pure { selection with
      newMetadataList := selection.newMetadataList ++ [item.1]
      newEncodedLengths := selection.newEncodedLengths ++ [item.2] }

/-- `reserve_and_register_blob_op`: every request registered from scratch. -/
def reserveAndRegisterBlobOp (self : ResourceManager) (encodedLengths : List Nat)
    (epochsAhead : Nat) (metadataList : List VerifiedBlobMetadataWithId)
    (persistence : BlobPersistence) : Except StoreFailure (List (Blob × RegisterBlobOp)) := do
  let metadata ← metadataList.mapM BlobObjectMetadata.tryFrom
  let blobs ← (self.suiClient.reserveAndRegisterBlobs epochsAhead metadata persistence).mapError
    .error
  pure ((blobs.zip encodedLengths).map fun blob => (blob.1, .registerFromScratch blob.2 epochsAhead))

/-- The requests that no owned blob serves, matched with the available storage resources:
`owned_storage` and the second loop, over the largest requests first. -/
def selectStorageResources (self : ResourceManager) (epochsAhead : Nat)
    (blobProcessingItems : List (VerifiedBlobMetadataWithId × Nat)) :
    Except StoreFailure StorageSelection :=
  if blobProcessingItems.isEmpty then pure ⟨[], [], [], [], []⟩
  else do
    let allStorageResources ← self.suiClient.ownedStorage.mapError .error
    let targetEpoch := u32Add epochsAhead self.writeCommitteeEpoch
    let availableResources := allStorageResources.filter fun storage =>
      storage.endEpoch ≥ targetEpoch
    let blobProcessingItems := blobProcessingItems.mergeSort fun a b => decide (b.2 ≤ a.2)
    blobProcessingItems.foldlM selectStorage ⟨availableResources, [], [], [], []⟩

/-- `get_existing_or_register_with_resources`. -/
def getExistingOrRegisterWithResources (self : ResourceManager) (encodedLengths : List Nat)
    (epochsAhead : Nat) (metadataList : List VerifiedBlobMetadataWithId)
    (persistence : BlobPersistence) (storeOptimizations : StoreOptimizations) :
    Except StoreFailure (List (Blob × RegisterBlobOp)) := do
  let ownedBlobs ← self.suiClient.ownedBlobs.mapError .error
  let groups := run (self.checkExisting epochsAhead persistence
    storeOptimizations.shouldCheckStatus ownedBlobs) ⟨[], [], [], []⟩
    (metadataList.zip encodedLengths)
  let selection ← self.selectStorageResources epochsAhead groups.blobProcessingItems
  let blobs ← (self.suiClient.registerBlobs selection.reusedMetadataWithStorage persistence).mapError
    .error
  let reused := (blobs.zip selection.reusedEncodedLengths).map fun blob =>
    (blob.1, RegisterBlobOp.reuseStorage blob.2)
  let registered ← self.reserveAndRegisterBlobOp selection.newEncodedLengths epochsAhead
    selection.newMetadataList persistence
  pure (groups.results ++ reused ++ registered ++ groups.extendedBlobs ++
    groups.extendedBlobsNoncertified)

/-- `register_or_reuse_resources`: the registrations of the blobs, each blob given back a
result of its blob ID. -/
def registerOrReuseResources {T : Type} [ToString T] (self : ResourceManager)
    (blobs : List (BlobWithStatus T)) (epochsAhead : Nat) (persistence : BlobPersistence)
    (storeOptimizations : StoreOptimizations) :
    Except StoreFailure (List (BlobWithStatus T × StoreOp)) := do
  let encodedLengths ← blobs.mapM fun blob => do
    match ← blob.encodedSize.mapError .panic with
    | some encodedSize => pure encodedSize
    | none =>
      let identifier := toString blob.identifier
      throw (.error (.storeBlobInternal
        ("could not compute the encoded size of the blob: " ++ identifier)))
  let metadataList := blobs.map (·.metadata)
  let results ← if storeOptimizations.shouldCheckExistingResources then
      self.getExistingOrRegisterWithResources encodedLengths epochsAhead metadataList persistence
        storeOptimizations
    else self.reserveAndRegisterBlobOp encodedLengths epochsAhead metadataList persistence
  let blobIdMap := groupBy (fun result => result.1.blobId) results
  let served ← (popEach (fun blob => blob.metadata.blobId) blobIdMap blobs).mapError .missingBlobId
  pure (served.map fun entry => (entry.1, StoreOp.new entry.2.2 entry.2.1))

end ResourceManager

/-! ## What a result provides a request with -/

/-- Where the registration of a request comes from. -/
inductive Provision where
  /-- A blob of the wallet, reused or extended. -/
  | ownedBlob (blob : Blob)
  /-- A storage resource of the wallet, registered into by `register_blobs` with the
  metadata sent for the blob. -/
  | ownedStorage (metadata : BlobObjectMetadata) (storage : StorageResource)
  /-- Storage reserved and the blob registered from scratch. -/
  | fresh

/-- The owned blob a request is provided with. -/
def Provision.ownedBlob? : Provision → Option Blob
  | .ownedBlob blob => some blob
  | _ => none

/-- What `register_blobs` is called with for a request. -/
def Provision.registration? : Provision → Option (BlobObjectMetadata × StorageResource)
  | .ownedStorage metadata storage => some (metadata, storage)
  | _ => none

/-- A request (a blob's metadata and encoded length), how it is provided for, and the result it
gets. -/
structure Served where
  request : VerifiedBlobMetadataWithId × Nat
  provision : Provision
  result : Blob × RegisterBlobOp

/-- How a result serves its request, for a registration to last to `targetEpoch`, `epochsAhead`
epochs on: a blob of the request's blob ID, with the operation that provides it and the
request's encoded length. A reused registration lives to the target epoch, an extended one is
extended exactly to it, and a storage resource is large enough and lives to the target epoch. -/
inductive Serves (targetEpoch epochsAhead : Nat) : Served → Prop
  | reuseRegistration {metadata : VerifiedBlobMetadataWithId} {encodedLength : Nat} {blob : Blob} :
      blob.blobId = metadata.blobId → targetEpoch ≤ blob.storage.endEpoch →
      Serves targetEpoch epochsAhead
        ⟨(metadata, encodedLength), .ownedBlob blob, (blob, .reuseRegistration encodedLength)⟩
  | reuseAndExtend {metadata : VerifiedBlobMetadataWithId} {encodedLength : Nat} {blob : Blob} :
      blob.blobId = metadata.blobId → blob.storage.endEpoch < targetEpoch →
      blob.certifiedEpoch.isSome →
      Serves targetEpoch epochsAhead ⟨(metadata, encodedLength), .ownedBlob blob,
        (blob.withEndEpoch targetEpoch,
          .reuseAndExtend encodedLength (targetEpoch - blob.storage.endEpoch))⟩
  | reuseAndExtendNonCertified {metadata : VerifiedBlobMetadataWithId} {encodedLength : Nat}
      {blob : Blob} :
      blob.blobId = metadata.blobId → blob.storage.endEpoch < targetEpoch →
      blob.certifiedEpoch = none →
      Serves targetEpoch epochsAhead ⟨(metadata, encodedLength), .ownedBlob blob,
        (blob.withEndEpoch targetEpoch,
          .reuseAndExtendNonCertified encodedLength (targetEpoch - blob.storage.endEpoch))⟩
  | reuseStorage {metadata : VerifiedBlobMetadataWithId} {encodedLength : Nat}
      {objectMetadata : BlobObjectMetadata} {storage : StorageResource} {blob : Blob} :
      objectMetadata.blobId = metadata.blobId → blob.blobId = metadata.blobId →
      encodedLength ≤ storage.storageSize → targetEpoch ≤ storage.endEpoch →
      Serves targetEpoch epochsAhead ⟨(metadata, encodedLength),
        .ownedStorage objectMetadata storage, (blob, .reuseStorage encodedLength)⟩
  | registerFromScratch {metadata : VerifiedBlobMetadataWithId} {encodedLength : Nat}
      {blob : Blob} :
      blob.blobId = metadata.blobId →
      Serves targetEpoch epochsAhead
        ⟨(metadata, encodedLength), .fresh, (blob, .registerFromScratch encodedLength epochsAhead)⟩

section Serves

variable {targetEpoch epochsAhead : Nat} {s : Served}

/-- Every result has its request's blob ID. -/
theorem Serves.blobId_eq (h : Serves targetEpoch epochsAhead s) :
    s.result.1.blobId = s.request.1.blobId := by
  cases h with
  | reuseRegistration hid _ => exact hid
  | reuseAndExtend hid _ _ => exact hid
  | reuseAndExtendNonCertified hid _ _ => exact hid
  | reuseStorage _ hid _ _ => exact hid
  | registerFromScratch hid => exact hid

/-- An owned blob that serves a request has the request's blob ID. -/
theorem Serves.ownedBlob_blobId (h : Serves targetEpoch epochsAhead s) {blob : Blob}
    (hblob : s.provision.ownedBlob? = some blob) : blob.blobId = s.request.1.blobId := by
  cases h with
  | reuseRegistration hid _ => cases hblob; exact hid
  | reuseAndExtend hid _ _ => cases hblob; exact hid
  | reuseAndExtendNonCertified hid _ _ => cases hblob; exact hid
  | reuseStorage => cases hblob
  | registerFromScratch => cases hblob

end Serves

/-- The blob IDs of the owned blobs that serve requests are among the requests' blob IDs, as
often as the requests they serve. -/
theorem ownedBlobIds_sublist {targetEpoch epochsAhead : Nat} :
    ∀ {served : List Served}, (∀ s ∈ served, Serves targetEpoch epochsAhead s) →
      ((served.filterMap (·.provision.ownedBlob?)).map (·.blobId)).Sublist
        (served.map (·.request.1.blobId))
  | [], _ => List.Sublist.slnil
  | s :: served, hserves => by
    have hrest := ownedBlobIds_sublist fun t ht => hserves t (List.mem_cons_of_mem s ht)
    cases hblob : s.provision.ownedBlob? with
    | none =>
      simp only [List.filterMap_cons, hblob, List.map_cons]
      exact hrest.cons _
    | some blob =>
      simp only [List.filterMap_cons, hblob, List.map_cons,
        (hserves s List.mem_cons_self).ownedBlob_blobId hblob]
      exact hrest.cons_cons _

/-- Serving one more request, in the middle of the served ones: the requests are those before
and the new one, and the property every served request has still holds. -/
theorem served_insert {P : Served → Prop} {a b : List Served}
    {l d : List (VerifiedBlobMetadataWithId × Nat)} {t : Served}
    (hperm : ((a ++ b).map (·.request) ++ l).Perm d) (hP : ∀ s ∈ a ++ b, P s) (ht : P t) :
    ((a ++ t :: b).map (·.request) ++ l).Perm (d ++ [t.request]) ∧ ∀ s ∈ a ++ t :: b, P s := by
  constructor
  · -- the new request moves to the end
    have hmiddle : ((a ++ t :: b).map (·.request) ++ l).Perm
        (t.request :: ((a ++ b).map (·.request) ++ l)) := by
      simp only [List.map_append, List.map_cons, List.append_assoc, List.cons_append]
      exact List.perm_middle
    exact hmiddle.trans ((hperm.cons _).trans (List.perm_append_singleton _ _).symm)
  · intro s hs
    rcases List.mem_append.mp hs with hs | hs
    · exact hP s (List.mem_append_left _ hs)
    · rcases List.mem_cons.mp hs with rfl | hs
      · exact ht
      · exact hP s (List.mem_append_right _ hs)

namespace ResourceManager

variable (self : ResourceManager)

theorem findBlobOwnedByWallet_some {blobId : BlobId} {persistence : BlobPersistence}
    {includeCertified : Bool} {ownedBlobs : List Blob} {blob : Blob}
    (h : self.findBlobOwnedByWallet blobId persistence includeCertified ownedBlobs = some blob) :
    blob ∈ ownedBlobs ∧ blob.blobId = blobId := by
  refine ⟨List.mem_of_find?_eq_some h, ?_⟩
  have hfound := List.find?_some h
  simp only [Bool.and_eq_true, decide_eq_true_eq] at hfound
  exact hfound.1.1.1

/-! ### The first loop: owned blobs -/

/-- What the first loop has done with the requests `done`: each is served by an owned blob, in
the group of its operation, or kept for the second loop. -/
def ExistingGroups.Inv (targetEpoch epochsAhead : Nat) (ownedBlobs : List Blob)
    (done : List (VerifiedBlobMetadataWithId × Nat)) (groups : ExistingGroups) : Prop :=
  ∃ reused extended extendedNoncertified : List Served,
    reused.map (·.result) = groups.results ∧
    extended.map (·.result) = groups.extendedBlobs ∧
    extendedNoncertified.map (·.result) = groups.extendedBlobsNoncertified ∧
    ((reused ++ extended ++ extendedNoncertified).map (·.request) ++
      groups.blobProcessingItems).Perm done ∧
    ∀ s ∈ reused ++ extended ++ extendedNoncertified, Serves targetEpoch epochsAhead s ∧
      ∃ blob ∈ ownedBlobs, s.provision = .ownedBlob blob

variable {epochsAhead : Nat} {persistence : BlobPersistence} {includeCertified : Bool}
  {ownedBlobs : List Blob}

/-- What a round of the first loop can do: serve the request by an owned blob, adding the
result to the group of its operation, or keep the request. -/
theorem checkExisting_cases (epochsAhead : Nat) (persistence : BlobPersistence)
    (includeCertified : Bool) (ownedBlobs : List Blob) (groups : ExistingGroups)
    (request : VerifiedBlobMetadataWithId × Nat) :
    (∃ t : Served, Serves (u32Add self.writeCommitteeEpoch epochsAhead) epochsAhead t ∧
      (∃ blob ∈ ownedBlobs, t.provision = .ownedBlob blob) ∧ t.request = request ∧
      (self.checkExisting epochsAhead persistence includeCertified ownedBlobs groups request =
          { groups with results := groups.results ++ [t.result] } ∨
        self.checkExisting epochsAhead persistence includeCertified ownedBlobs groups request =
          { groups with extendedBlobs := groups.extendedBlobs ++ [t.result] } ∨
        self.checkExisting epochsAhead persistence includeCertified ownedBlobs groups request =
          { groups with extendedBlobsNoncertified :=
              groups.extendedBlobsNoncertified ++ [t.result] })) ∨
    self.checkExisting epochsAhead persistence includeCertified ownedBlobs groups request =
      { groups with blobProcessingItems := groups.blobProcessingItems ++ [request] } := by
  obtain ⟨metadata, encodedLength⟩ := request
  cases hfind : self.findBlobOwnedByWallet metadata.blobId persistence includeCertified
    ownedBlobs with
  | none =>
    right
    simp only [checkExisting, hfind]
  | some blob =>
    left
    obtain ⟨hmem, hid⟩ := self.findBlobOwnedByWallet_some hfind
    by_cases hlt : blob.storage.endEpoch < u32Add self.writeCommitteeEpoch epochsAhead
    · by_cases hcert : blob.certifiedEpoch.isSome
      · -- extended, and certified
        refine ⟨_, Serves.reuseAndExtend hid hlt hcert, ⟨blob, hmem, rfl⟩, rfl, .inr (.inl ?_)⟩
        simp only [checkExisting, hfind, hlt, hcert, if_true]
      · -- extended, and not certified
        refine ⟨_, Serves.reuseAndExtendNonCertified hid hlt
          (Option.not_isSome_iff_eq_none.mp hcert), ⟨blob, hmem, rfl⟩, rfl, .inr (.inr ?_)⟩
        simp only [checkExisting, hfind, hlt, Bool.eq_false_iff.mpr hcert, if_true,
          Bool.false_eq_true, if_false]
    · -- reused as it is
      refine ⟨_, Serves.reuseRegistration hid (Nat.le_of_not_lt hlt), ⟨blob, hmem, rfl⟩, rfl,
        .inl ?_⟩
      simp only [checkExisting, hfind, hlt, if_false]

/-- A round of the first loop serves the request by the owned blob it finds, or keeps it. -/
theorem checkExisting_inv {done : List (VerifiedBlobMetadataWithId × Nat)}
    {groups : ExistingGroups} (request : VerifiedBlobMetadataWithId × Nat)
    (h : groups.Inv (u32Add self.writeCommitteeEpoch epochsAhead) epochsAhead ownedBlobs done) :
    (self.checkExisting epochsAhead persistence includeCertified ownedBlobs groups request).Inv
      (u32Add self.writeCommitteeEpoch epochsAhead) epochsAhead ownedBlobs (done ++ [request]) := by
  obtain ⟨reused, extended, extendedNc, hreused, hextended, hextendedNc, hperm, hserves⟩ := h
  rcases self.checkExisting_cases epochsAhead persistence includeCertified ownedBlobs groups
    request with
    ⟨t, hserved, howned, rfl, hstep | hstep | hstep⟩ | hstep
  · -- reused as it is
    rw [hstep]
    rw [List.append_assoc] at hperm hserves
    obtain ⟨hperm', hserves'⟩ := served_insert (a := reused) (b := extended ++ extendedNc)
      hperm hserves ⟨hserved, howned⟩
    refine ⟨reused ++ [t], extended, extendedNc, by simp [hreused], hextended, hextendedNc,
      ?_, ?_⟩
    · simpa only [List.append_assoc, List.singleton_append, List.cons_append, List.nil_append]
        using hperm'
    · simpa only [List.append_assoc, List.singleton_append, List.cons_append, List.nil_append]
        using hserves'
  · -- extended, and certified
    rw [hstep]
    obtain ⟨hperm', hserves'⟩ := served_insert (a := reused ++ extended) (b := extendedNc)
      hperm hserves ⟨hserved, howned⟩
    refine ⟨reused, extended ++ [t], extendedNc, hreused, by simp [hextended], hextendedNc,
      ?_, ?_⟩
    · simpa only [List.append_assoc, List.singleton_append] using hperm'
    · simpa only [List.append_assoc, List.singleton_append] using hserves'
  · -- extended, and not certified
    rw [hstep]
    rw [← List.append_nil (reused ++ extended ++ extendedNc)] at hperm hserves
    obtain ⟨hperm', hserves'⟩ := served_insert hperm hserves ⟨hserved, howned⟩
    refine ⟨reused, extended, extendedNc ++ [t], hreused, hextended, by simp [hextendedNc],
      ?_, ?_⟩
    · simpa only [List.append_assoc] using hperm'
    · simpa only [List.append_assoc] using hserves'
  · -- kept for the storage resources
    rw [hstep]
    refine ⟨reused, extended, extendedNc, hreused, hextended, hextendedNc, ?_, hserves⟩
    rw [← List.append_assoc]
    exact hperm.append_right _

/-- After the first loop, each request is served by an owned blob or kept for the second. -/
theorem run_checkExisting_inv (epochsAhead : Nat) (persistence : BlobPersistence)
    (ownedBlobs : List Blob) (storeOptimizations : StoreOptimizations)
    (requests : List (VerifiedBlobMetadataWithId × Nat)) :
    (run (self.checkExisting epochsAhead persistence storeOptimizations.shouldCheckStatus
      ownedBlobs) ⟨[], [], [], []⟩ requests).Inv
      (u32Add self.writeCommitteeEpoch epochsAhead) epochsAhead ownedBlobs requests :=
  run_invariant_visited (fun _ request _ h => self.checkExisting_inv request h) requests [] _
    ⟨[], [], [], rfl, rfl, rfl, List.Perm.refl _, fun _ hs => by simp at hs⟩

/-! ### The second loop: storage resources -/

theorem bestResourceIdx_spec {availableResources : List StorageResource} {encodedLength idx : Nat}
    (h : bestResourceIdx availableResources encodedLength = some idx) :
    ∃ hidx : idx < availableResources.length,
      encodedLength ≤ availableResources[idx].storageSize := by
  obtain ⟨best, hbest, rfl⟩ := Option.map_eq_some_iff.mp h
  have hmem := List.mem_filter.mp (minBy_mem hbest)
  obtain ⟨-, hlt, heq⟩ := List.mem_zipIdx hmem.1
  refine ⟨by simpa using hlt, ?_⟩
  have hfits := hmem.2
  simp only [ge_iff_le, decide_eq_true_eq] at hfits
  simpa [heq] using hfits

theorem tryFrom_blobId {metadata : VerifiedBlobMetadataWithId} {objectMetadata : BlobObjectMetadata}
    (h : BlobObjectMetadata.tryFrom metadata = .ok objectMetadata) :
    objectMetadata.blobId = metadata.blobId := by
  obtain ⟨encodedSize, -, h⟩ := bind_eq_ok.mp h
  cases encodedSize with
  | none => cases h
  | some encodedSize =>
    cases h
    rfl

/-- What the second loop has done with the requests `done`, from the resources `available`:
each request is registered into a resource large enough for it, taken out of the available
ones, or left for a registration from scratch. -/
def StorageSelection.Inv (available : List StorageResource)
    (done : List (VerifiedBlobMetadataWithId × Nat)) (selection : StorageSelection) : Prop :=
  ∃ storageRequests freshRequests : List (VerifiedBlobMetadataWithId × Nat),
    (storageRequests ++ freshRequests).Perm done ∧
    List.Forall₂ (fun request registration => registration.1.blobId = request.1.blobId ∧
      request.2 ≤ registration.2.storageSize) storageRequests selection.reusedMetadataWithStorage ∧
    selection.reusedEncodedLengths = storageRequests.map (·.2) ∧
    selection.newMetadataList = freshRequests.map (·.1) ∧
    selection.newEncodedLengths = freshRequests.map (·.2) ∧
    (selection.reusedMetadataWithStorage.map (·.2) ++ selection.availableResources).Perm available

/-- A round of the second loop registers the request into the best resource, which leaves the
available ones, or leaves the request for a registration from scratch. -/
theorem selectStorage_inv {available : List StorageResource}
    {done : List (VerifiedBlobMetadataWithId × Nat)} {selection selection' : StorageSelection}
    {item : VerifiedBlobMetadataWithId × Nat} (h : selection.Inv available done)
    (hstep : selectStorage selection item = .ok selection') :
    selection'.Inv available (done ++ [item]) := by
  obtain ⟨storageRequests, freshRequests, hperm, hfits, hlengths, hnew, hnewLengths, hstorage⟩ := h
  cases hbest : bestResourceIdx selection.availableResources item.2 with
  | none =>
    -- left for a registration from scratch
    simp only [selectStorage, hbest, pure, Except.pure, Except.ok.injEq] at hstep
    subst hstep
    refine ⟨storageRequests, freshRequests ++ [item], ?_, hfits, hlengths, by simp [hnew],
      by simp [hnewLengths], hstorage⟩
    rw [← List.append_assoc]
    exact hperm.append_right _
  | some idx =>
    obtain ⟨hidx, hlarge⟩ := bestResourceIdx_spec hbest
    have hswap : swapRemove selection.availableResources idx =
        some (selection.availableResources[idx],
          (selection.availableResources.set idx
            (selection.availableResources.getLast (List.ne_nil_of_length_pos (by omega)))).dropLast) := by
      simp [swapRemove, hidx]
    simp only [selectStorage, hbest, hswap] at hstep
    obtain ⟨objectMetadata, hobject, hret⟩ := bind_eq_ok.mp hstep
    cases hret
    have hperm' : List.Perm (storageRequests ++ [item] ++ freshRequests) (done ++ [item]) := by
      rw [List.append_assoc, List.singleton_append]
      exact List.perm_middle.trans ((hperm.cons item).trans (List.perm_append_singleton _ _).symm)
    refine ⟨storageRequests ++ [item], freshRequests, hperm',
      List.rel_append hfits (List.Forall₂.cons ⟨tryFrom_blobId hobject, hlarge⟩ List.Forall₂.nil),
      by simp [hlengths], hnew, hnewLengths, ?_⟩
    -- the resource taken and the ones left are the ones available before
    simp only [List.map_append, List.map_cons, List.map_nil, List.append_assoc,
      List.singleton_append]
    exact ((swapRemove_perm hswap).append_left _).trans hstorage

theorem StorageSelection.Inv.perm {available : List StorageResource}
    {done done' : List (VerifiedBlobMetadataWithId × Nat)} {selection : StorageSelection}
    (h : selection.Inv available done) (hperm : done.Perm done') :
    selection.Inv available done' := by
  obtain ⟨storageRequests, freshRequests, hdone, hrest⟩ := h
  exact ⟨storageRequests, freshRequests, hdone.trans hperm, hrest⟩

/-- The requests no owned blob serves are matched with resources of the wallet that live to
the target epoch, fetched only when there are such requests. -/
theorem selectStorageResources_inv {epochsAhead : Nat}
    {blobProcessingItems : List (VerifiedBlobMetadataWithId × Nat)} {selection : StorageSelection}
    (h : self.selectStorageResources epochsAhead blobProcessingItems = .ok selection) :
    ∃ available : List StorageResource,
      (available = [] ∨ ∃ ownedStorage, self.suiClient.ownedStorage = .ok ownedStorage ∧
        available.Sublist ownedStorage) ∧
      (∀ storage ∈ available, u32Add self.writeCommitteeEpoch epochsAhead ≤ storage.endEpoch) ∧
      selection.Inv available blobProcessingItems := by
  by_cases hempty : blobProcessingItems.isEmpty
  · -- nothing to match: no call, and nothing chosen
    simp only [selectStorageResources, hempty, if_true, pure, Except.pure, Except.ok.injEq] at h
    subst h
    rw [List.isEmpty_iff.mp hempty]
    exact ⟨[], .inl rfl, (fun _ hs => by cases hs), [], [], List.Perm.refl _, List.Forall₂.nil, rfl, rfl, rfl,
      List.Perm.refl _⟩
  · simp only [selectStorageResources, hempty, Bool.false_eq_true, if_false] at h
    obtain ⟨ownedStorage, howned, h⟩ := bind_eq_ok.mp h
    set available := ownedStorage.filter fun storage =>
      storage.endEpoch ≥ u32Add epochsAhead self.writeCommitteeEpoch
    refine ⟨available, .inr ⟨ownedStorage, mapError_eq_ok.mp howned, List.filter_sublist⟩,
      fun storage hs => ?_, ?_⟩
    · have hlive := (List.mem_filter.mp hs).2
      simp only [ge_iff_le, decide_eq_true_eq] at hlive
      rwa [u32Add, Nat.add_comm] at hlive
    · -- the loop over the sorted requests keeps its invariant
      have hsorted := @foldlM_ok_invariant StoreFailure _ _ selectStorage
        (fun done _ selection => selection.Inv available done) _
        (fun _ _ _ _ _ _ hinv hstep => selectStorage_inv hinv hstep) _ _
        ⟨[], [], List.Perm.refl _, List.Forall₂.nil, rfl, rfl, rfl, by simp⟩ h
      exact hsorted.perm (List.mergeSort_perm _ _)

/-! ### The registrations -/

/-- The blobs `register_blobs` returns, one per request registered into a resource, serve those
requests. -/
theorem storage_served (targetEpoch epochsAhead : Nat) :
    ∀ {requests : List (VerifiedBlobMetadataWithId × Nat)}
      {registrations : List (BlobObjectMetadata × StorageResource)} {blobs : List Blob},
      List.Forall₂ (fun request registration => registration.1.blobId = request.1.blobId ∧
        request.2 ≤ registration.2.storageSize) requests registrations →
      List.Forall₂ (fun registration blob => blob.blobId = registration.1.blobId)
        registrations blobs →
      (∀ registration ∈ registrations, targetEpoch ≤ registration.2.endEpoch) →
      ∃ served : List Served, served.map (·.request) = requests ∧
        served.map (·.result) = (blobs.zip (requests.map (·.2))).map (fun blob =>
          (blob.1, RegisterBlobOp.reuseStorage blob.2)) ∧
        served.map (·.provision) = registrations.map (fun registration =>
          Provision.ownedStorage registration.1 registration.2) ∧
        ∀ s ∈ served, Serves targetEpoch epochsAhead s
  | [], [], [], .nil, .nil, _ => ⟨[], rfl, rfl, rfl, fun _ hs => by cases hs⟩
  | request :: requests, registration :: registrations, blob :: blobs, .cons hfit hfits,
      .cons hblob hblobs, hlive => by
    obtain ⟨served, hrequests, hresults, hprovisions, hserves⟩ := storage_served targetEpoch epochsAhead hfits hblobs
      (fun r hr => hlive r (List.mem_cons_of_mem _ hr))
    have hnew : Serves targetEpoch epochsAhead ⟨request, .ownedStorage registration.1
        registration.2, (blob, .reuseStorage request.2)⟩ :=
      Serves.reuseStorage hfit.1 (hblob.trans hfit.1) hfit.2 (hlive registration List.mem_cons_self)
    refine ⟨⟨request, .ownedStorage registration.1 registration.2,
      (blob, .reuseStorage request.2)⟩ :: served, by simp [hrequests], by simp [hresults],
      by simp [hprovisions], ?_⟩
    intro s hs
    rcases List.mem_cons.mp hs with rfl | hs
    · exact hnew
    · exact hserves s hs

/-- The blobs `reserve_and_register_blobs` returns, one per request, serve the requests. -/
theorem fresh_served (targetEpoch epochsAhead : Nat) :
    ∀ {requests : List (VerifiedBlobMetadataWithId × Nat)} {metadata : List BlobObjectMetadata}
      {blobs : List Blob},
      List.Forall₂ (fun request objectMetadata => objectMetadata.blobId = request.1.blobId)
        requests metadata →
      List.Forall₂ (fun objectMetadata blob => blob.blobId = objectMetadata.blobId) metadata blobs →
      ∃ served : List Served, served.map (·.request) = requests ∧
        served.map (·.result) = (blobs.zip (requests.map (·.2))).map (fun blob =>
          (blob.1, RegisterBlobOp.registerFromScratch blob.2 epochsAhead)) ∧
        ∀ s ∈ served, Serves targetEpoch epochsAhead s ∧ s.provision = .fresh
  | [], [], [], .nil, .nil => ⟨[], rfl, rfl, fun _ hs => by cases hs⟩
  | request :: requests, _ :: metadata, blob :: blobs, .cons hid hids, .cons hblob hblobs => by
    obtain ⟨served, hrequests, hresults, hserves⟩ := fresh_served targetEpoch epochsAhead hids hblobs
    have hnew : Serves targetEpoch epochsAhead
        ⟨request, .fresh, (blob, .registerFromScratch request.2 epochsAhead)⟩ :=
      Serves.registerFromScratch (hblob.trans hid)
    refine ⟨⟨request, .fresh, (blob, .registerFromScratch request.2 epochsAhead)⟩ :: served,
      by simp [hrequests], by simp [hresults], ?_⟩
    intro s hs
    rcases List.mem_cons.mp hs with rfl | hs
    · exact ⟨hnew, rfl⟩
    · exact hserves s hs

/-- `reserve_and_register_blob_op` registers each request from scratch. -/
theorem reserveAndRegisterBlobOp_served (targetEpoch : Nat) {persistence : BlobPersistence}
    {requests : List (VerifiedBlobMetadataWithId × Nat)} {registered : List (Blob × RegisterBlobOp)}
    (h : self.reserveAndRegisterBlobOp (requests.map (·.2)) epochsAhead (requests.map (·.1))
      persistence = .ok registered) :
    ∃ served : List Served, served.map (·.request) = requests ∧
      served.map (·.result) = registered ∧
      ∀ s ∈ served, Serves targetEpoch epochsAhead s ∧ s.provision = .fresh := by
  obtain ⟨metadata, hmetadata, h⟩ := bind_eq_ok.mp h
  obtain ⟨blobs, hblobs, hret⟩ := bind_eq_ok.mp h
  cases hret
  -- the metadata sent carries the requests' blob IDs
  have hids : List.Forall₂ (fun request objectMetadata => objectMetadata.blobId = request.1.blobId)
      requests metadata := by
    have hconv := List.forall₂_map_left_iff.mp (mapM_eq_ok_iff.mp hmetadata)
    exact hconv.imp fun _ _ hobject => tryFrom_blobId hobject
  obtain ⟨served, hrequests, hresults, hserves⟩ := fresh_served targetEpoch epochsAhead hids
    (self.suiClient.reserveAndRegisterBlobs_blobIds _ _ _ _ (mapError_eq_ok.mp hblobs))
  exact ⟨served, hrequests, hresults, hserves⟩

/-! ### Every request served -/

/-- The registrations of a list of served requests are those of the ones served by storage
resources. -/
theorem filterMap_registration_storage {served : List Served}
    {registrations : List (BlobObjectMetadata × StorageResource)}
    (h : served.map (·.provision) = registrations.map (fun registration =>
      Provision.ownedStorage registration.1 registration.2)) :
    served.filterMap (·.provision.registration?) = registrations := by
  have hcomp : served.filterMap (·.provision.registration?) =
      (served.map (·.provision)).filterMap Provision.registration? := by
    rw [List.filterMap_map]
    rfl
  rw [hcomp, h, List.filterMap_map]
  simp [Function.comp_def, Provision.registration?]

/-- Every run of `get_existing_or_register_with_resources` that returns serves each request
with one result: by a valid owned blob, by a storage resource of the wallet that
`register_blobs` registers it into, or from scratch. -/
theorem getExistingOrRegisterWithResources_serves {encodedLengths : List Nat}
    {metadataList : List VerifiedBlobMetadataWithId} {persistence : BlobPersistence}
    {storeOptimizations : StoreOptimizations} {results : List (Blob × RegisterBlobOp)}
    (h : self.getExistingOrRegisterWithResources encodedLengths epochsAhead metadataList
      persistence storeOptimizations = .ok results) :
    ∃ (ownedBlobs : List Blob) (ownedStorage : List StorageResource) (served : List Served),
      self.suiClient.ownedBlobs = .ok ownedBlobs ∧
      (served.map (·.request)).Perm (metadataList.zip encodedLengths) ∧
      served.map (·.result) = results ∧
      (∀ s ∈ served, Serves (u32Add self.writeCommitteeEpoch epochsAhead) epochsAhead s) ∧
      (∀ blob ∈ served.filterMap (·.provision.ownedBlob?), blob ∈ ownedBlobs) ∧
      (served.filterMap (·.provision.registration?) = [] ∨
        self.suiClient.ownedStorage = .ok ownedStorage) ∧
      ((served.filterMap (·.provision.registration?)).map (·.2)).Subperm ownedStorage ∧
      ∃ blobs, self.suiClient.registerBlobs (served.filterMap (·.provision.registration?))
        persistence = .ok blobs := by
  simp only [getExistingOrRegisterWithResources, bind_eq_ok] at h
  obtain ⟨ownedBlobs, howned, selection, hselection, blobs, hblobs, registered, hregistered,
    hret⟩ := h
  set groups := run (self.checkExisting epochsAhead persistence
    storeOptimizations.shouldCheckStatus ownedBlobs) ⟨[], [], [], []⟩
    (metadataList.zip encodedLengths) with hgroups
  set targetEpoch := u32Add self.writeCommitteeEpoch epochsAhead with htargetEpoch
  -- the first loop: owned blobs
  obtain ⟨reusedS, extendedS, extendedNcS, hreused, hextended, hextendedNc, hperm₁, hserves₁⟩ :=
    self.run_checkExisting_inv epochsAhead persistence ownedBlobs storeOptimizations
      (metadataList.zip encodedLengths)
  -- the second loop: storage resources
  obtain ⟨available, havailable, hlive, storageRequests, freshRequests, hperm₂, hfits, hlengths,
    hnew, hnewLengths, hstorage⟩ := self.selectStorageResources_inv hselection
  have hreusedAvailable : (selection.reusedMetadataWithStorage.map (·.2)).Subperm available :=
    (List.sublist_append_left _ _).subperm.trans hstorage.subperm
  -- the two registrations
  obtain ⟨storageS, hSrequests, hSresults, hSprovisions, hSserves⟩ :=
    storage_served targetEpoch epochsAhead hfits
      (self.suiClient.registerBlobs_blobIds _ _ _ (mapError_eq_ok.mp hblobs))
      (fun registration hr => hlive _ (hreusedAvailable.subset (List.mem_map_of_mem hr)))
  rw [hnewLengths, hnew] at hregistered
  obtain ⟨freshS, hFrequests, hFresults, hFserves⟩ :=
    self.reserveAndRegisterBlobOp_served targetEpoch hregistered
  -- what each block is provided with
  have hownedS : ∀ s ∈ reusedS ++ extendedS ++ extendedNcS, ∃ blob ∈ ownedBlobs,
      s.provision = .ownedBlob blob := fun s hs => (hserves₁ s hs).2
  have hstorageS : ∀ s ∈ storageS, ∃ registration ∈ selection.reusedMetadataWithStorage,
      s.provision = .ownedStorage registration.1 registration.2 := by
    intro s hs
    have hmem : s.provision ∈ storageS.map (·.provision) := List.mem_map_of_mem hs
    rw [hSprovisions] at hmem
    obtain ⟨registration, hr, hprovision⟩ := List.mem_map.mp hmem
    exact ⟨registration, hr, hprovision.symm⟩
  have hregistrations : (reusedS ++ storageS ++ freshS ++ extendedS ++
      extendedNcS).filterMap (·.provision.registration?) = selection.reusedMetadataWithStorage := by
    have hnone : ∀ s ∈ reusedS ++ freshS ++ extendedS ++ extendedNcS,
        s.provision.registration? = none := by
      intro s hs
      simp only [List.mem_append] at hs
      rcases hs with ((hs | hs) | hs) | hs
      · obtain ⟨blob, -, hprovision⟩ := hownedS s (by simp [hs])
        rw [hprovision]
        rfl
      · rw [(hFserves s hs).2]
        rfl
      all_goals
        obtain ⟨blob, -, hprovision⟩ := hownedS s (by simp [hs])
        rw [hprovision]
        rfl
    have hrest := List.filterMap_eq_nil_iff.mpr hnone
    simp only [List.filterMap_append, List.append_eq_nil_iff] at hrest ⊢
    rw [hrest.1.1.1, hrest.1.1.2, hrest.1.2, hrest.2, filterMap_registration_storage hSprovisions]
    simp
  -- the storage resources registered into are owned ones, each once
  obtain ⟨ownedStorage, hcalled, hsubperm⟩ : ∃ ownedStorage : List StorageResource,
      (selection.reusedMetadataWithStorage = [] ∨
        self.suiClient.ownedStorage = .ok ownedStorage) ∧
      (selection.reusedMetadataWithStorage.map (·.2)).Subperm ownedStorage := by
    rcases havailable with rfl | ⟨ownedStorage, hownedStorage, hsub⟩
    · have hnil := List.subperm_nil.mp hreusedAvailable
      exact ⟨[], .inl (List.map_eq_nil_iff.mp hnil), by rw [hnil]⟩
    · exact ⟨ownedStorage, .inr hownedStorage, hreusedAvailable.trans hsub.subperm⟩
  refine ⟨ownedBlobs, ownedStorage, reusedS ++ storageS ++ freshS ++ extendedS ++ extendedNcS,
    mapError_eq_ok.mp howned, ?_, ?_, ?_, ?_, by rwa [hregistrations], by rwa [hregistrations],
    by rw [hregistrations]; exact ⟨blobs, mapError_eq_ok.mp hblobs⟩⟩
  · -- the requests, rearranged: the owned blobs' first, then the loop over the others
    calc List.Perm ((reusedS ++ storageS ++ freshS ++ extendedS ++ extendedNcS).map (·.request))
          (reusedS.map (·.request) ++ ((storageS.map (·.request) ++ freshS.map (·.request)) ++
            (extendedS.map (·.request) ++ extendedNcS.map (·.request)))) := by
          simp only [List.map_append, List.append_assoc]
          exact List.Perm.refl _
      List.Perm _ (reusedS.map (·.request) ++ ((extendedS.map (·.request) ++
            extendedNcS.map (·.request)) ++ (storageRequests ++ freshRequests))) := by
          rw [hSrequests, hFrequests]
          exact List.perm_append_comm.append_left _
      List.Perm _ ((reusedS ++ extendedS ++ extendedNcS).map (·.request) ++
            groups.blobProcessingItems) := by
          simp only [List.map_append, List.append_assoc]
          exact ((hperm₂.append_left _).append_left _).append_left _
      List.Perm _ (metadataList.zip encodedLengths) := hperm₁
  · -- the results, block by block
    simp only [pure, Except.pure, Except.ok.injEq] at hret
    rw [← hret, ← hreused, ← hextended, ← hextendedNc, hlengths, ← hSresults, ← hFresults]
    simp only [List.map_append]
  · intro s hs
    simp only [List.mem_append] at hs
    rcases hs with (((hs | hs) | hs) | hs) | hs
    · exact (hserves₁ s (by simp [hs])).1
    · exact hSserves s hs
    · exact (hFserves s hs).1
    · exact (hserves₁ s (by simp [hs])).1
    · exact (hserves₁ s (by simp [hs])).1
  · -- only the first loop's blobs are owned ones, and it takes them from the wallet's
    intro blob hblob
    obtain ⟨s, hs, hsome⟩ := List.mem_filterMap.mp hblob
    simp only [List.mem_append] at hs
    rcases hs with (((hs | hs) | hs) | hs) | hs
    · obtain ⟨owned, hmem, hprovision⟩ := hownedS s (by simp [hs])
      rw [hprovision] at hsome
      cases hsome
      exact hmem
    · obtain ⟨registration, -, hprovision⟩ := hstorageS s hs
      rw [hprovision] at hsome
      cases hsome
    · rw [(hFserves s hs).2] at hsome
      cases hsome
    all_goals
      obtain ⟨owned, hmem, hprovision⟩ := hownedS s (by simp [hs])
      rw [hprovision] at hsome
      cases hsome
      exact hmem

/-- The blob IDs of the requests, cut to the encoded lengths there are. -/
theorem map_fst_zip_sublist {α β : Type} :
    ∀ (l₁ : List α) (l₂ : List β), ((l₁.zip l₂).map Prod.fst).Sublist l₁
  | [], _ => List.Sublist.slnil
  | _ :: _, [] => List.nil_sublist _
  | a :: l₁, _ :: l₂ => (map_fst_zip_sublist l₁ l₂).cons_cons a

/-- When the requests have distinct blob IDs, the owned blobs that serve them are distinct
blobs of the wallet. -/
theorem ownedBlobs_subperm {targetEpoch : Nat} {served : List Served}
    {metadataList : List VerifiedBlobMetadataWithId} {encodedLengths : List Nat}
    {ownedBlobs : List Blob} (hperm : (served.map (·.request)).Perm (metadataList.zip encodedLengths))
    (hserves : ∀ s ∈ served, Serves targetEpoch epochsAhead s)
    (howned : ∀ blob ∈ served.filterMap (·.provision.ownedBlob?), blob ∈ ownedBlobs)
    (hnodup : (metadataList.map (·.blobId)).Nodup) :
    (served.filterMap (·.provision.ownedBlob?)).Subperm ownedBlobs := by
  have hzip : ((metadataList.zip encodedLengths).map (·.1.blobId)).Sublist
      (metadataList.map (·.blobId)) := by
    have hfst := (map_fst_zip_sublist metadataList encodedLengths).map (·.blobId)
    rwa [List.map_map] at hfst
  have hrequests : (served.map (·.request.1.blobId)).Nodup := by
    have hmapped := (hperm.map (·.1.blobId)).nodup_iff.mpr (hnodup.sublist hzip)
    rwa [List.map_map] at hmapped
  have hblobIds := (ownedBlobIds_sublist hserves).nodup hrequests
  exact List.subperm_of_subset (List.Nodup.of_map _ hblobIds) howned

/-! ### The regrouping never misses a blob ID

Only the regrouping panics with `missing blob ID`: every other step fails with an error of a
call, or another panic. -/

section NoMissingBlobId

variable {blobId : BlobId}

theorem mapError_error_ne {β : Type} (x : Except StoreError β) :
    x.mapError StoreFailure.error ≠ .error (.missingBlobId blobId) := by
  cases x <;> simp

theorem mapError_panic_ne {β : Type} (x : Except String β) :
    x.mapError StoreFailure.panic ≠ .error (.missingBlobId blobId) := by
  cases x <;> simp

theorem tryFrom_ne (metadata : VerifiedBlobMetadataWithId) :
    BlobObjectMetadata.tryFrom metadata ≠ .error (.missingBlobId blobId) := by
  intro h
  rcases bind_eq_error.mp h with h | ⟨encodedSize, -, h⟩
  · exact mapError_panic_ne _ h
  · cases encodedSize <;> cases h

theorem selectStorage_ne (selection : StorageSelection) (item : VerifiedBlobMetadataWithId × Nat) :
    selectStorage selection item ≠ .error (.missingBlobId blobId) := by
  intro h
  unfold selectStorage at h
  split at h
  · split at h
    · cases h
    · rcases bind_eq_error.mp h with h | ⟨_, -, h⟩
      · exact tryFrom_ne _ h
      · cases h
  · cases h

theorem selectStorageResources_ne (epochsAhead : Nat)
    (blobProcessingItems : List (VerifiedBlobMetadataWithId × Nat)) :
    self.selectStorageResources epochsAhead blobProcessingItems ≠
      .error (.missingBlobId blobId) := by
  intro h
  unfold selectStorageResources at h
  split at h
  · cases h
  · rcases bind_eq_error.mp h with h | ⟨_, -, h⟩
    · exact mapError_error_ne _ h
    · exact foldlM_ne_error selectStorage_ne _ _ h

theorem reserveAndRegisterBlobOp_ne (encodedLengths : List Nat) (epochsAhead : Nat)
    (metadataList : List VerifiedBlobMetadataWithId) (persistence : BlobPersistence) :
    self.reserveAndRegisterBlobOp encodedLengths epochsAhead metadataList persistence ≠
      .error (.missingBlobId blobId) := by
  intro h
  rcases bind_eq_error.mp h with h | ⟨_, -, h⟩
  · exact mapM_ne_error tryFrom_ne _ h
  · rcases bind_eq_error.mp h with h | ⟨_, -, h⟩
    · exact mapError_error_ne _ h
    · cases h

theorem getExistingOrRegisterWithResources_ne (encodedLengths : List Nat) (epochsAhead : Nat)
    (metadataList : List VerifiedBlobMetadataWithId) (persistence : BlobPersistence)
    (storeOptimizations : StoreOptimizations) :
    self.getExistingOrRegisterWithResources encodedLengths epochsAhead metadataList persistence
      storeOptimizations ≠ .error (.missingBlobId blobId) := by
  intro h
  rcases bind_eq_error.mp h with h | ⟨_, -, h⟩
  · exact mapError_error_ne _ h
  rcases bind_eq_error.mp h with h | ⟨_, -, h⟩
  · exact self.selectStorageResources_ne _ _ h
  rcases bind_eq_error.mp h with h | ⟨_, -, h⟩
  · exact mapError_error_ne _ h
  rcases bind_eq_error.mp h with h | ⟨_, -, h⟩
  · exact self.reserveAndRegisterBlobOp_ne _ _ _ _ h
  · cases h

/-- The blob IDs of the results are those of the requests they serve. -/
theorem results_blobIds_perm {targetEpoch : Nat} {served : List Served}
    {requests : List (VerifiedBlobMetadataWithId × Nat)}
    (hperm : (served.map (·.request)).Perm requests)
    (hserves : ∀ s ∈ served, Serves targetEpoch epochsAhead s) :
    (requests.map (·.1.blobId)).Perm ((served.map (·.result)).map (·.1.blobId)) := by
  have hids : (served.map (·.result)).map (·.1.blobId) =
      (served.map (·.request)).map (·.1.blobId) := by
    simp only [List.map_map]
    exact List.map_congr_left fun s hs => (hserves s hs).blobId_eq
  rw [hids]
  exact (hperm.map _).symm

/-- Regrouping results that have the blobs' IDs serves every blob. -/
theorem popEach_mapError_ne {T : Type} {blobs : List (BlobWithStatus T)}
    {results : List (Blob × RegisterBlobOp)}
    (hperm : (blobs.map (·.metadata.blobId)).Perm (results.map (·.1.blobId))) :
    (popEach (fun blob => blob.metadata.blobId) (groupBy (fun result => result.1.blobId) results)
      blobs).mapError StoreFailure.missingBlobId ≠ .error (.missingBlobId blobId) := by
  obtain ⟨served, hserved, -⟩ := popEach_ok_of_perm hperm
  rw [hserved]
  simp

/-- The regrouping of `register_or_reuse_resources` never panics: the registration returns a
result for each blob, with its blob ID. -/
theorem registerOrReuseResources_ne_missingBlobId {T : Type} [ToString T]
    (blobs : List (BlobWithStatus T)) (epochsAhead : Nat) (persistence : BlobPersistence)
    (storeOptimizations : StoreOptimizations) :
    self.registerOrReuseResources blobs epochsAhead persistence storeOptimizations ≠
      .error (.missingBlobId blobId) := by
  intro h
  rcases bind_eq_error.mp h with hlengths | ⟨encodedLengths, hlengths, h⟩
  · -- computing the encoded sizes fails with an error or another panic
    refine mapM_ne_error (fun blob hblob => ?_) blobs hlengths
    rcases bind_eq_error.mp hblob with hsize | ⟨encodedSize, -, hsize⟩
    · exact mapError_panic_ne _ hsize
    · cases encodedSize <;> cases hsize
  -- the requests: the blobs' metadata, each with its encoded length
  have hlength := (mapM_eq_ok_iff.mp hlengths).length_eq
  set requests := (blobs.map (·.metadata)).zip encodedLengths with hrequestsDef
  have hfst : requests.map (·.1) = blobs.map (·.metadata) :=
    List.map_fst_zip (by rw [List.length_map, hlength])
  have hsnd : requests.map (·.2) = encodedLengths :=
    List.map_snd_zip (by rw [List.length_map, hlength])
  have hrequests : requests.map (·.1.blobId) = blobs.map (·.metadata.blobId) := by
    have hids := congrArg (List.map (·.blobId)) hfst
    simpa only [List.map_map, Function.comp_def] using hids
  dsimp only at h
  split at h
  · -- reusing the wallet's resources
    rcases bind_eq_error.mp h with hresults | ⟨results, hresults, h⟩
    · exact self.getExistingOrRegisterWithResources_ne _ _ _ _ _ hresults
    obtain ⟨-, -, served, -, hperm, hserved, hserves, -⟩ :=
      self.getExistingOrRegisterWithResources_serves hresults
    have hids := results_blobIds_perm hperm hserves
    rw [hrequests, hserved] at hids
    rcases bind_eq_error.mp h with hpop | ⟨_, -, h⟩
    · exact popEach_mapError_ne hids hpop
    · cases h
  · -- registering every blob from scratch
    rcases bind_eq_error.mp h with hresults | ⟨results, hresults, h⟩
    · exact self.reserveAndRegisterBlobOp_ne _ _ _ _ hresults
    rw [← hfst, ← hsnd] at hresults
    obtain ⟨served, hserved, hresults, hserves⟩ := self.reserveAndRegisterBlobOp_served 0
      hresults
    have hids := results_blobIds_perm (List.Perm.of_eq hserved) fun s hs => (hserves s hs).1
    rw [hrequests, hresults] at hids
    rcases bind_eq_error.mp h with hpop | ⟨_, -, h⟩
    · exact popEach_mapError_ne hids hpop
    · cases h

end NoMissingBlobId

/-- Choosing resources is sound. Every run of `get_existing_or_register_with_resources` that
returns serves each request (the metadata and encoded lengths side by side) with exactly one
result of its blob ID (`Serves`): a reused registration lives to the target epoch, an extended
one is extended to it, and a storage resource is large enough for the request's encoded
length and lives to the target epoch. The storage resources are those `register_blobs` is
called with, taken from the wallet's, each at most once; the owned blobs are the wallet's, each
at most once when the requests have distinct blob IDs. And `register_or_reuse_resources` never
panics with `missing blob ID`. -/
theorem get_existing_or_register_with_resources_sound (epochsAhead : Nat)
    (persistence : BlobPersistence) (storeOptimizations : StoreOptimizations) :
    (∀ (encodedLengths : List Nat) (metadataList : List VerifiedBlobMetadataWithId)
        (results : List (Blob × RegisterBlobOp)),
      self.getExistingOrRegisterWithResources encodedLengths epochsAhead metadataList persistence
        storeOptimizations = .ok results →
      ∃ (ownedBlobs : List Blob) (ownedStorage : List StorageResource) (served : List Served),
        self.suiClient.ownedBlobs = .ok ownedBlobs ∧
        (served.map (·.request)).Perm (metadataList.zip encodedLengths) ∧
        served.map (·.result) = results ∧
        (∀ s ∈ served, Serves (u32Add self.writeCommitteeEpoch epochsAhead) epochsAhead s) ∧
        (∀ blob ∈ served.filterMap (·.provision.ownedBlob?), blob ∈ ownedBlobs) ∧
        ((metadataList.map (·.blobId)).Nodup →
          (served.filterMap (·.provision.ownedBlob?)).Subperm ownedBlobs) ∧
        (served.filterMap (·.provision.registration?) = [] ∨
          self.suiClient.ownedStorage = .ok ownedStorage) ∧
        ((served.filterMap (·.provision.registration?)).map (·.2)).Subperm ownedStorage ∧
        ∃ blobs, self.suiClient.registerBlobs (served.filterMap (·.provision.registration?))
          persistence = .ok blobs) ∧
    ∀ (T : Type) [ToString T] (blobs : List (BlobWithStatus T)) (blobId : BlobId),
      self.registerOrReuseResources blobs epochsAhead persistence storeOptimizations ≠
        .error (.missingBlobId blobId) := by
  refine ⟨fun encodedLengths metadataList results h => ?_, fun T _ blobs blobId =>
    self.registerOrReuseResources_ne_missingBlobId blobs epochsAhead persistence
      storeOptimizations⟩
  obtain ⟨ownedBlobs, ownedStorage, served, howned, hperm, hresults, hserves, hmem, hcalled,
    hsubperm, hregister⟩ := self.getExistingOrRegisterWithResources_serves h
  exact ⟨ownedBlobs, ownedStorage, served, howned, hperm, hresults, hserves, hmem,
    ownedBlobs_subperm hperm hserves hmem, hcalled, hsubperm, hregister⟩

end ResourceManager

/-! ## Two requests for one blob ID -/

/-- A blob ID. -/
def walletBlobId : BlobId := ⟨Vector.replicate 32 7⟩

/-- A permanent, uncertified blob of the wallet for it, valid up to epoch 10. -/
def walletBlob : Blob :=
  ⟨⟨Vector.replicate 32 1⟩, walletBlobId, none, ⟨⟨Vector.replicate 32 2⟩, 10, 1000⟩, false⟩

/-- Metadata of the blob. -/
def walletMetadata : VerifiedBlobMetadataWithId := ⟨walletBlobId, ⟨.rs2, 5, []⟩⟩

/-- Registrations that return, for each request, a copy of the wallet's blob under the
request's blob ID. -/
def walletRegisterBlobs (requests : List (BlobObjectMetadata × StorageResource))
    (_ : BlobPersistence) : Except StoreError (List Blob) :=
  .ok (requests.map fun request => { walletBlob with blobId := request.1.blobId })

def walletReserveAndRegisterBlobs (_ : Nat) (requests : List BlobObjectMetadata)
    (_ : BlobPersistence) : Except StoreError (List Blob) :=
  .ok (requests.map fun request => { walletBlob with blobId := request.blobId })

theorem walletRegisterBlobs_blobIds (requests : List (BlobObjectMetadata × StorageResource))
    (persistence : BlobPersistence) (blobs : List Blob)
    (h : walletRegisterBlobs requests persistence = .ok blobs) :
    List.Forall₂ (fun request blob => blob.blobId = request.1.blobId) requests blobs := by
  cases h
  exact List.forall₂_map_right_iff.mpr (List.forall₂_same.mpr fun _ _ => rfl)

theorem walletReserveAndRegisterBlobs_blobIds (epochsAhead : Nat)
    (requests : List BlobObjectMetadata) (persistence : BlobPersistence) (blobs : List Blob)
    (h : walletReserveAndRegisterBlobs epochsAhead requests persistence = .ok blobs) :
    List.Forall₂ (fun request blob => blob.blobId = request.blobId) requests blobs := by
  cases h
  exact List.forall₂_map_right_iff.mpr (List.forall₂_same.mpr fun _ _ => rfl)

/-- A wallet with that one blob and no storage resource. -/
def walletClient : SuiContractClient where
  ownedBlobs := .ok [walletBlob]
  ownedStorage := .ok []
  registerBlobs := walletRegisterBlobs
  reserveAndRegisterBlobs := walletReserveAndRegisterBlobs
  registerBlobs_blobIds := walletRegisterBlobs_blobIds
  reserveAndRegisterBlobs_blobIds := walletReserveAndRegisterBlobs_blobIds

/-- The resource manager of that wallet, writing in epoch 1. -/
def walletManager : ResourceManager := ⟨walletClient, 1⟩

/-- Two requests for the same blob ID both get the wallet's one blob: `find` returns it for
each, so one owned `Blob` object is returned for two requests. -/
theorem get_existing_or_register_same_blob_twice :
    walletManager.suiClient.ownedBlobs = .ok [walletBlob] ∧
      walletManager.getExistingOrRegisterWithResources [100, 100] 2
        [walletMetadata, walletMetadata] .permanent ⟨true, true⟩ =
        .ok [(walletBlob, .reuseRegistration 100), (walletBlob, .reuseRegistration 100)] :=
  ⟨rfl, rfl⟩

/-- One request for the wallet's blob, stored for two epochs from epoch 1: it is served by the
wallet's own blob, whose registration is reused and lives to epoch `3`. -/
theorem get_existing_or_register_with_resources_sound_one_request :
    walletManager.getExistingOrRegisterWithResources [100] 2 [walletMetadata] .permanent
        ⟨true, true⟩ = .ok [(walletBlob, .reuseRegistration 100)] ∧
      ∃ served : List Served, served.map (·.result) = [(walletBlob, .reuseRegistration 100)] ∧
        (∀ s ∈ served, Serves 3 2 s) ∧
        (served.filterMap (·.provision.ownedBlob?)).Subperm [walletBlob] := by
  have hrun : walletManager.getExistingOrRegisterWithResources [100] 2 [walletMetadata]
      .permanent ⟨true, true⟩ = .ok [(walletBlob, .reuseRegistration 100)] := rfl
  obtain ⟨hsound, -⟩ :=
    walletManager.get_existing_or_register_with_resources_sound 2 .permanent ⟨true, true⟩
  obtain ⟨ownedBlobs, -, served, howned, -, hresults, hserves, -, hdistinct, -⟩ :=
    hsound _ _ _ hrun
  -- the wallet owns its one blob
  have hwallet : ownedBlobs = [walletBlob] := Except.ok.inj howned.symm
  rw [hwallet] at hdistinct
  exact ⟨hrun, served, hresults, hserves, hdistinct (by decide)⟩

end Walrus.Client
