import Walrus.Core.Types

/-! # The storage node's blob information (`node/storage/blob_info.rs`)

A storage node keeps two RocksDB tables fed by the blob events of the chain:

* the *aggregate* table maps a `BlobId` to a `BlobInfo`, which summarises all `Blob`
  objects of that blob ID by counters, maximal epochs and one initial certification epoch;
* the *per-object* table maps an `ObjectID` to a `PerObjectBlobInfo`, the exact status of
  one `Blob` object.

Both are updated by RocksDB merge operators: `Mergeable::merge` applied to the stored value
and each operand in turn (`merge_mergeable`). This module translates the value types, the
operands built from events (`BlobInfoMergeOperand::from`), the merge functions and the
query API (`is_certified`, `is_registered`, `to_blob_status`).

Translation notes.
* The `BlobInfo` and `PerObjectBlobInfo` enums of the source have one variant, `V1`, and
  dispatch every call to it; the model works with the `V1` types directly.
* The `u32` counters are `UInt32`: `+= 1` wraps in the release profile, `checked_sub(1)`
  with the `unwrap_or_else(|| 0)` fallback stops at zero, and the permanent `count` is a
  `NonZeroU32` with `saturating_add`.
* A `panic!`/`assert!` in a merge of the per-object table is an `Except.error` carrying the
  message; the merge of the aggregate table never panics (its `assert!(!deletable)` sits on
  the non-deletable branch only). `debug_assert!` and `tracing` calls are not modelled.
-/

namespace Walrus.BlobInfo

/-! ## Merge operands -/

/-- `BlobStatusChangeType`. -/
inductive BlobStatusChangeType where
  | register
  | certify
  -- only applied to a certified blob
  | extend
  | delete (wasCertified : Bool)
deriving DecidableEq, Repr

/-- `BlobStatusChangeInfo`. -/
structure BlobStatusChangeInfo where
  blobId : BlobId
  deletable : Bool
  epoch : Nat
  endEpoch : Nat
  statusEvent : EventID
deriving DecidableEq, Repr

/-- `BlobInfoMergeOperand`. -/
inductive BlobInfoMergeOperand where
  | markMetadataStored (isMetadataStored : Bool)
  | markInvalid (epoch : Nat) (statusEvent : EventID)
  | changeStatus (changeType : BlobStatusChangeType) (changeInfo : BlobStatusChangeInfo)
deriving DecidableEq, Repr

/-! ## Blob events and the operands built from them -/

/-- `BlobRegistered` (the fields the blob info reads). -/
structure BlobRegistered where
  epoch : Nat
  blobId : BlobId
  endEpoch : Nat
  deletable : Bool
  objectId : ObjectID
  eventId : EventID
deriving DecidableEq, Repr

/-- `BlobCertified`. For an extension, `epoch` is the original certification epoch. -/
structure BlobCertified where
  epoch : Nat
  blobId : BlobId
  endEpoch : Nat
  deletable : Bool
  objectId : ObjectID
  isExtension : Bool
  eventId : EventID
deriving DecidableEq, Repr

/-- `BlobDeleted`. -/
structure BlobDeleted where
  epoch : Nat
  blobId : BlobId
  endEpoch : Nat
  objectId : ObjectID
  wasCertified : Bool
  eventId : EventID
deriving DecidableEq, Repr

/-- `BlobEvent`. `InvalidBlobId` and `DenyListBlobDeleted` carry an epoch, a blob ID and an
event ID. -/
inductive BlobEvent where
  | registered (event : BlobRegistered)
  | certified (event : BlobCertified)
  | deleted (event : BlobDeleted)
  | invalidBlobId (epoch : Nat) (blobId : BlobId) (eventId : EventID)
  | denyListBlobDeleted (epoch : Nat) (blobId : BlobId) (eventId : EventID)
deriving DecidableEq, Repr

/-- `BlobEvent::object_id`. -/
def BlobEvent.objectId? : BlobEvent → Option ObjectID
  | .registered e => some e.objectId
  | .certified e => some e.objectId
  | .deleted e => some e.objectId
  | .invalidBlobId _ _ _ => none
  | .denyListBlobDeleted _ _ _ => none

/-- `BlobEvent::event_epoch`: `None` for an extension, whose event carries the epoch of the
first certification. -/
def BlobEvent.eventEpoch : BlobEvent → Option Nat
  | .registered e => some e.epoch
  | .certified e => if e.isExtension then none else some e.epoch
  | .deleted e => some e.epoch
  | .invalidBlobId epoch _ _ => some epoch
  | .denyListBlobDeleted epoch _ _ => some epoch

/-- `BlobInfoMergeOperand::from(&BlobEvent)`. A certification is an `Extend` when it is an
extension; a deletion is always of a deletable object. The `DenyListBlobDeleted` arm is a
`todo!()`, i.e. a panic. -/
def BlobInfoMergeOperand.ofEvent : BlobEvent → Except String BlobInfoMergeOperand
  | .registered e =>
    .ok (.changeStatus .register ⟨e.blobId, e.deletable, e.epoch, e.endEpoch, e.eventId⟩)
  | .certified e =>
    .ok (.changeStatus (if e.isExtension then .extend else .certify)
      ⟨e.blobId, e.deletable, e.epoch, e.endEpoch, e.eventId⟩)
  | .deleted e =>
    .ok (.changeStatus (.delete e.wasCertified) ⟨e.blobId, true, e.epoch, e.endEpoch, e.eventId⟩)
  | .invalidBlobId epoch _ eventId => .ok (.markInvalid epoch eventId)
  | .denyListBlobDeleted _ _ _ =>
    .error "DenyListBlobDeleted event handling is not yet implemented"

/-! ## Aggregate blob info -/

/-- `PermanentBlobInfoV1`: the number of permanent `Blob` objects with a given status, the
latest end epoch among them and the event that set it. -/
structure PermanentBlobInfoV1 where
  count : NonZeroU32
  endEpoch : Nat
  event : EventID
deriving DecidableEq

/-- `ValidBlobInfoV1`. The field defaults are `Default::default()`. -/
structure ValidBlobInfoV1 where
  isMetadataStored : Bool := false
  countDeletableTotal : UInt32 := 0
  countDeletableCertified : UInt32 := 0
  permanentTotal : Option PermanentBlobInfoV1 := none
  permanentCertified : Option PermanentBlobInfoV1 := none
  initialCertifiedEpoch : Option Nat := none
  latestSeenDeletableRegisteredEpoch : Option Nat := none
  latestSeenDeletableCertifiedEpoch : Option Nat := none
deriving DecidableEq

/-- `BlobInfoV1`. -/
inductive BlobInfoV1 where
  | invalid (epoch : Nat) (event : EventID)
  | valid (info : ValidBlobInfoV1)
deriving DecidableEq

namespace PermanentBlobInfoV1

/-- `PermanentBlobInfoV1::new_first`. -/
def newFirst (endEpoch : Nat) (event : EventID) : PermanentBlobInfoV1 :=
  { count := NonZeroU32.one, endEpoch := endEpoch, event := event }

/-- `PermanentBlobInfoV1::update`: optionally count one more object, and move to the change's
end epoch (and event) if it is later. -/
def update (self : PermanentBlobInfoV1) (changeInfo : BlobStatusChangeInfo)
    (increaseCount : Bool) : PermanentBlobInfoV1 :=
  let count := if increaseCount then self.count.saturatingAddOne else self.count
  if changeInfo.endEpoch > self.endEpoch then
    { count := count, endEpoch := changeInfo.endEpoch, event := changeInfo.statusEvent }
  else
    { self with count := count }

/-- `PermanentBlobInfoV1::update_optional`. -/
def updateOptional (existingInfo : Option PermanentBlobInfoV1)
    (changeInfo : BlobStatusChangeInfo) : Option PermanentBlobInfoV1 :=
  match existingInfo with
  | none => some (newFirst changeInfo.endEpoch changeInfo.statusEvent)
  | some info => some (info.update changeInfo true)

end PermanentBlobInfoV1

namespace ValidBlobInfoV1

open PermanentBlobInfoV1

/-- `ValidBlobInfoV1::is_certified`. An approximation by design: the latest end epochs are
never lowered when objects are deleted. -/
def isCertified (self : ValidBlobInfoV1) (currentEpoch : Nat) : Bool :=
  let existsCertifiedPermanentBlob :=
    self.permanentCertified.any fun p => p.endEpoch > currentEpoch
  let maybeExistsCertifiedDeletableBlob :=
    self.countDeletableCertified > 0 &&
      self.latestSeenDeletableCertifiedEpoch.any fun l => l > currentEpoch
  self.initialCertifiedEpoch.any (fun epoch => epoch ≤ currentEpoch) &&
    (existsCertifiedPermanentBlob || maybeExistsCertifiedDeletableBlob)

/-- `ValidBlobInfoV1::is_registered` (through `BlobInfoApi for BlobInfoV1`). -/
def isRegistered (self : ValidBlobInfoV1) (currentEpoch : Nat) : Bool :=
  let existsRegisteredPermanentBlob :=
    self.permanentTotal.any fun p => p.endEpoch > currentEpoch
  let maybeExistsRegisteredDeletableBlob :=
    self.countDeletableTotal > 0 &&
      self.latestSeenDeletableRegisteredEpoch.any fun l => l > currentEpoch
  existsRegisteredPermanentBlob || maybeExistsRegisteredDeletableBlob

/-- `maybe_increase_latest_deletable_registered_epoch` and its certified twin:
`Some(epoch.max(latest.unwrap_or_default()))`. -/
def maybeIncrease (latest : Option Nat) (epoch : Nat) : Option Nat :=
  some (max epoch (latest.getD 0))

/-- `decrement_deletable_counter_on_deletion` (release build): `checked_sub(1)`, falling back
to `0`. -/
def decrementDeletableCounterOnDeletion (counter : UInt32) : UInt32 :=
  if counter = 0 then 0 else counter - 1

/-- `decrement_blob_info_inner`: one permanent object less; the info disappears with the last
one. -/
def decrementBlobInfoInner : Option PermanentBlobInfoV1 → Option PermanentBlobInfoV1
  | none => none
  | some info =>
    if h : info.count.get = 1 then none
    else some { info with count := ⟨info.count.get - 1, by
      intro h0
      apply h
      have h1 : info.count.get = info.count.get - 1 + 1 := by simp
      rw [h1, h0]
      decide⟩ }

/-- `certify_permanent`: `none` is the `false` return (the update is rejected), `some c` the
new `permanent_certified`. -/
def certifyPermanent (permanentTotal permanentCertified : Option PermanentBlobInfoV1)
    (changeInfo : BlobStatusChangeInfo) : Option (Option PermanentBlobInfoV1) :=
  match permanentTotal with
  | none => none
  | some total =>
    if changeInfo.endEpoch > total.endEpoch then none
    else if total.count.get ≤ ((permanentCertified.map fun p => p.count.get).getD 0) then none
    else some (updateOptional permanentCertified changeInfo)

/-- `extend_permanent`. -/
def extendPermanent (permanentInfo : Option PermanentBlobInfoV1)
    (changeInfo : BlobStatusChangeInfo) : Option PermanentBlobInfoV1 :=
  permanentInfo.map fun info => info.update changeInfo false

/-- The part of `update_status` before the update of `initial_certified_epoch`: the counters
and permanent infos. `none` is one of its two early `return`s, which leave the blob info as
it was. -/
def updateCounters (self : ValidBlobInfoV1) (changeType : BlobStatusChangeType)
    (changeInfo : BlobStatusChangeInfo) : Option ValidBlobInfoV1 :=
  if changeInfo.deletable then
    match changeType with
    | .register =>
      some { self with
        countDeletableTotal := self.countDeletableTotal + 1
        latestSeenDeletableRegisteredEpoch :=
          maybeIncrease self.latestSeenDeletableRegisteredEpoch changeInfo.endEpoch }
    | .certify =>
      -- "attempt to certify a deletable blob before corresponding register"
      if self.countDeletableTotal ≤ self.countDeletableCertified then none
      else some { self with
        countDeletableCertified := self.countDeletableCertified + 1
        latestSeenDeletableCertifiedEpoch :=
          maybeIncrease self.latestSeenDeletableCertifiedEpoch changeInfo.endEpoch }
    | .extend =>
      some { self with
        latestSeenDeletableRegisteredEpoch :=
          maybeIncrease self.latestSeenDeletableRegisteredEpoch changeInfo.endEpoch
        latestSeenDeletableCertifiedEpoch :=
          maybeIncrease self.latestSeenDeletableCertifiedEpoch changeInfo.endEpoch }
    | .delete wasCertified =>
      some { self with
        countDeletableTotal := decrementDeletableCounterOnDeletion self.countDeletableTotal
        countDeletableCertified :=
          if wasCertified then decrementDeletableCounterOnDeletion self.countDeletableCertified
          else self.countDeletableCertified }
  else
    match changeType with
    | .register =>
      some { self with permanentTotal := updateOptional self.permanentTotal changeInfo }
    | .certify =>
      (certifyPermanent self.permanentTotal self.permanentCertified changeInfo).map
        fun certified => { self with permanentCertified := certified }
    | .extend =>
      some { self with
        permanentTotal := extendPermanent self.permanentTotal changeInfo
        permanentCertified := extendPermanent self.permanentCertified changeInfo }
    | .delete wasCertified =>
      some { self with
        permanentTotal := decrementBlobInfoInner self.permanentTotal
        permanentCertified :=
          if wasCertified then decrementBlobInfoInner self.permanentCertified
          else self.permanentCertified }

/-- `update_initial_certified_epoch`. -/
def updateInitialCertifiedEpoch (self : ValidBlobInfoV1) (newCertifiedEpoch : Nat)
    (force : Bool) : ValidBlobInfoV1 :=
  if force || self.initialCertifiedEpoch.all (fun existing => existing > newCertifiedEpoch) then
    { self with initialCertifiedEpoch := some newCertifiedEpoch }
  else self

/-- `maybe_unset_initial_certified_epoch`. -/
def maybeUnsetInitialCertifiedEpoch (self : ValidBlobInfoV1) : ValidBlobInfoV1 :=
  if self.countDeletableCertified = 0 && self.permanentCertified.isNone then
    { self with initialCertifiedEpoch := none }
  else self

/-- `ValidBlobInfoV1::update_status`. Whether the blob was certified is read before any
change; the early returns leave the value unchanged. -/
def updateStatus (self : ValidBlobInfoV1) (changeType : BlobStatusChangeType)
    (changeInfo : BlobStatusChangeInfo) : ValidBlobInfoV1 :=
  let wasCertified := self.isCertified changeInfo.epoch
  match self.updateCounters changeType changeInfo with
  | none => self
  | some updated =>
    match changeType with
    | .certify => updated.updateInitialCertifiedEpoch changeInfo.epoch (!wasCertified)
    | .delete _ => updated.maybeUnsetInitialCertifiedEpoch
    | .register | .extend => updated

/-- `ValidBlobInfoV1::check_invariants`, the documented `INV`s of the type as the tests
assert them: `true` when none of its assertions fails. -/
def checkInvariants (self : ValidBlobInfoV1) : Bool :=
  decide (self.countDeletableTotal ≥ self.countDeletableCertified) &&
  (match self.initialCertifiedEpoch with
    | none => self.countDeletableCertified == 0 && self.permanentCertified.isNone
    | some _ => decide (self.countDeletableCertified > 0) || self.permanentCertified.isSome) &&
  (match self.permanentTotal, self.permanentCertified with
    | none, some _ => false
    | some totalInner, some certifiedInner =>
      decide (totalInner.endEpoch ≥ certifiedInner.endEpoch) &&
        decide (totalInner.count.get ≥ certifiedInner.count.get)
    | _, _ => true) &&
  (match self.latestSeenDeletableRegisteredEpoch, self.latestSeenDeletableCertifiedEpoch with
    | none, some _ => false
    | some registered, some certified => decide (registered ≥ certified)
    | _, _ => true)

/-- `DeletableCounts`. -/
structure DeletableCounts where
  countDeletableTotal : UInt32
  countDeletableCertified : UInt32
deriving DecidableEq, Repr

end ValidBlobInfoV1

/-- `BlobStatus` (`walrus_storage_node_client::api`). -/
inductive BlobStatus where
  | nonexistent
  | invalid (event : EventID)
  | permanent (endEpoch : Nat) (isCertified : Bool) (statusEvent : EventID)
      (deletableCounts : ValidBlobInfoV1.DeletableCounts) (initialCertifiedEpoch : Option Nat)
  | deletable (initialCertifiedEpoch : Option Nat)
      (deletableCounts : ValidBlobInfoV1.DeletableCounts)
deriving DecidableEq

namespace ValidBlobInfoV1

/-- `ValidBlobInfoV1::to_blob_status`. The deletable counts are only reported while the
latest seen end epochs lie ahead. -/
def toBlobStatus (self : ValidBlobInfoV1) (currentEpoch : Nat) : BlobStatus :=
  let countDeletableTotal :=
    if self.latestSeenDeletableRegisteredEpoch.any (fun e => e > currentEpoch) then
      self.countDeletableTotal else 0
  let countDeletableCertified :=
    if self.latestSeenDeletableCertifiedEpoch.any (fun e => e > currentEpoch) then
      self.countDeletableCertified else 0
  let deletableCounts : DeletableCounts := ⟨countDeletableTotal, countDeletableCertified⟩
  let initialCertifiedEpoch := self.initialCertifiedEpoch
  -- the two `if let Some(..) = .. && *end_epoch > current_epoch` cases, in source order
  match self.permanentCertified.filter (fun p => p.endEpoch > currentEpoch),
      self.permanentTotal.filter (fun p => p.endEpoch > currentEpoch) with
  | some c, _ => .permanent c.endEpoch true c.event deletableCounts initialCertifiedEpoch
  | none, some t => .permanent t.endEpoch false t.event deletableCounts initialCertifiedEpoch
  | none, none =>
    if deletableCounts ≠ ⟨0, 0⟩ then .deletable initialCertifiedEpoch deletableCounts
    else .nonexistent

end ValidBlobInfoV1

namespace BlobInfoV1

/-- `BlobInfoV1::merge_with`: `Invalid` absorbs every operand, `MarkInvalid` turns a valid
info invalid, the other operands update the valid info. -/
def mergeWith : BlobInfoV1 → BlobInfoMergeOperand → BlobInfoV1
  | .invalid epoch event, _ => .invalid epoch event
  | .valid _, .markInvalid epoch statusEvent => .invalid epoch statusEvent
  | .valid info, .markMetadataStored isMetadataStored =>
    .valid { info with isMetadataStored := isMetadataStored }
  | .valid info, .changeStatus changeType changeInfo =>
    .valid (info.updateStatus changeType changeInfo)

/-- `BlobInfoV1::merge_new`: only a registration or an invalidation creates a value. -/
def mergeNew : BlobInfoMergeOperand → Option BlobInfoV1
  | .changeStatus .register changeInfo =>
    let first := PermanentBlobInfoV1.newFirst changeInfo.endEpoch changeInfo.statusEvent
    some (if changeInfo.deletable then
      .valid { countDeletableTotal := 1
               latestSeenDeletableRegisteredEpoch := some changeInfo.endEpoch }
    else .valid { permanentTotal := some first })
  | .markInvalid epoch statusEvent => some (.invalid epoch statusEvent)
  | .changeStatus _ _ => none
  | .markMetadataStored _ => none

/-- `Mergeable::merge`. -/
def merge (existingVal : Option BlobInfoV1) (operand : BlobInfoMergeOperand) :
    Option BlobInfoV1 :=
  match existingVal with
  | some val => some (val.mergeWith operand)
  | none => mergeNew operand

/-- `CertifiedBlobInfoApi::is_certified`. -/
def isCertified : BlobInfoV1 → Nat → Bool
  | .valid info, currentEpoch => info.isCertified currentEpoch
  | .invalid _ _, _ => false

/-- `CertifiedBlobInfoApi::initial_certified_epoch`. -/
def initialCertifiedEpoch : BlobInfoV1 → Option Nat
  | .valid info => info.initialCertifiedEpoch
  | .invalid _ _ => none

/-- `BlobInfoApi::is_registered`. -/
def isRegistered : BlobInfoV1 → Nat → Bool
  | .valid info, currentEpoch => info.isRegistered currentEpoch
  | .invalid _ _, _ => false

/-- `BlobInfoApi::to_blob_status`. -/
def toBlobStatus : BlobInfoV1 → Nat → BlobStatus
  | .invalid _ event, _ => .invalid event
  | .valid info, currentEpoch => info.toBlobStatus currentEpoch

end BlobInfoV1

/-! ## Per-object blob info -/

/-- `PerObjectBlobInfoMergeOperand`. -/
structure PerObjectBlobInfoMergeOperand where
  changeType : BlobStatusChangeType
  changeInfo : BlobStatusChangeInfo
deriving DecidableEq, Repr

/-- `PerObjectBlobInfoMergeOperand::from_blob_info_merge_operand`. -/
def PerObjectBlobInfoMergeOperand.fromBlobInfoMergeOperand :
    BlobInfoMergeOperand → Option PerObjectBlobInfoMergeOperand
  | .changeStatus changeType changeInfo => some ⟨changeType, changeInfo⟩
  | _ => none

/-- `PerObjectBlobInfoV1`. -/
structure PerObjectBlobInfoV1 where
  blobId : BlobId
  registeredEpoch : Nat
  certifiedEpoch : Option Nat
  endEpoch : Nat
  deletable : Bool
  event : EventID
  deleted : Bool
deriving DecidableEq

namespace PerObjectBlobInfoV1

/-- `PerObjectBlobInfoApi::is_registered`: not expired and not deleted. -/
def isRegistered (self : PerObjectBlobInfoV1) (currentEpoch : Nat) : Bool :=
  self.endEpoch > currentEpoch && !self.deleted

/-- `CertifiedBlobInfoApi::is_certified` of one object. -/
def isCertified (self : PerObjectBlobInfoV1) (currentEpoch : Nat) : Bool :=
  self.isRegistered currentEpoch && self.certifiedEpoch.any fun epoch => epoch ≤ currentEpoch

/-- `PerObjectBlobInfoV1::merge_with`. The `assert!`s and the `panic!` on a second
registration are errors carrying their message. -/
def mergeWith (self : PerObjectBlobInfoV1) (operand : PerObjectBlobInfoMergeOperand) :
    Except String PerObjectBlobInfoV1 :=
  let changeInfo := operand.changeInfo
  if self.blobId ≠ changeInfo.blobId then .error "assertion failed: blob_id"
  else if self.deletable ≠ changeInfo.deletable then .error "assertion failed: deletable"
  else if self.deleted then .error "assertion failed: !self.deleted"
  else
    let self := { self with event := changeInfo.statusEvent }
    match operand.changeType with
    | .register => .error "cannot register an already registered blob"
    | .certify =>
      if self.certifiedEpoch.isSome then .error "cannot certify an already certified blob"
      else .ok { self with certifiedEpoch := some changeInfo.epoch }
    | .extend =>
      if self.certifiedEpoch.isNone then .error "cannot extend an uncertified blob"
      else .ok { self with endEpoch := changeInfo.endEpoch }
    | .delete wasCertified =>
      if self.certifiedEpoch.isSome ≠ wasCertified then .error "assertion failed: was_certified"
      else .ok { self with deleted := true }

/-- `PerObjectBlobInfoV1::merge_new`: only a registration creates a value. -/
def mergeNew (operand : PerObjectBlobInfoMergeOperand) : Option PerObjectBlobInfoV1 :=
  match operand.changeType with
  | .register =>
    some { blobId := operand.changeInfo.blobId
           registeredEpoch := operand.changeInfo.epoch
           certifiedEpoch := none
           endEpoch := operand.changeInfo.endEpoch
           deletable := operand.changeInfo.deletable
           event := operand.changeInfo.statusEvent
           deleted := false }
  | _ => none

/-- `Mergeable::merge` for the per-object table. -/
def merge (existingVal : Option PerObjectBlobInfoV1) (operand : PerObjectBlobInfoMergeOperand) :
    Except String (Option PerObjectBlobInfoV1) :=
  match existingVal with
  | some val => (val.mergeWith operand).map some
  | none => .ok (mergeNew operand)

end PerObjectBlobInfoV1

/-! ## Spec lemmas

One equation per kind of change, for the callers that must not unfold `update_status`. -/

namespace PermanentBlobInfoV1

@[simp] theorem update_endEpoch (p : PermanentBlobInfoV1) (ci : BlobStatusChangeInfo) (b : Bool) :
    (p.update ci b).endEpoch = max p.endEpoch ci.endEpoch := by
  simp only [update]
  split <;> dsimp only <;> omega

@[simp] theorem update_count (p : PermanentBlobInfoV1) (ci : BlobStatusChangeInfo) (b : Bool) :
    (p.update ci b).count = if b then p.count.saturatingAddOne else p.count := by
  simp only [update]
  split <;> rfl

@[simp] theorem newFirst_endEpoch (e : Nat) (ev : EventID) : (newFirst e ev).endEpoch = e := rfl

@[simp] theorem newFirst_count_toNat (e : Nat) (ev : EventID) :
    (newFirst e ev).count.get.toNat = 1 := rfl

@[simp] theorem updateOptional_none (ci : BlobStatusChangeInfo) :
    updateOptional none ci = some (newFirst ci.endEpoch ci.statusEvent) := rfl

@[simp] theorem updateOptional_some (p : PermanentBlobInfoV1) (ci : BlobStatusChangeInfo) :
    updateOptional (some p) ci = some (p.update ci true) := rfl

@[simp] theorem updateOptional_isSome (x : Option PermanentBlobInfoV1) (ci : BlobStatusChangeInfo) :
    (updateOptional x ci).isSome = true := by
  cases x <;> rfl

end PermanentBlobInfoV1

@[simp] theorem ValidBlobInfoV1.extendPermanent_none (ci : BlobStatusChangeInfo) :
    ValidBlobInfoV1.extendPermanent none ci = none := rfl

@[simp] theorem ValidBlobInfoV1.extendPermanent_some (p : PermanentBlobInfoV1)
    (ci : BlobStatusChangeInfo) :
    ValidBlobInfoV1.extendPermanent (some p) ci = some (p.update ci false) := rfl

@[simp] theorem ValidBlobInfoV1.extendPermanent_isSome (x : Option PermanentBlobInfoV1)
    (ci : BlobStatusChangeInfo) :
    (ValidBlobInfoV1.extendPermanent x ci).isSome = x.isSome := by
  cases x <;> rfl

@[simp] theorem ValidBlobInfoV1.maybeIncrease_eq (l : Option Nat) (e : Nat) :
    ValidBlobInfoV1.maybeIncrease l e = some (max e (l.getD 0)) := rfl

namespace ValidBlobInfoV1

open PermanentBlobInfoV1

variable (v : ValidBlobInfoV1) (ci : BlobStatusChangeInfo)

theorem updateStatus_register_deletable (hd : ci.deletable = true) :
    v.updateStatus .register ci =
      { v with
        countDeletableTotal := v.countDeletableTotal + 1
        latestSeenDeletableRegisteredEpoch :=
          maybeIncrease v.latestSeenDeletableRegisteredEpoch ci.endEpoch } := by
  simp [updateStatus, updateCounters, hd]

theorem updateStatus_register_permanent (hd : ci.deletable = false) :
    v.updateStatus .register ci =
      { v with permanentTotal := updateOptional v.permanentTotal ci } := by
  simp [updateStatus, updateCounters, hd]

theorem updateStatus_certify_deletable (hd : ci.deletable = true)
    (hlt : v.countDeletableCertified < v.countDeletableTotal) :
    v.updateStatus .certify ci =
      ({ v with
        countDeletableCertified := v.countDeletableCertified + 1
        latestSeenDeletableCertifiedEpoch :=
          maybeIncrease v.latestSeenDeletableCertifiedEpoch ci.endEpoch }).updateInitialCertifiedEpoch
        ci.epoch (!v.isCertified ci.epoch) := by
  have hnle : ¬ v.countDeletableTotal ≤ v.countDeletableCertified := by
    rw [UInt32.le_iff_toNat_le]
    rw [UInt32.lt_iff_toNat_lt] at hlt
    omega
  simp [updateStatus, updateCounters, hd, hnle]

theorem updateStatus_certify_permanent (hd : ci.deletable = false)
    {certified : Option PermanentBlobInfoV1}
    (hc : certifyPermanent v.permanentTotal v.permanentCertified ci = some certified) :
    v.updateStatus .certify ci =
      ({ v with permanentCertified := certified }).updateInitialCertifiedEpoch
        ci.epoch (!v.isCertified ci.epoch) := by
  simp [updateStatus, updateCounters, hd, hc]

theorem updateStatus_extend_deletable (hd : ci.deletable = true) :
    v.updateStatus .extend ci =
      { v with
        latestSeenDeletableRegisteredEpoch :=
          maybeIncrease v.latestSeenDeletableRegisteredEpoch ci.endEpoch
        latestSeenDeletableCertifiedEpoch :=
          maybeIncrease v.latestSeenDeletableCertifiedEpoch ci.endEpoch } := by
  simp [updateStatus, updateCounters, hd]

theorem updateStatus_extend_permanent (hd : ci.deletable = false) :
    v.updateStatus .extend ci =
      { v with
        permanentTotal := extendPermanent v.permanentTotal ci
        permanentCertified := extendPermanent v.permanentCertified ci } := by
  simp [updateStatus, updateCounters, hd]

theorem updateStatus_delete_deletable (hd : ci.deletable = true) (wasCertified : Bool) :
    v.updateStatus (.delete wasCertified) ci =
      ({ v with
        countDeletableTotal := decrementDeletableCounterOnDeletion v.countDeletableTotal
        countDeletableCertified :=
          if wasCertified then decrementDeletableCounterOnDeletion v.countDeletableCertified
          else v.countDeletableCertified }).maybeUnsetInitialCertifiedEpoch := by
  simp [updateStatus, updateCounters, hd]

theorem updateStatus_delete_permanent (hd : ci.deletable = false) (wasCertified : Bool) :
    v.updateStatus (.delete wasCertified) ci =
      ({ v with
        permanentTotal := decrementBlobInfoInner v.permanentTotal
        permanentCertified :=
          if wasCertified then decrementBlobInfoInner v.permanentCertified
          else v.permanentCertified }).maybeUnsetInitialCertifiedEpoch := by
  simp [updateStatus, updateCounters, hd]

/-- An early return of `update_status` leaves the value as it was. -/
theorem updateStatus_of_updateCounters_eq_none {changeType : BlobStatusChangeType}
    (h : v.updateCounters changeType ci = none) : v.updateStatus changeType ci = v := by
  simp [updateStatus, h]

/-- `certify_permanent` rejects a certification when no permanent object is tracked, when it
ends after every registered object, or when every registered object is certified already. -/
theorem certifyPermanent_eq_none_iff {total certified : Option PermanentBlobInfoV1} :
    certifyPermanent total certified ci = none ↔
      total = none ∨ ∃ t, total = some t ∧
        (t.endEpoch < ci.endEpoch ∨ t.count.get ≤ (certified.map fun p => p.count.get).getD 0) := by
  cases total with
  | none => simp [certifyPermanent]
  | some t =>
    by_cases hend : ci.endEpoch > t.endEpoch
    · simp [certifyPermanent, hend]
    · by_cases hcount : t.count.get ≤ (certified.map fun p => p.count.get).getD 0
      · simp [certifyPermanent, hend, hcount]
      · simp only [certifyPermanent, if_neg hend, if_neg hcount, reduceCtorEq, false_iff]
        rintro (h | ⟨t', ht', hlt | hle⟩)
        · cases h
        · cases ht'
          exact hend hlt
        · cases ht'
          exact hcount hle

/-- The two early returns of `update_status`: the certification of a deletable object when every
registered one is certified, and the certification of a permanent object that
`certify_permanent` rejects. -/
theorem updateCounters_eq_none_iff {changeType : BlobStatusChangeType} :
    v.updateCounters changeType ci = none ↔ changeType = .certify ∧
      (ci.deletable = true ∧ v.countDeletableTotal ≤ v.countDeletableCertified ∨
        ci.deletable = false ∧ certifyPermanent v.permanentTotal v.permanentCertified ci = none) := by
  cases hd : ci.deletable <;> cases changeType <;> simp [updateCounters, hd]

/-- A permanent certification is accepted when it does not end after the registered objects
and fewer objects are certified than registered. -/
theorem certifyPermanent_eq_some {total : PermanentBlobInfoV1}
    {certified : Option PermanentBlobInfoV1} (hend : ci.endEpoch ≤ total.endEpoch)
    (hcount : ∀ c ∈ certified, c.count.get.toNat < total.count.get.toNat) :
    certifyPermanent (some total) certified ci = some (updateOptional certified ci) := by
  have hgt : ¬ ci.endEpoch > total.endEpoch := by omega
  have hle : ¬ total.count.get ≤ (certified.map fun p => p.count.get).getD 0 := by
    rw [UInt32.le_iff_toNat_le]
    cases certified with
    | none =>
      have := NonZeroU32.toNat_pos total.count
      simp only [Option.map_none, Option.getD_none, UInt32.toNat_zero]
      omega
    | some c =>
      have := hcount c rfl
      simp only [Option.map_some, Option.getD_some]
      omega
  simp [certifyPermanent, hgt, hle]

/-- The initial certification epoch after a certification: set to the new epoch, or kept
when it is already at most that. -/
theorem updateInitialCertifiedEpoch_eq (epoch : Nat) (force : Bool) :
    (v.updateInitialCertifiedEpoch epoch force).initialCertifiedEpoch = some epoch ∨
      ∃ i, v.initialCertifiedEpoch = some i ∧ i ≤ epoch ∧
        v.updateInitialCertifiedEpoch epoch force = v := by
  unfold updateInitialCertifiedEpoch
  split
  · exact .inl rfl
  · rename_i h
    right
    cases hi : v.initialCertifiedEpoch with
    | none => simp [hi] at h
    | some i =>
      refine ⟨i, rfl, ?_, rfl⟩
      have hgt : ¬ i > epoch := fun hgt => h (by simp [hi, hgt])
      omega

@[simp] theorem updateInitialCertifiedEpoch_counts (epoch : Nat) (force : Bool) :
    (v.updateInitialCertifiedEpoch epoch force).countDeletableCertified =
        v.countDeletableCertified ∧
      (v.updateInitialCertifiedEpoch epoch force).countDeletableTotal = v.countDeletableTotal ∧
      (v.updateInitialCertifiedEpoch epoch force).permanentTotal = v.permanentTotal ∧
      (v.updateInitialCertifiedEpoch epoch force).permanentCertified = v.permanentCertified ∧
      (v.updateInitialCertifiedEpoch epoch force).latestSeenDeletableRegisteredEpoch =
        v.latestSeenDeletableRegisteredEpoch ∧
      (v.updateInitialCertifiedEpoch epoch force).latestSeenDeletableCertifiedEpoch =
        v.latestSeenDeletableCertifiedEpoch := by
  unfold updateInitialCertifiedEpoch
  split <;> simp

@[simp] theorem maybeUnsetInitialCertifiedEpoch_counts :
    v.maybeUnsetInitialCertifiedEpoch.countDeletableCertified = v.countDeletableCertified ∧
      v.maybeUnsetInitialCertifiedEpoch.countDeletableTotal = v.countDeletableTotal ∧
      v.maybeUnsetInitialCertifiedEpoch.permanentTotal = v.permanentTotal ∧
      v.maybeUnsetInitialCertifiedEpoch.permanentCertified = v.permanentCertified ∧
      v.maybeUnsetInitialCertifiedEpoch.latestSeenDeletableRegisteredEpoch =
        v.latestSeenDeletableRegisteredEpoch ∧
      v.maybeUnsetInitialCertifiedEpoch.latestSeenDeletableCertifiedEpoch =
        v.latestSeenDeletableCertifiedEpoch := by
  unfold maybeUnsetInitialCertifiedEpoch
  split <;> simp

theorem maybeUnsetInitialCertifiedEpoch_initial :
    v.maybeUnsetInitialCertifiedEpoch.initialCertifiedEpoch =
      if v.countDeletableCertified = 0 ∧ v.permanentCertified = none then none
      else v.initialCertifiedEpoch := by
  unfold maybeUnsetInitialCertifiedEpoch
  by_cases h : v.countDeletableCertified = 0 ∧ v.permanentCertified = none
  · simp [h.1, h.2]
  · rw [if_neg h]
    split
    · rename_i h'
      simp only [Bool.and_eq_true, decide_eq_true_eq, Option.isNone_iff_eq_none] at h'
      exact absurd h' h
    · rfl

/-- A registration creates the blob info that a registration turns the default one into. -/
theorem mergeNew_register :
    BlobInfoV1.mergeNew (.changeStatus .register ci) =
      some (.valid (({} : ValidBlobInfoV1).updateStatus .register ci)) := by
  cases hd : ci.deletable
  · rw [updateStatus_register_permanent _ _ hd]
    simp [BlobInfoV1.mergeNew, hd, updateOptional]
  · rw [updateStatus_register_deletable _ _ hd]
    simp [BlobInfoV1.mergeNew, hd, maybeIncrease]

end ValidBlobInfoV1

namespace PerObjectBlobInfoV1

variable (p : PerObjectBlobInfoV1) (ci : BlobStatusChangeInfo)

@[simp] theorem merge_none_register :
    merge none ⟨.register, ci⟩ =
      .ok (some ⟨ci.blobId, ci.epoch, none, ci.endEpoch, ci.deletable, ci.statusEvent, false⟩) :=
  rfl

theorem isRegistered_eq_true {e : Nat} :
    p.isRegistered e = true ↔ e < p.endEpoch ∧ p.deleted = false := by
  simp [isRegistered]

theorem isCertified_eq_true {e : Nat} :
    p.isCertified e = true ↔
      (e < p.endEpoch ∧ p.deleted = false) ∧ ∃ t, p.certifiedEpoch = some t ∧ t ≤ e := by
  rw [isCertified, Bool.and_eq_true, isRegistered_eq_true]
  simp [Option.any_eq_true]

/-- A first certification of a live object that passes the checks records its epoch. -/
theorem mergeWith_certify (hb : p.blobId = ci.blobId) (hd : p.deletable = ci.deletable)
    (hdel : p.deleted = false) (hc : p.certifiedEpoch = none) :
    p.mergeWith ⟨.certify, ci⟩ =
      .ok { p with event := ci.statusEvent, certifiedEpoch := some ci.epoch } := by
  simp [mergeWith, hb, hd, hdel, hc]

/-- An extension of a certified live object moves its end epoch. -/
theorem mergeWith_extend (hb : p.blobId = ci.blobId) (hd : p.deletable = ci.deletable)
    (hdel : p.deleted = false) (hc : p.certifiedEpoch.isSome = true) :
    p.mergeWith ⟨.extend, ci⟩ = .ok { p with event := ci.statusEvent, endEpoch := ci.endEpoch } := by
  have hne : p.certifiedEpoch ≠ none := Option.isSome_iff_ne_none.mp hc
  simp [mergeWith, hb, hd, hdel, hne]

/-- A deletion of a live object with the right `was_certified` marks it deleted. -/
theorem mergeWith_delete (hb : p.blobId = ci.blobId) (hd : p.deletable = ci.deletable)
    (hdel : p.deleted = false) {wasCertified : Bool} (hc : p.certifiedEpoch.isSome = wasCertified) :
    p.mergeWith ⟨.delete wasCertified, ci⟩ = .ok { p with event := ci.statusEvent, deleted := true } := by
  simp [mergeWith, hb, hd, hdel, hc]

end PerObjectBlobInfoV1

/-- `+= 1` on a `u32` below its maximum. -/
theorem UInt32.toNat_add_one_of_lt {x : UInt32} (h : x.toNat < u32Max) :
    (x + 1).toNat = x.toNat + 1 := by
  rw [UInt32.toNat_add]
  simp [u32Max] at h ⊢
  omega

theorem ValidBlobInfoV1.decrementDeletableCounterOnDeletion_toNat (x : UInt32) :
    (decrementDeletableCounterOnDeletion x).toNat = x.toNat - 1 := by
  unfold decrementDeletableCounterOnDeletion
  split
  · rename_i h
    simp [h]
  · rename_i h
    have hpos : 1 ≤ x := by
      rw [UInt32.le_iff_toNat_le]
      have : x.toNat ≠ 0 := fun h0 => h (UInt32.toNat_inj.mp (by simpa using h0))
      simp
      omega
    rw [UInt32.toNat_sub_of_le _ _ hpos]
    rfl

/-! ## What a merge changes -/

/-- An extension of a permanent blob that is registered and not certified: `extend_permanent`
logs that no certified blob is tracked, and the registered info is extended all the same. -/
theorem extend_uncertified_permanent_changes_value :
    ({ permanentTotal := some (PermanentBlobInfoV1.newFirst 5 ⟨Vector.replicate 32 0, 0⟩) } :
      ValidBlobInfoV1).permanentCertified = none ∧
    ({ permanentTotal := some (PermanentBlobInfoV1.newFirst 5 ⟨Vector.replicate 32 0, 0⟩) } :
      ValidBlobInfoV1).updateStatus .extend
        ⟨⟨Vector.replicate 32 0⟩, false, 3, 10, ⟨Vector.replicate 32 0, 0⟩⟩ ≠
      { permanentTotal := some (PermanentBlobInfoV1.newFirst 5 ⟨Vector.replicate 32 0, 0⟩) } := by
  refine ⟨rfl, ?_⟩
  intro h
  have hend := congrArg (fun v : ValidBlobInfoV1 =>
    v.permanentTotal.map PermanentBlobInfoV1.endEpoch) h
  rw [ValidBlobInfoV1.updateStatus_extend_permanent _ _ rfl] at hend
  simp at hend

end Walrus.BlobInfo
