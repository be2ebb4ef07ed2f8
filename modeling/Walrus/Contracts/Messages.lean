import Walrus.Contracts.Move
import Walrus.Core.Messages

/-! # Certified messages in the contracts

`walrus::messages` reads the bytes that a quorum of storage nodes signed. It peels the intent
and the epoch off the front (`new_certified_message`), checks them, and then reads the body
according to the intent type: a blob ID and a persistence type for a certified blob
(`certify_blob_message`), a blob ID for an invalid one (`invalid_blob_id_message`).
`walrus::blob::derive_blob_id` hashes the BCS of the encoding type, the size and the root hash.

The reader is `sui::bcs`: a `u8`, `u32` or `u256` is read least significant byte first, an
address as its 32 bytes, and reading past the end aborts with `EOutOfRange`.

The bytes the Rust crates sign are read back as what they encode
(`rust_messages_decode_in_move`). The blob ID the contract derives is the one the crates
compute, read as a `u256`.
-/

namespace Walrus.System

open Machine

/-- `INTENT_VERSION`. -/
def intentVersion : Nat := 0

/-- `APP_ID`. -/
def appId : Nat := 3

/-- `BLOB_CERT_MSG_TYPE`. -/
def blobCertMsgType : Nat := 1

/-- `INVALID_BLOB_ID_MSG_TYPE`. -/
def invalidBlobIdMsgType : Nat := 2

/-! ## `sui::bcs` -/

/-- `peel_u8`, `peel_u32`, `peel_u256`: an integer of `width` bytes. -/
def peelLe (width : Nat) (bytes : List UInt8) : Except Abort (Nat × List UInt8) :=
  match Bcs.peel width bytes with
  | some (value, rest) => .ok (Bcs.leNat value.toList, rest)
  | none => .error .outOfRange

def peelU8 : List UInt8 → Except Abort (Nat × List UInt8) := peelLe 1

def peelU32 : List UInt8 → Except Abort (Nat × List UInt8) := peelLe 4

def peelU256 : List UInt8 → Except Abort (Nat × List UInt8) := peelLe 32

/-- `peel_address`, taken to an `ID`. -/
def peelAddress (bytes : List UInt8) : Except Abort (ObjectID × List UInt8) :=
  match Bcs.peel 32 bytes with
  | some (address, rest) => .ok (⟨address⟩, rest)
  | none => .error .outOfRange

/-! ## Messages -/

/-- `CertifiedMessage`. -/
structure CertifiedMessage where
  intentType : Nat
  intentVersion : Nat
  certEpoch : Nat
  message : List UInt8
  stakeSupport : Nat

/-- `BlobPersistenceType`. -/
inductive BlobPersistenceType where
  | permanent
  | deletable (objectId : ObjectID)
deriving DecidableEq, Repr

/-- `CertifiedBlobMessage`. -/
structure CertifiedBlobMessage where
  blobId : Nat
  blobPersistenceType : BlobPersistenceType
deriving DecidableEq, Repr

/-- `CertifiedInvalidBlobId`. -/
structure CertifiedInvalidBlobId where
  blobId : Nat
deriving DecidableEq, Repr

/-- `new_certified_message`: the header is checked, the rest is the message. -/
def newCertifiedMessage (messageBytes : List UInt8) (committeeEpoch stakeSupport : Nat) :
    Except Abort CertifiedMessage := do
  let (intentType, bytes) ← peelU8 messageBytes
  let (intentVersion', bytes) ← peelU8 bytes
  unless intentVersion' = intentVersion do throw .incorrectIntentVersion
  let (intentApp, bytes) ← peelU8 bytes
  unless intentApp = appId do throw .incorrectAppId
  let (certEpoch, bytes) ← peelU32 bytes
  unless certEpoch = committeeEpoch do throw .incorrectEpoch
  pure ⟨intentType, intentVersion', certEpoch, bytes, stakeSupport⟩

/-- `peel_blob_persistence_type`. -/
def peelBlobPersistenceType (bytes : List UInt8) :
    Except Abort (BlobPersistenceType × List UInt8) := do
  let (typeId, bytes) ← peelU8 bytes
  if typeId = 0 then return (.permanent, bytes)
  if typeId = 1 then
    let (objectId, bytes) ← peelAddress bytes
    return (.deletable objectId, bytes)
  throw .invalidBlobPersistenceType

/-- `certify_blob_message`. Bytes after the persistence type are left unread on purpose. -/
def certifyBlobMessage (message : CertifiedMessage) : Except Abort CertifiedBlobMessage := do
  unless message.intentType = blobCertMsgType do throw .invalidMsgType
  let (blobId, bytes) ← peelU256 message.message
  let (blobPersistenceType, _) ← peelBlobPersistenceType bytes
  pure ⟨blobId, blobPersistenceType⟩

/-- `invalid_blob_id_message`. -/
def invalidBlobIdMessage (message : CertifiedMessage) : Except Abort CertifiedInvalidBlobId := do
  unless message.intentType = invalidBlobIdMsgType do throw .invalidMsgType
  let (blobId, _) ← peelU256 message.message
  pure ⟨blobId⟩

/-- `blob::derive_blob_id`: the hash of the BCS of `BlobIdDerivation`, read as a `u256`. -/
def deriveBlobId (blake2b256 : List UInt8 → Vector UInt8 32) (rootHash encodingType size : Nat) :
    Except Abort Nat := do
  let serialized := [UInt8.ofNat encodingType] ++ Bcs.leBytes 8 size ++ Bcs.leBytes 32 rootHash
  let encoded := blake2b256 serialized
  let (blobId, _) ← peelU256 encoded.toList
  pure blobId

/-! ## Reading the bytes of the Rust messages -/

theorem peelLe_append {width : Nat} {xs ys : List UInt8} (h : xs.length = width) :
    peelLe width (xs ++ ys) = .ok (Bcs.leNat xs, ys) := by
  unfold peelLe
  rw [Bcs.peel_append h]
  rfl

theorem peelU8_cons (b : UInt8) (ys : List UInt8) : peelU8 (b :: ys) = .ok (b.toNat, ys) := by
  have h := @peelLe_append 1 [b] ys rfl
  simp only [List.singleton_append, Bcs.leNat, Nat.mul_zero, Nat.add_zero] at h
  exact h

theorem peelAddress_append (objectId : ObjectID) (ys : List UInt8) :
    peelAddress (objectId.bytes.toList ++ ys) = .ok (objectId, ys) := by
  unfold peelAddress
  rw [Bcs.peel_append (by simp)]
  rfl

/-- The persistence type of the crates, as the contract reads it. -/
def BlobPersistenceType.ofRust : Messages.BlobPersistenceType → BlobPersistenceType
  | .permanent => .permanent
  | .deletable objectId => .deletable objectId

theorem peelBlobPersistenceType_toBcs (p : Messages.BlobPersistenceType) (ys : List UInt8) :
    peelBlobPersistenceType (p.toBcs ++ ys) = .ok (.ofRust p, ys) := by
  cases p with
  | permanent =>
    simp only [Messages.BlobPersistenceType.toBcs, List.cons_append, List.nil_append]
    unfold peelBlobPersistenceType
    rw [peelU8_cons]
    rfl
  | deletable objectId =>
    simp only [Messages.BlobPersistenceType.toBcs, List.cons_append]
    unfold peelBlobPersistenceType
    rw [peelU8_cons]
    simp only [bind, Except.bind]
    rw [peelAddress_append]
    rfl

/-- The header the crates write passes `new_certified_message` exactly at its own epoch. -/
theorem newCertifiedMessage_storage (type : UInt8) (epoch : UInt32) (body : List UInt8)
    (committeeEpoch stakeSupport : Nat) :
    newCertifiedMessage ([type, Messages.intentVersionDefault, Messages.intentAppIdStorage] ++
        Bcs.leBytes 4 epoch.toNat ++ body) committeeEpoch stakeSupport =
      if epoch.toNat = committeeEpoch then .ok ⟨type.toNat, intentVersion, epoch.toNat, body, stakeSupport⟩
      else .error .incorrectEpoch := by
  have hepoch : peelU32 (Bcs.leBytes 4 epoch.toNat ++ body) = .ok (epoch.toNat, body) := by
    unfold peelU32
    rw [peelLe_append (Bcs.length_leBytes 4 _), Bcs.leNat_leBytes epoch.toNat_lt]
  simp only [List.cons_append, List.nil_append]
  unfold newCertifiedMessage
  rw [peelU8_cons]
  simp only [bind, Except.bind]
  rw [peelU8_cons]
  simp only [Messages.intentVersionDefault, intentVersion, UInt8.toNat_zero, if_true, pure,
    Except.pure]
  rw [peelU8_cons]
  simp only [Messages.intentAppIdStorage, appId]
  simp only [hepoch]
  by_cases he : epoch.toNat = committeeEpoch
  case pos =>
    subst he
    simp
  case neg => simp [he, throw, throwThe, MonadExceptOf.throw]

/-- A `u256` read from 32 bytes that are all there is. -/
theorem peelU256_vector (v : Vector UInt8 32) : peelU256 v.toList = .ok (Bcs.leNat v.toList, []) := by
  have h := @peelLe_append 32 v.toList [] (by simp)
  rw [List.append_nil] at h
  exact h

/-- The contract hashes the bytes the crates hash. -/
theorem deriveBlobId_fromMetadata (blake2b256 : List UInt8 → Vector UInt8 32)
    (merkleRoot : Vector UInt8 32) (encoding : Encoding.EncodingType) (size : UInt64) :
    deriveBlobId blake2b256 (Bcs.leNat merkleRoot.toList) encoding.toU8.toNat size.toNat =
      .ok (Bcs.leNat (BlobId.fromMetadata blake2b256 merkleRoot encoding size).bytes.toList) := by
  -- the root hash, written back as 32 bytes, is the root
  have hroot : Bcs.leBytes 32 (Bcs.leNat merkleRoot.toList) = merkleRoot.toList := by
    have h := Bcs.leBytes_leNat merkleRoot.toList
    rw [Vector.length_toList] at h
    exact h
  unfold deriveBlobId BlobId.fromMetadata
  simp only [UInt8.ofNat_toNat, hroot, peelU256_vector, bind, Except.bind, pure, Except.pure]

/-- The messages of the crates decode in the contracts to what they carry. A confirmation of
`walrus-core` passes `new_certified_message` at its own epoch and `certify_blob_message`, with
the blob ID read as a little-endian `u256` and the same persistence type; at any other epoch it
aborts. An `InvalidBlobIdMsg` passes `invalid_blob_id_message` with the same `u256`. And
`derive_blob_id` of the root's `u256` is the `u256` of the crates' blob ID. -/
theorem rust_messages_decode_in_move (blake2b256 : List UInt8 → Vector UInt8 32) :
    (∀ (epoch : UInt32) (blobId : BlobId) (p : Messages.BlobPersistenceType) (stakeSupport : Nat),
      (newCertifiedMessage (Messages.Confirmation.new epoch blobId p).toBcs epoch.toNat
          stakeSupport >>= certifyBlobMessage) =
        .ok ⟨Bcs.leNat blobId.bytes.toList, .ofRust p⟩) ∧
    (∀ (epoch : UInt32) (blobId : BlobId) (p : Messages.BlobPersistenceType)
      (committeeEpoch stakeSupport : Nat), committeeEpoch ≠ epoch.toNat →
      newCertifiedMessage (Messages.Confirmation.new epoch blobId p).toBcs committeeEpoch
          stakeSupport = .error .incorrectEpoch) ∧
    (∀ (epoch : UInt32) (blobId : BlobId) (stakeSupport : Nat),
      (newCertifiedMessage (Messages.InvalidBlobIdMsg.new epoch blobId).toBcs epoch.toNat
          stakeSupport >>= invalidBlobIdMessage) = .ok ⟨Bcs.leNat blobId.bytes.toList⟩) ∧
    (∀ (merkleRoot : Vector UInt8 32) (encoding : Encoding.EncodingType) (size : UInt64),
      deriveBlobId blake2b256 (Bcs.leNat merkleRoot.toList) encoding.toU8.toNat size.toNat =
        .ok (Bcs.leNat (BlobId.fromMetadata blake2b256 merkleRoot encoding size).bytes.toList)) := by
  refine ⟨?confirmation, ?otherEpoch, ?invalid, deriveBlobId_fromMetadata blake2b256⟩
  case confirmation =>
    intro epoch blobId p stakeSupport
    rw [Messages.toBcs_confirmation_new, List.append_assoc, newCertifiedMessage_storage,
      if_pos rfl]
    have htype : Messages.blobCertMsg.toNat = blobCertMsgType := rfl
    have hid : peelU256 (blobId.bytes.toList ++ p.toBcs) =
        .ok (Bcs.leNat blobId.bytes.toList, p.toBcs) :=
      peelLe_append (by simp)
    have hp := peelBlobPersistenceType_toBcs p []
    rw [List.append_nil] at hp
    simp only [bind, Except.bind, certifyBlobMessage, htype, ↓reduceIte, hid, hp, pure,
      Except.pure]
  case otherEpoch =>
    intro epoch blobId p committeeEpoch stakeSupport hne
    rw [Messages.toBcs_confirmation_new, List.append_assoc, newCertifiedMessage_storage,
      if_neg (Ne.symm hne)]
  case invalid =>
    intro epoch blobId stakeSupport
    rw [Messages.toBcs_invalidBlobIdMsg_new, newCertifiedMessage_storage, if_pos rfl]
    have htype : Messages.invalidBlobIdMsg.toNat = invalidBlobIdMsgType := rfl
    simp only [bind, Except.bind, invalidBlobIdMessage, htype, ↓reduceIte, peelU256_vector, pure,
      Except.pure]

theorem rust_messages_decode_in_move_other_epoch :
    (6 : Nat) ≠ (5 : UInt32).toNat ∧
      newCertifiedMessage (Messages.Confirmation.new 5 ⟨Vector.replicate 32 0⟩ .permanent).toBcs 6 0 =
        .error .incorrectEpoch :=
  ⟨by decide, (rust_messages_decode_in_move fun _ => Vector.replicate 32 0).2.1 5
    ⟨Vector.replicate 32 0⟩ .permanent 6 0 (by decide)⟩

end Walrus.System
