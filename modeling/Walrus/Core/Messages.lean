import Walrus.Core.Types
import Walrus.Encoding.Config
import Walrus.Machine.Bcs

/-! # Protocol messages of `walrus-core` and their BCS bytes

The storage nodes sign messages that the contracts later read: a `Confirmation` that a blob
is stored, and an `InvalidBlobIdMsg`. Each is a `ProtocolMessage`: an intent (type, version,
app), the epoch and the contents. The bytes that are signed and sent on chain are the BCS of
the message as `serde` derives it:
* a struct is its fields in order, and a newtype struct is its field;
* a `u8` is one byte, a `u32` four bytes least significant first, a `[u8; 32]` its bytes;
* an enum is its variant index (one byte for the first 128 variants) followed by the
  variant's fields.

`BlobId::from_metadata` hashes the encoding type, the length and the Merkle root, in that
order, which is the BCS of the three. The hash is a parameter: both sides use Blake2b-256.
-/

namespace Walrus

open Machine Encoding

/-- The BCS of a `BlobId`, a `[u8; 32]`. -/
def BlobId.toBcs (blobId : BlobId) : List UInt8 := blobId.bytes.toList

/-- `BlobId::from_metadata`, over the bytes of the Merkle root. -/
def BlobId.fromMetadata (blake2b256 : List UInt8 → Vector UInt8 32)
    (merkleRoot : Vector UInt8 32) (encoding : EncodingType) (unencodedLength : UInt64) :
    BlobId :=
  -- This is equivalent to the bcs encoding of the encoding type,
  -- unencoded length, and merkle root.
  ⟨blake2b256 ([encoding.toU8] ++ Bcs.leBytes 8 unencodedLength.toNat ++ merkleRoot.toList)⟩

end Walrus

namespace Walrus.Messages

open Machine Encoding

/-- `IntentType::BLOB_CERT_MSG`. -/
def blobCertMsg : UInt8 := 1

/-- `IntentType::INVALID_BLOB_ID_MSG`. -/
def invalidBlobIdMsg : UInt8 := 2

/-- `IntentVersion::DEFAULT`. -/
def intentVersionDefault : UInt8 := 0

/-- `IntentAppId::STORAGE`. -/
def intentAppIdStorage : UInt8 := 3

/-- `Intent`. -/
structure Intent where
  type : UInt8
  version : UInt8
  appId : UInt8
deriving DecidableEq, Repr

/-- `Intent::storage`. -/
def Intent.storage (type : UInt8) : Intent := ⟨type, intentVersionDefault, intentAppIdStorage⟩

/-- `ProtocolMessage`. -/
structure ProtocolMessage (T : Type) where
  intent : Intent
  epoch : UInt32
  messageContents : T

/-- `BlobPersistenceType`; a `SuiObjectId` is the 32 bytes of an object ID. -/
inductive BlobPersistenceType where
  | permanent
  | deletable (objectId : ObjectID)
deriving DecidableEq, Repr

/-- `StorageConfirmationBody`. -/
structure StorageConfirmationBody where
  blobId : BlobId
  blobType : BlobPersistenceType

/-- `Confirmation`, a newtype over its protocol message. -/
structure Confirmation where
  inner : ProtocolMessage StorageConfirmationBody

/-- `Confirmation::new`. -/
def Confirmation.new (epoch : UInt32) (blobId : BlobId) (blobType : BlobPersistenceType) :
    Confirmation :=
  ⟨⟨Intent.storage blobCertMsg, epoch, ⟨blobId, blobType⟩⟩⟩

/-- `InvalidBlobIdMsg`, a newtype over its protocol message. -/
structure InvalidBlobIdMsg where
  inner : ProtocolMessage BlobId

/-- `InvalidBlobIdMsg::new`. -/
def InvalidBlobIdMsg.new (epoch : UInt32) (blobId : BlobId) : InvalidBlobIdMsg :=
  ⟨⟨Intent.storage invalidBlobIdMsg, epoch, blobId⟩⟩

/-! ## BCS -/

def Intent.toBcs (intent : Intent) : List UInt8 := [intent.type, intent.version, intent.appId]

def ProtocolMessage.toBcs {T : Type} (contents : T → List UInt8) (message : ProtocolMessage T) :
    List UInt8 :=
  message.intent.toBcs ++ Bcs.leBytes 4 message.epoch.toNat ++ contents message.messageContents

def BlobPersistenceType.toBcs : BlobPersistenceType → List UInt8
  | .permanent => [0]
  | .deletable objectId => 1 :: objectId.bytes.toList

def StorageConfirmationBody.toBcs (body : StorageConfirmationBody) : List UInt8 :=
  body.blobId.toBcs ++ body.blobType.toBcs

def Confirmation.toBcs (confirmation : Confirmation) : List UInt8 :=
  confirmation.inner.toBcs StorageConfirmationBody.toBcs

def InvalidBlobIdMsg.toBcs (message : InvalidBlobIdMsg) : List UInt8 :=
  message.inner.toBcs BlobId.toBcs

/-- The bytes of a confirmation: the intent, the epoch, the blob ID and the persistence
type. -/
theorem toBcs_confirmation_new (epoch : UInt32) (blobId : BlobId)
    (blobType : BlobPersistenceType) :
    (Confirmation.new epoch blobId blobType).toBcs =
      [blobCertMsg, intentVersionDefault, intentAppIdStorage] ++ Bcs.leBytes 4 epoch.toNat ++
        blobId.bytes.toList ++ blobType.toBcs := by
  simp [Confirmation.toBcs, Confirmation.new, ProtocolMessage.toBcs, Intent.toBcs, Intent.storage,
    StorageConfirmationBody.toBcs, BlobId.toBcs]

theorem toBcs_invalidBlobIdMsg_new (epoch : UInt32) (blobId : BlobId) :
    (InvalidBlobIdMsg.new epoch blobId).toBcs =
      [invalidBlobIdMsg, intentVersionDefault, intentAppIdStorage] ++ Bcs.leBytes 4 epoch.toNat ++
        blobId.bytes.toList := by
  simp [InvalidBlobIdMsg.toBcs, InvalidBlobIdMsg.new, ProtocolMessage.toBcs, Intent.toBcs,
    Intent.storage, BlobId.toBcs]

end Walrus.Messages
