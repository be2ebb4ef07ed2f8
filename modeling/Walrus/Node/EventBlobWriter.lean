import Walrus.Core.Types
import Walrus.Machine.OrdMap
import Walrus.Machine.Run

/-! # The event-blob writer

A storage node writes the stream of contract events it processes into event blobs
(`node/event_blob_writer.rs`). `EventBlobWriter::write` appends each element to the current
blob file; at a checkpoint boundary, once the blob spans `num_checkpoints_per_blob` checkpoints
or holds more than `MAX_BLOB_SIZE` bytes, it cuts the blob and stores its metadata in the map
`pending` under the element's index. From there a blob moves through three maps of at most one
value each:

* after every write, `attest_next_blob` takes the blob that failed to attest (once the backoff
  allows a retry) or else the first pending blob, stores its slivers and attests it; a success
  makes it the `attested` blob, and a pending blob that fails becomes `failed_to_attest`;
* an `EpochChangeStart` event moves the attested blob back to `pending`, to be attested again in
  the new epoch, under the key `event_cursor.element_index` of its metadata;
* a `Certified` event with the blob ID of the attested blob, or else of the failed one, moves
  that blob to `certified`.

The metadata of a blob cut at element index `i` has `event_cursor.element_index = i + 1`, since
the cursor has moved past the element when the blob is cut. An attested blob so returns to
`pending` one key above the key it was cut under. With one checkpoint per blob the boundary of
the next checkpoint cuts the next blob under exactly that key, and the rollback of the epoch
change overwrites it: `epoch_change_overwrites_cut_blob`.

What the rest of the node answers is an input (`AttestOutcome`): the blob ID that updating the
header and storing the slivers yields, or their error; whether the node is in the current
committee; the result of `certify_event_blob`; and the random jitter of the backoff. An
element's BCS bytes enter through their length only. Not modelled: metrics and log lines, the
file system and database errors the code propagates with `?` (every file and batch operation
succeeds here), and the restart of a writer over an existing database
(`reset_uncertified_blobs`).

A write at the cursor's index always succeeds (`write_at_cursor`), so every stream is written
to its end (`writeAll_ok`).
-/

namespace Walrus.EventBlob

open Machine

/-- `MAX_BLOB_SIZE`. -/
def maxBlobSize : Nat := 100 * 1024 * 1024

/-- `EventBlob::HEADER_SIZE`: the magic bytes, the format version, the epoch, the previous
blob's ID and the previous event's ID (`SerializedEventID::LENGTH` bytes). -/
def headerSize : Nat := 4 + 4 + 4 + 32 + 40

/-! ## The event stream -/

/-- The contract events as the writer tells them apart (`ContractEvent`): the certification of a
blob (`BlobEvent::Certified`), the start of an epoch change (`EpochChangeStart`), and every
other event, which it only stores. Each carries its event ID and the length of its BCS
encoding. -/
inductive ContractEvent
  | blobCertified (eventId : EventID) (blobId : BlobId) (bcsLength : Nat)
  | epochChangeStart (eventId : EventID) (epoch : Nat) (bcsLength : Nat)
  | other (eventId : EventID) (bcsLength : Nat)
deriving DecidableEq, Repr

namespace ContractEvent

/-- `event_id`. -/
def eventId : ContractEvent → EventID
  | blobCertified eventId _ _ => eventId
  | epochChangeStart eventId _ _ => eventId
  | other eventId _ => eventId

/-- The length of the event's BCS encoding. -/
def bcsLength : ContractEvent → Nat
  | blobCertified _ _ bcsLength => bcsLength
  | epochChangeStart _ _ bcsLength => bcsLength
  | other _ bcsLength => bcsLength

end ContractEvent

/-- `EventStreamElement`: a contract event, or the marker of a checkpoint's end. -/
inductive EventStreamElement
  | contractEvent (event : ContractEvent)
  | checkpointBoundary
deriving DecidableEq, Repr

namespace EventStreamElement

/-- `event_id`: a boundary marker has none. -/
def eventId : EventStreamElement → Option EventID
  | contractEvent event => some event.eventId
  | checkpointBoundary => none

/-- `blob_event().and_then(match_event_blob_is_certified)`: the blob ID a `Certified` event
carries. -/
def certifiedBlobId : EventStreamElement → Option BlobId
  | contractEvent (.blobCertified _ blobId _) => some blobId
  | _ => none

/-- The length of the element's BCS encoding: the variant index, then the event. -/
def bcsLength : EventStreamElement → Nat
  | contractEvent event => 1 + event.bcsLength
  | checkpointBoundary => 1

end EventStreamElement

/-- `PositionedStreamEvent`: the element and its `checkpoint_event_position`. -/
structure PositionedStreamEvent where
  element : EventStreamElement
  checkpointSequenceNumber : Nat
  counter : Nat
deriving DecidableEq, Repr

/-- `required_space` of a varint: the bytes of its seven-bit groups. The lengths the code
writes are `u64`s, of at most ten groups. -/
def varintLength (n : Nat) : Nat := go 9 n
where
  go : Nat → Nat → Nat
    | 0, _ => 1
    | fuel + 1, n => if n < 128 then 1 else go fuel (n / 128) + 1

namespace PositionedStreamEvent

/-- `is_end_of_checkpoint_marker`. -/
def isEndOfCheckpointMarker (e : PositionedStreamEvent) : Bool :=
  match e.element with
  | .checkpointBoundary => true
  | .contractEvent _ => false

/-- The bytes `write_event_to_buffer` appends for the element: the entry of its
`IndexedStreamEvent` (the element, the two `u64`s of its position and the `u64` index), that is
the varint of the BCS length, the encoding byte and the BCS bytes. -/
def entryLength (e : PositionedStreamEvent) : Nat :=
  let dataLength := e.element.bcsLength + 8 + 8 + 8
  varintLength dataLength + 1 + dataLength

end PositionedStreamEvent

/-! ## Blob metadata -/

/-- `EventStreamCursor`: the ID of the last event and the index of the next element. -/
structure EventStreamCursor where
  eventId : Option EventID
  elementIndex : Nat
deriving DecidableEq, Repr

/-- `EventBlobMetadata`: the first and last checkpoint of the blob's events, the cursor past its
last element, its epoch and its blob ID. -/
structure EventBlobMetadata (T U : Type) where
  start : T
  «end» : T
  eventCursor : EventStreamCursor
  epoch : Nat
  blobId : U
deriving DecidableEq, Repr

/-- A blob waiting for attestation, with no blob ID yet. -/
abbrev PendingEventBlobMetadata := EventBlobMetadata Nat Unit

/-- The blob that failed to attest. -/
abbrev FailedToAttestEventBlobMetadata := EventBlobMetadata Nat BlobId

/-- The blob last attested. -/
abbrev AttestedEventBlobMetadata := EventBlobMetadata Nat BlobId

/-- The blob last certified. -/
abbrev CertifiedEventBlobMetadata := EventBlobMetadata Unit BlobId

namespace EventBlobMetadata

/-- `PendingEventBlobMetadata::new`. -/
def new (start «end» : Nat) (eventCursor : EventStreamCursor) (epoch : Nat) :
    PendingEventBlobMetadata :=
  ⟨start, «end», eventCursor, epoch, ()⟩

/-- `to_attested`. -/
def toAttested (self : PendingEventBlobMetadata) (blobId : BlobId) : AttestedEventBlobMetadata :=
  ⟨self.start, self.«end», self.eventCursor, self.epoch, blobId⟩

/-- `to_failed_to_attest`. -/
def toFailedToAttest (self : PendingEventBlobMetadata) (blobId : BlobId) :
    FailedToAttestEventBlobMetadata :=
  ⟨self.start, self.«end», self.eventCursor, self.epoch, blobId⟩

/-- `to_certified`. -/
def toCertified (self : AttestedEventBlobMetadata) : CertifiedEventBlobMetadata :=
  ⟨(), (), self.eventCursor, self.epoch, self.blobId⟩

/-- `to_pending`. -/
def toPending (self : AttestedEventBlobMetadata) : PendingEventBlobMetadata :=
  ⟨self.start, self.«end», self.eventCursor, self.epoch, ()⟩

@[simp] theorem toPending_toAttested (self : PendingEventBlobMetadata) (blobId : BlobId) :
    (self.toAttested blobId).toPending = self := rfl

@[simp] theorem toPending_toFailedToAttest (self : PendingEventBlobMetadata) (blobId : BlobId) :
    (self.toFailedToAttest blobId).toPending = self := rfl

end EventBlobMetadata

/-! ## The backoff of retries -/

/-- `EventBackoff`: how many events to wait before retrying the blob that failed to attest. -/
structure EventBackoff where
  baseEvents : Nat
  currentWait : Nat
  eventsSinceAttempt : Nat
  maxIncreaseBackoffForAttempts : Nat
  attempts : Nat
deriving DecidableEq, Repr

namespace EventBackoff

/-- `EventBackoff::new`. -/
def new (baseEvents maxIncreaseBackoffForAttempts : Nat) : EventBackoff :=
  ⟨baseEvents, baseEvents, 0, maxIncreaseBackoffForAttempts, 0⟩

/-- `update_next_attempt`: the wait doubles for the first attempts, and then takes the random
jitter, here the function `jitter`. -/
def updateNextAttempt (self : EventBackoff) (jitter : Nat → Nat) : EventBackoff :=
  let currentWait :=
    if self.attempts < self.maxIncreaseBackoffForAttempts then self.currentWait * 2
    else self.currentWait
  { self with currentWait := jitter currentWait, attempts := self.attempts + 1 }

/-- `tick`. -/
def tick (self : EventBackoff) : EventBackoff :=
  { self with eventsSinceAttempt := self.eventsSinceAttempt + 1 }

/-- `can_retry`. -/
def canRetry (self : EventBackoff) : Bool := self.currentWait ≤ self.eventsSinceAttempt

/-- `reset`. -/
def reset (self : EventBackoff) : EventBackoff :=
  { self with currentWait := self.baseEvents, eventsSinceAttempt := 0, attempts := 0 }

end EventBackoff

/-! ## The writer -/

/-- The errors of `certify_event_blob` that `attest_blob` tells apart. -/
inductive CertifyEventBlobError
  | invalidIdEpoch
  | notCommitteeMember
  | incorrectAttestation
  | repeatedAttestation
  /-- Every other error: an unparsable or other Move abort, congestion, a failed request. -/
  | other
deriving DecidableEq, Repr

/-- What the rest of the node answers to one attempt at attesting a blob: the blob ID of the
blob file once its header is updated and its slivers stored, or the error of one of these
steps; whether the current committee holds the node; the result of `certify_event_blob`; and
the random jitter of `update_next_attempt`. -/
structure AttestOutcome where
  storeSlivers : Except String BlobId
  inCommittee : Bool
  certifyEventBlob : Except CertifyEventBlobError Unit
  jitter : Nat → Nat

/-- The state of `EventBlobWriter`: the blob being written (the checkpoints it spans and the
bytes written), the four database maps, the cursor and epoch, the last certified blob, and the
attestation's pause flag (`pause_attestations`) and backoff. -/
structure EventBlobWriter where
  start : Option Nat
  «end» : Option Nat
  bufOffset : Nat
  pending : OrdMap Nat PendingEventBlobMetadata
  attested : Option AttestedEventBlobMetadata
  failedToAttest : Option FailedToAttestEventBlobMetadata
  certified : Option CertifiedEventBlobMetadata
  currentEpoch : Nat
  eventCursor : EventStreamCursor
  prevCertifiedBlobId : BlobId
  prevCertifiedEventId : Option EventID
  numCheckpointsPerBlob : Nat
  attestationsPaused : Bool
  backoff : EventBackoff

/-- `EventBlobWriterConfig`: the epoch, the cursor and the last certified blob to start from. -/
structure EventBlobWriterConfig where
  currentEpoch : Nat
  eventStreamCursor : EventStreamCursor
  prevCertifiedBlobId : BlobId

namespace EventBlobWriter

/-- `pause_attestations`. -/
def pauseAttestations (self : EventBlobWriter) : EventBlobWriter :=
  { self with attestationsPaused := true }

/-- `resume_attestations`. -/
def resumeAttestations (self : EventBlobWriter) : EventBlobWriter :=
  { self with attestationsPaused := false }

/-- `attest_blob`: the call of `certify_event_blob`, skipped while attestations are paused and
by a node outside the current committee. An epoch or membership error pauses attestations, and
only the errors it does not know fail. -/
def attestBlob (self : EventBlobWriter) (o : AttestOutcome) :
    EventBlobWriter × Except String Unit :=
  if self.attestationsPaused then (self, .ok ())
  else if !o.inCommittee then (self, .ok ())
  else
    match o.certifyEventBlob with
    | .ok () => (self, .ok ())
    | .error .invalidIdEpoch | .error .notCommitteeMember => (self.pauseAttestations, .ok ())
    | .error .incorrectAttestation | .error .repeatedAttestation => (self, .ok ())
    | .error .other =>
      (self, .error "unexpected event blob certification error while attesting event blob")

/-- `attest_pending_blob`: the first pending blob is attested, or else fails to attest; either
way it leaves `pending`. -/
def attestPendingBlob (self : EventBlobWriter) (o : AttestOutcome) :
    EventBlobWriter × Except String (Option BlobId) :=
  match self.pending.first with
  | none => (self, .ok none)
  | some (eventIndex, metadata) =>
    match o.storeSlivers with
    | .error e => (self, .error e)
    | .ok blobId =>
      match self.attestBlob o with
      | (self, .ok ()) =>
        ({ self with
            attested := some (metadata.toAttested blobId)
            pending := self.pending.erase eventIndex }, .ok (some blobId))
      | (self, .error e) =>
        ({ self with
            failedToAttest := some (metadata.toFailedToAttest blobId)
            pending := self.pending.erase eventIndex
            backoff := self.backoff.reset }, .error e)

/-- `attest_failed_to_attest_blob`: the blob that failed to attest is tried again once the
backoff allows it, and on success becomes the attested blob, with the blob ID it had. -/
def attestFailedToAttestBlob (self : EventBlobWriter) (o : AttestOutcome) :
    EventBlobWriter × Except String (Option BlobId) :=
  match self.failedToAttest with
  | none => (self, .ok none)
  | some metadata =>
    if !self.backoff.canRetry then (self, .error "backoff cannot retry")
    else
      let self := { self with backoff := self.backoff.updateNextAttempt o.jitter }
      match o.storeSlivers with
      | .error e => (self, .error e)
      | .ok blobId =>
        match self.attestBlob o with
        | (self, .ok ()) =>
          ({ self with attested := some metadata, failedToAttest := none }, .ok (some blobId))
        | (self, .error e) => (self, .error e)

/-- `attest_next_blob`: nothing while a blob is attested; else the failed blob, and when there
is none the first pending one. -/
def attestNextBlob (self : EventBlobWriter) (o : AttestOutcome) :
    EventBlobWriter × Except String (Option BlobId) :=
  let self := { self with backoff := self.backoff.tick }
  if self.attested.isSome then (self, .ok none)
  else
    match self.attestFailedToAttestBlob o with
    | (self, .ok none) => self.attestPendingBlob o
    | result => result

/-- `try_attest_next_blob`: its error is only logged. -/
def tryAttestNextBlob (self : EventBlobWriter) (o : AttestOutcome) : EventBlobWriter :=
  (self.attestNextBlob o).1

/-- `update_sequence_range`. -/
def updateSequenceRange (self : EventBlobWriter) (element : PositionedStreamEvent) :
    EventBlobWriter :=
  { self with
    start := if self.start.isNone then some element.checkpointSequenceNumber else self.start
    «end» := some element.checkpointSequenceNumber }

/-- `write_event_to_buffer`. -/
def writeEventToBuffer (self : EventBlobWriter) (event : PositionedStreamEvent) :
    EventBlobWriter :=
  { self with bufOffset := self.bufOffset + event.entryLength }

/-- `move_attested_blob_to_pending`: under the key of its cursor's element index. -/
def moveAttestedBlobToPending (self : EventBlobWriter) : EventBlobWriter :=
  match self.attested with
  | none => self
  | some metadata =>
    { self with
      attested := none
      pending := self.pending.insert metadata.eventCursor.elementIndex metadata.toPending }

/-- `update_epoch`. -/
def updateEpoch (self : EventBlobWriter) (event : PositionedStreamEvent) : EventBlobWriter :=
  match event.element with
  | .contractEvent (.epochChangeStart _ newEpoch _) =>
    ({ self with currentEpoch := newEpoch }.resumeAttestations).moveAttestedBlobToPending
  | _ => self

/-- `should_cut_new_blob`. -/
def shouldCutNewBlob (self : EventBlobWriter) (element : PositionedStreamEvent) : Bool :=
  element.isEndOfCheckpointMarker &&
    (decide (maxBlobSize < self.bufOffset) ||
      decide (self.start.getD 0 + self.numCheckpointsPerBlob ≤
        element.checkpointSequenceNumber + 1))

/-- `cut_and_reset_blob`: the blob's metadata goes to `pending` under the element's index, and
`reset` starts a new blob file of the header alone. -/
def cutAndResetBlob (self : EventBlobWriter) (elementIndex : Nat) :
    Except String EventBlobWriter :=
  match self.start, self.«end» with
  | none, _ => .error "start is not set"
  | some _, none => .error "end is not set"
  | some start, some «end» =>
    let blobMetadata := EventBlobMetadata.new start «end» self.eventCursor self.currentEpoch
    .ok { self with
      pending := self.pending.insert elementIndex blobMetadata
      start := none
      «end» := none
      bufOffset := headerSize }

/-- `handle_blob_certification` on the value of `attested` or of `failed_to_attest`: its
certified metadata when it is the certified blob (and the value is then deleted). -/
def handleBlobCertification (blobId : BlobId) :
    Option AttestedEventBlobMetadata → Option CertifiedEventBlobMetadata
  | none => none
  | some metadata => if metadata.blobId = blobId then some metadata.toCertified else none

/-- `handle_event_blob_certification`: a `Certified` event of the attested blob, or else of the
failed one, deletes it and records it as the last certified blob. -/
def handleEventBlobCertification (self : EventBlobWriter) (element : PositionedStreamEvent) :
    EventBlobWriter :=
  match element.element.certifiedBlobId with
  | none => self
  | some blobId =>
    let found : Option (EventBlobWriter × CertifiedEventBlobMetadata) :=
      match handleBlobCertification blobId self.attested with
      | some metadata => some ({ self with attested := none }, metadata)
      | none =>
        (handleBlobCertification blobId self.failedToAttest).map fun metadata =>
          ({ self with failedToAttest := none }, metadata)
    match found with
    | none => self
    | some (self, metadata) =>
      { self with
        certified := some metadata
        prevCertifiedBlobId := blobId
        prevCertifiedEventId := metadata.eventCursor.eventId }

/-- `write`. The database updates of the epoch change, the cut and the certification go into
one batch, written before the attestation; the certification reads the maps as they were before
the batch, which the other two leave alone since they happen for other kinds of element. -/
def write (self : EventBlobWriter) (element : PositionedStreamEvent) (elementIndex : Nat)
    (o : AttestOutcome) : Except String EventBlobWriter := do
  if elementIndex ≠ self.eventCursor.elementIndex then throw "invalid event index"
  let self := { self with eventCursor := ⟨element.element.eventId, elementIndex + 1⟩ }
  let self := (self.updateSequenceRange element).writeEventToBuffer element
  let self := self.updateEpoch element
  let self ← if self.shouldCutNewBlob element then self.cutAndResetBlob elementIndex
    else pure self
  let self := self.handleEventBlobCertification element
  pure (self.tryAttestNextBlob o)

/-- `EventBlobWriter::new` over empty databases: no blob yet, a file of the header alone, and
the attempt to attest that `new` makes. -/
def new (config : EventBlobWriterConfig) (numCheckpointsPerBlob : Nat) (o : AttestOutcome) :
    EventBlobWriter :=
  let blobWriter : EventBlobWriter :=
    { start := none
      «end» := none
      bufOffset := headerSize
      pending := .empty
      attested := none
      failedToAttest := none
      certified := none
      currentEpoch := config.currentEpoch
      eventCursor := config.eventStreamCursor
      prevCertifiedBlobId := config.prevCertifiedBlobId
      prevCertifiedEventId := config.eventStreamCursor.eventId
      numCheckpointsPerBlob
      attestationsPaused := false
      backoff := .new 5 5 }
  blobWriter.tryAttestNextBlob o

/-- The writes of a stream of elements, each at the index of the writer's cursor and with the
outcome of the attestation it triggers. -/
def writeAll (self : EventBlobWriter) (stream : List (PositionedStreamEvent × AttestOutcome)) :
    Except String EventBlobWriter :=
  stream.foldlM (fun w x => w.write x.1 w.eventCursor.elementIndex x.2) self

/-! ## What each step does

One lemma per step says everything the step can do to the writer; the invariants below are
proved from these alone. -/

theorem attestBlob_fst (w : EventBlobWriter) (o : AttestOutcome) :
    ∃ paused, (w.attestBlob o).1 = { w with attestationsPaused := paused } := by
  unfold attestBlob
  split
  · exact ⟨w.attestationsPaused, rfl⟩
  split
  · exact ⟨w.attestationsPaused, rfl⟩
  -- only an epoch or membership error pauses attestations
  split <;> first | exact ⟨w.attestationsPaused, rfl⟩ | exact ⟨true, rfl⟩

/-- `attest_pending_blob` changes nothing, or takes the first pending blob out of `pending` and
makes it the attested blob or the one that failed to attest. -/
theorem attestPendingBlob_cases (w : EventBlobWriter) (o : AttestOutcome) :
    (w.attestPendingBlob o).1 = w ∨
    ∃ k m blobId paused, w.pending.first = some (k, m) ∧
      ((w.attestPendingBlob o).1 = { w with
          attestationsPaused := paused
          attested := some (m.toAttested blobId)
          pending := w.pending.erase k } ∨
       (w.attestPendingBlob o).1 = { w with
          attestationsPaused := paused
          failedToAttest := some (m.toFailedToAttest blobId)
          pending := w.pending.erase k
          backoff := w.backoff.reset }) := by
  unfold attestPendingBlob
  split
  · exact .inl rfl
  rename_i k m hfirst
  split
  · exact .inl rfl
  rename_i blobId _
  obtain ⟨paused, hattest⟩ := attestBlob_fst w o
  split
  · rename_i w₁ hw₁
    rw [hw₁] at hattest
    obtain rfl : w₁ = _ := hattest
    exact .inr ⟨k, m, blobId, paused, hfirst, .inl rfl⟩
  · rename_i w₁ _ hw₁
    rw [hw₁] at hattest
    obtain rfl : w₁ = _ := hattest
    exact .inr ⟨k, m, blobId, paused, hfirst, .inr rfl⟩

/-- `attest_failed_to_attest_blob` answers `Ok(None)` exactly when no blob failed to attest;
otherwise it changes the backoff and the pause flag, and may make the failed blob the attested
one. -/
theorem attestFailedToAttestBlob_cases (w : EventBlobWriter) (o : AttestOutcome) :
    (w.failedToAttest = none ∧ w.attestFailedToAttestBlob o = (w, .ok none)) ∨
    ∃ m, w.failedToAttest = some m ∧ (w.attestFailedToAttestBlob o).2 ≠ .ok none ∧
      ∃ backoff paused,
        ((w.attestFailedToAttestBlob o).1 = { w with backoff, attestationsPaused := paused } ∨
         (w.attestFailedToAttestBlob o).1 = { w with
            backoff
            attestationsPaused := paused
            attested := some m
            failedToAttest := none }) := by
  unfold attestFailedToAttestBlob
  split
  · rename_i hfailed
    exact .inl ⟨hfailed, rfl⟩
  rename_i m hfailed
  refine .inr ⟨m, hfailed, ?_⟩
  split
  · exact ⟨by simp, w.backoff, w.attestationsPaused, .inl rfl⟩
  dsimp only
  split
  · exact ⟨by simp, _, w.attestationsPaused, .inl rfl⟩
  obtain ⟨paused, hattest⟩ :=
    attestBlob_fst { w with backoff := w.backoff.updateNextAttempt o.jitter } o
  split
  · rename_i w₁ hw₁
    rw [hw₁] at hattest
    obtain rfl : w₁ = _ := hattest
    exact ⟨by simp, _, paused, .inr rfl⟩
  · rename_i w₁ _ hw₁
    rw [hw₁] at hattest
    obtain rfl : w₁ = _ := hattest
    exact ⟨by simp, _, paused, .inl rfl⟩

/-- `attest_next_blob` changes the backoff and the pause flag, and moves at most one blob: the
failed blob to `attested`, or, when no blob is attested or failed, the first pending blob to
`attested` or to `failed_to_attest`. -/
theorem attestNextBlob_cases (w : EventBlobWriter) (o : AttestOutcome) :
    ∃ backoff paused,
      (w.attestNextBlob o).1 = { w with backoff, attestationsPaused := paused } ∨
      (∃ m, w.attested = none ∧ w.failedToAttest = some m ∧
        (w.attestNextBlob o).1 = { w with
          backoff
          attestationsPaused := paused
          attested := some m
          failedToAttest := none }) ∨
      (∃ k m blobId, w.attested = none ∧ w.failedToAttest = none ∧
        w.pending.first = some (k, m) ∧
        ((w.attestNextBlob o).1 = { w with
            backoff
            attestationsPaused := paused
            attested := some (m.toAttested blobId)
            pending := w.pending.erase k } ∨
         (w.attestNextBlob o).1 = { w with
            backoff
            attestationsPaused := paused
            failedToAttest := some (m.toFailedToAttest blobId)
            pending := w.pending.erase k })) := by
  unfold attestNextBlob
  dsimp only
  split
  · exact ⟨_, w.attestationsPaused, .inl rfl⟩
  rename_i hattested
  have hnone : w.attested = none := by simpa using hattested
  rcases attestFailedToAttestBlob_cases { w with backoff := w.backoff.tick } o with
    ⟨hfailed, hres⟩ | ⟨m, hfailed, hne, backoff, paused, hres⟩
  · -- no blob failed to attest: the first pending one is attested
    rw [hres]
    rcases attestPendingBlob_cases { w with backoff := w.backoff.tick } o with
      hp | ⟨k, m, blobId, paused, hfirst, hp | hp⟩
    · exact ⟨_, w.attestationsPaused, .inl hp⟩
    · exact ⟨_, paused, .inr (.inr ⟨k, m, blobId, hnone, hfailed, hfirst, .inl hp⟩)⟩
    · exact ⟨_, paused, .inr (.inr ⟨k, m, blobId, hnone, hfailed, hfirst, .inr hp⟩)⟩
  · -- the failed blob was tried again, and its result is the result
    split
    · rename_i w₁ hw₁
      rw [hw₁] at hne
      exact absurd rfl hne
    rcases hres with hres | hres
    · exact ⟨backoff, paused, .inl hres⟩
    · exact ⟨backoff, paused, .inr (.inl ⟨m, hnone, hfailed, hres⟩)⟩

/-- `update_epoch` changes nothing but at an epoch change, where it moves the attested blob, if
any, back to `pending` under the element index of its cursor. -/
theorem updateEpoch_cases (w : EventBlobWriter) (e : PositionedStreamEvent) :
    w.updateEpoch e = w ∨
    ∃ eventId epoch bcsLength,
      e.element = .contractEvent (.epochChangeStart eventId epoch bcsLength) ∧
      ((w.attested = none ∧
          w.updateEpoch e = { w with currentEpoch := epoch, attestationsPaused := false }) ∨
        ∃ m, w.attested = some m ∧ w.updateEpoch e = { w with
          currentEpoch := epoch
          attestationsPaused := false
          attested := none
          pending := w.pending.insert m.eventCursor.elementIndex m.toPending }) := by
  unfold updateEpoch
  split
  · rename_i eventId epoch bcsLength helement
    refine .inr ⟨eventId, epoch, bcsLength, helement, ?_⟩
    unfold moveAttestedBlobToPending resumeAttestations
    dsimp only
    split
    · rename_i hattested
      exact .inl ⟨hattested, rfl⟩
    · rename_i m hattested
      exact .inr ⟨m, hattested, rfl⟩
  · exact .inl rfl

/-- A cut stores the blob's metadata in `pending` under the element's index and starts a new
blob. -/
theorem cutAndResetBlob_eq_ok {w v : EventBlobWriter} {i : Nat}
    (h : w.cutAndResetBlob i = .ok v) :
    ∃ start «end», w.start = some start ∧ w.«end» = some «end» ∧
      v = { w with
        pending := w.pending.insert i
          (EventBlobMetadata.new start «end» w.eventCursor w.currentEpoch)
        start := none
        «end» := none
        bufOffset := headerSize } := by
  unfold cutAndResetBlob at h
  split at h
  · cases h
  · cases h
  · rename_i start «end» hstart hend
    cases h
    exact ⟨start, «end», hstart, hend, rfl⟩

theorem cutAndResetBlob_of_some {w : EventBlobWriter} {start «end» : Nat} (i : Nat)
    (hstart : w.start = some start) (hend : w.«end» = some «end») :
    ∃ v, w.cutAndResetBlob i = .ok v := by
  unfold cutAndResetBlob
  rw [hstart, hend]
  exact ⟨_, rfl⟩

theorem handleBlobCertification_eq_some {blobId : BlobId} {x : Option AttestedEventBlobMetadata}
    {c : CertifiedEventBlobMetadata} :
    handleBlobCertification blobId x = some c ↔
      ∃ m, x = some m ∧ m.blobId = blobId ∧ c = m.toCertified := by
  cases x with
  | none => simp [handleBlobCertification]
  | some m =>
    by_cases hid : m.blobId = blobId
    · simp [handleBlobCertification, hid, eq_comm]
    · simp [handleBlobCertification, hid]

/-- `handle_event_blob_certification` changes nothing, or a `Certified` event of the attested
blob, or else of the failed one, deletes that blob and records it as certified. -/
theorem handleEventBlobCertification_cases (w : EventBlobWriter) (e : PositionedStreamEvent) :
    w.handleEventBlobCertification e = w ∨
    ∃ blobId, e.element.certifiedBlobId = some blobId ∧
      ((∃ m, w.attested = some m ∧ m.blobId = blobId ∧
          w.handleEventBlobCertification e = { w with
            attested := none
            certified := some m.toCertified
            prevCertifiedBlobId := blobId
            prevCertifiedEventId := m.eventCursor.eventId }) ∨
        (∃ m, w.failedToAttest = some m ∧ m.blobId = blobId ∧
          w.handleEventBlobCertification e = { w with
            failedToAttest := none
            certified := some m.toCertified
            prevCertifiedBlobId := blobId
            prevCertifiedEventId := m.eventCursor.eventId })) := by
  unfold handleEventBlobCertification
  split
  · exact .inl rfl
  rename_i blobId hcert
  cases ha : handleBlobCertification blobId w.attested with
  | some c =>
    -- the attested blob is the certified one
    obtain ⟨m, hm, hid, rfl⟩ := handleBlobCertification_eq_some.mp ha
    exact .inr ⟨blobId, hcert, .inl ⟨m, hm, hid, rfl⟩⟩
  | none =>
    cases hf : handleBlobCertification blobId w.failedToAttest with
    | none => exact .inl rfl
    | some c =>
      obtain ⟨m, hm, hid, rfl⟩ := handleBlobCertification_eq_some.mp hf
      exact .inr ⟨blobId, hcert, .inr ⟨m, hm, hid, rfl⟩⟩

/-- A write at the cursor's index: the element's own updates, then the cut if the element ends
the blob, the certification, and the attempt at attestation. -/
theorem write_eq_ok {w w' : EventBlobWriter} {e : PositionedStreamEvent} {i : Nat}
    {o : AttestOutcome} (h : w.write e i o = .ok w') :
    i = w.eventCursor.elementIndex ∧ ∃ v,
      (((({ w with eventCursor := ⟨e.element.eventId, i + 1⟩ }.updateSequenceRange e
              ).writeEventToBuffer e).updateEpoch e).shouldCutNewBlob e = false ∧
          v = (({ w with eventCursor := ⟨e.element.eventId, i + 1⟩ }.updateSequenceRange e
              ).writeEventToBuffer e).updateEpoch e ∨
        ((({ w with eventCursor := ⟨e.element.eventId, i + 1⟩ }.updateSequenceRange e
              ).writeEventToBuffer e).updateEpoch e).shouldCutNewBlob e = true ∧
          ((({ w with eventCursor := ⟨e.element.eventId, i + 1⟩ }.updateSequenceRange e
              ).writeEventToBuffer e).updateEpoch e).cutAndResetBlob i = .ok v) ∧
      w' = (v.handleEventBlobCertification e).tryAttestNextBlob o := by
  unfold write at h
  dsimp only at h
  split at h
  · cases h
  rename_i hindex
  refine ⟨Decidable.of_not_not hindex, ?_⟩
  split at h
  · rename_i hcut
    obtain ⟨v, hv, h⟩ := bind_eq_ok.mp h
    cases h
    exact ⟨v, .inr ⟨hcut, hv⟩, rfl⟩
  · rename_i hcut
    cases h
    exact ⟨_, .inl ⟨Bool.eq_false_iff.mpr hcut, rfl⟩, rfl⟩

/-- `update_epoch` leaves the current blob, the cursor and the parameter alone. -/
theorem updateEpoch_frame (w : EventBlobWriter) (e : PositionedStreamEvent) :
    (w.updateEpoch e).start = w.start ∧ (w.updateEpoch e).«end» = w.«end» ∧
      (w.updateEpoch e).bufOffset = w.bufOffset ∧
      (w.updateEpoch e).eventCursor = w.eventCursor ∧
      (w.updateEpoch e).numCheckpointsPerBlob = w.numCheckpointsPerBlob := by
  rcases updateEpoch_cases w e with hw | ⟨_, _, _, -, ⟨-, hw⟩ | ⟨m, -, hw⟩⟩ <;>
    exact ⟨by rw [hw], by rw [hw], by rw [hw], by rw [hw], by rw [hw]⟩

/-! ## Every write succeeds -/

/-- A write at the cursor's index succeeds: `update_sequence_range` has set the blob's first and
last checkpoint by the time it is cut. -/
theorem write_at_cursor (w : EventBlobWriter) (e : PositionedStreamEvent) (o : AttestOutcome) :
    ∃ w', w.write e w.eventCursor.elementIndex o = .ok w' := by
  unfold write
  simp only [ne_eq, not_true_eq_false, if_false]
  generalize hu : (({ w with eventCursor := ⟨e.element.eventId, w.eventCursor.elementIndex + 1⟩
    }.updateSequenceRange e).writeEventToBuffer e).updateEpoch e = u
  have hstart : ∃ start, u.start = some start := by
    rw [← hu, (updateEpoch_frame _ e).1]
    simp only [writeEventToBuffer, updateSequenceRange]
    cases w.start with
    | none => exact ⟨_, rfl⟩
    | some start => exact ⟨start, rfl⟩
  have hend : u.«end» = some e.checkpointSequenceNumber := by
    rw [← hu, (updateEpoch_frame _ e).2.1]
    rfl
  obtain ⟨start, hstart⟩ := hstart
  split
  · obtain ⟨v, hv⟩ := cutAndResetBlob_of_some w.eventCursor.elementIndex hstart hend
    rw [hv]
    exact ⟨_, rfl⟩
  · exact ⟨_, rfl⟩

/-- A stream of elements at consecutive indices is written to its end. -/
theorem writeAll_ok (stream : List (PositionedStreamEvent × AttestOutcome)) :
    ∀ w : EventBlobWriter, ∃ w', w.writeAll stream = .ok w' := by
  induction stream with
  | nil => exact fun w => ⟨w, rfl⟩
  | cons x rest ih =>
    intro w
    obtain ⟨w₁, h₁⟩ := write_at_cursor w x.1 x.2
    obtain ⟨w', h'⟩ := ih w₁
    refine ⟨w', ?_⟩
    simp only [writeAll, List.foldlM_cons] at h' ⊢
    rw [h₁]
    exact h'

/-! ## At most one blob attested or failed to attest -/

/-- At most one blob is attested or failed to attest. -/
def AtMostOne (w : EventBlobWriter) : Prop := w.attested = none ∨ w.failedToAttest = none

theorem atMostOne_attestNextBlob {w : EventBlobWriter} (o : AttestOutcome) (h : w.AtMostOne) :
    (w.attestNextBlob o).1.AtMostOne := by
  obtain ⟨backoff, paused, hw | ⟨m, -, -, hw⟩ | ⟨k, m, blobId, hattested, hfailed, -, hw | hw⟩⟩ :=
    attestNextBlob_cases w o
  · rw [hw]
    exact h
  · -- the failed blob becomes the attested one
    rw [hw]
    exact .inr rfl
  · rw [hw]
    exact .inr hfailed
  · rw [hw]
    exact .inl hattested

/-- The writer keeps the metadata `m` of a cut blob: in `pending`, or as the attested blob or
the one that failed to attest. -/
def Keeps (w : EventBlobWriter) (m : PendingEventBlobMetadata) : Prop :=
  m ∈ w.pending.entries.map Prod.snd ∨ w.attested.map EventBlobMetadata.toPending = some m ∨
    w.failedToAttest.map EventBlobMetadata.toPending = some m

instance (w : EventBlobWriter) (m : PendingEventBlobMetadata) : Decidable (w.Keeps m) :=
  inferInstanceAs (Decidable (_ ∨ _ ∨ _))

end EventBlobWriter

/-! ## One checkpoint per blob -/

/-- The blob ID that storing a blob's slivers yields in the run below. -/
def storedBlobId : BlobId := ⟨Vector.replicate 32 7⟩

/-- An attempt at attestation that succeeds. -/
def attestedOutcome : AttestOutcome := ⟨.ok storedBlobId, true, .ok (), id⟩

/-- A writer of a fresh node at element 0 of epoch 1, with one checkpoint per blob. -/
def oneCheckpointWriter : EventBlobWriter :=
  EventBlobWriter.new ⟨1, ⟨none, 0⟩, ⟨Vector.replicate 32 0⟩⟩ 1 attestedOutcome

/-- The `EventChangeStart` event of epoch 2. -/
def epochTwoStart : ContractEvent := .epochChangeStart ⟨Vector.replicate 32 1, 0⟩ 2 100

theorem epoch_change_overwrites_cut_blob :
    ∃ w₁ w₂ w₃,
      oneCheckpointWriter.write ⟨.checkpointBoundary, 0, 0⟩ 0 attestedOutcome = .ok w₁ ∧
      w₁.write ⟨.checkpointBoundary, 1, 0⟩ 1 attestedOutcome = .ok w₂ ∧
      w₂.write ⟨.contractEvent epochTwoStart, 2, 0⟩ 2 attestedOutcome = .ok w₃ ∧
      (1, EventBlobMetadata.new 1 1 ⟨none, 2⟩ 1) ∈ w₂.pending.entries ∧
      ¬ w₃.Keeps (EventBlobMetadata.new 1 1 ⟨none, 2⟩ 1) ∧ w₃.certified = none :=
  ⟨_, _, _, rfl, rfl, rfl, by decide, by decide, rfl⟩

end Walrus.EventBlob
