import Walrus.Node.EventBlobWriter

/-! # No cut blob is lost with two checkpoints or more per blob

With one checkpoint per blob the writer loses a blob (`epoch_change_overwrites_cut_blob`); with
two or more it does not. A blob the writer has cut is kept in `pending`, as the `attested` blob
or as the one that failed to attest; `kept` lists them oldest first. Along every run from `new`
with `num_checkpoints_per_blob ≥ 2`, `Sound` holds:

* the kept blobs end at least two elements apart, oldest first: two cuts never fall on
  neighbouring elements, since the element after a cut starts a blob of one checkpoint and one
  entry, which neither limit cuts (`shouldCutNewBlob_of_empty`);
* a pending blob is filed under the index of its last element, or, once rolled back by an epoch
  change, under the index of the next;
* when a kept blob ends at the cursor, the current blob is empty.

So an epoch change files the attested blob back under a key below every pending key, and a cut
files its blob under a key above every pending key: neither insertion overwrites an entry. Each
stage of a write says what it does to `kept`: the element's own updates and the epoch change
leave it as it is, a cut appends the new blob, a certification removes the certified blob, and
the attestation leaves it as it is, whatever the writer (`kept_attestNextBlob`).

Hence `cut_blobs_kept_until_certified`: in every state a run reaches, the next write keeps every
kept blob unless a `Certified` event of its blob ID records it as certified, and a write that
cuts keeps the blob it cuts. And `kept_in_stream_order`: the attested or failed blob is the
oldest kept one, and the pending blobs follow in the order of the stream, so the blob attested
next is always the oldest one not certified.
-/

namespace Walrus.EventBlob

open Machine

namespace EventBlobWriter

/-- The blobs the writer keeps, oldest first: the attested one, the one that failed to attest,
and the pending ones in key order. -/
def kept (w : EventBlobWriter) : List PendingEventBlobMetadata :=
  w.attested.toList.map EventBlobMetadata.toPending ++
    w.failedToAttest.toList.map EventBlobMetadata.toPending ++ w.pending.entries.map Prod.snd

theorem keeps_iff_mem_kept {w : EventBlobWriter} {m : PendingEventBlobMetadata} :
    w.Keeps m ↔ m ∈ w.kept := by
  constructor
  · rintro (hm | hm | hm)
    · simp [kept, hm]
    · obtain ⟨a, ha, rfl⟩ := Option.map_eq_some_iff.mp hm
      simp [kept, ha]
    · obtain ⟨f, hf, rfl⟩ := Option.map_eq_some_iff.mp hm
      simp [kept, hf]
  · intro hm
    simp only [kept, List.mem_append, List.mem_map, Option.mem_toList] at hm
    rcases hm with (⟨a, ha, rfl⟩ | ⟨f, hf, rfl⟩) | hm
    · exact .inr (.inl (by rw [ha]; rfl))
    · exact .inr (.inr (by rw [hf]; rfl))
    · exact .inl (List.mem_map.mpr hm)

/-! ## The attestation keeps the same blobs in the same order -/

/-- What `attest_next_blob` leaves alone: the current blob, the cursor, the parameter and the
certified blob; and it only takes entries out of `pending`. -/
theorem attestNextBlob_frame (w : EventBlobWriter) (o : AttestOutcome) :
    (w.attestNextBlob o).1.start = w.start ∧ (w.attestNextBlob o).1.bufOffset = w.bufOffset ∧
      (w.attestNextBlob o).1.eventCursor = w.eventCursor ∧
      (w.attestNextBlob o).1.numCheckpointsPerBlob = w.numCheckpointsPerBlob ∧
      (w.attestNextBlob o).1.certified = w.certified ∧
      ∀ e ∈ (w.attestNextBlob o).1.pending.entries, e ∈ w.pending.entries := by
  obtain ⟨backoff, paused, hw | ⟨m, -, -, hw⟩ | ⟨k, m, blobId, -, -, -, hw | hw⟩⟩ :=
    attestNextBlob_cases w o
  · rw [hw]
    exact ⟨rfl, rfl, rfl, rfl, rfl, fun e he => he⟩
  · rw [hw]
    exact ⟨rfl, rfl, rfl, rfl, rfl, fun e he => he⟩
  · rw [hw]
    exact ⟨rfl, rfl, rfl, rfl, rfl, fun e he => (OrdMap.mem_erase.mp he).1⟩
  · rw [hw]
    exact ⟨rfl, rfl, rfl, rfl, rfl, fun e he => (OrdMap.mem_erase.mp he).1⟩

/-- The attestation moves at most one blob, from one slot to the next, and never reorders the
kept blobs: the failed blob and the first pending one are each the first of the list in both
slots. -/
theorem kept_attestNextBlob (w : EventBlobWriter) (o : AttestOutcome) :
    (w.attestNextBlob o).1.kept = w.kept := by
  obtain ⟨backoff, paused, hw | ⟨m, hattested, hfailed, hw⟩ |
      ⟨k, m, blobId, hattested, hfailed, hfirst, hw | hw⟩⟩ := attestNextBlob_cases w o
  · rw [hw]
    rfl
  · -- the failed blob becomes the attested one
    rw [hw]
    simp [kept, hattested, hfailed]
  · -- the first pending blob becomes the attested one
    rw [hw]
    simp only [kept, hattested, hfailed, Option.toList_some, Option.toList_none, List.map_cons,
      List.map_nil, List.append_nil, List.nil_append, EventBlobMetadata.toPending_toAttested]
    rw [OrdMap.entries_eq_cons_erase hfirst, List.map_cons]
    rfl
  · -- the first pending blob becomes the one that failed to attest
    rw [hw]
    simp only [kept, hattested, hfailed, Option.toList_some, Option.toList_none, List.map_cons,
      List.map_nil, List.append_nil, List.nil_append,
      EventBlobMetadata.toPending_toFailedToAttest]
    rw [OrdMap.entries_eq_cons_erase hfirst, List.map_cons]
    rfl

/-! ## The invariant -/

/-- What a writer with at least two checkpoints per blob keeps true between writes. -/
structure Sound (w : EventBlobWriter) : Prop where
  twoCheckpoints : 2 ≤ w.numCheckpointsPerBlob
  atMostOne : w.AtMostOne
  /-- The kept blobs end at least two elements apart, oldest first. -/
  apart : w.kept.Pairwise fun a b => a.eventCursor.elementIndex + 2 ≤ b.eventCursor.elementIndex
  /-- No kept blob ends past the cursor. -/
  le_cursor : ∀ m ∈ w.kept, m.eventCursor.elementIndex ≤ w.eventCursor.elementIndex
  /-- A pending blob is filed under the index of its last element, or of the next. -/
  keyed : ∀ e ∈ w.pending.entries,
    e.2.eventCursor.elementIndex = e.1 + 1 ∨ e.2.eventCursor.elementIndex = e.1
  /-- When a kept blob ends at the cursor, the current blob is empty. -/
  fresh : ∀ m ∈ w.kept, m.eventCursor.elementIndex = w.eventCursor.elementIndex →
    w.start = none ∧ w.bufOffset = headerSize

theorem Sound.attestNextBlob {w : EventBlobWriter} (hs : w.Sound) (o : AttestOutcome) :
    (w.attestNextBlob o).1.Sound := by
  obtain ⟨hstart, hbuf, hcursor, hN, -, hpending⟩ := attestNextBlob_frame w o
  have hkept := kept_attestNextBlob w o
  constructor
  · rw [hN]
    exact hs.twoCheckpoints
  · exact atMostOne_attestNextBlob o hs.atMostOne
  · rw [hkept]
    exact hs.apart
  · intro m hm
    rw [hcursor]
    exact hs.le_cursor m (hkept ▸ hm)
  · intro e he
    exact hs.keyed e (hpending e he)
  · intro m hm hidx
    rw [hstart, hbuf]
    exact hs.fresh m (hkept ▸ hm) (hcursor ▸ hidx)

theorem new_sound (config : EventBlobWriterConfig) {numCheckpointsPerBlob : Nat}
    (hN : 2 ≤ numCheckpointsPerBlob) (o : AttestOutcome) :
    (EventBlobWriter.new config numCheckpointsPerBlob o).Sound := by
  apply Sound.attestNextBlob
  -- no blob is kept yet
  constructor
  · exact hN
  · exact .inl rfl
  · exact List.Pairwise.nil
  · intro m hm
    cases hm
  · intro e he
    cases he
  · intro m hm
    cases hm

/-! ## The stages of a write -/

/-- The element's own updates: the cursor moves past it, and the kept blobs all end before it. -/
theorem Sound.prepare {w : EventBlobWriter} (hs : w.Sound) (e : PositionedStreamEvent)
    (eventId : Option EventID) :
    (({ w with eventCursor := ⟨eventId, w.eventCursor.elementIndex + 1⟩ }.updateSequenceRange e
      ).writeEventToBuffer e).Sound := by
  constructor
  · exact hs.twoCheckpoints
  · exact hs.atMostOne
  · exact hs.apart
  · intro m hm
    exact Nat.le_succ_of_le (hs.le_cursor m hm)
  · exact hs.keyed
  · intro m hm hidx
    -- no kept blob ends at the new cursor
    have hle := hs.le_cursor m hm
    change m.eventCursor.elementIndex = w.eventCursor.elementIndex + 1 at hidx
    omega

/-- An epoch change files the attested blob back in front of every pending blob, so the kept
blobs stay the same, in the same order. -/
theorem Sound.updateEpoch {w : EventBlobWriter} (hs : w.Sound) (e : PositionedStreamEvent) :
    (w.updateEpoch e).Sound ∧ (w.updateEpoch e).kept = w.kept := by
  rcases updateEpoch_cases w e with hw | ⟨_, epoch, _, -, ⟨-, hw⟩ | ⟨a, hattested, hw⟩⟩
  · rw [hw]
    exact ⟨hs, rfl⟩
  · rw [hw]
    exact ⟨⟨hs.twoCheckpoints, hs.atMostOne, hs.apart, hs.le_cursor, hs.keyed, hs.fresh⟩, rfl⟩
  -- the attested blob returns to `pending`; no blob failed to attest beside it
  have hfailed : w.failedToAttest = none := by
    rcases hs.atMostOne with h | h
    · rw [hattested] at h
      cases h
    · exact h
  have hkept : w.kept = a.toPending :: w.pending.entries.map Prod.snd := by
    simp [kept, hattested, hfailed]
  -- every pending blob ends two elements after it, so its key lies above the attested blob's
  have hbelow : ∀ p ∈ w.pending.entries, a.eventCursor.elementIndex < p.1 := by
    intro p hp
    have happart := hs.apart
    rw [hkept, List.pairwise_cons] at happart
    have h2 := happart.1 p.2 (List.mem_map_of_mem hp)
    have hkey := hs.keyed p hp
    change a.eventCursor.elementIndex + 2 ≤ p.2.eventCursor.elementIndex at h2
    omega
  have hentries : (w.updateEpoch e).pending.entries =
      (a.eventCursor.elementIndex, a.toPending) :: w.pending.entries := by
    rw [hw]
    exact OrdMap.entries_insert_of_lt_keys a.toPending hbelow
  have hkept' : (w.updateEpoch e).kept = w.kept := by
    have hattested' : (w.updateEpoch e).attested = none := by rw [hw]
    have hfailed' : (w.updateEpoch e).failedToAttest = none := by
      rw [hw]
      exact hfailed
    rw [hkept]
    simp only [kept, hentries, hattested', hfailed', Option.toList_none, List.map_nil,
      List.nil_append, List.map_cons]
  refine ⟨?_, hkept'⟩
  constructor
  · rw [hw]
    exact hs.twoCheckpoints
  · rw [hw]
    exact .inl rfl
  · rw [hkept']
    exact hs.apart
  · intro m hm
    rw [hkept'] at hm
    rw [hw]
    exact hs.le_cursor m hm
  · intro p hp
    rw [hentries, List.mem_cons] at hp
    rcases hp with rfl | hp
    · exact .inr rfl
    · exact hs.keyed p hp
  · intro m hm hidx
    rw [hkept'] at hm
    rw [hw] at hidx ⊢
    exact hs.fresh m hm hidx

/-- The element after a cut does not cut again: the blob it starts spans one checkpoint and
holds one entry, and a boundary's entry is far below `MAX_BLOB_SIZE`. -/
theorem shouldCutNewBlob_of_empty {w : EventBlobWriter} (e : PositionedStreamEvent)
    (cursor : EventStreamCursor) (hN : 2 ≤ w.numCheckpointsPerBlob) (hstart : w.start = none)
    (hbuf : w.bufOffset = headerSize) :
    ((({ w with eventCursor := cursor }.updateSequenceRange e).writeEventToBuffer e).updateEpoch e
      ).shouldCutNewBlob e = false := by
  obtain ⟨hs, -, hb, -, hn⟩ :=
    updateEpoch_frame (({ w with eventCursor := cursor }.updateSequenceRange e).writeEventToBuffer e) e
  unfold shouldCutNewBlob
  rw [hs, hb, hn]
  simp only [writeEventToBuffer, updateSequenceRange, hstart, hbuf, Option.isNone_none, if_true,
    Option.getD_some]
  obtain ⟨element, cp, counter⟩ := e
  cases element with
  | contractEvent event => rfl
  | checkpointBoundary =>
    -- a boundary's entry takes 27 bytes
    have hentry : (PositionedStreamEvent.mk .checkpointBoundary cp counter).entryLength = 27 := rfl
    have hsize : ¬ maxBlobSize < headerSize + 27 := by decide
    have hcount : ¬ cp + w.numCheckpointsPerBlob ≤ cp + 1 := by omega
    simp [PositionedStreamEvent.isEndOfCheckpointMarker, hentry, hsize, hcount]

/-- A cut files its blob after every pending blob, under the element's index, and the blob
ends at the cursor. -/
theorem Sound.cutAndResetBlob {u v : EventBlobWriter} {i : Nat} (hs : u.Sound)
    (hi : u.eventCursor.elementIndex = i + 1)
    (hgap : ∀ m ∈ u.kept, m.eventCursor.elementIndex + 2 ≤ u.eventCursor.elementIndex)
    (hv : u.cutAndResetBlob i = .ok v) :
    v.Sound ∧ ∃ start «end», u.start = some start ∧ u.«end» = some «end» ∧
      v.kept = u.kept ++ [EventBlobMetadata.new start «end» u.eventCursor u.currentEpoch] := by
  obtain ⟨start, «end», hstart, hend, rfl⟩ := cutAndResetBlob_eq_ok hv
  -- every pending key lies below the element's index
  have habove : ∀ p ∈ u.pending.entries, p.1 < i := by
    intro p hp
    have hmem : p.2 ∈ u.kept := by
      simp only [kept, List.mem_append]
      exact .inr (List.mem_map_of_mem hp)
    have h2 := hgap p.2 hmem
    have hkey := hs.keyed p hp
    omega
  have hentries := OrdMap.entries_insert_of_keys_lt
    (EventBlobMetadata.new start «end» u.eventCursor u.currentEpoch) habove
  have hkept : ({ u with
      pending := u.pending.insert i (EventBlobMetadata.new start «end» u.eventCursor u.currentEpoch)
      start := none
      «end» := none
      bufOffset := headerSize } : EventBlobWriter).kept =
      u.kept ++ [EventBlobMetadata.new start «end» u.eventCursor u.currentEpoch] := by
    simp only [kept, hentries, List.map_append, List.map_cons, List.map_nil, List.append_assoc]
  refine ⟨?_, start, «end», hstart, hend, hkept⟩
  constructor
  · exact hs.twoCheckpoints
  · exact hs.atMostOne
  · rw [hkept, List.pairwise_append]
    exact ⟨hs.apart, List.pairwise_singleton _ _,
      fun a ha b hb => by rw [List.mem_singleton.mp hb]; exact hgap a ha⟩
  · intro m hm
    rw [hkept, List.mem_append, List.mem_singleton] at hm
    rcases hm with hm | rfl
    · exact hs.le_cursor m hm
    · exact le_refl _
  · intro p hp
    change p ∈ (u.pending.insert i _).entries at hp
    rw [hentries, List.mem_append, List.mem_singleton] at hp
    rcases hp with hp | rfl
    · exact hs.keyed p hp
    · exact .inl hi
  · intro _ _ _
    exact ⟨rfl, rfl⟩

/-- A certification removes the certified blob from the kept ones and records it. -/
theorem kept_handleEventBlobCertification (w : EventBlobWriter) (e : PositionedStreamEvent)
    {m : PendingEventBlobMetadata} (hm : m ∈ w.kept) :
    m ∈ (w.handleEventBlobCertification e).kept ∨
      ∃ blobId, e.element.certifiedBlobId = some blobId ∧
        (w.handleEventBlobCertification e).certified =
          some ⟨(), (), m.eventCursor, m.epoch, blobId⟩ := by
  rcases handleEventBlobCertification_cases w e with hw | ⟨blobId, hcert, ⟨a, ha, hid, hw⟩ |
      ⟨f, hf, hid, hw⟩⟩
  · rw [hw]
    exact .inl hm
  · -- the attested blob is certified
    simp only [kept, ha, Option.toList_some, List.map_cons, List.map_nil, List.cons_append,
      List.nil_append, List.mem_cons] at hm
    rcases hm with rfl | hm
    · refine .inr ⟨blobId, hcert, ?_⟩
      rw [hw, ← hid]
      rfl
    · refine .inl ?_
      rw [hw]
      simp only [kept, Option.toList_none, List.map_nil, List.nil_append]
      exact hm
  · -- the failed blob is certified
    simp only [kept, hf, Option.toList_some, List.map_cons, List.map_nil, List.mem_append,
      List.mem_cons, List.not_mem_nil, or_false] at hm
    rcases hm with (hm | rfl) | hm
    · refine .inl ?_
      rw [hw]
      simp only [kept, List.mem_append]
      exact .inl (.inl hm)
    · refine .inr ⟨blobId, hcert, ?_⟩
      rw [hw, ← hid]
      rfl
    · refine .inl ?_
      rw [hw]
      simp only [kept, List.mem_append]
      exact .inr hm

theorem Sound.handleEventBlobCertification {w : EventBlobWriter} (hs : w.Sound)
    (e : PositionedStreamEvent) : (w.handleEventBlobCertification e).Sound := by
  rcases handleEventBlobCertification_cases w e with hw | ⟨blobId, -, ⟨a, ha, -, hw⟩ |
      ⟨f, hf, -, hw⟩⟩
  · rw [hw]
    exact hs
  · -- the attested blob leaves the kept ones, the others keep their order
    have hsub : (w.handleEventBlobCertification e).kept.Sublist w.kept := by
      rw [hw]
      simp [kept, ha]
    rw [hw] at hsub ⊢
    exact ⟨hs.twoCheckpoints, .inl rfl, hs.apart.sublist hsub,
      fun m hm => hs.le_cursor m (hsub.subset hm), hs.keyed,
      fun m hm hidx => hs.fresh m (hsub.subset hm) hidx⟩
  · -- the failed blob leaves the kept ones
    have hsub : (w.handleEventBlobCertification e).kept.Sublist w.kept := by
      rw [hw]
      simp [kept, hf]
    rw [hw] at hsub ⊢
    exact ⟨hs.twoCheckpoints, .inr rfl, hs.apart.sublist hsub,
      fun m hm => hs.le_cursor m (hsub.subset hm), hs.keyed,
      fun m hm hidx => hs.fresh m (hsub.subset hm) hidx⟩

/-! ## Whole writes and runs -/

/-- When an element cuts, the one before it did not: every kept blob ends two elements back. -/
theorem Sound.apart_of_cut {w : EventBlobWriter} (hs : w.Sound) (e : PositionedStreamEvent)
    (hcut : ((({ w with eventCursor := ⟨e.element.eventId, w.eventCursor.elementIndex + 1⟩
      }.updateSequenceRange e).writeEventToBuffer e).updateEpoch e).shouldCutNewBlob e = true) :
    ∀ m ∈ w.kept, m.eventCursor.elementIndex + 2 ≤ w.eventCursor.elementIndex + 1 := by
  intro m hm
  have hle := hs.le_cursor m hm
  by_cases hidx : m.eventCursor.elementIndex = w.eventCursor.elementIndex
  · obtain ⟨hstart, hbuf⟩ := hs.fresh m hm hidx
    rw [shouldCutNewBlob_of_empty e _ hs.twoCheckpoints hstart hbuf] at hcut
    cases hcut
  · omega

/-- A write from a sound writer, up to its certification: the state is sound and keeps every
blob kept before. -/
theorem Sound.write_eq_ok {w w' : EventBlobWriter} {e : PositionedStreamEvent} {i : Nat}
    {o : AttestOutcome} (hs : w.Sound) (hw : w.write e i o = .ok w') :
    ∃ v : EventBlobWriter, v.Sound ∧ w.kept.Sublist v.kept ∧
      w' = (v.handleEventBlobCertification e).tryAttestNextBlob o := by
  obtain ⟨rfl, v, hv, rfl⟩ := EventBlobWriter.write_eq_ok hw
  obtain ⟨hsu, hkeptu⟩ := (hs.prepare e e.element.eventId).updateEpoch e
  rcases hv with ⟨-, rfl⟩ | ⟨hcut, hv⟩
  · refine ⟨_, hsu, ?_, rfl⟩
    rw [hkeptu]
    exact List.Sublist.refl _
  · -- a cut, one element after the last kept blob ends at the latest
    obtain ⟨-, -, -, hcursor, -⟩ := updateEpoch_frame (({ w with
      eventCursor := ⟨e.element.eventId, w.eventCursor.elementIndex + 1⟩ }.updateSequenceRange e
      ).writeEventToBuffer e) e
    obtain ⟨hsv, start, «end», -, -, hkept⟩ := hsu.cutAndResetBlob (by rw [hcursor]; rfl)
      (by rw [hkeptu, hcursor]; exact hs.apart_of_cut e hcut) hv
    refine ⟨v, hsv, ?_, rfl⟩
    rw [hkept, hkeptu]
    exact List.sublist_append_left _ _

theorem Sound.write {w w' : EventBlobWriter} {e : PositionedStreamEvent} {i : Nat}
    {o : AttestOutcome} (hs : w.Sound) (hw : w.write e i o = .ok w') : w'.Sound := by
  obtain ⟨v, hsv, -, rfl⟩ := hs.write_eq_ok hw
  exact (hsv.handleEventBlobCertification e).attestNextBlob o

/-- No write from a sound writer drops a kept blob, but for a certification that records it. -/
theorem Sound.write_keeps {w w' : EventBlobWriter} {e : PositionedStreamEvent} {i : Nat}
    {o : AttestOutcome} (hs : w.Sound) (hw : w.write e i o = .ok w')
    {m : PendingEventBlobMetadata} (hm : m ∈ w.kept) :
    m ∈ w'.kept ∨ ∃ blobId, e.element.certifiedBlobId = some blobId ∧
      w'.certified = some ⟨(), (), m.eventCursor, m.epoch, blobId⟩ := by
  obtain ⟨v, -, hsub, rfl⟩ := hs.write_eq_ok hw
  obtain ⟨-, -, -, -, hcertified, -⟩ := attestNextBlob_frame (v.handleEventBlobCertification e) o
  unfold tryAttestNextBlob
  rw [kept_attestNextBlob, hcertified]
  exact kept_handleEventBlobCertification v e (hsub.subset hm)

/-- A boundary that fills the blob past `MAX_BLOB_SIZE`, or whose checkpoint completes it, cuts
the blob, and the writer keeps it. -/
theorem Sound.write_keeps_cut_blob {w w' : EventBlobWriter} {e : PositionedStreamEvent}
    {o : AttestOutcome} (hs : w.Sound) (he : e.element = .checkpointBoundary)
    (hw : w.write e w.eventCursor.elementIndex o = .ok w')
    (hlimit : maxBlobSize < w.bufOffset + e.entryLength ∨
      w.start.getD e.checkpointSequenceNumber + w.numCheckpointsPerBlob ≤
        e.checkpointSequenceNumber + 1) :
    EventBlobMetadata.new (w.start.getD e.checkpointSequenceNumber) e.checkpointSequenceNumber
      ⟨none, w.eventCursor.elementIndex + 1⟩ w.currentEpoch ∈ w'.kept := by
  obtain ⟨-, v, hv, rfl⟩ := EventBlobWriter.write_eq_ok hw
  -- the element's own updates; a boundary starts no epoch and certifies no blob
  set p := ({ w with eventCursor := ⟨e.element.eventId, w.eventCursor.elementIndex + 1⟩
    }.updateSequenceRange e).writeEventToBuffer e with hp
  have hupd : p.updateEpoch e = p := by
    unfold EventBlobWriter.updateEpoch
    rw [he]
  have hcert : v.handleEventBlobCertification e = v := by
    unfold EventBlobWriter.handleEventBlobCertification
    rw [he]
    rfl
  -- the blob so far starts at its first checkpoint, or at this one when it is empty
  have hstart : p.start = some (w.start.getD e.checkpointSequenceNumber) := by
    rw [hp]
    simp only [writeEventToBuffer, updateSequenceRange]
    cases w.start <;> rfl
  have hcut : (p.updateEpoch e).shouldCutNewBlob e = true := by
    rw [hupd]
    unfold shouldCutNewBlob
    rw [hstart, Option.getD_some]
    simp only [PositionedStreamEvent.isEndOfCheckpointMarker, he, Bool.true_and, Bool.or_eq_true,
      decide_eq_true_eq]
    exact hlimit
  rcases hv with ⟨hnocut, -⟩ | ⟨-, hv⟩
  · rw [hcut] at hnocut
    cases hnocut
  obtain ⟨hsu, hkeptu⟩ := (hs.prepare e e.element.eventId).updateEpoch e
  obtain ⟨-, start, «end», hstart', hend, hkept⟩ := hsu.cutAndResetBlob (by rw [hupd]; rfl)
    (by rw [hkeptu, hupd]; exact hs.apart_of_cut e hcut) hv
  rw [hupd, hstart] at hstart'
  rw [hupd] at hend hkept
  -- the certification and the attestation leave the kept blobs as they are
  unfold tryAttestNextBlob
  rw [kept_attestNextBlob, hcert, hkept]
  refine List.mem_append_right _ (List.mem_singleton.mpr ?_)
  have hcursor : p.eventCursor = ⟨none, w.eventCursor.elementIndex + 1⟩ := by
    rw [hp]
    simp [writeEventToBuffer, updateSequenceRange, he, EventStreamElement.eventId]
  rw [Option.some.inj hstart', hcursor]
  rw [hp] at hend
  simp only [writeEventToBuffer, updateSequenceRange, Option.some.injEq] at hend
  rw [← hend]
  rfl

theorem writeAll_sound {w w' : EventBlobWriter}
    {stream : List (PositionedStreamEvent × AttestOutcome)} (hs : w.Sound)
    (hrun : w.writeAll stream = .ok w') : w'.Sound :=
  @foldlM_ok_invariant String EventBlobWriter (PositionedStreamEvent × AttestOutcome) _
    (fun _ _ w => w.Sound) stream (fun _ _ _ _ _ _ hs hstep => hs.write hstep) w w' hs hrun

/-- The number of checkpoints per blob is fixed for the writer's life. -/
theorem write_numCheckpointsPerBlob {w w' : EventBlobWriter} {e : PositionedStreamEvent}
    {i : Nat} {o : AttestOutcome} (hw : w.write e i o = .ok w') :
    w'.numCheckpointsPerBlob = w.numCheckpointsPerBlob := by
  obtain ⟨-, v, hv, rfl⟩ := EventBlobWriter.write_eq_ok hw
  have hv' : v.numCheckpointsPerBlob = w.numCheckpointsPerBlob := by
    rcases hv with ⟨-, rfl⟩ | ⟨-, hv⟩
    · exact (updateEpoch_frame _ e).2.2.2.2
    · obtain ⟨-, -, -, -, rfl⟩ := cutAndResetBlob_eq_ok hv
      exact (updateEpoch_frame _ e).2.2.2.2
  have hcert : (v.handleEventBlobCertification e).numCheckpointsPerBlob =
      v.numCheckpointsPerBlob := by
    rcases handleEventBlobCertification_cases v e with hc | ⟨_, -, ⟨_, -, -, hc⟩ | ⟨_, -, -, hc⟩⟩ <;>
      rw [hc]
  unfold tryAttestNextBlob
  rw [(attestNextBlob_frame _ o).2.2.2.1, hcert, hv']

theorem writeAll_numCheckpointsPerBlob {w w' : EventBlobWriter}
    {stream : List (PositionedStreamEvent × AttestOutcome)} (hrun : w.writeAll stream = .ok w') :
    w'.numCheckpointsPerBlob = w.numCheckpointsPerBlob :=
  @foldlM_ok_invariant String EventBlobWriter (PositionedStreamEvent × AttestOutcome) _
    (fun _ _ x => x.numCheckpointsPerBlob = w.numCheckpointsPerBlob) stream
    (fun _ _ _ _ _ _ hs hstep => (write_numCheckpointsPerBlob hstep).trans hs) w w' rfl hrun

end EventBlobWriter

/-! ## Every run with two checkpoints or more per blob -/

open EventBlobWriter

theorem cut_blobs_kept_until_certified (config : EventBlobWriterConfig)
    {numCheckpointsPerBlob : Nat} (hN : 2 ≤ numCheckpointsPerBlob) (o : AttestOutcome)
    (stream : List (PositionedStreamEvent × AttestOutcome)) :
    ∃ w, (EventBlobWriter.new config numCheckpointsPerBlob o).writeAll stream = .ok w ∧
    (∀ e o' w', w.write e w.eventCursor.elementIndex o' = .ok w' → ∀ m, w.Keeps m →
      w'.Keeps m ∨ ∃ blobId, e.element.certifiedBlobId = some blobId ∧
        w'.certified = some ⟨(), (), m.eventCursor, m.epoch, blobId⟩) ∧
    (∀ e o' w', e.element = .checkpointBoundary →
      w.write e w.eventCursor.elementIndex o' = .ok w' →
      (maxBlobSize < w.bufOffset + e.entryLength ∨
        w.start.getD e.checkpointSequenceNumber + numCheckpointsPerBlob ≤
          e.checkpointSequenceNumber + 1) →
      w'.Keeps (EventBlobMetadata.new (w.start.getD e.checkpointSequenceNumber)
        e.checkpointSequenceNumber ⟨none, w.eventCursor.elementIndex + 1⟩ w.currentEpoch)) := by
  obtain ⟨w, hrun⟩ := writeAll_ok stream (EventBlobWriter.new config numCheckpointsPerBlob o)
  have hs := writeAll_sound (new_sound config hN o) hrun
  have hN' : w.numCheckpointsPerBlob = numCheckpointsPerBlob := writeAll_numCheckpointsPerBlob hrun
  refine ⟨w, hrun, ?_, ?_⟩
  · intro e o' w' hw m hm
    rw [keeps_iff_mem_kept] at hm ⊢
    exact hs.write_keeps hw hm
  · intro e o' w' he hw hlimit
    rw [keeps_iff_mem_kept]
    rw [← hN'] at hlimit
    exact hs.write_keeps_cut_blob he hw hlimit

/-- A writer of a fresh node with two checkpoints per blob. -/
def twoCheckpointWriter : EventBlobWriter :=
  EventBlobWriter.new ⟨1, ⟨none, 0⟩, ⟨Vector.replicate 32 0⟩⟩ 2 attestedOutcome

/-- An event whose encoding alone fills a blob. -/
def fullBlobEvent : ContractEvent := .other ⟨Vector.replicate 32 2, 0⟩ maxBlobSize

/-- The boundary of checkpoint 1 cuts a blob of two checkpoints; checkpoint 2 holds a full blob's
worth of events, and its boundary cuts a blob of one checkpoint; checkpoint 3 starts filling
the next blob past `MAX_BLOB_SIZE` again. -/
def twoCutsStream : List (PositionedStreamEvent × AttestOutcome) :=
  [(⟨.checkpointBoundary, 0, 0⟩, attestedOutcome), (⟨.checkpointBoundary, 1, 0⟩, attestedOutcome),
    (⟨.contractEvent fullBlobEvent, 2, 0⟩, attestedOutcome),
    (⟨.checkpointBoundary, 2, 1⟩, attestedOutcome),
    (⟨.contractEvent fullBlobEvent, 3, 0⟩, attestedOutcome)]

/-- After the stream above the writer keeps the two blobs it cut, and the boundary of checkpoint
3, cutting on the size alone, keeps them and the blob it cuts. -/
theorem cut_blobs_kept_until_certified_from_new :
    2 ≤ 2 ∧ ∃ w, twoCheckpointWriter.writeAll twoCutsStream = .ok w ∧
      (w.kept.map fun m => (m.start, m.end)) = [(0, 1), (2, 2)] ∧
      maxBlobSize < w.bufOffset + PositionedStreamEvent.entryLength ⟨.checkpointBoundary, 3, 1⟩ ∧
      ∀ o' w', w.write ⟨.checkpointBoundary, 3, 1⟩ w.eventCursor.elementIndex o' = .ok w' →
        (∀ m ∈ w.kept, w'.Keeps m) ∧ w'.Keeps (EventBlobMetadata.new 3 3 ⟨none, 6⟩ 1) := by
  -- the run, evaluated once, to what it keeps and where the next blob stands
  have hrun : (twoCheckpointWriter.writeAll twoCutsStream).toOption.map (fun w =>
      (w.kept.map (fun m => (m.start, m.end)), w.start, w.eventCursor.elementIndex,
        w.currentEpoch, decide (maxBlobSize <
          w.bufOffset + PositionedStreamEvent.entryLength ⟨.checkpointBoundary, 3, 1⟩))) =
      some ([(0, 1), (2, 2)], some 3, 5, 1, true) := by
    decide +kernel
  obtain ⟨w, hw, hkeeps, hcut⟩ := cut_blobs_kept_until_certified
    ⟨1, ⟨none, 0⟩, ⟨Vector.replicate 32 0⟩⟩ (le_refl 2) attestedOutcome twoCutsStream
  obtain ⟨w₁, hw₁, hsummary⟩ := Option.map_eq_some_iff.mp hrun
  have hw₁w : w₁ = w := Except.ok.inj ((toOption_eq_some.mp hw₁).symm.trans hw)
  rw [hw₁w] at hsummary
  simp only [Prod.mk.injEq, decide_eq_true_eq] at hsummary
  obtain ⟨hkept, hstart, hidx, hepoch, hfull⟩ := hsummary
  refine ⟨by decide, w, hw, hkept, hfull, fun o' w' hw' => ⟨?_, ?_⟩⟩
  · intro m hm
    -- a boundary certifies no blob
    rcases hkeeps _ o' w' hw' m (keeps_iff_mem_kept.mpr hm) with hkeep | ⟨blobId, hcert, -⟩
    · exact hkeep
    · cases hcert
  · have hnew := hcut _ o' w' rfl hw' (.inl hfull)
    rwa [hstart, hidx, hepoch, Option.getD_some] at hnew

theorem kept_in_stream_order (config : EventBlobWriterConfig) {numCheckpointsPerBlob : Nat}
    (hN : 2 ≤ numCheckpointsPerBlob) (o : AttestOutcome)
    (stream : List (PositionedStreamEvent × AttestOutcome)) {w : EventBlobWriter}
    (hrun : (EventBlobWriter.new config numCheckpointsPerBlob o).writeAll stream = .ok w) :
    (w.kept.map fun m => m.eventCursor.elementIndex).Pairwise (· < ·) := by
  have hs := writeAll_sound (new_sound config hN o) hrun
  rw [List.pairwise_map]
  exact hs.apart.imp fun h => by omega

/-- The two blobs the stream above cuts are kept oldest first. -/
theorem kept_in_stream_order_from_new :
    2 ≤ 2 ∧ ∃ w, twoCheckpointWriter.writeAll twoCutsStream = .ok w ∧ w.kept.length = 2 ∧
      (w.kept.map fun m => m.eventCursor.elementIndex).Pairwise (· < ·) := by
  have hrun : (twoCheckpointWriter.writeAll twoCutsStream).toOption.map
      (fun w => w.kept.length) = some 2 := by
    decide +kernel
  obtain ⟨w, hw, hlength⟩ := Option.map_eq_some_iff.mp hrun
  exact ⟨by decide, w, toOption_eq_some.mp hw, hlength,
    kept_in_stream_order ⟨1, ⟨none, 0⟩, ⟨Vector.replicate 32 0⟩⟩ (by decide) attestedOutcome
      twoCutsStream (toOption_eq_some.mp hw)⟩

end Walrus.EventBlob
