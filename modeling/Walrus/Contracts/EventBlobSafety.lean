import Walrus.Contracts.EventBlob

/-! # Event-blob certification is safe under any order of calls

The state machine of `EventBlob.lean` is run with two ghost fields that the contract does
not store but that the safety statement talks about:

* `votes`: the attestations whose weight was added to a tally since the last reset, newest
  first. A call adds one when it reaches `update_aggregate_weight`; a certification and an
  epoch change empty the list, as they empty the tallies.
* `certified`: every certification of the run, oldest first, with the epoch and committee it
  happened in, the tally `is_quorum` accepted, and the nodes whose counted attestations of
  exactly that blob made up the tally.

The invariant `Inv` says that the contract's tallies are the weights of distinct committee
members, that a node with a counted attestation is locked out until the next reset (the
`EIncorrectAttestation` check), and that certified checkpoints increase. From it: every
certification of a run was reached by a quorum of distinct members with each weight
counted once, and from a reachable state `certify_event_blob` aborts only in its own guards.
-/

namespace Walrus.System

open Machine

/-- A certification in the history of a run. -/
structure Certification where
  eventBlob : EventBlob
  epoch : Nat
  committee : BlsCommittee
  aggregateWeight : Nat
  signers : List ObjectID

/-- The nodes whose counted attestation is for the blob `k`. -/
def voters (votes : List (ObjectID × EventBlob)) (k : EventBlob) : List ObjectID :=
  (votes.filter fun v => v.2 = k).map Prod.fst

/-- The event-blob state with the ghost record of counted attestations and certifications. -/
structure Tallied where
  sys : EventBlobSystem
  votes : List (ObjectID × EventBlob)
  certified : List Certification

namespace Tallied

/-- The start: `create_empty`, nothing counted and nothing certified. -/
def init : Tallied :=
  ⟨.createEmpty, [], []⟩

/-- The ghost fields after a successful call that led from `t.sys` to `sys`. -/
def record (t : Tallied) (sys : EventBlobSystem) : EventBlobCall → Tallied
  | .advanceEpoch _ => ⟨sys, [], t.certified⟩
  | .certifyEventBlob n b cp _ =>
    if t.sys.eventBlobCertificationState.isBlobAlreadyCertified cp then
      ⟨sys, t.votes, t.certified⟩
    else if sys.eventBlobCertificationState.latestCertifiedBlob =
        t.sys.eventBlobCertificationState.latestCertifiedBlob then
      ⟨sys, (n, ⟨b, cp⟩) :: t.votes, t.certified⟩
    else
      ⟨sys, [], t.certified ++
        [⟨⟨b, cp⟩, t.sys.epoch, t.sys.committee, t.sys.tallyWith n b cp,
          n :: voters t.votes ⟨b, cp⟩⟩]⟩

/-- One call. -/
def step (t : Tallied) (c : EventBlobCall) : Except Abort Tallied := do
  let sys ← t.sys.step c
  return t.record sys c

/-- The state after a sequence of calls; an aborted call changes nothing. -/
def run (calls : List EventBlobCall) : Tallied :=
  Machine.run (commit fun t c => (t.step c).toOption) init calls

end Tallied

/-- The invariant of every reachable state. -/
structure Tallied.Inv (t : Tallied) : Prop where
  latest_eq : t.sys.eventBlobCertificationState.latestCertifiedBlob =
    (t.certified.getLast?).map Certification.eventBlob
  certified_le : ∀ r ∈ t.certified, ∀ l ∈ t.sys.eventBlobCertificationState.latestCertifiedBlob,
    r.eventBlob.endingCheckpointSequenceNumber ≤ l.endingCheckpointSequenceNumber
  increasing : (t.certified.map fun r => r.eventBlob.endingCheckpointSequenceNumber).Pairwise
    (· < ·)
  certified_quorum : ∀ r ∈ t.certified, r.signers.Nodup ∧
    (∀ v ∈ r.signers, r.committee.contains v = true) ∧
    r.aggregateWeight = (r.signers.map r.committee.getMemberWeight).sum ∧
    r.committee.isQuorum r.aggregateWeight = true ∧ r.committee.epoch = r.epoch
  votes_nodup : (t.votes.map Prod.fst).Nodup
  votes_above : ∀ v ∈ t.votes, ∀ l ∈ t.sys.eventBlobCertificationState.latestCertifiedBlob,
    l.endingCheckpointSequenceNumber < v.2.endingCheckpointSequenceNumber
  votes_attested : ∀ v ∈ t.votes,
    t.sys.lastEventBlobAttestation v.1 = some ⟨v.2.endingCheckpointSequenceNumber, t.sys.epoch⟩
  votes_members : ∀ v ∈ t.votes, t.sys.committee.contains v.1 = true
  tally : ∀ k, (t.sys.eventBlobCertificationState.aggregateWeightPerBlob.get? k).getD 0 =
    ((voters t.votes k).map t.sys.committee.getMemberWeight).sum

namespace Tallied.Inv

variable {t : Tallied}

theorem voters_sublist (votes : List (ObjectID × EventBlob)) (k : EventBlob) :
    (voters votes k).Sublist (votes.map Prod.fst) :=
  (List.filter_sublist).map Prod.fst

theorem mem_voters {votes : List (ObjectID × EventBlob)} {k : EventBlob} {n : ObjectID} :
    n ∈ voters votes k ↔ (n, k) ∈ votes := by
  simp [voters]

/-- A node with a counted attestation fails the checks on its previous attestation: that
attestation is of the current epoch and above the latest certified checkpoint. -/
theorem not_voted (hI : t.Inv) {n : ObjectID} {cp : Nat}
    (hchk : t.sys.checkLastAttestation cp (t.sys.lastEventBlobAttestation n) = .ok ()) :
    n ∉ t.votes.map Prod.fst := by
  intro hn
  obtain ⟨v, hv, rfl⟩ := List.mem_map.mp hn
  rw [hI.votes_attested v hv] at hchk
  rcases checkLastAttestation_eq_ok hchk with hlt | ⟨-, l, hl, hle⟩
  · exact Nat.lt_irrefl _ hlt
  · have := hI.votes_above v hv l hl
    simp only at hle
    omega

/-- The caller together with the earlier voters for its blob are distinct. -/
theorem signers_nodup (hI : t.Inv) {n : ObjectID} {cp : Nat} (k : EventBlob)
    (hchk : t.sys.checkLastAttestation cp (t.sys.lastEventBlobAttestation n) = .ok ()) :
    (n :: voters t.votes k).Nodup :=
  List.nodup_cons.mpr ⟨fun h => hI.not_voted hchk ((voters_sublist _ _).subset h),
    (voters_sublist _ _).nodup hI.votes_nodup⟩

/-- The tally a counted call reaches is the weight of the caller and of the earlier voters. -/
theorem tallyWith_eq (hI : t.Inv) (n : ObjectID) (b cp : Nat) :
    t.sys.tallyWith n b cp =
      ((n :: voters t.votes ⟨b, cp⟩).map t.sys.committee.getMemberWeight).sum := by
  rw [EventBlobSystem.tallyWith, hI.tally, List.map_cons, List.sum_cons, Nat.add_comm]

/-- The tally never leaves `u16`: the weights of distinct members sum to at most the
shard count. -/
theorem tallyWith_le (hI : t.Inv) {n : ObjectID} {b cp : Nat}
    (hchk : t.sys.checkLastAttestation cp (t.sys.lastEventBlobAttestation n) = .ok ()) :
    t.sys.tallyWith n b cp ≤ u16Max := by
  rw [hI.tallyWith_eq]
  exact (t.sys.committee.sum_getMemberWeight_le (hI.signers_nodup _ hchk)).trans
    t.sys.committee.nShards_le_u16Max

/-- A caller that passed the checks has no counted attestation, so the caps of all counted
voters are untouched by its call. -/
theorem attested_update (hI : t.Inv) {n : ObjectID} {cp : Nat} (a : EventBlobAttestation)
    (hchk : t.sys.checkLastAttestation cp (t.sys.lastEventBlobAttestation n) = .ok ()) :
    ∀ v ∈ t.votes, Function.update t.sys.lastEventBlobAttestation n (some a) v.1 =
      some ⟨v.2.endingCheckpointSequenceNumber, t.sys.epoch⟩ := by
  intro v hv
  have hne : v.1 ≠ n := fun h => hI.not_voted hchk (h ▸ List.mem_map_of_mem hv)
  rw [Function.update_of_ne hne]
  exact hI.votes_attested v hv

/-- A checkpoint above the latest certified one is above every certified checkpoint. -/
theorem certified_lt (hI : t.Inv) {cp : Nat}
    (hcp : ∀ l ∈ t.sys.eventBlobCertificationState.latestCertifiedBlob,
      l.endingCheckpointSequenceNumber < cp) :
    ∀ r ∈ t.certified, r.eventBlob.endingCheckpointSequenceNumber < cp := by
  intro r hr
  -- the history is not empty, so its last entry is the latest certified blob
  obtain ⟨last, hlast⟩ := Option.isSome_iff_exists.mp
    (List.getLast?_isSome.mpr (List.ne_nil_of_mem hr))
  have hl : last.eventBlob ∈ t.sys.eventBlobCertificationState.latestCertifiedBlob := by
    rw [hI.latest_eq, hlast]
    rfl
  exact Nat.lt_of_le_of_lt (hI.certified_le r hr _ hl) (hcp _ hl)

end Tallied.Inv

namespace Tallied

open Tallied.Inv

variable {t : Tallied}

theorem init_inv : init.Inv where
  latest_eq := rfl
  certified_le := by simp [init]
  increasing := List.Pairwise.nil
  certified_quorum := by simp [init]
  votes_nodup := List.nodup_nil
  votes_above := by simp [init]
  votes_attested := by simp [init]
  votes_members := by simp [init]
  tally := fun k => by
    simp [init, voters, EventBlobSystem.createEmpty,
      EventBlobCertificationState.createWithEmptyState]

/-- A call on an already certified checkpoint only records the attestation in the cap. -/
theorem inv_certify_ignored (hI : t.Inv) {n : ObjectID} {cp e : Nat} {sys : EventBlobSystem}
    (hchk : t.sys.checkLastAttestation cp (t.sys.lastEventBlobAttestation n) = .ok ())
    (hcom : sys.committee = t.sys.committee)
    (hcaps : sys.lastEventBlobAttestation =
      Function.update t.sys.lastEventBlobAttestation n (some ⟨cp, e⟩))
    (hst : sys.eventBlobCertificationState = t.sys.eventBlobCertificationState) :
    (⟨sys, t.votes, t.certified⟩ : Tallied).Inv where
  latest_eq := hst ▸ hI.latest_eq
  certified_le := hst ▸ hI.certified_le
  increasing := hI.increasing
  certified_quorum := hI.certified_quorum
  votes_nodup := hI.votes_nodup
  votes_above := hst ▸ hI.votes_above
  votes_attested := by
    rw [hcaps, EventBlobSystem.epoch, hcom]
    exact hI.attested_update _ hchk
  votes_members := hcom ▸ hI.votes_members
  tally := hst ▸ hcom ▸ hI.tally

/-- A counted call that does not reach a quorum adds the caller's vote. -/
theorem inv_certify_counted (hI : t.Inv) {n : ObjectID} {b cp e : Nat} {sys : EventBlobSystem}
    (hmem : t.sys.committee.contains n = true) (hep : e = t.sys.epoch)
    (hchk : t.sys.checkLastAttestation cp (t.sys.lastEventBlobAttestation n) = .ok ())
    (hcom : sys.committee = t.sys.committee)
    (hcaps : sys.lastEventBlobAttestation =
      Function.update t.sys.lastEventBlobAttestation n (some ⟨cp, e⟩))
    (hcert : t.sys.eventBlobCertificationState.isBlobAlreadyCertified cp = false)
    (hlat : sys.eventBlobCertificationState.latestCertifiedBlob =
      t.sys.eventBlobCertificationState.latestCertifiedBlob)
    (hget : ∀ k, sys.eventBlobCertificationState.aggregateWeightPerBlob.get? k =
      if k = ⟨b, cp⟩ then some (t.sys.tallyWith n b cp)
      else t.sys.eventBlobCertificationState.aggregateWeightPerBlob.get? k) :
    (⟨sys, (n, ⟨b, cp⟩) :: t.votes, t.certified⟩ : Tallied).Inv where
  latest_eq := hlat ▸ hI.latest_eq
  certified_le := hlat ▸ hI.certified_le
  increasing := hI.increasing
  certified_quorum := hI.certified_quorum
  votes_nodup := List.nodup_cons.mpr ⟨hI.not_voted hchk, hI.votes_nodup⟩
  votes_above := by
    rw [hlat]
    intro v hv l hl
    rcases List.mem_cons.mp hv with rfl | hv
    · exact isBlobAlreadyCertified_eq_false.mp hcert l hl
    · exact hI.votes_above v hv l hl
  votes_attested := by
    intro v hv
    rw [hcaps, EventBlobSystem.epoch, hcom]
    rcases List.mem_cons.mp hv with rfl | hv
    · simp [hep, EventBlobSystem.epoch]
    · exact hI.attested_update _ hchk v hv
  votes_members := by
    intro v hv
    rw [hcom]
    rcases List.mem_cons.mp hv with rfl | hv
    · exact hmem
    · exact hI.votes_members v hv
  tally := by
    intro k
    rw [hget k, hcom]
    by_cases hk : k = ⟨b, cp⟩
    · subst hk
      simp only [if_true, Option.getD_some, hI.tallyWith_eq]
      simp [voters]
    · rw [if_neg hk, hI.tally k]
      simp [voters, Ne.symm hk]

/-- A call that reaches a quorum certifies its blob, with the caller and the earlier voters
as signers, and drops every vote. -/
theorem inv_certify_certified (hI : t.Inv) {n : ObjectID} {b cp : Nat} {sys : EventBlobSystem}
    (hmem : t.sys.committee.contains n = true)
    (hchk : t.sys.checkLastAttestation cp (t.sys.lastEventBlobAttestation n) = .ok ())
    (hcert : t.sys.eventBlobCertificationState.isBlobAlreadyCertified cp = false)
    (hq : t.sys.committee.isQuorum (t.sys.tallyWith n b cp) = true)
    (hst : sys.eventBlobCertificationState = ⟨some ⟨b, cp⟩, .empty⟩) :
    (⟨sys, [], t.certified ++
      [⟨⟨b, cp⟩, t.sys.epoch, t.sys.committee, t.sys.tallyWith n b cp,
        n :: voters t.votes ⟨b, cp⟩⟩]⟩ : Tallied).Inv where
  latest_eq := by simp [hst]
  certified_le := by
    have hlt := hI.certified_lt (isBlobAlreadyCertified_eq_false.mp hcert)
    simp only [hst, Option.mem_def, Option.some.injEq, List.mem_append, List.mem_singleton]
    rintro r (hr | rfl) l rfl
    · exact Nat.le_of_lt (hlt r hr)
    · exact Nat.le_refl _
  increasing := by
    have hlt := hI.certified_lt (isBlobAlreadyCertified_eq_false.mp hcert)
    rw [List.map_append, List.pairwise_append]
    refine ⟨hI.increasing, List.pairwise_singleton _ _, ?_⟩
    intro a ha c hc
    obtain ⟨r, hr, rfl⟩ := List.mem_map.mp ha
    simp only [List.map_cons, List.map_nil, List.mem_singleton] at hc
    subst hc
    exact hlt r hr
  certified_quorum := by
    intro r hr
    rcases List.mem_append.mp hr with hr | hr
    · exact hI.certified_quorum r hr
    · rw [List.mem_singleton] at hr
      subst hr
      refine ⟨hI.signers_nodup _ hchk, ?_, hI.tallyWith_eq n b cp, hq, rfl⟩
      intro v hv
      rcases List.mem_cons.mp hv with rfl | hv
      · exact hmem
      · exact hI.votes_members _ (mem_voters.mp hv)
  votes_nodup := List.nodup_nil
  votes_above := by simp
  votes_attested := by simp
  votes_members := by simp
  tally := fun k => by simp [hst, voters]

/-- An epoch change keeps the history and drops every vote. -/
theorem inv_advance (hI : t.Inv) {c : BlsCommittee} {sys : EventBlobSystem}
    (h : t.sys.advanceEpoch c = .ok sys) : (⟨sys, [], t.certified⟩ : Tallied).Inv := by
  obtain ⟨-, -, rfl⟩ := advanceEpoch_eq_ok h
  exact {
    latest_eq := hI.latest_eq
    certified_le := hI.certified_le
    increasing := hI.increasing
    certified_quorum := hI.certified_quorum
    votes_nodup := List.nodup_nil
    votes_above := by simp
    votes_attested := by simp
    votes_members := by simp
    tally := fun k => by simp [voters, EventBlobCertificationState.reset] }

/-- Every successful call keeps the invariant. -/
theorem step_inv (hI : t.Inv) {c : EventBlobCall} {t' : Tallied} (h : t.step c = .ok t') :
    t'.Inv := by
  obtain ⟨sys, hsys, h⟩ := bind_eq_ok.mp h
  cases h
  cases c with
  | advanceEpoch c => exact inv_advance hI hsys
  | certifyEventBlob n b cp e =>
    obtain ⟨hmem, hep, hchk, hcom, hcaps, hbranch⟩ := certifyEventBlob_eq_ok hsys
    rcases hbranch with ⟨hcert, hst⟩ | ⟨hcert, -, ⟨hq, hlat, hget⟩ | ⟨hq, hst⟩⟩
    · simp only [record, hcert, if_true]
      exact inv_certify_ignored hI hchk hcom hcaps hst
    · simp only [record, hcert, hlat, Bool.false_eq_true, if_false, if_true]
      exact inv_certify_counted hI hmem hep hchk hcom hcaps hcert hlat hget
    · -- the latest certified blob changed: the new one is above the old one
      have hne : sys.eventBlobCertificationState.latestCertifiedBlob ≠
          t.sys.eventBlobCertificationState.latestCertifiedBlob := by
        rw [hst]
        intro heq
        have hlt := isBlobAlreadyCertified_eq_false.mp hcert ⟨b, cp⟩ heq.symm
        exact Nat.lt_irrefl _ hlt
      simp only [record, hcert, hne, Bool.false_eq_true, if_false]
      exact inv_certify_certified hI hmem hchk hcert hq hst

/-- Every state a run reaches satisfies the invariant. -/
theorem run_inv (calls : List EventBlobCall) : (run calls).Inv :=
  Machine.run_invariant
    (fun t c hI => commit_invariant (fun _ _ _ hI h => step_inv hI (toOption_eq_some.mp h)) t c hI)
    calls init init_inv

/-- From a state satisfying the invariant, `certify_event_blob` aborts only in its guards:
the tally cannot overflow. -/
theorem Inv.certify_error (hI : t.Inv) {n : ObjectID} {b cp e : Nat} {err : Abort}
    (h : t.sys.certifyEventBlob n b cp e = .error err) :
    err = .notCommitteeMember ∨ err = .invalidIdEpoch ∨ err = .repeatedAttestation ∨
      err = .incorrectAttestation := by
  rcases certifyEventBlob_eq_error h with h | h | h | h | ⟨-, hchk, -, hov⟩
  · exact .inl h
  · exact .inr (.inl h)
  · exact .inr (.inr (.inl h))
  · exact .inr (.inr (.inr h))
  · exact absurd (hI.tallyWith_le hchk) (Nat.not_le.mpr hov)

end Tallied

/-- **Event-blob certification is safe under any order of calls.** After any sequence of
`certify_event_blob` and `advance_epoch` calls:
(a) the certified checkpoints strictly increase, and the latest certified blob is the last
one certified;
(b) every certification was accepted by `is_quorum` on a tally that is the weight of
distinct members of the committee of its epoch, the caller and the nodes whose counted
attestations were of exactly that blob;
(d) the contract's tally of each blob is the weight of the distinct nodes counted for it,
each node has at most one counted attestation, and all of them are above the latest certified
checkpoint;
(c) the next `certify_event_blob` aborts only in its guards, never in
`update_latest_certified_event_blob` nor on a tally overflow. -/
theorem event_blob_certification_safe (calls : List EventBlobCall) :
    let t := Tallied.run calls
    (t.certified.map fun r => r.eventBlob.endingCheckpointSequenceNumber).Pairwise (· < ·) ∧
    t.sys.eventBlobCertificationState.latestCertifiedBlob =
      (t.certified.getLast?).map Certification.eventBlob ∧
    (∀ r ∈ t.certified, r.signers.Nodup ∧ (∀ v ∈ r.signers, r.committee.contains v = true) ∧
      r.aggregateWeight = (r.signers.map r.committee.getMemberWeight).sum ∧
      r.committee.isQuorum r.aggregateWeight = true ∧ r.committee.epoch = r.epoch) ∧
    (∀ k, (t.sys.eventBlobCertificationState.aggregateWeightPerBlob.get? k).getD 0 =
      ((voters t.votes k).map t.sys.committee.getMemberWeight).sum) ∧
    (t.votes.map Prod.fst).Nodup ∧
    (∀ v ∈ t.votes, ∀ l ∈ t.sys.eventBlobCertificationState.latestCertifiedBlob,
      l.endingCheckpointSequenceNumber < v.2.endingCheckpointSequenceNumber) ∧
    ∀ n b cp e err, t.sys.certifyEventBlob n b cp e = .error err →
      err = .notCommitteeMember ∨ err = .invalidIdEpoch ∨ err = .repeatedAttestation ∨
        err = .incorrectAttestation := by
  have hI := Tallied.run_inv calls
  exact ⟨hI.increasing, hI.latest_eq, hI.certified_quorum, hI.tally, hI.votes_nodup,
    hI.votes_above, fun _ _ _ _ _ h => hI.certify_error h⟩

end Walrus.System
