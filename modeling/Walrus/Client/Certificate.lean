import Mathlib
import Walrus.Contracts.BlsAggregate
import Walrus.Encoding.Config

/-! # Storage certificates, from the client to the contracts

A client that stores a blob collects a signed confirmation from each storage node, adds up
the shards of the nodes that confirmed, and once they reach `n - f` of the `n` shards
aggregates the signatures into a certificate (`confirmations_to_certificate` of `walrus-sdk`).
The certificate names its signers by their indices in the committee; the transaction builder
turns them into a bitmap (`signers_to_bitmap` of `walrus-sui`), which
`bls_aggregate::verify_certificate_and_weight` reads back and weighs against `2n + 1 ≤ 3w`.

The two sides state the threshold differently: the client as `n - f` with `f = (n - 1) / 3`,
the contract as `3w ≥ 2n + 1`. They are the same threshold (`isAtLeastMinNCorrect_iff`). The client's `is_quorum`, `w > 2f`, is the same only when
`n = 3f + 1` (`isQuorum_sound_iff`).

Translation notes.
* A storage node's result carries the node's number of shards as its weight and the node's
  index in the committee (`to_node_result_with_n_shards`).
* Signatures are of an arbitrary type. Their aggregation is the parameter `aggregate`, which
  is `none` where `BLS12381AggregateSignature::aggregate` fails.
* The outer `Except String` of `confirmationsToCertificate` and `signersToBitmap` is a panic:
  the `expect` on a node index beyond `u16`, and an index out of the bitmap.
* The aggregate weight is a `usize`. The weights of distinct members sum to at most the `u16`
  shard count, so it does not wrap.
* `committee_size` is read from the system object. The model takes it as an argument and
  leaves out the RPC and its error.
-/

open Machine Walrus.Encoding Walrus.System

namespace Walrus.Client

/-- `Committee` of `walrus-sui`: the shard counts of its storage nodes, in member order, with
the checks of `Committee::new`. -/
structure Committee where
  epoch : Nat
  members : List Nat
  nShards : NonZeroU16
  member_pos : ∀ m ∈ members, 0 < m
  shards : (epoch = 0 ∧ members.sum = 0) ∨ nShards.get = members.sum

namespace Committee

/-- `min_n_correct`: `n - f`. -/
def minNCorrect (self : Committee) : Nat := (Encoding.minNCorrect self.nShards).get

/-- `is_at_least_min_n_correct`. -/
def isAtLeastMinNCorrect (self : Committee) (num : Nat) : Bool := num ≥ self.minNCorrect

/-- `is_quorum`: `2f + 1` or more. -/
def isQuorum (self : Committee) (num : Nat) : Bool := num > 2 * maxNFaulty self.nShards

/-- `n - f` is the contract's threshold: reaching it gives `2n + 1 ≤ 3w`. -/
theorem two_mul_add_one_le_of_isAtLeastMinNCorrect (self : Committee) {w : Nat}
    (h : self.isAtLeastMinNCorrect w = true) : 2 * self.nShards.get + 1 ≤ 3 * w := by
  have hpos := self.nShards.pos
  simp only [isAtLeastMinNCorrect, minNCorrect, Encoding.minNCorrect, maxNFaulty, ge_iff_le,
    decide_eq_true_eq] at h
  omega

/-- The client's threshold `n - f` and the contract's `2n + 1 ≤ 3w` agree. -/
theorem isAtLeastMinNCorrect_iff (self : Committee) (w : Nat) :
    self.isAtLeastMinNCorrect w = true ↔ 2 * self.nShards.get + 1 ≤ 3 * w := by
  have hpos := self.nShards.pos
  simp only [isAtLeastMinNCorrect, minNCorrect, Encoding.minNCorrect, maxNFaulty, ge_iff_le,
    decide_eq_true_eq]
  omega

/-- The client's quorum `2f + 1` implies the contract's threshold for every weight only when
`n = 3f + 1`. -/
theorem isQuorum_sound_iff (self : Committee) :
    (∀ w ≤ self.nShards.get, self.isQuorum w = true → 2 * self.nShards.get + 1 ≤ 3 * w) ↔
      self.nShards.get = 3 * maxNFaulty self.nShards + 1 := by
  have hpos := self.nShards.pos
  unfold isQuorum maxNFaulty
  constructor
  case mp =>
    -- `2f + 1` shards are a quorum, and fall short of the contract's threshold otherwise
    intro h
    have h2 := h (2 * ((self.nShards.get - 1) / 3) + 1) (by omega) (by simp)
    omega
  case mpr =>
    intro hn w _ hq
    simp only [gt_iff_lt, decide_eq_true_eq] at hq
    omega

end Committee

/-- `NodeResult`: the outcome of a request to a storage node, with the node's weight and
index. -/
structure NodeResult (α ε : Type) where
  weight : Nat
  node : Nat
  result : Except ε α

/-- `SignedMessage`: a serialized message and its signature. -/
structure SignedMessage (Sig : Type) where
  serializedMessage : List UInt8
  signature : Sig

/-- `ConfirmationCertificate`: the signers' indices, the message and the aggregate
signature. -/
structure ConfirmationCertificate (Sig : Type) where
  signers : List Nat
  serializedMessage : List UInt8
  signature : Sig

/-- `CertificateError`. -/
inductive CertificateError where
  | signatureAggregation
  | messageMismatch
deriving DecidableEq, Repr

/-- The kinds of `ClientError` that `confirmations_to_certificate` returns. -/
inductive ClientError where
  | notEnoughConfirmations (weight required : Nat)
  | other (error : CertificateError)
deriving DecidableEq, Repr

section Certificate

variable {Sig ε : Type}

/-- `ConfirmationCertificate::from_signed_messages_and_indices`: every message must be the
first one. -/
def fromSignedMessagesAndIndices (aggregate : List Sig → Option Sig)
    (signedMessages : List (SignedMessage Sig)) (signerIndices : List Nat) :
    Except CertificateError (ConfirmationCertificate Sig) :=
  match signedMessages with
  | [] => .error .messageMismatch
  | first :: rest => do
    let signatures ← rest.mapM fun message =>
      if first.serializedMessage = message.serializedMessage then .ok message.signature
      else .error .messageMismatch
    match aggregate (first.signature :: signatures) with
    | none => .error .signatureAggregation
    | some signature => .ok ⟨signerIndices, first.serializedMessage, signature⟩

/-- The variables of the loop of `confirmations_to_certificate`. -/
structure Collected (Sig : Type) where
  aggregateWeight : Nat
  signers : List Nat
  signedMessages : List (SignedMessage Sig)

/-- One round of the loop of `confirmations_to_certificate`. A failed request is only
logged. -/
def collectConfirmation (acc : Collected Sig) (confirmation : NodeResult (SignedMessage Sig) ε) :
    Except String (Collected Sig) :=
  match confirmation.result with
  | .ok signed =>
    if confirmation.node ≤ u16Max then
      .ok ⟨acc.aggregateWeight + confirmation.weight, acc.signers ++ [confirmation.node],
        acc.signedMessages ++ [signed]⟩
    else .error "the node index is computed from the vector of members"
  | .error _ => .ok acc

/-- `confirmations_to_certificate`, against the write committee. -/
def confirmationsToCertificate (aggregate : List Sig → Option Sig)
    (confirmations : List (NodeResult (SignedMessage Sig) ε)) (committee : Committee) :
    Except String (Except ClientError (ConfirmationCertificate Sig)) := do
  let collected ← confirmations.foldlM collectConfirmation ⟨0, [], []⟩
  if committee.isAtLeastMinNCorrect collected.aggregateWeight then
    pure ((fromSignedMessagesAndIndices aggregate collected.signedMessages
      collected.signers).mapError .other)
  else pure (.error (.notEnoughConfirmations collected.aggregateWeight committee.minNCorrect))

/-- `signers_to_bitmap`, for a committee of `committeeSize` members. -/
def signersToBitmap (committeeSize : Nat) (signers : List Nat) : Except String (List Nat) :=
  signers.foldlM (fun bitmap signer =>
      if signer / 8 < bitmap.length then .ok (Bitmap.setBit bitmap signer)
      else .error "index out of bounds")
    (List.replicate (divCeil committeeSize 8) 0)

/-- The confirmations that succeeded. -/
def confirmed (confirmations : List (NodeResult (SignedMessage Sig) ε)) :
    List (NodeResult (SignedMessage Sig) ε) :=
  confirmations.filter fun c => c.result.isOk

theorem fromSignedMessagesAndIndices_eq_ok {aggregate : List Sig → Option Sig}
    {signedMessages : List (SignedMessage Sig)} {signerIndices : List Nat}
    {cert : ConfirmationCertificate Sig}
    (h : fromSignedMessagesAndIndices aggregate signedMessages signerIndices = .ok cert) :
    signedMessages ≠ [] ∧ cert.signers = signerIndices := by
  unfold fromSignedMessagesAndIndices at h
  split at h
  case h_1 => cases h
  case h_2 first rest =>
    obtain ⟨signatures, _, hagg⟩ := bind_eq_ok.mp h
    split at hagg
    case h_1 => cases hagg
    case h_2 signature _ =>
      cases hagg
      exact ⟨List.cons_ne_nil _ _, rfl⟩

/-- What the loop collects: the indices and the weight of the nodes that confirmed, one
message each. -/
theorem foldlM_collectConfirmation {confirmations : List (NodeResult (SignedMessage Sig) ε)}
    {collected : Collected Sig}
    (h : confirmations.foldlM collectConfirmation ⟨0, [], []⟩ = .ok collected) :
    collected.signers = (confirmed confirmations).map NodeResult.node ∧
      collected.aggregateWeight = ((confirmed confirmations).map NodeResult.weight).sum ∧
      collected.signedMessages.length = (confirmed confirmations).length := by
  unfold confirmed
  refine @foldlM_ok_invariant String (Collected Sig) (NodeResult (SignedMessage Sig) ε)
    collectConfirmation
    (fun done _ acc =>
      acc.signers = (done.filter fun c => c.result.isOk).map NodeResult.node ∧
      acc.aggregateWeight = ((done.filter fun c => c.result.isOk).map NodeResult.weight).sum ∧
      acc.signedMessages.length = (done.filter fun c => c.result.isOk).length)
    confirmations ?_ _ _ (by simp) h
  intro done c rest acc acc' _ hinv hstep
  obtain ⟨hsigners, hweight, hlen⟩ := hinv
  unfold collectConfirmation at hstep
  split at hstep
  case h_1 signed hres =>
    split at hstep
    case isTrue =>
      cases hstep
      simp [List.filter_append, hres, Except.isOk, Except.toBool, hsigners,
        hweight, hlen]
    case isFalse => cases hstep
  case h_2 e hres =>
    cases hstep
    simp [List.filter_append, hres, Except.isOk, Except.toBool, hsigners,
      hweight, hlen]

/-- A certificate is made of the confirmed nodes, at least one, whose weight reaches `n - f`. -/
theorem confirmationsToCertificate_eq_ok {aggregate : List Sig → Option Sig}
    {confirmations : List (NodeResult (SignedMessage Sig) ε)} {committee : Committee}
    {cert : ConfirmationCertificate Sig}
    (h : confirmationsToCertificate aggregate confirmations committee = .ok (.ok cert)) :
    cert.signers = (confirmed confirmations).map NodeResult.node ∧
      committee.isAtLeastMinNCorrect
        ((confirmed confirmations).map NodeResult.weight).sum = true ∧
      confirmed confirmations ≠ [] := by
  unfold confirmationsToCertificate at h
  obtain ⟨collected, hloop, hcert⟩ := bind_eq_ok.mp h
  obtain ⟨hsigners, hweight, hlen⟩ := foldlM_collectConfirmation hloop
  split at hcert
  case isTrue hcheck =>
    simp only [pure, Except.pure, Except.ok.injEq] at hcert
    cases hfrom : fromSignedMessagesAndIndices aggregate collected.signedMessages collected.signers
    case error e =>
      rw [hfrom] at hcert
      cases hcert
    case ok c =>
      rw [hfrom] at hcert
      cases hcert
      obtain ⟨hne, hc⟩ := fromSignedMessagesAndIndices_eq_ok hfrom
      refine ⟨hc.trans hsigners, hweight ▸ hcheck, ?_⟩
      intro hnil
      rw [hnil, List.length_nil, List.length_eq_zero_iff] at hlen
      exact hne hlen
  case isFalse => cases hcert

/-- Signers below the committee size give the bitmap with exactly their bits. -/
theorem signersToBitmap_eq {committeeSize : Nat} {signers : List Nat}
    (h : ∀ s ∈ signers, s < committeeSize) :
    signersToBitmap committeeSize signers = .ok (Bitmap.ofList (divCeil committeeSize 8) signers) := by
  have hloop := @foldlM_eq_ok_of_step String (List Nat) Nat
    (fun bitmap signer =>
      if signer / 8 < bitmap.length then .ok (Bitmap.setBit bitmap signer)
      else .error "index out of bounds")
    (fun done => Bitmap.ofList (divCeil committeeSize 8) done) signers
    (by
      intro done x rest hxs
      have hx : x < committeeSize := h x (by rw [← hxs]; simp)
      rw [Bitmap.length_ofList, if_pos (div_lt_divCeil (by decide) hx)]
      simp [Bitmap.ofList, List.foldl_append])
  exact hloop

/-- A client committee that mirrors a contract committee with members has its shard
count. -/
theorem nShards_eq_of_mirror {committee : Committee} {cmt : BlsCommittee}
    (hmirror : committee.members = cmt.members.map BlsCommitteeMember.weight)
    (hne : cmt.members ≠ []) : committee.nShards.get = cmt.nShards := by
  obtain ⟨m, rest, hcons⟩ := List.exists_cons_of_ne_nil hne
  have hpos : 0 < cmt.nShards := by
    have hm := cmt.weight_pos m (by rw [hcons]; exact List.mem_cons_self)
    simp only [BlsCommittee.nShards, hcons, List.map_cons, List.sum_cons]
    omega
  have hsum : committee.members.sum = cmt.nShards := by rw [hmirror]; rfl
  rcases committee.shards with ⟨_, hzero⟩ | hn
  case inl => omega
  case inr => omega

/-- The confirmed weight is the weight of the confirmed members. -/
theorem sum_weight_confirmed {cmt : BlsCommittee}
    {confirmations : List (NodeResult (SignedMessage Sig) ε)}
    (hweight : ∀ c ∈ confirmations, c.weight = cmt.weightAt c.node) :
    ((confirmed confirmations).map NodeResult.weight).sum =
      (((confirmed confirmations).map NodeResult.node).map cmt.weightAt).sum := by
  rw [List.map_map]
  congr 1
  apply List.map_congr_left
  intro c hc
  exact hweight c (List.mem_of_mem_filter hc)

/-- A certificate of the client passes the contract's weight check. For a client committee
that mirrors the contract committee and confirmations from distinct members, each weighing
its member's shards: the certificate's signers are the confirmed members; their bitmap has
exactly their bits; their weight reaches `2n + 1 ≤ 3w`; and `verify_certificate_and_weight`
returns that weight, once the signature verifies. Moreover the client's threshold `n - f` is
the contract's, while its `is_quorum` is so only when `n = 3f + 1`. -/
theorem certificate_accepted_by_contract :
    (∀ (aggregate : List Sig → Option Sig) (blsVerify : List BlsCommitteeMember → Bool)
      (cmt : BlsCommittee) (committee : Committee)
      (confirmations : List (NodeResult (SignedMessage Sig) ε))
      (cert : ConfirmationCertificate Sig),
      committee.members = cmt.members.map BlsCommitteeMember.weight →
      (confirmations.map NodeResult.node).Nodup →
      (∀ c ∈ confirmations, c.node < cmt.members.length ∧ c.weight = cmt.weightAt c.node) →
      confirmationsToCertificate aggregate confirmations committee = .ok (.ok cert) →
      cert.signers = (confirmed confirmations).map NodeResult.node ∧
      ∃ bitmap, signersToBitmap cmt.members.length cert.signers = .ok bitmap ∧
        (∀ idx, Bitmap.getBit bitmap idx = decide (idx ∈ cert.signers)) ∧
        2 * cmt.nShards + 1 ≤ 3 * (cert.signers.map cmt.weightAt).sum ∧
        cmt.verifyCertificateAndWeight blsVerify bitmap .quorum =
          if blsVerify (cmt.nonSignersBelow bitmap cmt.members.length) then
            .ok (cert.signers.map cmt.weightAt).sum
          else .error .sigVerification) ∧
    (∀ (committee : Committee) (w : Nat),
      committee.isAtLeastMinNCorrect w = true ↔ 2 * committee.nShards.get + 1 ≤ 3 * w) ∧
    (∀ committee : Committee,
      (∀ w ≤ committee.nShards.get, committee.isQuorum w = true →
        2 * committee.nShards.get + 1 ≤ 3 * w) ↔
      committee.nShards.get = 3 * maxNFaulty committee.nShards + 1) := by
  refine ⟨?pipeline, Committee.isAtLeastMinNCorrect_iff, Committee.isQuorum_sound_iff⟩
  case pipeline =>
    intro aggregate blsVerify cmt committee confirmations cert hmirror hnd hnodes hcert
    obtain ⟨hsigners, hcheck, hne⟩ := confirmationsToCertificate_eq_ok hcert
    -- the signers are distinct member indices
    have hlt : ∀ s ∈ cert.signers, s < cmt.members.length := by
      intro s hs
      rw [hsigners] at hs
      obtain ⟨c, hc, rfl⟩ := List.mem_map.mp hs
      exact (hnodes c (List.mem_of_mem_filter hc)).1
    have hnd' : cert.signers.Nodup := by
      rw [hsigners]
      exact hnd.sublist ((List.filter_sublist).map _)
    -- the committee has a member, so both sides count the same shards
    have hmembers : cmt.members ≠ [] := by
      obtain ⟨c, hc⟩ := List.exists_mem_of_ne_nil _ hne
      have := (hnodes c (List.mem_of_mem_filter hc)).1
      intro hnil
      rw [hnil, List.length_nil] at this
      omega
    have hn := nShards_eq_of_mirror hmirror hmembers
    have hweight := sum_weight_confirmed (fun c hc => (hnodes c hc).2)
    rw [← hsigners] at hweight
    have hquorum : 2 * cmt.nShards + 1 ≤ 3 * (cert.signers.map cmt.weightAt).sum := by
      have h := committee.two_mul_add_one_le_of_isAtLeastMinNCorrect hcheck
      rw [hn, hweight] at h
      exact h
    have hbits : ∀ idx, Bitmap.getBit (Bitmap.ofList (divCeil cmt.members.length 8) cert.signers)
        idx = decide (idx ∈ cert.signers) :=
      Bitmap.getBit_ofList (fun s hs => div_lt_divCeil (by decide) (hlt s hs))
    refine ⟨hsigners, _, signersToBitmap_eq hlt, hbits, hquorum, ?_⟩
    have hclean : ∀ idx, cmt.members.length ≤ idx →
        Bitmap.getBit (Bitmap.ofList (divCeil cmt.members.length 8) cert.signers) idx = false := by
      intro idx hidx
      rw [hbits]
      simp only [decide_eq_false_iff_not]
      intro hmem
      have := hlt idx hmem
      omega
    have hagg := cmt.aggregateWeight_eq _ hnd' hlt (fun idx _ => hbits idx)
    rw [cmt.verifyCertificateAndWeight_eq _ blsVerify (by simp) hclean, hagg,
      if_pos (by simpa [BlsCommittee.isQuorum] using hquorum)]

end Certificate

/-- Four nodes of one shard each, on both sides. -/
def sampleBlsCommittee : BlsCommittee :=
  ⟨List.replicate 4 ⟨1, ⟨Vector.replicate 32 0⟩⟩, 1, by simp, by decide⟩

def sampleCommittee : Committee :=
  ⟨1, [1, 1, 1, 1],
    ⟨4, (by decide : 0 < [1, 1, 1, 1].sum), (by decide : [1, 1, 1, 1].sum ≤ u16Max)⟩, by simp,
    Or.inr rfl⟩

/-- The first three nodes confirm, the last one fails. -/
def sampleConfirmations : List (NodeResult (SignedMessage Unit) Unit) :=
  [⟨1, 0, .ok ⟨[], ()⟩⟩, ⟨1, 1, .ok ⟨[], ()⟩⟩, ⟨1, 2, .ok ⟨[], ()⟩⟩, ⟨1, 3, .error ()⟩]

def sampleCertificate : ConfirmationCertificate Unit := ⟨[0, 1, 2], [], ()⟩

theorem certificate_accepted_by_contract_on_sample :
    sampleCommittee.members = sampleBlsCommittee.members.map BlsCommitteeMember.weight ∧
    (sampleConfirmations.map NodeResult.node).Nodup ∧
    (∀ c ∈ sampleConfirmations, c.node < sampleBlsCommittee.members.length ∧
      c.weight = sampleBlsCommittee.weightAt c.node) ∧
    confirmationsToCertificate (fun _ => some ()) sampleConfirmations sampleCommittee =
      .ok (.ok sampleCertificate) ∧
    (sampleCertificate.signers = (confirmed sampleConfirmations).map NodeResult.node ∧
      ∃ bitmap, signersToBitmap sampleBlsCommittee.members.length sampleCertificate.signers =
          .ok bitmap ∧
        (∀ idx, Bitmap.getBit bitmap idx = decide (idx ∈ sampleCertificate.signers)) ∧
        2 * sampleBlsCommittee.nShards + 1 ≤
          3 * (sampleCertificate.signers.map sampleBlsCommittee.weightAt).sum ∧
        sampleBlsCommittee.verifyCertificateAndWeight (fun _ => true) bitmap .quorum =
          if (fun _ => true) (sampleBlsCommittee.nonSignersBelow bitmap
              sampleBlsCommittee.members.length) then
            .ok (sampleCertificate.signers.map sampleBlsCommittee.weightAt).sum
          else .error .sigVerification) :=
  ⟨rfl, by decide, by decide, rfl,
    certificate_accepted_by_contract.1 (fun _ => some ()) (fun _ => true) sampleBlsCommittee
      sampleCommittee sampleConfirmations sampleCertificate rfl (by decide) (by decide) rfl⟩

end Walrus.Client
