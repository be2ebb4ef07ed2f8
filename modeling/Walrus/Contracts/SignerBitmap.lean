import Mathlib
import Walrus.Contracts.BlsAggregate

/-! # Signer bitmaps

What `verify_certificate_and_weight` makes of the bitmap that names the signers of a
certificate, bit `j` of byte `i` standing for member `8 * i + j`. The call accepts exactly the
bitmaps no longer than the members need that set no bit past the last member
(`AcceptsBitmap`); any other aborts with `EInvalidBitmap`. On an accepted bitmap the weight it
checks is that of the members whose bit is set (`aggregateWeight_eq_signers`), and the key it
checks the signature under is the sum of their keys (`aggregateKey_eq_signers`): the keys are
taken in an additive group, the laws `g1_sub` and `uncompressed_g1_sum` of `bls12381` obey.

A bitmap may be shorter than the members need, its missing bytes read as zero, and the
rule that no bit past the members is set makes the encoding unique up to trailing zero bytes
(`signerSet_eq_iff`).
-/

namespace Walrus.System

open Machine

namespace BlsCommittee

section Signers

variable (self : BlsCommittee) (bitmap : List Nat)

/-- The bitmaps `verify_certificate_and_weight` accepts: no longer than the members need, and
no bit set past the last member. -/
def AcceptsBitmap : Prop :=
  bitmap.length ≤ divCeil self.members.length 8 ∧
    ∀ idx, self.members.length ≤ idx → Bitmap.getBit bitmap idx = false

/-- The members below index `m` whose bit is set. -/
def signersBelow (m : Nat) : List BlsCommitteeMember :=
  (List.range m).filterMap fun idx => if Bitmap.getBit bitmap idx then self.members[idx]? else none

/-- The indices of the members the bitmap names as signers. -/
def signerSet : Finset Nat :=
  (Finset.range self.members.length).filter fun idx => Bitmap.getBit bitmap idx

/-- `aggregate_key`: the `total_aggregated_key` that `new_bls_committee` stores, the sum of the
members' keys, less the sum of the keys of the non-signers. -/
def aggregateKey {G : Type*} [AddCommGroup G] (publicKey : BlsCommitteeMember → G)
    (nonSigners : List BlsCommitteeMember) : G :=
  (self.members.map publicKey).sum - (nonSigners.map publicKey).sum

theorem signersBelow_succ (m : Nat) :
    self.signersBelow bitmap (m + 1) = self.signersBelow bitmap m ++
      (if Bitmap.getBit bitmap m then self.members[m]?.toList else []) := by
  unfold signersBelow
  rw [List.range_succ, List.filterMap_append, List.filterMap_cons, List.filterMap_nil]
  by_cases hb : Bitmap.getBit bitmap m = true
  case pos => cases self.members[m]? <;> simp [hb]
  case neg => simp [hb]

/-- The members below `m` split into the signers and the non-signers, for any quantity summed
over them. -/
theorem sum_take_members_split {M : Type*} [AddCommMonoid M] (f : BlsCommitteeMember → M)
    (m : Nat) :
    ((self.members.take m).map f).sum =
      ((self.signersBelow bitmap m).map f).sum + ((self.nonSignersBelow bitmap m).map f).sum := by
  induction m with
  | zero => simp [signersBelow, nonSignersBelow]
  | succ m ih =>
    rw [List.take_add_one, signersBelow_succ, nonSignersBelow_succ]
    simp only [List.map_append, List.sum_append, ih]
    -- member `m` joins the signers or the non-signers, as its bit says
    cases Bitmap.getBit bitmap m
    case false =>
      simp only [Bool.false_eq_true, if_false, List.map_nil, List.sum_nil, add_zero]
      abel
    case true =>
      simp only [if_true, List.map_nil, List.sum_nil, add_zero]
      abel

theorem sum_members_split {M : Type*} [AddCommMonoid M] (f : BlsCommitteeMember → M) :
    (self.members.map f).sum =
      ((self.signersBelow bitmap self.members.length).map f).sum +
        ((self.nonSignersBelow bitmap self.members.length).map f).sum := by
  rw [← self.sum_take_members_split bitmap f, List.take_length]

/-- The weight the call computes, the shards less the non-signers' weight, is the signers'
weight. -/
theorem aggregateWeight_eq_signers :
    self.aggregateWeight bitmap =
      ((self.signersBelow bitmap self.members.length).map BlsCommitteeMember.weight).sum := by
  have hsplit := self.sum_members_split bitmap BlsCommitteeMember.weight
  unfold aggregateWeight nShards
  omega

/-- The key the call computes from the non-signers it collects is the sum of the signers'
keys. -/
theorem aggregateKey_eq_signers {G : Type*} [AddCommGroup G] (publicKey : BlsCommitteeMember → G) :
    self.aggregateKey publicKey (self.nonSignersBelow bitmap self.members.length) =
      ((self.signersBelow bitmap self.members.length).map publicKey).sum := by
  unfold aggregateKey
  rw [self.sum_members_split bitmap publicKey, add_sub_cancel_right]

/-- The call aborts with `EInvalidBitmap` exactly on the bitmaps it does not accept: on the
others it ends in the weight check, the signature check, or the weight. -/
theorem verifyCertificateAndWeight_eq_invalidBitmap_iff
    (blsVerify : List BlsCommitteeMember → Bool) (requiredWeight : RequiredWeight) :
    self.verifyCertificateAndWeight blsVerify bitmap requiredWeight = .error .invalidBitmap ↔
      ¬ self.AcceptsBitmap bitmap := by
  constructor
  · intro h hacc
    rw [self.verifyCertificateAndWeight_eq_of_clean bitmap blsVerify requiredWeight hacc.1
      hacc.2] at h
    split at h
    case isTrue => split at h <;> cases h
    case isFalse => cases h
  · exact self.verifyCertificateAndWeight_eq_invalidBitmap bitmap blsVerify requiredWeight

/-- Two accepted bitmaps of bytes name the same signers exactly when they are equal up to
trailing zero bytes. -/
theorem signerSet_eq_iff {bitmap' : List Nat} (hbytes : ∀ x ∈ bitmap, x < 256)
    (hbytes' : ∀ x ∈ bitmap', x < 256) (hacc : self.AcceptsBitmap bitmap)
    (hacc' : self.AcceptsBitmap bitmap') :
    self.signerSet bitmap = self.signerSet bitmap' ↔
      bitmap.rdropWhile (· == 0) = bitmap'.rdropWhile (· == 0) := by
  rw [← Bitmap.getBit_eq_iff_rdropWhile_eq hbytes hbytes']
  constructor
  · intro h j
    by_cases hj : j < self.members.length
    case pos =>
      -- below the members, a bit is set exactly when its index is a signer
      have hmem := congrArg (j ∈ ·) h
      simp only [signerSet, Finset.mem_filter, Finset.mem_range, hj, true_and, eq_iff_iff] at hmem
      exact Bool.eq_iff_iff.mpr hmem
    case neg =>
      -- past the members, both bitmaps are clear
      rw [hacc.2 j (by omega), hacc'.2 j (by omega)]
  · intro h
    exact Finset.filter_congr fun j _ => by rw [h j]

end Signers

/-- Decoding the signers bitmap is exact. A bitmap of bytes is rejected with `EInvalidBitmap`
exactly when it is longer than the members need or sets a bit past the last member. On an
accepted bitmap the weight is that of the members whose bit is set, the key is the sum of
theirs, and the call ends in the check of the weight, then of the signature; the checks are
the thresholds of more than two thirds and more than one third of the shards. Two accepted
bitmaps name the same signers exactly when they are equal up to trailing zero bytes. -/
theorem signer_bitmap_decoding_exact (self : BlsCommittee)
    (blsVerify : List BlsCommitteeMember → Bool) (requiredWeight : RequiredWeight)
    (bitmap : List Nat) (hbytes : ∀ x ∈ bitmap, x < 256) :
    (self.verifyCertificateAndWeight blsVerify bitmap requiredWeight = .error .invalidBitmap ↔
      ¬ (bitmap.length ≤ divCeil self.members.length 8 ∧
        ∀ idx, self.members.length ≤ idx → Bitmap.getBit bitmap idx = false)) ∧
    (self.AcceptsBitmap bitmap →
      self.aggregateWeight bitmap =
          ((self.signersBelow bitmap self.members.length).map BlsCommitteeMember.weight).sum ∧
        (∀ (G : Type) [AddCommGroup G] (publicKey : BlsCommitteeMember → G),
          self.aggregateKey publicKey (self.nonSignersBelow bitmap self.members.length) =
            ((self.signersBelow bitmap self.members.length).map publicKey).sum) ∧
        self.verifyCertificateAndWeight blsVerify bitmap requiredWeight =
          if self.checksWeight requiredWeight (self.aggregateWeight bitmap) then
            (if blsVerify (self.nonSignersBelow bitmap self.members.length) then
              .ok (self.aggregateWeight bitmap)
            else .error .sigVerification)
          else .error .notEnoughStake) ∧
    (∀ weight, (self.checksWeight .quorum weight = true ↔ 2 * self.nShards + 1 ≤ 3 * weight) ∧
      (self.checksWeight .oneCorrectNode weight = true ↔ self.nShards + 1 ≤ 3 * weight)) ∧
    (∀ bitmap' : List Nat, (∀ x ∈ bitmap', x < 256) →
      self.AcceptsBitmap bitmap → self.AcceptsBitmap bitmap' →
      (self.signerSet bitmap = self.signerSet bitmap' ↔
        bitmap.rdropWhile (· == 0) = bitmap'.rdropWhile (· == 0))) := by
  refine ⟨self.verifyCertificateAndWeight_eq_invalidBitmap_iff bitmap blsVerify requiredWeight,
    ?_, ?_, ?_⟩
  · intro hacc
    refine ⟨self.aggregateWeight_eq_signers bitmap, ?_,
      self.verifyCertificateAndWeight_eq_of_clean bitmap blsVerify requiredWeight hacc.1 hacc.2⟩
    intro G _ publicKey
    exact self.aggregateKey_eq_signers bitmap publicKey
  · intro weight
    constructor
    · simp [checksWeight, isQuorum]
    · simp [checksWeight, includesOneCorrectNode]
  · intro bitmap' hbytes' hacc hacc'
    exact self.signerSet_eq_iff bitmap hbytes hbytes' hacc hacc'

/-- Ten members of one to three shards each: the last byte of a bitmap holds two of them. -/
def tenMembers : BlsCommittee :=
  ⟨(List.range 10).map fun i => ⟨i % 3 + 1, ⟨Vector.replicate 32 0⟩⟩, 0, by simp, by decide⟩

/-- Members 0, 2 and 9 sign. -/
theorem signer_bitmap_decoding_exact_ten_members :
    (∀ x ∈ [5, 2], x < 256) ∧
    (tenMembers.verifyCertificateAndWeight (fun _ => true) [5, 2] .quorum =
        .error .invalidBitmap ↔
      ¬ ([5, 2].length ≤ divCeil tenMembers.members.length 8 ∧
        ∀ idx, tenMembers.members.length ≤ idx → Bitmap.getBit [5, 2] idx = false)) ∧
    (tenMembers.AcceptsBitmap [5, 2] →
      tenMembers.aggregateWeight [5, 2] =
          ((tenMembers.signersBelow [5, 2] tenMembers.members.length).map
            BlsCommitteeMember.weight).sum ∧
        (∀ (G : Type) [AddCommGroup G] (publicKey : BlsCommitteeMember → G),
          tenMembers.aggregateKey publicKey
              (tenMembers.nonSignersBelow [5, 2] tenMembers.members.length) =
            ((tenMembers.signersBelow [5, 2] tenMembers.members.length).map publicKey).sum) ∧
        tenMembers.verifyCertificateAndWeight (fun _ => true) [5, 2] .quorum =
          if tenMembers.checksWeight .quorum (tenMembers.aggregateWeight [5, 2]) then
            (if (fun _ => true) (tenMembers.nonSignersBelow [5, 2] tenMembers.members.length) then
              .ok (tenMembers.aggregateWeight [5, 2])
            else .error .sigVerification)
          else .error .notEnoughStake) ∧
    (∀ weight, (tenMembers.checksWeight .quorum weight = true ↔
        2 * tenMembers.nShards + 1 ≤ 3 * weight) ∧
      (tenMembers.checksWeight .oneCorrectNode weight = true ↔
        tenMembers.nShards + 1 ≤ 3 * weight)) ∧
    (∀ bitmap' : List Nat, (∀ x ∈ bitmap', x < 256) →
      tenMembers.AcceptsBitmap [5, 2] → tenMembers.AcceptsBitmap bitmap' →
      (tenMembers.signerSet [5, 2] = tenMembers.signerSet bitmap' ↔
        [5, 2].rdropWhile (· == 0) = bitmap'.rdropWhile (· == 0))) :=
  ⟨by decide, signer_bitmap_decoding_exact tenMembers (fun _ => true) .quorum [5, 2] (by decide)⟩

end BlsCommittee

end Walrus.System
