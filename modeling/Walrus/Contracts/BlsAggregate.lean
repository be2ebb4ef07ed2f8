import Mathlib.Algebra.BigOperators.Group.Finset.Basic
import Walrus.Core.Types
import Walrus.Machine.Count
import Walrus.Machine.Bitmap
import Walrus.Contracts.Move

/-! # BLS committees

`walrus::bls_aggregate`: the committee of an epoch is a vector of members, each a node ID
with a weight (its number of shards). `new_bls_committee` aborts on a zero weight and sums
the weights into the `u16` shard count, aborting on overflow; a committee therefore carries
both facts as fields here, and one that breaks them cannot be built.

Members are looked up by node ID with `find_index`: the first member with that ID answers.
The public keys and their aggregate are left out. `verify_certificate_and_weight` subtracts
the keys of the non-signers from the aggregate key and checks the BLS signature under the
result; the model hands the non-signers to a signature check `blsVerify` it takes as a
parameter.

A certificate names its signers by a bitmap over the member indices (`Machine.Bitmap`). The
walk over the bitmap is `visitByte` and `visitBit`; `verifyCertificateAndWeight_eq_of_clean` says
what it computes on a bitmap of the right length without bits past the members: the members
whose bit is clear, and the weight of the others. Any other bitmap is rejected
(`verifyCertificateAndWeight_eq_invalidBitmap`).
-/

namespace Walrus.System

open Machine

/-- `BlsCommitteeMember`, without its public key. -/
structure BlsCommitteeMember where
  weight : Nat
  nodeId : ObjectID
deriving DecidableEq, Repr

/-- `BlsCommittee`: the members of an epoch, with the guarantees of its constructor. -/
structure BlsCommittee where
  members : List BlsCommitteeMember
  epoch : Nat
  weight_pos : ∀ m ∈ members, 0 < m.weight
  nShards_le : (members.map BlsCommitteeMember.weight).sum ≤ u16Max

namespace BlsCommittee

/-- `new_bls_committee`: `none` where the constructor aborts. -/
def newBlsCommittee (epoch : Nat) (members : List BlsCommitteeMember) : Option BlsCommittee :=
  if h : (∀ m ∈ members, 0 < m.weight) ∧ (members.map BlsCommitteeMember.weight).sum ≤ u16Max
  then some ⟨members, epoch, h.1, h.2⟩
  else none

/-- The committee without members, which `create_empty` builds. -/
def empty (epoch : Nat) : BlsCommittee :=
  ⟨[], epoch, by simp, by simp⟩

/-- `n_shards`: the sum of the weights, as the constructor stores it. -/
def nShards (self : BlsCommittee) : Nat :=
  (self.members.map BlsCommitteeMember.weight).sum

/-- The member `find_index` points to. -/
def findMember (self : BlsCommittee) (nodeId : ObjectID) : Option BlsCommitteeMember :=
  self.members.find? fun m => m.nodeId = nodeId

/-- `contains`. -/
def contains (self : BlsCommittee) (nodeId : ObjectID) : Bool :=
  (self.findMember nodeId).isSome

/-- `get_member_weight`: the weight of the member, or `0` for a non-member. -/
def getMemberWeight (self : BlsCommittee) (nodeId : ObjectID) : Nat :=
  ((self.findMember nodeId).map BlsCommitteeMember.weight).getD 0

/-- `is_quorum`: more than two thirds of the shards. -/
def isQuorum (self : BlsCommittee) (weight : Nat) : Bool :=
  2 * self.nShards + 1 ≤ 3 * weight

theorem nShards_le_u16Max (self : BlsCommittee) : self.nShards ≤ u16Max :=
  self.nShards_le

/-- Every member holds a shard, so there are no more members than shards. -/
theorem length_le_nShards (self : BlsCommittee) : self.members.length ≤ self.nShards := by
  have h := List.length_le_sum_of_one_le (self.members.map BlsCommitteeMember.weight)
    (fun w hw => by
      obtain ⟨m, hm, rfl⟩ := List.mem_map.mp hw
      exact self.weight_pos m hm)
  rw [List.length_map] at h
  exact h

theorem getMemberWeight_pos {self : BlsCommittee} {nodeId : ObjectID}
    (h : self.contains nodeId = true) : 0 < self.getMemberWeight nodeId := by
  obtain ⟨m, hm⟩ := Option.isSome_iff_exists.mp h
  simp only [getMemberWeight, hm, Option.map_some, Option.getD_some]
  exact self.weight_pos m (List.mem_of_find?_eq_some hm)

/-- Distinct nodes weigh at most the whole committee together: each member is counted
once, whatever IDs the member vector repeats. -/
theorem sum_getMemberWeight_le (self : BlsCommittee) {nodes : List ObjectID}
    (hnd : nodes.Nodup) : (nodes.map self.getMemberWeight).sum ≤ self.nShards := by
  rw [← List.sum_toFinset _ hnd]
  exact sum_find?_weight_le BlsCommitteeMember.nodeId BlsCommitteeMember.weight _ self.members

/-- `to_vec_map`: the weights by node ID, in the order of the members. The inserts of the
loop abort on a node ID that appears twice. -/
def toVecMap (self : BlsCommittee) : Except VecMapError (VecMap ObjectID Nat) :=
  (self.members.map fun member => (member.nodeId, member.weight)).foldlM
    (fun result e => result.insert e.1 e.2) VecMap.empty

/-- A committee of distinct node IDs is a map. -/
theorem toVecMap_eq_ok (self : BlsCommittee)
    (hnd : (self.members.map BlsCommitteeMember.nodeId).Nodup) :
    ∃ m, self.toVecMap = .ok m ∧
      m.contents = self.members.map fun member => (member.nodeId, member.weight) := by
  have hkeys : ((VecMap.empty : VecMap ObjectID Nat).contents.map Prod.fst ++
      (self.members.map fun member => (member.nodeId, member.weight)).map Prod.fst).Nodup := by
    simpa [VecMap.empty, List.map_map, Function.comp_def] using hnd
  rcases VecMap.foldlM_insert_isOk _ hkeys with ⟨m, hm⟩
  refine ⟨m, hm, ?_⟩
  simpa [VecMap.empty] using VecMap.foldlM_insert_eq_ok _ hm

/-! ## Certificates -/

/-- `RequiredWeight`. -/
inductive RequiredWeight where
  | quorum
  | oneCorrectNode
deriving DecidableEq, Repr

/-- `includes_one_correct_node`: more than a third of the shards. -/
def includesOneCorrectNode (self : BlsCommittee) (weight : Nat) : Bool :=
  self.nShards + 1 ≤ 3 * weight

/-- The check `verify_certificate_and_weight` makes of the weight, by `required_weight`. -/
def checksWeight (self : BlsCommittee) (requiredWeight : RequiredWeight) (weight : Nat) : Bool :=
  match requiredWeight with
  | .quorum => self.isQuorum weight
  | .oneCorrectNode => self.includesOneCorrectNode weight

/-- The variables of the walk over the signers bitmap. -/
structure BitmapWalk where
  nonSignerAggregateWeight : Nat
  -- the members whose public keys go to `non_signer_public_keys`
  nonSigners : List BlsCommitteeMember
  offset : Nat

/-- The inner loop of `verify_certificate_and_weight`, at bit `i` of `byte`. -/
def visitBit (self : BlsCommittee) (byte : Nat) (walk : BitmapWalk) (i : Nat) :
    Except Abort BitmapWalk := do
  let index := walk.offset + i
  let isSigner := Bitmap.bitOf byte i
  if h : self.members.length ≤ index then
    -- If the index is out of bounds, the bit must be 0 to ensure uniqueness of the
    -- signers_bitmap.
    if isSigner then throw .invalidBitmap else pure walk
  else if !isSigner then
    let member := self.members.get ⟨index, by omega⟩
    let weight ← u16Add walk.nonSignerAggregateWeight member.weight
    pure { walk with nonSignerAggregateWeight := weight, nonSigners := walk.nonSigners ++ [member] }
  else pure walk

/-- The outer loop of `verify_certificate_and_weight`, at byte `i` of the bitmap. -/
def visitByte (self : BlsCommittee) (signersBitmap : List Nat) (walk : BitmapWalk) (i : Nat) :
    Except Abort BitmapWalk := do
  -- Get the current byte or 0 if we've reached the end of the bitmap.
  let byte := if h : i < signersBitmap.length then signersBitmap.get ⟨i, h⟩ else 0
  let walk ← (List.range 8).foldlM (visitBit self byte) walk
  let offset ← u64Add walk.offset 8
  pure { walk with offset := offset }

/-- `verify_certificate_and_weight`: the weight of the signers, once the bitmap is checked,
the weight suffices and the signature verifies. -/
def verifyCertificateAndWeight (self : BlsCommittee) (blsVerify : List BlsCommitteeMember → Bool)
    (signersBitmap : List Nat) (requiredWeight : RequiredWeight) : Except Abort Nat := do
  let nMembers := self.members.length
  let maxBitmapLenBytes ← divideAndRoundUp nMembers 8
  -- The signers bitmap must not be longer than necessary to hold all members.
  unless signersBitmap.length ≤ maxBitmapLenBytes do throw .invalidBitmap
  let walk ← (List.range maxBitmapLenBytes).foldlM (visitByte self signersBitmap) ⟨0, [], 0⟩
  let aggregateWeight ← checkedSub self.nShards walk.nonSignerAggregateWeight
  match requiredWeight with
  | .quorum => unless self.isQuorum aggregateWeight do throw .notEnoughStake
  | .oneCorrectNode => unless self.includesOneCorrectNode aggregateWeight do throw .notEnoughStake
  unless blsVerify walk.nonSigners do throw .sigVerification
  u16Cast aggregateWeight

/-! ### What the walk computes -/

section Walk

variable (self : BlsCommittee) (bitmap : List Nat)

/-- The members below index `m` whose bit is clear. -/
def nonSignersBelow (m : Nat) : List BlsCommitteeMember :=
  (List.range m).filterMap fun idx => if Bitmap.getBit bitmap idx then none else self.members[idx]?

/-- The walk after the indices below `m`, at `offset`. -/
def walkAt (offset m : Nat) : BitmapWalk :=
  ⟨((self.nonSignersBelow bitmap m).map BlsCommitteeMember.weight).sum,
    self.nonSignersBelow bitmap m, offset⟩

/-- The weight of the member at an index, zero past the end. -/
def weightAt (idx : Nat) : Nat :=
  (self.members[idx]?.map BlsCommitteeMember.weight).getD 0

theorem nonSignersBelow_succ (m : Nat) :
    self.nonSignersBelow bitmap (m + 1) = self.nonSignersBelow bitmap m ++
      (if Bitmap.getBit bitmap m then [] else self.members[m]?.toList) := by
  unfold nonSignersBelow
  rw [List.range_succ, List.filterMap_append, List.filterMap_cons, List.filterMap_nil]
  by_cases hb : Bitmap.getBit bitmap m = true
  case pos => simp [hb]
  case neg => cases self.members[m]? <;> simp [hb]

theorem nonSignersBelow_of_le {m : Nat} (hm : self.members.length ≤ m) :
    self.nonSignersBelow bitmap m = self.nonSignersBelow bitmap self.members.length := by
  induction m, hm using Nat.le_induction with
  | base => rfl
  | succ m hm ih =>
    rw [nonSignersBelow_succ, ih, List.getElem?_eq_none (by omega)]
    split <;> simp

theorem sum_nonSignersBelow (m : Nat) :
    ((self.nonSignersBelow bitmap m).map BlsCommitteeMember.weight).sum =
      ∑ idx ∈ Finset.range m, if Bitmap.getBit bitmap idx then 0 else self.weightAt idx := by
  induction m with
  | zero => rfl
  | succ m ih =>
    rw [nonSignersBelow_succ, List.map_append, List.sum_append, ih, Finset.sum_range_succ]
    unfold weightAt
    split <;> cases self.members[m]? <;> simp

theorem sum_take_members (m : Nat) :
    ((self.members.take m).map BlsCommitteeMember.weight).sum =
      ∑ idx ∈ Finset.range m, self.weightAt idx := by
  induction m with
  | zero => simp
  | succ m ih =>
    rw [List.take_add_one, List.map_append, List.sum_append, ih, Finset.sum_range_succ]
    unfold weightAt
    cases self.members[m]? <;> simp

theorem nShards_eq_sum_weightAt :
    self.nShards = ∑ idx ∈ Finset.range self.members.length, self.weightAt idx := by
  rw [← sum_take_members, List.take_length]
  rfl

/-- The non-signers weigh at most the committee. -/
theorem sum_nonSignersBelow_le (m : Nat) :
    ((self.nonSignersBelow bitmap m).map BlsCommitteeMember.weight).sum ≤ self.nShards := by
  rw [sum_nonSignersBelow, nShards_eq_sum_weightAt]
  calc ∑ idx ∈ Finset.range m, (if Bitmap.getBit bitmap idx then 0 else self.weightAt idx)
      = ∑ idx ∈ Finset.range (min m self.members.length),
          (if Bitmap.getBit bitmap idx then 0 else self.weightAt idx) := by
        -- past the last member every index weighs nothing
        refine (Finset.sum_subset (Finset.range_subset_range.mpr (Nat.min_le_left _ _)) ?_).symm
        intro idx hm hk
        simp only [Finset.mem_range] at hm hk
        simp [weightAt, List.getElem?_eq_none (show self.members.length ≤ idx by omega)]
    _ ≤ ∑ idx ∈ Finset.range (min m self.members.length), self.weightAt idx :=
        Finset.sum_le_sum fun idx _ => by split <;> omega
    _ ≤ ∑ idx ∈ Finset.range self.members.length, self.weightAt idx :=
        Finset.sum_le_sum_of_subset (Finset.range_subset_range.mpr (Nat.min_le_right _ _))

/-- One round of the inner loop, at a bit that is clear if it is past the members. -/
theorem visitBit_eq_of {b i : Nat} (hi : i < 8)
    (hclean : self.members.length ≤ 8 * b + i → Bitmap.getBit bitmap (8 * b + i) = false) :
    self.visitBit (bitmap.getD b 0) (self.walkAt bitmap (8 * b) (8 * b + i)) i =
      .ok (self.walkAt bitmap (8 * b) (8 * b + i + 1)) := by
  unfold visitBit
  -- the bit the loop reads is the bitmap's bit at the index
  simp only [walkAt, ← Bitmap.getBit_eight_mul_add bitmap hi]
  split
  case isTrue hk =>
    rw [hclean hk, nonSignersBelow_succ, hclean hk, List.getElem?_eq_none hk]
    simp [pure, Except.pure]
  case isFalse hk =>
    have hmem : self.members[8 * b + i]? = some (self.members.get ⟨8 * b + i, by omega⟩) := by
      simp
    by_cases hset : Bitmap.getBit bitmap (8 * b + i) = true
    case pos => simp [hset, nonSignersBelow_succ, pure, Except.pure]
    case neg =>
      have hset' : Bitmap.getBit bitmap (8 * b + i) = false := by simpa using hset
      have hle := self.sum_nonSignersBelow_le bitmap (8 * b + i + 1)
      have hmax := self.nShards_le_u16Max
      rw [nonSignersBelow_succ, hset', hmem] at hle
      rw [nonSignersBelow_succ, hset', hmem]
      simp only [Bool.false_eq_true, if_false, Option.toList_some, List.map_append, List.map_cons,
        List.map_nil, List.sum_append, List.sum_cons, List.sum_nil, Nat.add_zero] at hle ⊢
      -- the non-signers so far and this member weigh at most the committee: no `u16` overflow
      simp only [Bool.not_false, if_true, bind, Except.bind, u16Add, if_pos (hle.trans hmax), pure,
        Except.pure]

/-- One round of the inner loop, on a bitmap without bits past the members. -/
theorem visitBit_eq (hclean : ∀ idx, self.members.length ≤ idx → Bitmap.getBit bitmap idx = false)
    {b i : Nat} (hi : i < 8) :
    self.visitBit (bitmap.getD b 0) (self.walkAt bitmap (8 * b) (8 * b + i)) i =
      .ok (self.walkAt bitmap (8 * b) (8 * b + i + 1)) :=
  self.visitBit_eq_of bitmap hi (hclean _)

/-- The byte the outer loop reads: zero past the end of the bitmap. -/
theorem byte_eq_getD (b : Nat) :
    (if h : b < bitmap.length then bitmap.get ⟨b, h⟩ else 0) = bitmap.getD b 0 := by
  split
  case isTrue h => simp [List.getD_eq_getElem?_getD, List.getElem?_eq_getElem h]
  case isFalse h =>
    rw [List.getD_eq_getElem?_getD, List.getElem?_eq_none (Nat.le_of_not_lt h)]
    rfl

/-- The first `j` rounds of the inner loop at byte `b`, over bits that are clear if they are
past the members. -/
theorem inner_eq_of {b j : Nat} (hj : j ≤ 8)
    (hclean : ∀ i < j, self.members.length ≤ 8 * b + i → Bitmap.getBit bitmap (8 * b + i) = false) :
    (List.range j).foldlM (self.visitBit (bitmap.getD b 0)) (self.walkAt bitmap (8 * b) (8 * b)) =
      .ok (self.walkAt bitmap (8 * b) (8 * b + j)) := by
  -- the inner loop visits the indices `8 * b + i`, one bit each
  have hloop := @foldlM_eq_ok_of_step Abort BitmapWalk Nat (self.visitBit (bitmap.getD b 0))
    (fun done => self.walkAt bitmap (8 * b) (8 * b + done.length)) (List.range j)
    (by
      intro done x rest h
      have hx := eq_length_of_append_cons_eq_range h
      have hlt : x < j := by
        have hlen := congrArg List.length h
        simp only [List.length_append, List.length_cons, List.length_range] at hlen
        omega
      subst hx
      simpa [Nat.add_assoc] using self.visitBit_eq_of bitmap (by omega) (hclean _ hlt))
  simpa using hloop

/-- One round of the outer loop, over the eight bits of byte `b`, which are clear if they are
past the members. -/
theorem visitByte_eq_of {b : Nat} (hb : 8 * b + 8 ≤ u64Max)
    (hclean : ∀ i < 8, self.members.length ≤ 8 * b + i → Bitmap.getBit bitmap (8 * b + i) = false) :
    self.visitByte bitmap (self.walkAt bitmap (8 * b) (8 * b)) b =
      .ok (self.walkAt bitmap (8 * (b + 1)) (8 * (b + 1))) := by
  unfold visitByte
  dsimp only
  rw [byte_eq_getD bitmap b, self.inner_eq_of bitmap le_rfl hclean]
  have hoff : (self.walkAt bitmap (8 * b) (8 * b + 8)).offset = 8 * b := rfl
  simp only [bind, Except.bind, u64Add, hoff, if_pos hb, pure, Except.pure, Nat.mul_succ]
  rfl

/-- One round of the outer loop: the eight bits of byte `b`. -/
theorem visitByte_eq (hclean : ∀ idx, self.members.length ≤ idx → Bitmap.getBit bitmap idx = false)
    {b : Nat} (hb : 8 * b + 8 ≤ u64Max) :
    self.visitByte bitmap (self.walkAt bitmap (8 * b) (8 * b)) b =
      .ok (self.walkAt bitmap (8 * (b + 1)) (8 * (b + 1))) :=
  self.visitByte_eq_of bitmap hb fun _ _ => hclean _

/-- The walk over `len` bytes whose bits past the members are clear: the non-signers, with
their weight. -/
theorem walk_eq_of {len : Nat} (hlen : 8 * len ≤ u64Max)
    (hclean : ∀ idx < 8 * len, self.members.length ≤ idx → Bitmap.getBit bitmap idx = false) :
    (List.range len).foldlM (self.visitByte bitmap) ⟨0, [], 0⟩ =
      .ok (self.walkAt bitmap (8 * len) (8 * len)) := by
  have hloop := @foldlM_eq_ok_of_step Abort BitmapWalk Nat (self.visitByte bitmap)
    (fun done => self.walkAt bitmap (8 * done.length) (8 * done.length)) (List.range len)
    (by
      intro done x rest h
      have hx := eq_length_of_append_cons_eq_range h
      have hlt : x < len := by
        have hl := congrArg List.length h
        simp only [List.length_append, List.length_cons, List.length_range] at hl
        omega
      subst hx
      simpa using self.visitByte_eq_of bitmap (b := done.length) (by omega)
        (fun i hi => hclean _ (by omega)))
  have h0 : self.walkAt bitmap 0 0 = ⟨0, [], 0⟩ := rfl
  simp only [List.length_nil, Nat.mul_zero, List.length_range, h0] at hloop
  exact hloop

/-- The walk over a bitmap of `len` bytes without bits past the members. -/
theorem walk_eq (hclean : ∀ idx, self.members.length ≤ idx → Bitmap.getBit bitmap idx = false)
    {len : Nat} (hlen : 8 * len ≤ u64Max) :
    (List.range len).foldlM (self.visitByte bitmap) ⟨0, [], 0⟩ =
      .ok (self.walkAt bitmap (8 * len) (8 * len)) :=
  self.walk_eq_of bitmap hlen fun idx _ => hclean idx

/-- Round `i` of the inner loop at byte `b` aborts on a bit set past the members. -/
theorem visitBit_eq_error {b i m : Nat} (hi : i < 8) (hk : self.members.length ≤ 8 * b + i)
    (hset : Bitmap.getBit bitmap (8 * b + i) = true) :
    self.visitBit (bitmap.getD b 0) (self.walkAt bitmap (8 * b) m) i = .error .invalidBitmap := by
  unfold visitBit
  simp only [walkAt, ← Bitmap.getBit_eight_mul_add bitmap hi, hset, dif_pos hk]
  rfl

/-- The inner loop at byte `b` aborts at bit `i`, the first of the byte set past the members. -/
theorem inner_eq_error {b i : Nat} (hi : i < 8) (hk : self.members.length ≤ 8 * b + i)
    (hset : Bitmap.getBit bitmap (8 * b + i) = true)
    (hclean : ∀ j < i, self.members.length ≤ 8 * b + j → Bitmap.getBit bitmap (8 * b + j) = false) :
    (List.range 8).foldlM (self.visitBit (bitmap.getD b 0)) (self.walkAt bitmap (8 * b) (8 * b)) =
      .error .invalidBitmap :=
  foldlM_range_eq_error_of hi (self.inner_eq_of bitmap hi.le hclean)
    (self.visitBit_eq_error bitmap hi hk hset)

/-- The outer loop aborts at byte `b` when bit `i` of it is the first set past the members. -/
theorem visitByte_eq_error {b i : Nat} (hi : i < 8) (hk : self.members.length ≤ 8 * b + i)
    (hset : Bitmap.getBit bitmap (8 * b + i) = true)
    (hclean : ∀ j < i, self.members.length ≤ 8 * b + j → Bitmap.getBit bitmap (8 * b + j) = false) :
    self.visitByte bitmap (self.walkAt bitmap (8 * b) (8 * b)) b = .error .invalidBitmap := by
  unfold visitByte
  dsimp only
  rw [byte_eq_getD bitmap b, self.inner_eq_error bitmap hi hk hset hclean]
  rfl

/-- The walk over `len` bytes aborts when one of their bits past the members is set. -/
theorem walk_eq_error {len d : Nat} (hlen : 8 * len ≤ u64Max) (hd : d < 8 * len)
    (hk : self.members.length ≤ d) (hset : Bitmap.getBit bitmap d = true) :
    (List.range len).foldlM (self.visitByte bitmap) ⟨0, [], 0⟩ = .error .invalidBitmap := by
  -- the walk stops at the first bit set past the members, at byte `d₀ / 8` and bit `d₀ % 8`
  have hex : ∃ d, self.members.length ≤ d ∧ Bitmap.getBit bitmap d = true := ⟨d, hk, hset⟩
  have hle : Nat.find hex ≤ d := Nat.find_min' hex ⟨hk, hset⟩
  rcases Nat.find_spec hex with ⟨hk₀, hset₀⟩
  have hfirst : ∀ idx < Nat.find hex, self.members.length ≤ idx →
      Bitmap.getBit bitmap idx = false := by
    intro idx hidx hkidx
    have hnot := Nat.find_min hex hidx
    simpa [hkidx] using hnot
  have hsplit : 8 * (Nat.find hex / 8) + Nat.find hex % 8 = Nat.find hex := Nat.div_add_mod _ 8
  have hpre : (List.range (Nat.find hex / 8)).foldlM (self.visitByte bitmap) ⟨0, [], 0⟩ =
      .ok (self.walkAt bitmap (8 * (Nat.find hex / 8)) (8 * (Nat.find hex / 8))) := by
    refine self.walk_eq_of bitmap (by omega) ?_
    intro idx hidx
    exact hfirst idx (by omega)
  have hbyte : self.visitByte bitmap
      (self.walkAt bitmap (8 * (Nat.find hex / 8)) (8 * (Nat.find hex / 8))) (Nat.find hex / 8) =
      .error .invalidBitmap := by
    refine self.visitByte_eq_error bitmap (i := Nat.find hex % 8) (Nat.mod_lt _ (by decide))
      (by omega) ?_ ?_
    · rw [hsplit]
      exact hset₀
    · intro j hj hkj
      exact hfirst _ (by omega) hkj
  exact foldlM_range_eq_error_of (by omega) hpre hbyte

/-- The weight `verify_certificate_and_weight` computes: the shards less the non-signers'. -/
def aggregateWeight : Nat :=
  self.nShards - ((self.nonSignersBelow bitmap self.members.length).map
    BlsCommitteeMember.weight).sum

/-- On a bitmap whose bits below the members are those of `signers`, the weight is the
signers' weight. -/
theorem aggregateWeight_eq {signers : List Nat} (hnd : signers.Nodup)
    (hlt : ∀ s ∈ signers, s < self.members.length)
    (hbits : ∀ idx < self.members.length, Bitmap.getBit bitmap idx = decide (idx ∈ signers)) :
    self.aggregateWeight bitmap = (signers.map self.weightAt).sum := by
  -- the committee's weight splits into the non-signers' and the signers'
  have hsplit : ∑ idx ∈ Finset.range self.members.length, self.weightAt idx =
      (∑ idx ∈ Finset.range self.members.length,
        if Bitmap.getBit bitmap idx then 0 else self.weightAt idx) +
      ∑ idx ∈ Finset.range self.members.length, if idx ∈ signers then self.weightAt idx else 0 := by
    rw [← Finset.sum_add_distrib]
    apply Finset.sum_congr rfl
    intro idx hidx
    rw [hbits idx (Finset.mem_range.mp hidx)]
    by_cases h : idx ∈ signers <;> simp [h]
  have hsigners : (∑ idx ∈ Finset.range self.members.length,
      if idx ∈ signers then self.weightAt idx else 0) = (signers.map self.weightAt).sum := by
    rw [← Finset.sum_filter, ← List.sum_toFinset _ hnd]
    congr 1
    ext idx
    simp only [Finset.mem_filter, Finset.mem_range, List.mem_toFinset]
    exact ⟨And.right, fun h => ⟨hlt idx h, h⟩⟩
  unfold aggregateWeight
  rw [sum_nonSignersBelow, nShards_eq_sum_weightAt, hsplit, hsigners]
  omega

/-- The walk's offset fits in `u64`: there are at most `u16Max` members. -/
theorem eight_mul_divCeil_le_u64Max : 8 * divCeil self.members.length 8 ≤ u64Max := by
  have hk : self.members.length ≤ u16Max := self.length_le_nShards.trans self.nShards_le_u16Max
  have hcover := le_mul_divCeil self.members.length (show 0 < 8 by decide)
  unfold u16Max at hk
  unfold u64Max
  omega

/-- On a bitmap of the right length without bits past the members, the call fails on the
weight, or the signature check decides. -/
theorem verifyCertificateAndWeight_eq_of_clean (blsVerify : List BlsCommitteeMember → Bool)
    (requiredWeight : RequiredWeight) (hlen : bitmap.length ≤ divCeil self.members.length 8)
    (hclean : ∀ idx, self.members.length ≤ idx → Bitmap.getBit bitmap idx = false) :
    self.verifyCertificateAndWeight blsVerify bitmap requiredWeight =
      if self.checksWeight requiredWeight (self.aggregateWeight bitmap) then
        (if blsVerify (self.nonSignersBelow bitmap self.members.length) then
          .ok (self.aggregateWeight bitmap)
        else .error .sigVerification)
      else .error .notEnoughStake := by
  have hcover := le_mul_divCeil self.members.length (show 0 < 8 by decide)
  have hwalk := self.walk_eq bitmap hclean self.eight_mul_divCeil_le_u64Max
  simp only [walkAt, nonSignersBelow_of_le self bitmap hcover.1] at hwalk
  unfold verifyCertificateAndWeight
  simp only [divideAndRoundUp_eq (show 8 ≠ 0 by decide), bind, Except.bind]
  rw [if_pos hlen, hwalk]
  -- the subtraction cannot underflow, and the weight fits the final cast to `u16`
  have hle := self.sum_nonSignersBelow_le bitmap self.members.length
  have hw : self.nShards - ((self.nonSignersBelow bitmap self.members.length).map
      BlsCommitteeMember.weight).sum = self.aggregateWeight bitmap := rfl
  have hcast : u16Cast (self.aggregateWeight bitmap) = .ok (self.aggregateWeight bitmap) :=
    if_pos ((Nat.sub_le _ _).trans self.nShards_le_u16Max)
  simp only [checkedSub, if_pos hle, hw]
  -- both arms of the match on `required_weight` are the one check `checksWeight`
  by_cases hq : self.checksWeight requiredWeight (self.aggregateWeight bitmap) = true
  case pos =>
    by_cases hv : blsVerify (self.nonSignersBelow bitmap self.members.length) = true
    case pos => cases requiredWeight <;> simp_all [checksWeight]
    case neg => cases requiredWeight <;> simp_all [checksWeight, throw, throwThe, MonadExceptOf.throw]
  case neg => cases requiredWeight <;> simp_all [checksWeight, throw, throwThe, MonadExceptOf.throw]

/-- On a bitmap of the right length without bits past the members, a quorum check fails on the
weight, or the signature check decides. -/
theorem verifyCertificateAndWeight_eq (blsVerify : List BlsCommitteeMember → Bool)
    (hlen : bitmap.length ≤ divCeil self.members.length 8)
    (hclean : ∀ idx, self.members.length ≤ idx → Bitmap.getBit bitmap idx = false) :
    self.verifyCertificateAndWeight blsVerify bitmap .quorum =
      if self.isQuorum (self.aggregateWeight bitmap) then
        (if blsVerify (self.nonSignersBelow bitmap self.members.length) then
          .ok (self.aggregateWeight bitmap)
        else .error .sigVerification)
      else .error .notEnoughStake :=
  self.verifyCertificateAndWeight_eq_of_clean bitmap blsVerify .quorum hlen hclean

/-- A bitmap longer than the members need, or with a bit set past the last member, is
rejected. -/
theorem verifyCertificateAndWeight_eq_invalidBitmap (blsVerify : List BlsCommitteeMember → Bool)
    (requiredWeight : RequiredWeight)
    (h : ¬ (bitmap.length ≤ divCeil self.members.length 8 ∧
      ∀ idx, self.members.length ≤ idx → Bitmap.getBit bitmap idx = false)) :
    self.verifyCertificateAndWeight blsVerify bitmap requiredWeight = .error .invalidBitmap := by
  unfold verifyCertificateAndWeight
  simp only [divideAndRoundUp_eq (show 8 ≠ 0 by decide), bind, Except.bind]
  by_cases hlen : bitmap.length ≤ divCeil self.members.length 8
  case neg =>
    rw [if_neg hlen]
    rfl
  case pos =>
    -- a bit set past the members lies within the bytes of the bitmap, which the walk visits
    have hdirty : ∃ d, self.members.length ≤ d ∧ Bitmap.getBit bitmap d = true := by
      by_contra hnone
      simp only [not_exists, not_and, Bool.not_eq_true] at hnone
      exact h ⟨hlen, hnone⟩
    rcases hdirty with ⟨d, hk, hset⟩
    have hd : d < 8 * bitmap.length := by
      by_contra hd
      rw [Bitmap.getBit_of_length_le (by omega)] at hset
      exact Bool.false_ne_true hset
    rw [if_pos hlen, self.walk_eq_error bitmap self.eight_mul_divCeil_le_u64Max (by omega) hk hset]

end Walk

end BlsCommittee

end Walrus.System
