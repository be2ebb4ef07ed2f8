import Mathlib
import Walrus.Staking.EpochChange
import Walrus.Machine.Count

/-! # The epoch change keeps its committees, its keys and its quorum

Along every run of the staking object from `new`, whatever the calls and whichever of them
abort, the epoch change keeps `EpochChangeInv`:

* the next committee is selected exactly while the state is `NextParamsSelected`, with the
  parameters of the next epoch, and the public keys for the next epoch are those of its
  members, in its order;
* every committee the contracts compute is well formed: sorted by node ID, every member with a
  shard, every shard `0, ..., n_shards - 1` with exactly one member. The current committee is
  such a committee from epoch 1 on, and the previous one from epoch 2 on;
* a cap never records an epoch ahead of the current one, and during the sync the weight of
  `EpochChangeSync(w)` is exactly the shards of the members whose cap records the current epoch
  (`syncedWeight`): each member counts once, since a second signal aborts with
  `EDuplicateSyncDone`. Once the sync is over, in epoch 1 and later, those members hold a
  quorum of the shards.

From the invariant: `next_bls_committee` never aborts while the next committee is selected and
builds the BLS committee of its members with their numbers of shards
(`next_bls_committee_of_selected`); the committees are well formed
(`committees_well_formed`); the epoch change is done only once a quorum of shards signalled
(`sync_done_after_quorum`); and `voting_end` reads parameters off the votes that a quorum
supports (`voting_end_selects_quorum_params`). Independently of the invariant, every call moves
the epoch state along its cycle only (`epoch_state_cycles`).
-/

namespace Walrus.Staking

open Machine Walrus.System

/-! ## The members done syncing -/

/-- The shards of the members of `cmt` whose cap records `epoch`. -/
def weightSynced (cmt : Committee) (caps : VecMap ObjectID Nat) (epoch : Nat) : Nat :=
  ((cmt.inner.contents.filter fun e => caps.get? e.1 = some epoch).map fun e => e.2.length).sum

/-- A committee of `n` shards holds `n` shards in all. -/
theorem sum_length_of_wellFormed {cmt : Committee} {n : Nat} (h : cmt.WellFormed n) :
    (cmt.inner.contents.map fun e => e.2.length).sum = n := by
  have hlen := h.partition.length_eq
  rw [List.length_range, Committee.shardsOf, List.length_flatten, List.map_map] at hlen
  exact hlen

theorem weightSynced_le {cmt : Committee} {n : Nat} (h : cmt.WellFormed n)
    (caps : VecMap ObjectID Nat) (epoch : Nat) : weightSynced cmt caps epoch ≤ n := by
  rw [← sum_length_of_wellFormed h]
  exact (List.filter_sublist.map _).sum_le_sum fun _ _ => Nat.zero_le _

/-- Without a cap at `epoch`, no member is done syncing. -/
theorem weightSynced_of_lt {cmt : Committee} {caps : VecMap ObjectID Nat} {epoch : Nat}
    (h : ∀ k v, caps.get? k = some v → v < epoch) : weightSynced cmt caps epoch = 0 := by
  have hnil : (cmt.inner.contents.filter fun e => caps.get? e.1 = some epoch) = [] := by
    refine List.filter_eq_nil_iff.mpr fun e _ he => ?_
    have := h e.1 epoch (of_decide_eq_true he)
    omega
  rw [weightSynced, hnil]
  rfl

/-- A new cap, which records epoch 0, adds no weight in a later epoch. -/
theorem weightSynced_insert {cmt : Committee} {caps caps' : VecMap ObjectID Nat}
    {nodeId : ObjectID} {epoch : Nat} (h : caps.insert nodeId 0 = .ok caps') (hepoch : 0 < epoch) :
    weightSynced cmt caps' epoch = weightSynced cmt caps epoch := by
  have hfresh : caps.get? nodeId = none :=
    VecMap.get?_eq_none_iff.mpr (by simpa using (VecMap.insert_eq_ok h).1)
  unfold weightSynced
  congr 2
  refine List.filter_congr fun e _ => ?_
  rw [VecMap.get?_insert h]
  split
  · rename_i he
    rw [he, hfresh]
    simp [Nat.ne_of_lt hepoch]
  · rfl

/-- A member whose cap records the epoch for the first time adds its shards. -/
theorem weightSynced_set {cmt : Committee} {caps caps' : VecMap ObjectID Nat}
    {nodeId : ObjectID} {shards : List Nat} {last epoch : Nat}
    (h : caps.set nodeId epoch = .ok caps') (hlast : caps.get? nodeId = some last)
    (hlt : last < epoch) (hmem : cmt.inner.get? nodeId = some shards) :
    weightSynced cmt caps' epoch = weightSynced cmt caps epoch + shards.length := by
  have hq : ∀ j, j ≠ nodeId →
      decide (caps'.get? j = some epoch) = decide (caps.get? j = some epoch) := by
    intro j hj
    rw [VecMap.get?_set h, if_neg hj]
  have hpk : decide (caps.get? nodeId = some epoch) = false := by
    rw [hlast]
    simpa using Nat.ne_of_lt hlt
  have hqk : decide (caps'.get? nodeId = some epoch) = true := by
    rw [VecMap.get?_set h, if_pos rfl]
    simp
  exact sum_filter_update_of_mem Prod.fst (fun e => e.2.length) hq hpk hqk cmt.inner.keys_nodup
    (VecMap.mem_of_get? hmem) rfl

namespace StakingRun

/-- The shards of the members of the committee that signalled this epoch that they hold their
shards. -/
def syncedWeight (s : StakingRun) : Nat :=
  weightSynced s.inner.committee s.caps s.inner.epoch

/-! ## The invariant -/

/-- What every reachable state of the staking object keeps of its epoch change. -/
structure EpochChangeInv (s : StakingRun) : Prop where
  /-- `n_shards` is a `u16`. -/
  nShards_le : s.inner.nShards ≤ u16Max
  /-- The next committee is selected exactly while the parameters of the next epoch are. -/
  selected_iff : s.inner.nextCommittee.isSome ↔ ∃ t, s.inner.epochState = .nextParamsSelected t
  params_set : ∀ t, s.inner.epochState = .nextParamsSelected t → s.inner.nextEpochParams.isSome
  /-- The public keys for the next epoch belong to the next committee's members, in order. -/
  next_keys : ∀ cmt, s.inner.nextCommittee = some cmt →
    s.inner.nextEpochPublicKeys.keys = cmt.inner.keys
  next_wellFormed : ∀ cmt, s.inner.nextCommittee = some cmt → cmt.WellFormed s.inner.nShards
  committee_wellFormed : 0 < s.inner.epoch → s.inner.committee.WellFormed s.inner.nShards
  previous_wellFormed : 1 < s.inner.epoch →
    s.inner.previousCommittee.WellFormed s.inner.nShards
  /-- Epoch 0 has no committee. -/
  committee_empty : s.inner.epoch = 0 → s.inner.committee.inner.contents = []
  caps_le : ∀ k v, s.caps.get? k = some v → v ≤ s.inner.epoch
  /-- The weight of the sync counts each member done syncing once. -/
  sync_weight : ∀ w, s.inner.epochState = .epochChangeSync w → w = s.syncedWeight
  /-- Once the sync is over, the members done syncing hold a quorum of the shards. -/
  sync_quorum : 0 < s.inner.epoch → (∀ w, s.inner.epochState ≠ .epochChangeSync w) →
    IsQuorum s.inner.nShards s.syncedWeight

variable {s t : StakingRun} {Q : Type} {PQ : PriorityQueue Q}

/-- The committee from which the next one is computed: none in epoch 0, a well formed one
after. -/
theorem EpochChangeInv.current (hI : s.EpochChangeInv) :
    s.inner.committee.inner.contents = [] ∨ s.inner.committee.WellFormed s.inner.nShards := by
  rcases Nat.eq_zero_or_pos s.inner.epoch with h | h
  · exact .inl (hI.committee_empty h)
  · exact .inr (hI.committee_wellFormed h)

theorem EpochChangeInv.new {epochZeroDuration epochDuration nShards now : Nat} {inner : StakingInner}
    (h : StakingInner.new epochZeroDuration epochDuration nShards now = .ok inner)
    (hn : nShards ≤ u16Max) : EpochChangeInv ⟨inner, VecMap.empty, []⟩ := by
  unfold StakingInner.new at h
  obtain ⟨firstEpochStart, -, h⟩ := bind_eq_ok.mp h
  obtain ⟨activeSet, -, h⟩ := bind_eq_ok.mp h
  cases h
  constructor
  case nShards_le => exact hn
  case selected_iff => simp
  case params_set => intro t ht; cases ht
  case next_keys => intro cmt hcmt; cases hcmt
  case next_wellFormed => intro cmt hcmt; cases hcmt
  case committee_wellFormed => intro h; cases h
  case previous_wellFormed => intro h; cases h
  case committee_empty => intro; rfl
  case caps_le => intro k v hk; cases hk
  case sync_weight => intro w hw; cases hw
  case sync_quorum => intro h; cases h

/-- A call that changes the pools, the active set and the staked WAL only keeps the invariant. -/
theorem EpochChangeInv.of_keeps (hI : s.EpochChangeInv)
    (hkeeps : s.inner.KeepsEpochChange t.inner) (hcaps : t.caps = s.caps) : t.EpochChangeInv := by
  obtain ⟨pools, activeSet, hinner⟩ := hkeeps
  obtain ⟨inner, caps, stakes⟩ := t
  dsimp only at hinner hcaps
  subst hinner hcaps
  exact ⟨hI.1, hI.2, hI.3, hI.4, hI.5, hI.6, hI.7, hI.8, hI.9, hI.10, hI.11⟩

/-- A new node's cap records epoch 0, which adds nothing to the weight of the sync. -/
theorem EpochChangeInv.register (hI : s.EpochChangeInv) {caps : VecMap ObjectID Nat}
    {nodeId : ObjectID} (hcaps : s.caps.insert nodeId 0 = .ok caps) {inner : StakingInner}
    (hkeeps : s.inner.KeepsEpochChange inner) :
    EpochChangeInv { s with inner, caps } := by
  have hI' : EpochChangeInv { s with inner } := hI.of_keeps hkeeps rfl
  obtain ⟨pools, activeSet, rfl⟩ := hkeeps
  -- in epoch 0 the committee is empty; later a cap at 0 is not at the epoch
  have hweight : weightSynced s.inner.committee caps s.inner.epoch = s.syncedWeight := by
    rcases Nat.eq_zero_or_pos s.inner.epoch with h | h
    · simp [syncedWeight, weightSynced, hI.committee_empty h]
    · exact weightSynced_insert hcaps h
  refine ⟨hI.1, hI.2, hI.3, hI.4, hI.5, hI.6, hI.7, hI.8, fun k v hk => ?_, ?_, ?_⟩
  · rw [VecMap.get?_insert hcaps] at hk
    split at hk
    · cases hk
      exact Nat.zero_le _
    · exact hI.caps_le k v hk
  · intro w hw
    exact (hI.sync_weight w hw).trans hweight.symm
  · intro hepoch hnot
    show IsQuorum s.inner.nShards (weightSynced s.inner.committee caps s.inner.epoch)
    rw [hweight]
    exact hI.sync_quorum hepoch hnot

/-- `voting_end` selects a well formed next committee with the keys of its members. -/
theorem EpochChangeInv.votingEnd (hI : s.EpochChangeInv) {now : Nat} {inner : StakingInner}
    (h : s.inner.votingEnd PQ now = .ok inner) : EpochChangeInv { s with inner } := by
  obtain ⟨last, inner₁, hdone, hselect, rfl⟩ := StakingInner.votingEnd_eq_ok h
  obtain ⟨-, committee, votes, publicKeys, params, hcommittee, hvotes, hkeys, -, -, -, rfl⟩ :=
    StakingInner.selectCommitteeAndCalculateVotes_eq_ok hselect
  have hlen : votes.length = committee.inner.contents.length :=
    (mapM_eq_ok_iff.mp hvotes).length_eq.symm
  have hquorum := hI.sync_quorum
  rw [hdone] at hquorum
  refine ⟨hI.nShards_le, by simp, fun _ _ => rfl, ?_, ?_, hI.committee_wellFormed,
    hI.previous_wellFormed, hI.committee_empty, hI.caps_le, ?_, ?_⟩
  · -- the keys are the committee's, zipped with as many public keys
    intro cmt hcmt
    cases hcmt
    have hle : committee.inner.keys.length ≤ (votes.map StakingInner.MemberVote.publicKey).length := by
      simp [VecMap.keys, hlen]
    rw [VecMap.keys, hkeys, List.map_fst_zip hle]
  · intro cmt hcmt
    cases hcmt
    exact StakingInner.computeNextCommittee_wellFormed hI.current hI.nShards_le hcommittee
  · intro w hw
    cases hw
  · intro hepoch _
    exact hquorum hepoch fun w hw => by cases hw

/-- `staking::initiate_epoch_change` makes the next committee the current one and starts the
sync, with no member done syncing yet. -/
theorem EpochChangeInv.initiateEpochChange (hI : s.EpochChangeInv) {now : Nat}
    {rewards : VecMap ObjectID Nat} {inner₀ inner : StakingInner} {bls : BlsCommittee}
    (hbls : s.inner.nextBlsCommittee = .ok (inner₀, bls))
    (h : inner₀.initiateEpochChange now rewards = .ok inner) :
    EpochChangeInv { s with inner } := by
  have h₀ : inner₀ = { s.inner with nextEpochPublicKeys := VecMap.empty } :=
    StakingInner.nextBlsCommittee_eq_ok hbls
  subst h₀
  obtain ⟨last, -, hadvance⟩ := StakingInner.initiateEpochChange_eq_ok h
  obtain ⟨committee, pools, activeSet, hnext, -, rfl⟩ := StakingInner.advanceEpoch_eq_ok hadvance
  have hwf : committee.WellFormed s.inner.nShards := hI.next_wellFormed committee hnext
  -- every cap records the old epoch at the latest
  have hnone : weightSynced committee s.caps (s.inner.epoch + 1) = 0 :=
    weightSynced_of_lt fun k v hk => Nat.lt_succ_of_le (hI.caps_le k v hk)
  refine ⟨hI.nShards_le, by simp, fun t ht => ?_, fun cmt hcmt => ?_, fun cmt hcmt => ?_,
    fun _ => hwf, fun hepoch => hI.committee_wellFormed (Nat.lt_of_succ_lt_succ hepoch), fun h => ?_,
    fun k v hk => Nat.le_succ_of_le (hI.caps_le k v hk), fun w hw => ?_, fun _ hnot => ?_⟩
  · cases ht
  · cases hcmt
  · cases hcmt
  · cases h
  · cases hw
    exact hnone.symm
  · exact absurd rfl (hnot 0)

/-- `epoch_sync_done` of a member adds its shards to the sync once; the state is done once they
make a quorum. -/
theorem EpochChangeInv.epochSyncDone (hI : s.EpochChangeInv) {nodeId : ObjectID}
    {last epoch now : Nat} {r : StakingInner × Nat} {caps : VecMap ObjectID Nat}
    (hcap : s.caps.get? nodeId = some last)
    (h : s.inner.epochSyncDone nodeId last epoch now = .ok r)
    (hcaps : s.caps.set nodeId r.2 = .ok caps) : EpochChangeInv { s with inner := r.1, caps } := by
  obtain ⟨-, hlt, hr2, shards, hshards, hstate⟩ := StakingInner.epochSyncDone_eq_ok h
  rw [hr2] at hcaps
  have hweight : weightSynced s.inner.committee caps s.inner.epoch = s.syncedWeight + shards.length :=
    weightSynced_set hcaps hcap hlt hshards
  have hcaps_le : ∀ k v, caps.get? k = some v → v ≤ s.inner.epoch := by
    intro k v hk
    rw [VecMap.get?_set hcaps] at hk
    split at hk
    · cases hk
      exact le_rfl
    · exact hI.caps_le k v hk
  -- during the sync the next committee is not selected
  have hnext : ∀ w, s.inner.epochState = .epochChangeSync w → s.inner.nextCommittee = none := by
    intro w hw
    refine Option.not_isSome_iff_eq_none.mp fun hsome => ?_
    obtain ⟨t, ht⟩ := hI.selected_iff.mp hsome
    rw [hw] at ht
    cases ht
  rcases hstate with ⟨w, hw, -, ⟨hquorum, hr⟩ | ⟨-, hr⟩⟩ | ⟨hnot, hr⟩
  · -- the sync is over
    obtain ⟨inner, ep⟩ := r
    dsimp only at hr
    subst hr
    have hw' := hI.sync_weight w hw
    refine ⟨hI.nShards_le, ?_, fun t ht => ?_, hI.next_keys, hI.next_wellFormed,
      hI.committee_wellFormed, hI.previous_wellFormed, hI.committee_empty, hcaps_le,
      fun w' hw' => ?_, fun _ _ => ?_⟩
    · simp [hnext w hw]
    · cases ht
    · cases hw'
    · show IsQuorum s.inner.nShards (weightSynced s.inner.committee caps s.inner.epoch)
      rw [hweight, ← hw']
      exact hquorum
  · -- the sync goes on, with the member's shards added
    obtain ⟨inner, ep⟩ := r
    dsimp only at hr
    subst hr
    have hw' := hI.sync_weight w hw
    refine ⟨hI.nShards_le, ?_, fun t ht => ?_, hI.next_keys, hI.next_wellFormed,
      hI.committee_wellFormed, hI.previous_wellFormed, hI.committee_empty, hcaps_le,
      fun w' hw'' => ?_, fun _ hnot => absurd rfl (hnot _)⟩
    · simp [hnext w hw]
    · cases ht
    · cases hw''
      show w + shards.length = weightSynced s.inner.committee caps s.inner.epoch
      rw [hweight, hw']
  · -- outside the sync only the cap changes, and the weight grows
    obtain ⟨inner, ep⟩ := r
    dsimp only at hr
    subst hr
    refine ⟨hI.1, hI.2, hI.3, hI.4, hI.5, hI.6, hI.7, hI.8, hcaps_le,
      fun w hw => absurd hw (hnot w), fun hepoch hnot' => ?_⟩
    show IsQuorum s.inner.nShards (weightSynced s.inner.committee caps s.inner.epoch)
    rw [hweight]
    exact (hI.sync_quorum hepoch hnot').mono (Nat.le_add_right _ _)

theorem cap_eq_ok {nodeId : ObjectID} {v : Nat} : s.cap nodeId = .ok v ↔ s.caps.get? nodeId = some v := by
  unfold cap
  split <;> simp_all [pure, Except.pure, throw, throwThe, MonadExceptOf.throw]

theorem withCap_eq_ok {nodeId : ObjectID} {f : StakingInner → Except Abort StakingInner}
    (h : s.withCap nodeId f = .ok t) : ∃ inner, f s.inner = .ok inner ∧ t = { s with inner } := by
  obtain ⟨-, -, h⟩ := bind_eq_ok.mp h
  obtain ⟨inner, hf, h⟩ := bind_eq_ok.mp h
  exact ⟨inner, hf, (Except.ok.inj h).symm⟩

/-- A call made with a node's cap whose inner call changes the pools or the active set only
changes nothing else. -/
theorem withCap_keeps {nodeId : ObjectID} {f : StakingInner → Except Abort StakingInner}
    (hf : ∀ inner, f s.inner = .ok inner → s.inner.KeepsEpochChange inner)
    (h : s.withCap nodeId f = .ok t) : s.inner.KeepsEpochChange t.inner ∧ t.caps = s.caps := by
  obtain ⟨inner, hinner, rfl⟩ := withCap_eq_ok h
  exact ⟨hf inner hinner, rfl⟩

/-- What a call that does not abort does to the staking object: the function of
`staking_inner` the call makes succeeds, into the new state. -/
def InnerStep (PQ : PriorityQueue Q) (inner : StakingInner) : StakingCall → StakingInner → Prop
  | .registerCandidate nodeId commissionRate storagePrice writePrice nodeCapacity publicKey,
      inner' =>
    inner.createPool nodeId commissionRate storagePrice writePrice nodeCapacity publicKey =
      .ok inner'
  | .setNextCommission nodeId commissionRate, inner' =>
    inner.setNextCommission nodeId commissionRate = .ok inner'
  | .setStoragePriceVote nodeId storagePrice, inner' =>
    inner.setStoragePriceVote nodeId storagePrice = .ok inner'
  | .setWritePriceVote nodeId writePrice, inner' =>
    inner.setWritePriceVote nodeId writePrice = .ok inner'
  | .setNodeCapacityVote nodeId nodeCapacity, inner' =>
    inner.setNodeCapacityVote nodeId nodeCapacity = .ok inner'
  | .setNextPublicKey nodeId publicKey, inner' =>
    inner.setNextPublicKey nodeId publicKey = .ok inner'
  | .stakeWithPool toStake nodeId, inner' =>
    ∃ stakedWal, inner.stakeWithPool toStake nodeId = .ok (inner', stakedWal)
  | .requestWithdrawStake _, inner' =>
    ∃ stakedWal stakedWal', inner.requestWithdrawStake stakedWal = .ok (inner', stakedWal')
  | .withdrawStake _, inner' =>
    ∃ stakedWal amount, inner.withdrawStake stakedWal = .ok (inner', amount)
  | .tryJoinActiveSet nodeId, inner' => inner.tryJoinActiveSet nodeId = .ok inner'
  | .votingEnd now, inner' => inner.votingEnd PQ now = .ok inner'
  | .initiateEpochChange now rewards, inner' =>
    { inner with nextEpochPublicKeys := VecMap.empty }.initiateEpochChange now rewards = .ok inner'
  | .epochSyncDone nodeId epoch now, inner' =>
    ∃ last lastEpochSyncDone,
      inner.epochSyncDone nodeId last epoch now = .ok (inner', lastEpochSyncDone)

/-- A call that does not abort makes its call of `staking_inner` on the staking object. -/
theorem step_innerStep {c : StakingCall} (h : s.step PQ c = .ok t) : InnerStep PQ s.inner c t.inner := by
  cases c with
  | registerCandidate nodeId commissionRate storagePrice writePrice nodeCapacity publicKey =>
    obtain ⟨inner, hinner, h⟩ := bind_eq_ok.mp h
    obtain ⟨caps, -, h⟩ := bind_eq_ok.mp h
    cases h
    exact hinner
  | setNextCommission nodeId commissionRate =>
    rw [step] at h
    obtain ⟨inner, hinner, rfl⟩ := withCap_eq_ok h
    exact hinner
  | setStoragePriceVote nodeId storagePrice =>
    rw [step] at h
    obtain ⟨inner, hinner, rfl⟩ := withCap_eq_ok h
    exact hinner
  | setWritePriceVote nodeId writePrice =>
    rw [step] at h
    obtain ⟨inner, hinner, rfl⟩ := withCap_eq_ok h
    exact hinner
  | setNodeCapacityVote nodeId nodeCapacity =>
    rw [step] at h
    obtain ⟨inner, hinner, rfl⟩ := withCap_eq_ok h
    exact hinner
  | setNextPublicKey nodeId publicKey =>
    rw [step] at h
    obtain ⟨inner, hinner, rfl⟩ := withCap_eq_ok h
    exact hinner
  | stakeWithPool toStake nodeId =>
    obtain ⟨⟨inner, stakedWal⟩, hr, h⟩ := bind_eq_ok.mp h
    cases h
    exact ⟨stakedWal, hr⟩
  | requestWithdrawStake i =>
    obtain ⟨stakedWal, -, h⟩ := bind_eq_ok.mp h
    obtain ⟨⟨inner, stakedWal'⟩, hr, h⟩ := bind_eq_ok.mp h
    cases h
    exact ⟨stakedWal, stakedWal', hr⟩
  | withdrawStake i =>
    obtain ⟨stakedWal, -, h⟩ := bind_eq_ok.mp h
    obtain ⟨⟨inner, amount⟩, hr, h⟩ := bind_eq_ok.mp h
    cases h
    exact ⟨stakedWal, amount, hr⟩
  | tryJoinActiveSet nodeId =>
    rw [step] at h
    obtain ⟨inner, hinner, rfl⟩ := withCap_eq_ok h
    exact hinner
  | votingEnd now =>
    obtain ⟨inner, hinner, h⟩ := bind_eq_ok.mp h
    cases h
    exact hinner
  | initiateEpochChange now rewards =>
    obtain ⟨⟨inner₀, bls⟩, hbls, h⟩ := bind_eq_ok.mp h
    dsimp only at h
    -- the parameters of the next epoch are set, or the call aborts
    split at h
    case h_2 => cases h
    rw [pure_bind] at h
    obtain ⟨inner, hinner, h⟩ := bind_eq_ok.mp h
    cases h
    -- `next_bls_committee` only takes the public keys out
    obtain rfl : inner₀ = { s.inner with nextEpochPublicKeys := VecMap.empty } :=
      StakingInner.nextBlsCommittee_eq_ok hbls
    exact hinner
  | epochSyncDone nodeId epoch now =>
    obtain ⟨last, -, h⟩ := bind_eq_ok.mp h
    obtain ⟨⟨inner, lastEpochSyncDone⟩, hr, h⟩ := bind_eq_ok.mp h
    obtain ⟨caps, -, h⟩ := bind_eq_ok.mp h
    cases h
    exact ⟨last, lastEpochSyncDone, hr⟩

/-- The members done syncing hold at most all the shards. -/
theorem EpochChangeInv.syncedWeight_le (hI : s.EpochChangeInv) :
    s.syncedWeight ≤ s.inner.nShards := by
  rcases hI.current with hnil | hwf
  · simp [syncedWeight, weightSynced, hnil]
  · exact weightSynced_le hwf _ _

/-- Every call that does not abort keeps the invariant. -/
theorem EpochChangeInv.step (hI : s.EpochChangeInv) {c : StakingCall} (h : s.step PQ c = .ok t) :
    t.EpochChangeInv := by
  cases c with
  | registerCandidate nodeId commissionRate storagePrice writePrice nodeCapacity publicKey =>
    obtain ⟨inner, hinner, h⟩ := bind_eq_ok.mp h
    obtain ⟨caps, hcaps, h⟩ := bind_eq_ok.mp h
    cases h
    exact hI.register (mapError_eq_ok.mp hcaps) (StakingInner.createPool_keeps hinner)
  | setNextCommission nodeId commissionRate =>
    rw [StakingRun.step] at h
    obtain ⟨hkeeps, hcaps⟩ := withCap_keeps (fun _ => StakingInner.setNextCommission_keeps) h
    exact hI.of_keeps hkeeps hcaps
  | setStoragePriceVote nodeId storagePrice =>
    rw [StakingRun.step] at h
    obtain ⟨hkeeps, hcaps⟩ := withCap_keeps (fun _ => StakingInner.updatePool_keeps) h
    exact hI.of_keeps hkeeps hcaps
  | setWritePriceVote nodeId writePrice =>
    rw [StakingRun.step] at h
    obtain ⟨hkeeps, hcaps⟩ := withCap_keeps (fun _ => StakingInner.updatePool_keeps) h
    exact hI.of_keeps hkeeps hcaps
  | setNodeCapacityVote nodeId nodeCapacity =>
    rw [StakingRun.step] at h
    obtain ⟨hkeeps, hcaps⟩ := withCap_keeps (fun _ => StakingInner.updatePool_keeps) h
    exact hI.of_keeps hkeeps hcaps
  | setNextPublicKey nodeId publicKey =>
    rw [StakingRun.step] at h
    obtain ⟨hkeeps, hcaps⟩ := withCap_keeps (fun _ => StakingInner.updatePool_keeps) h
    exact hI.of_keeps hkeeps hcaps
  | stakeWithPool toStake nodeId =>
    obtain ⟨r, hr, h⟩ := bind_eq_ok.mp h
    cases h
    exact hI.of_keeps (StakingInner.stakeWithPool_keeps hr) rfl
  | requestWithdrawStake i =>
    obtain ⟨stakedWal, -, h⟩ := bind_eq_ok.mp h
    obtain ⟨r, hr, h⟩ := bind_eq_ok.mp h
    cases h
    exact hI.of_keeps (StakingInner.requestWithdrawStake_keeps hr) rfl
  | withdrawStake i =>
    obtain ⟨stakedWal, -, h⟩ := bind_eq_ok.mp h
    obtain ⟨r, hr, h⟩ := bind_eq_ok.mp h
    cases h
    exact hI.of_keeps (StakingInner.withdrawStake_keeps hr) rfl
  | tryJoinActiveSet nodeId =>
    rw [StakingRun.step] at h
    obtain ⟨hkeeps, hcaps⟩ := withCap_keeps (fun _ => StakingInner.tryJoinActiveSet_keeps) h
    exact hI.of_keeps hkeeps hcaps
  | votingEnd now =>
    obtain ⟨inner, hinner, h⟩ := bind_eq_ok.mp h
    cases h
    exact hI.votingEnd hinner
  | initiateEpochChange now rewards =>
    obtain ⟨⟨inner₀, bls⟩, hbls, h⟩ := bind_eq_ok.mp h
    dsimp only at h
    -- the parameters of the next epoch are set, or the call aborts
    split at h
    case h_2 => cases h
    rw [pure_bind] at h
    obtain ⟨inner, hinner, h⟩ := bind_eq_ok.mp h
    cases h
    exact hI.initiateEpochChange hbls hinner
  | epochSyncDone nodeId epoch now =>
    obtain ⟨last, hlast, h⟩ := bind_eq_ok.mp h
    obtain ⟨r, hr, h⟩ := bind_eq_ok.mp h
    obtain ⟨caps, hcaps, h⟩ := bind_eq_ok.mp h
    cases h
    exact hI.epochSyncDone (cap_eq_ok.mp hlast) hr (mapError_eq_ok.mp hcaps)

/-- The invariant holds along every run from `new`. -/
theorem EpochChangeInv.run (PQ : PriorityQueue Q) (hI : s.EpochChangeInv)
    (calls : List StakingCall) : (s.run PQ calls).EpochChangeInv :=
  run_invariant (commit_invariant fun _ _ _ hs h => hs.step (toOption_eq_some.mp h)) calls s hI

/-! ## What a call does to the epoch change -/

/-- A call leaves the epoch change alone, or ends the vote, or changes the epoch, or counts a
member done syncing. -/
theorem step_inner_cases {c : StakingCall} (h : s.step PQ c = .ok t) :
    s.inner.KeepsEpochChange t.inner ∨
    (∃ last keys cmt params, s.inner.epochState = .epochChangeDone last ∧
      t.inner = { s.inner with nextEpochPublicKeys := keys, nextCommittee := some cmt
                               nextEpochParams := some params
                               epochState := .nextParamsSelected last }) ∨
    (∃ last cmt pools activeSet, s.inner.epochState = .nextParamsSelected last ∧
      s.inner.nextCommittee = some cmt ∧
      t.inner = { s.inner with nextEpochPublicKeys := VecMap.empty, epoch := s.inner.epoch + 1
                               previousCommittee := s.inner.committee, committee := cmt
                               nextCommittee := none, epochState := .epochChangeSync 0, pools
                               activeSet }) ∨
    (∃ w, s.inner.epochState = .epochChangeSync w ∧
      ((∃ now, t.inner = { s.inner with epochState := .epochChangeDone now }) ∨
        ∃ w', w ≤ w' ∧ t.inner = { s.inner with epochState := .epochChangeSync w' })) := by
  have hstep := step_innerStep h
  cases c with
  | registerCandidate nodeId commissionRate storagePrice writePrice nodeCapacity publicKey =>
    exact .inl (StakingInner.createPool_keeps hstep)
  | setNextCommission nodeId commissionRate =>
    exact .inl (StakingInner.setNextCommission_keeps hstep)
  | setStoragePriceVote nodeId storagePrice => exact .inl (StakingInner.updatePool_keeps hstep)
  | setWritePriceVote nodeId writePrice => exact .inl (StakingInner.updatePool_keeps hstep)
  | setNodeCapacityVote nodeId nodeCapacity => exact .inl (StakingInner.updatePool_keeps hstep)
  | setNextPublicKey nodeId publicKey => exact .inl (StakingInner.updatePool_keeps hstep)
  | stakeWithPool toStake nodeId =>
    obtain ⟨stakedWal, hr⟩ := hstep
    exact .inl (StakingInner.stakeWithPool_keeps hr)
  | requestWithdrawStake i =>
    obtain ⟨stakedWal, stakedWal', hr⟩ := hstep
    exact .inl (StakingInner.requestWithdrawStake_keeps hr)
  | withdrawStake i =>
    obtain ⟨stakedWal, amount, hr⟩ := hstep
    exact .inl (StakingInner.withdrawStake_keeps hr)
  | tryJoinActiveSet nodeId => exact .inl (StakingInner.tryJoinActiveSet_keeps hstep)
  | votingEnd now =>
    obtain ⟨last, inner₁, hdone, hselect, hinner⟩ := StakingInner.votingEnd_eq_ok hstep
    obtain ⟨-, cmt, votes, keys, params, -, -, -, -, -, -, rfl⟩ :=
      StakingInner.selectCommitteeAndCalculateVotes_eq_ok hselect
    exact .inr (.inl ⟨last, keys, cmt, params, hdone, hinner⟩)
  | initiateEpochChange now rewards =>
    obtain ⟨last, hselected, hadvance⟩ := StakingInner.initiateEpochChange_eq_ok hstep
    obtain ⟨cmt, pools, activeSet, hnext, -, hinner⟩ := StakingInner.advanceEpoch_eq_ok hadvance
    exact .inr (.inr (.inl ⟨last, cmt, pools, activeSet, hselected, hnext, hinner⟩))
  | epochSyncDone nodeId epoch now =>
    obtain ⟨last, lastEpochSyncDone, hr⟩ := hstep
    obtain ⟨-, -, -, shards, -, hstate⟩ := StakingInner.epochSyncDone_eq_ok hr
    rcases hstate with ⟨w, hw, -, ⟨-, hr1⟩ | ⟨-, hr1⟩⟩ | ⟨-, hr1⟩
    · exact .inr (.inr (.inr ⟨w, hw, .inl ⟨now, hr1⟩⟩))
    · exact .inr (.inr (.inr ⟨w, hw, .inr ⟨w + shards.length, Nat.le_add_right _ _, hr1⟩⟩))
    · dsimp only at hr1
      rw [hr1]
      exact .inl (StakingInner.KeepsEpochChange.refl _)

/-- No call changes the number of shards. -/
theorem step_nShards {c : StakingCall} (h : s.step PQ c = .ok t) : t.inner.nShards = s.inner.nShards := by
  rcases step_inner_cases h with hkeeps | ⟨_, _, _, _, -, hinner⟩ | ⟨_, _, _, _, -, -, hinner⟩ |
    ⟨_, -, ⟨_, hinner⟩ | ⟨_, -, hinner⟩⟩
  · obtain ⟨pools, activeSet, hinner⟩ := hkeeps
    rw [hinner]
  all_goals rw [hinner]

theorem run_nShards (PQ : PriorityQueue Q) (calls : List StakingCall) :
    (s.run PQ calls).inner.nShards = s.inner.nShards :=
  @run_invariant _ _ _ (fun t => t.inner.nShards = s.inner.nShards)
    (commit_invariant fun _ _ _ hs h => (step_nShards (toOption_eq_some.mp h)).trans hs) calls s rfl

end StakingRun

/-! ## Along every run from `new` -/

section Runs

variable {epochZeroDuration epochDuration nShards now₀ : Nat} {inner : StakingInner}
  {Q : Type} (PQ : PriorityQueue Q)

/-- Along every run of the staking object from `new`, the next committee is selected exactly
while the state is `NextParamsSelected`, and `next_bls_committee` then does not abort (short of
the last epoch a `u32` counts): it builds the committee of the next epoch from the next
committee's members, in order, each weighted by its number of shards, which add up to all the
shards. -/
theorem next_bls_committee_never_aborts
    (hnew : StakingInner.new epochZeroDuration epochDuration nShards now₀ = .ok inner)
    (hn : nShards ≤ u16Max) (calls : List StakingCall) :
    let s := (StakingRun.run PQ ⟨inner, VecMap.empty, []⟩ calls).inner
    (s.nextCommittee.isSome ↔ ∃ t, s.epochState = .nextParamsSelected t) ∧
      ∀ cmt, s.nextCommittee = some cmt → s.epoch < u32Max →
        ∃ bls, s.nextBlsCommittee = .ok ({ s with nextEpochPublicKeys := VecMap.empty }, bls) ∧
          bls.epoch = s.epoch + 1 ∧ bls.nShards = s.nShards ∧
          bls.members = cmt.inner.contents.map fun e => ⟨e.2.length, e.1⟩ := by
  intro s
  have hI : StakingRun.EpochChangeInv (StakingRun.run PQ ⟨inner, VecMap.empty, []⟩ calls) :=
    (StakingRun.EpochChangeInv.new hnew hn).run PQ calls
  refine ⟨hI.selected_iff, fun cmt hcmt hepoch => ?_⟩
  have hwf : cmt.WellFormed s.nShards := hI.next_wellFormed cmt hcmt
  have hsum := sum_length_of_wellFormed hwf
  obtain ⟨bls, hbls, hblsEpoch, hmembers⟩ := StakingInner.nextBlsCommittee_of_selected hcmt
    (hI.next_keys cmt hcmt) hwf.nonempty (hsum.trans_le hI.nShards_le) hepoch
  refine ⟨bls, hbls, hblsEpoch, ?_, hmembers⟩
  rw [BlsCommittee.nShards, hmembers, List.map_map]
  exact hsum

/-- One epoch change, the member's signal, and the vote of epoch 1, which selects the committee
of epoch 2. -/
theorem next_bls_committee_never_aborts_after_epoch_change :
    ∃ inner, StakingInner.new 0 0 1000 0 = .ok inner ∧ 1000 ≤ u16Max ∧
      let s := (StakingRun.run listPriorityQueue ⟨inner, VecMap.empty, []⟩
        [.registerCandidate ⟨Vector.replicate 32 1⟩ 0 5 1 1000 7,
          .stakeWithPool 1000000000 ⟨Vector.replicate 32 1⟩, .votingEnd 0,
          .initiateEpochChange 0 VecMap.empty, .epochSyncDone ⟨Vector.replicate 32 1⟩ 1 0,
          .votingEnd 0]).inner
      (s.nextCommittee.isSome ↔ ∃ t, s.epochState = .nextParamsSelected t) ∧
        ∀ cmt, s.nextCommittee = some cmt → s.epoch < u32Max →
          ∃ bls, s.nextBlsCommittee = .ok ({ s with nextEpochPublicKeys := VecMap.empty }, bls) ∧
            bls.epoch = s.epoch + 1 ∧ bls.nShards = s.nShards ∧
            bls.members = cmt.inner.contents.map fun e => ⟨e.2.length, e.1⟩ :=
  ⟨_, rfl, by decide, @next_bls_committee_never_aborts 0 0 1000 0 _ _ listPriorityQueue rfl (by decide) _⟩

/-- Along every run of the staking object from `new`, the committees are well formed: sorted
by node ID, every member with a shard, and each of the shards `0, ..., n_shards - 1` with exactly
one member. So is the current committee from epoch 1 on, the previous one from epoch 2 on, and
the next one once selected. -/
theorem committees_well_formed
    (hnew : StakingInner.new epochZeroDuration epochDuration nShards now₀ = .ok inner)
    (hn : nShards ≤ u16Max) (calls : List StakingCall) :
    let s := (StakingRun.run PQ ⟨inner, VecMap.empty, []⟩ calls).inner
    (0 < s.epoch → s.committee.WellFormed s.nShards) ∧
      (1 < s.epoch → s.previousCommittee.WellFormed s.nShards) ∧
      ∀ cmt, s.nextCommittee = some cmt → cmt.WellFormed s.nShards := by
  intro s
  have hI : StakingRun.EpochChangeInv (StakingRun.run PQ ⟨inner, VecMap.empty, []⟩ calls) :=
    (StakingRun.EpochChangeInv.new hnew hn).run PQ calls
  exact ⟨hI.committee_wellFormed, hI.previous_wellFormed, hI.next_wellFormed⟩

theorem committees_well_formed_after_epoch_change :
    ∃ inner, StakingInner.new 0 0 1000 0 = .ok inner ∧ 1000 ≤ u16Max ∧
      let s := (StakingRun.run listPriorityQueue ⟨inner, VecMap.empty, []⟩
        [.registerCandidate ⟨Vector.replicate 32 1⟩ 0 5 1 1000 7,
          .stakeWithPool 1000000000 ⟨Vector.replicate 32 1⟩, .votingEnd 0,
          .initiateEpochChange 0 VecMap.empty, .epochSyncDone ⟨Vector.replicate 32 1⟩ 1 0,
          .votingEnd 0]).inner
      (0 < s.epoch → s.committee.WellFormed s.nShards) ∧
        (1 < s.epoch → s.previousCommittee.WellFormed s.nShards) ∧
        ∀ cmt, s.nextCommittee = some cmt → cmt.WellFormed s.nShards :=
  ⟨_, rfl, by decide, @committees_well_formed 0 0 1000 0 _ _ listPriorityQueue rfl (by decide) _⟩

/-- Along every run of the staking object from `new`, the weight of `EpochChangeSync(w)` is the
number of shards of the committee members whose cap records the current epoch, each member
counted once, and at most all the shards; and from epoch 1 on, once the sync is over, those
members hold a quorum of the shards. -/
theorem sync_done_after_quorum
    (hnew : StakingInner.new epochZeroDuration epochDuration nShards now₀ = .ok inner)
    (hn : nShards ≤ u16Max) (calls : List StakingCall) :
    let s := StakingRun.run PQ ⟨inner, VecMap.empty, []⟩ calls
    (∀ w, s.inner.epochState = .epochChangeSync w → w = s.syncedWeight ∧ w ≤ s.inner.nShards) ∧
      (0 < s.inner.epoch → (∀ w, s.inner.epochState ≠ .epochChangeSync w) →
        IsQuorum s.inner.nShards s.syncedWeight) := by
  intro s
  have hI : s.EpochChangeInv := (StakingRun.EpochChangeInv.new hnew hn).run PQ calls
  refine ⟨fun w hw => ?_, hI.sync_quorum⟩
  have hweight := hI.sync_weight w hw
  exact ⟨hweight, hweight ▸ hI.syncedWeight_le⟩

theorem sync_done_after_quorum_after_signal :
    ∃ inner, StakingInner.new 0 0 1000 0 = .ok inner ∧ 1000 ≤ u16Max ∧
      let s := StakingRun.run listPriorityQueue ⟨inner, VecMap.empty, []⟩
        [.registerCandidate ⟨Vector.replicate 32 1⟩ 0 5 1 1000 7,
          .stakeWithPool 1000000000 ⟨Vector.replicate 32 1⟩, .votingEnd 0,
          .initiateEpochChange 0 VecMap.empty, .epochSyncDone ⟨Vector.replicate 32 1⟩ 1 0]
      (∀ w, s.inner.epochState = .epochChangeSync w → w = s.syncedWeight ∧ w ≤ s.inner.nShards) ∧
        (0 < s.inner.epoch → (∀ w, s.inner.epochState ≠ .epochChangeSync w) →
          IsQuorum s.inner.nShards s.syncedWeight) :=
  ⟨_, rfl, by decide, @sync_done_after_quorum 0 0 1000 0 _ _ listPriorityQueue rfl (by decide) _⟩

/-- Along every run of the staking object from `new`, a member of the committee whose cap has
not signalled in this epoch can always signal that it is done syncing: the weight of the sync
never overflows its `u16`, and the cap then records the epoch. -/
theorem first_sync_signal_accepted
    (hnew : StakingInner.new epochZeroDuration epochDuration nShards now₀ = .ok inner)
    (hn : nShards ≤ u16Max) (calls : List StakingCall) :
    let s := StakingRun.run PQ ⟨inner, VecMap.empty, []⟩ calls
    ∀ nodeId last now, s.caps.get? nodeId = some last → last < s.inner.epoch →
      s.inner.committee.contains nodeId = true →
      ∃ t, s.step PQ (.epochSyncDone nodeId s.inner.epoch now) = .ok t ∧
        t.caps.get? nodeId = some s.inner.epoch := by
  intro s nodeId last now hcap hlast hmember
  have hI : s.EpochChangeInv := (StakingRun.EpochChangeInv.new hnew hn).run PQ calls
  have hwf : s.inner.committee.WellFormed s.inner.nShards :=
    hI.committee_wellFormed (Nat.lt_of_le_of_lt (Nat.zero_le _) hlast)
  obtain ⟨shards, hshards⟩ := Option.isSome_iff_exists.mp hmember
  -- the member's shards and the weight with them are at most all the shards
  obtain ⟨caps, hcaps⟩ := VecMap.set_isOk s.inner.epoch
    (show s.caps.contains nodeId = true by simp [VecMap.contains, hcap])
  have hsum := sum_length_of_wellFormed hwf
  have hlen : shards.length ≤ s.inner.nShards := by
    rw [← hsum]
    exact List.le_sum_of_mem (List.mem_map_of_mem (f := fun e : ObjectID × List Nat => e.2.length)
      (VecMap.mem_of_get? hshards))
  have hweight : ∀ w, s.inner.epochState = .epochChangeSync w →
      w + shards.length ≤ u16Max := by
    intro w hw
    have hafter := weightSynced_le hwf caps s.inner.epoch
    rw [weightSynced_set hcaps hcap hlast hshards] at hafter
    have := hI.sync_weight w hw
    unfold StakingRun.syncedWeight at this
    have := hI.nShards_le
    omega
  have hn64 : 2 * s.inner.nShards + 1 ≤ u64Max := by
    have := hI.nShards_le
    unfold u16Max at this
    unfold u64Max
    omega
  obtain ⟨r, hr, hr2⟩ := StakingInner.epochSyncDone_isOk hlast hshards
    (hlen.trans hI.nShards_le) hn64 hweight
  obtain ⟨inner₁, epoch⟩ := r
  dsimp only at hr2
  subst hr2
  refine ⟨{ s with inner := inner₁, caps }, ?_, ?_⟩
  · have hcap' : s.cap nodeId = .ok last := StakingRun.cap_eq_ok.mpr hcap
    rw [StakingRun.step, hcap', ok_bind, hr, ok_bind]
    simp only [liftVecMap, hcaps, mapError_ok, ok_bind]
    rfl
  · rw [VecMap.get?_set hcaps, if_pos rfl]

theorem first_sync_signal_accepted_after_epoch_change :
    ∃ inner, StakingInner.new 0 0 1000 0 = .ok inner ∧ 1000 ≤ u16Max ∧
      let s := StakingRun.run listPriorityQueue ⟨inner, VecMap.empty, []⟩
        [.registerCandidate ⟨Vector.replicate 32 1⟩ 0 5 1 1000 7,
          .stakeWithPool 1000000000 ⟨Vector.replicate 32 1⟩, .votingEnd 0,
          .initiateEpochChange 0 VecMap.empty]
      ∀ nodeId last now, s.caps.get? nodeId = some last → last < s.inner.epoch →
        s.inner.committee.contains nodeId = true →
        ∃ t, s.step listPriorityQueue (.epochSyncDone nodeId s.inner.epoch now) = .ok t ∧
          t.caps.get? nodeId = some s.inner.epoch :=
  ⟨_, rfl, by decide, @first_sync_signal_accepted 0 0 1000 0 _ _ listPriorityQueue rfl (by decide) _⟩

/-- Along every run of the staking object from `new` with at least one shard, `voting_end`
selects a next committee and the parameters of the next epoch from the votes of its members,
each vote its pool's, weighted by the member's shards: the capacity is the largest value that
members holding a quorum of the shards vote for or above, and each price the smallest value that
members holding a quorum vote for or below. -/
theorem voting_end_selects_quorum_params
    (hnew : StakingInner.new epochZeroDuration epochDuration nShards now₀ = .ok inner)
    (hn : 0 < nShards ∧ nShards ≤ u16Max) (calls : List StakingCall) :
    let s := (StakingRun.run PQ ⟨inner, VecMap.empty, []⟩ calls).inner
    ∀ now inner', s.votingEnd PQ now = .ok inner' →
      ∃ cmt votes params, inner'.nextCommittee = some cmt ∧ inner'.nextEpochParams = some params ∧
        List.Forall₂ (fun e v => s.memberVote e = .ok v) cmt.inner.contents votes ∧
        (IsQuorum nShards (weightAtLeast (votes.map fun v => (v.capacity, v.weight))
            params.totalCapacitySize) ∧
          ∀ u, IsQuorum nShards (weightAtLeast (votes.map fun v => (v.capacity, v.weight)) u) →
            u ≤ params.totalCapacitySize) ∧
        (IsQuorum nShards (weightAtMost (votes.map fun v => (v.storagePrice, v.weight))
            params.storagePricePerUnitSize) ∧
          ∀ u, IsQuorum nShards (weightAtMost (votes.map fun v => (v.storagePrice, v.weight)) u) →
            params.storagePricePerUnitSize ≤ u) ∧
        (IsQuorum nShards (weightAtMost (votes.map fun v => (v.writePrice, v.weight))
            params.writePricePerUnitSize) ∧
          ∀ u, IsQuorum nShards (weightAtMost (votes.map fun v => (v.writePrice, v.weight)) u) →
            params.writePricePerUnitSize ≤ u) := by
  intro s now inner' h
  have hI : StakingRun.EpochChangeInv (StakingRun.run PQ ⟨inner, VecMap.empty, []⟩ calls) :=
    (StakingRun.EpochChangeInv.new hnew hn.2).run PQ calls
  -- the number of shards is the one `new` was given
  have hnShards : s.nShards = nShards := by
    rw [StakingRun.run_nShards]
    exact StakingInner.new_nShards hnew
  obtain ⟨last, inner₁, -, hselect, rfl⟩ := StakingInner.votingEnd_eq_ok h
  obtain ⟨-, cmt, votes, keys, params, hcmt, hvotes, -, hcap, hstorage, hwrite, rfl⟩ :=
    StakingInner.selectCommitteeAndCalculateVotes_eq_ok hselect
  have hwf := StakingInner.computeNextCommittee_wellFormed hI.current hI.nShards_le hcmt
  have hvotes' := mapM_eq_ok_iff.mp hvotes
  -- the weights of each queue of votes are the members' shards, all the shards in all
  have hsum : ∀ f : StakingInner.MemberVote → Nat,
      ((votes.map fun v => (f v, v.weight)).map Prod.snd).sum = nShards := by
    intro f
    rw [List.map_map]
    show (votes.map StakingInner.MemberVote.weight).sum = nShards
    rw [StakingInner.weights_of_memberVotes hvotes', sum_length_of_wellFormed hwf, hnShards]
  rw [hnShards] at hcap hstorage hwrite
  obtain ⟨capacity, hcapacity, hcapq, hcapmax⟩ := PQ.quorumAbove_ofVotes _ hn (hsum _)
  obtain ⟨storage, hstorage', hstorageq, hstoragemin⟩ := PQ.quorumBelow_ofVotes _ hn (hsum _)
  obtain ⟨write, hwrite', hwriteq, hwritemin⟩ := PQ.quorumBelow_ofVotes _ hn (hsum _)
  obtain rfl : capacity = params.totalCapacitySize := Except.ok.inj (hcapacity.symm.trans hcap)
  obtain rfl : storage = params.storagePricePerUnitSize :=
    Except.ok.inj (hstorage'.symm.trans hstorage)
  obtain rfl : write = params.writePricePerUnitSize := Except.ok.inj (hwrite'.symm.trans hwrite)
  exact ⟨cmt, votes, params, rfl, rfl, hvotes', ⟨hcapq, hcapmax⟩, ⟨hstorageq, hstoragemin⟩,
    ⟨hwriteq, hwritemin⟩⟩

theorem voting_end_selects_quorum_params_after_stake :
    ∃ inner, StakingInner.new 0 0 1000 0 = .ok inner ∧ (0 < 1000 ∧ 1000 ≤ u16Max) ∧
      let s := (StakingRun.run listPriorityQueue ⟨inner, VecMap.empty, []⟩
        [.registerCandidate ⟨Vector.replicate 32 1⟩ 0 5 1 1000 7,
          .stakeWithPool 1000000000 ⟨Vector.replicate 32 1⟩]).inner
      ∀ now inner', s.votingEnd listPriorityQueue now = .ok inner' →
        ∃ cmt votes params, inner'.nextCommittee = some cmt ∧
          inner'.nextEpochParams = some params ∧
          List.Forall₂ (fun e v => s.memberVote e = .ok v) cmt.inner.contents votes ∧
          (IsQuorum 1000 (weightAtLeast (votes.map fun v => (v.capacity, v.weight))
              params.totalCapacitySize) ∧
            ∀ u, IsQuorum 1000 (weightAtLeast (votes.map fun v => (v.capacity, v.weight)) u) →
              u ≤ params.totalCapacitySize) ∧
          (IsQuorum 1000 (weightAtMost (votes.map fun v => (v.storagePrice, v.weight))
              params.storagePricePerUnitSize) ∧
            ∀ u, IsQuorum 1000 (weightAtMost (votes.map fun v => (v.storagePrice, v.weight)) u) →
              params.storagePricePerUnitSize ≤ u) ∧
          (IsQuorum 1000 (weightAtMost (votes.map fun v => (v.writePrice, v.weight))
              params.writePricePerUnitSize) ∧
            ∀ u, IsQuorum 1000 (weightAtMost (votes.map fun v => (v.writePrice, v.weight)) u) →
              params.writePricePerUnitSize ≤ u) :=
  ⟨_, rfl, by decide, @voting_end_selects_quorum_params 0 0 1000 0 _ _ listPriorityQueue rfl (by decide) _⟩

end Runs

/-! ## The cycle of the epoch state -/

/-- The cycle of the epoch change, on the epoch and its state: the vote ends, the epoch changes,
and the members signal until the sync is done; every other call stutters. -/
inductive EpochCycle : Nat × EpochState → Nat × EpochState → Prop
  | stutter (epoch : Nat) (state : EpochState) : EpochCycle (epoch, state) (epoch, state)
  | votingEnd (epoch last : Nat) :
      EpochCycle (epoch, .epochChangeDone last) (epoch, .nextParamsSelected last)
  | epochChange (epoch last : Nat) :
      EpochCycle (epoch, .nextParamsSelected last) (epoch + 1, .epochChangeSync 0)
  | syncDone (epoch weight now : Nat) :
      EpochCycle (epoch, .epochChangeSync weight) (epoch, .epochChangeDone now)
  | sync (epoch weight weight' : Nat) (hle : weight ≤ weight') :
      EpochCycle (epoch, .epochChangeSync weight) (epoch, .epochChangeSync weight')

/-- Every call moves the epoch state along its cycle only: `EpochChangeDone` to
`NextParamsSelected`, which keeps the timestamp, in the same epoch; `NextParamsSelected` to
`EpochChangeSync(0)` in the next epoch, the only change of the epoch; `EpochChangeSync` to a
larger weight or to `EpochChangeDone`, in the same epoch; or it leaves both alone. -/
theorem epoch_state_cycles {Q : Type} {PQ : PriorityQueue Q} {s t : StakingRun} {c : StakingCall}
    (h : s.step PQ c = .ok t) :
    EpochCycle (s.inner.epoch, s.inner.epochState) (t.inner.epoch, t.inner.epochState) := by
  rcases StakingRun.step_inner_cases h with hkeeps | ⟨last, _, _, _, hdone, hinner⟩ |
    ⟨last, _, _, _, hselected, -, hinner⟩ | ⟨w, hw, ⟨now, hinner⟩ | ⟨w', hle, hinner⟩⟩
  · -- a call on pools or stake
    rcases hkeeps with ⟨pools, activeSet, hinner⟩
    rw [hinner]
    exact .stutter _ _
  · -- `voting_end`
    rw [hinner, hdone]
    exact .votingEnd _ last
  · -- `initiate_epoch_change`
    rw [hinner, hselected]
    exact .epochChange _ last
  · -- `epoch_sync_done` that completes the sync
    rw [hinner, hw]
    exact .syncDone _ w now
  · -- `epoch_sync_done` that adds to the sync
    rw [hinner, hw]
    exact .sync _ w w' hle

/-- A node registers and stakes, the vote of epoch 0 ends, the epoch changes, and the node
signals: the calls go through every kind of move of the cycle. -/
def firstEpochChangeCalls : List StakingCall :=
  [.registerCandidate ⟨Vector.replicate 32 1⟩ 0 5 1 1000 7,
    .stakeWithPool 1000000000 ⟨Vector.replicate 32 1⟩, .votingEnd 0,
    .initiateEpochChange 0 VecMap.empty, .epochSyncDone ⟨Vector.replicate 32 1⟩ 1 0]

theorem epoch_state_cycles_through_epoch_change :
    ∃ inner, StakingInner.new 0 0 10 0 = .ok inner ∧
      -- registering stutters
      (∃ t, (StakingRun.run listPriorityQueue ⟨inner, VecMap.empty, []⟩
          (firstEpochChangeCalls.take 0)).step listPriorityQueue
            (.registerCandidate ⟨Vector.replicate 32 1⟩ 0 5 1 1000 7) = .ok t ∧
        EpochCycle (inner.epoch, inner.epochState) (t.inner.epoch, t.inner.epochState) ∧
        (t.inner.epoch, t.inner.epochState) = (0, .epochChangeDone 0)) ∧
      -- the vote ends
      (∃ t, (StakingRun.run listPriorityQueue ⟨inner, VecMap.empty, []⟩
          (firstEpochChangeCalls.take 2)).step listPriorityQueue (.votingEnd 0) = .ok t ∧
        EpochCycle (0, .epochChangeDone 0) (t.inner.epoch, t.inner.epochState) ∧
        (t.inner.epoch, t.inner.epochState) = (0, .nextParamsSelected 0)) ∧
      -- the epoch changes
      (∃ t, (StakingRun.run listPriorityQueue ⟨inner, VecMap.empty, []⟩
          (firstEpochChangeCalls.take 3)).step listPriorityQueue
            (.initiateEpochChange 0 VecMap.empty) = .ok t ∧
        EpochCycle (0, .nextParamsSelected 0) (t.inner.epoch, t.inner.epochState) ∧
        (t.inner.epoch, t.inner.epochState) = (1, .epochChangeSync 0)) ∧
      -- the node's signal completes the sync
      (∃ t, (StakingRun.run listPriorityQueue ⟨inner, VecMap.empty, []⟩
          (firstEpochChangeCalls.take 4)).step listPriorityQueue
            (.epochSyncDone ⟨Vector.replicate 32 1⟩ 1 0) = .ok t ∧
        EpochCycle (1, .epochChangeSync 0) (t.inner.epoch, t.inner.epochState) ∧
        (t.inner.epoch, t.inner.epochState) = (1, .epochChangeDone 0)) := by
  -- each call is evaluated once, to its epoch and state, and the cycle read off the theorem
  have hcall : ∀ {s : StakingRun} {c : StakingCall} {e e' : Nat × EpochState},
      (s.inner.epoch, s.inner.epochState) = e' →
      (s.step listPriorityQueue c).toOption.map (fun t => (t.inner.epoch, t.inner.epochState)) =
        some e →
      ∃ t, s.step listPriorityQueue c = .ok t ∧ EpochCycle e' (t.inner.epoch, t.inner.epochState) ∧
        (t.inner.epoch, t.inner.epochState) = e := by
    intro s c e e' hs h
    obtain ⟨t, ht, he⟩ := Option.map_eq_some_iff.mp h
    exact ⟨t, toOption_eq_some.mp ht, hs ▸ epoch_state_cycles (toOption_eq_some.mp ht), he⟩
  refine ⟨_, rfl, hcall rfl ?_, hcall ?_ ?_, hcall ?_ ?_, hcall ?_ ?_⟩
  all_goals decide +kernel

end Walrus.Staking
