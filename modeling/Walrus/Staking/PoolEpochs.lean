import Mathlib
import Walrus.Staking.EpochChangeSafety

/-! # The pools' epochs along runs of the staking object

A pool records in `latest_epoch` the last epoch it was advanced into, and
`staking_pool::advance_epoch` aborts with `EPoolAlreadyUpdated` unless the epoch is later. The
loops of `staking_inner::advance_epoch` advance into the new epoch the pools that the rewards
name and then those of the nodes that just joined the committee, and leave every other pool as
it was (`advanceEpoch_latestEpochOf`). No other call changes the latest epoch of a pool, and a
new pool starts at the current epoch (`KeepsPoolEpochs`).

`system_state_inner::advance_epoch` returns a reward for every node of the committee that
ends, and the staking object relies on it (`PaysCommittee`). Along every run from `new` whose
epoch changes are paid so, no pool is ahead of the staking object, and the pools of the current
and of the previous committee are at its epoch (`PoolsAdvanced`). A pool in neither committee
is not advanced: it falls behind, as in `skipped_epoch_overdrawn`, and a commission rate set for
an epoch it skipped is never applied (`skippedCommissionCalls`).
-/

namespace Walrus.Staking

open Machine Walrus.System

/-- The epoch the pool of `nodeId` was last advanced into, if the node has a pool. -/
def latestEpochOf (pools : VecMap ObjectID NodePool) (nodeId : ObjectID) : Option Nat :=
  (pools.get? nodeId).map fun node => node.pool.commissionPart.latestEpoch

theorem NodePool.advanceEpoch_latestEpoch {self self' : NodePool} {rewards : Nat}
    {wctx : WalrusContext} (h : self.advanceEpoch rewards wctx = .ok self') :
    self'.pool.commissionPart.latestEpoch = wctx.epoch := by
  obtain ⟨pool, hpool, h⟩ := bind_eq_ok.mp h
  cases h
  exact StakePool.advanceEpoch_latestEpoch hpool

namespace StakingInner

variable {self self' : StakingInner} {Q : Type} {PQ : PriorityQueue Q}

/-! ## The loops of `advance_epoch` -/

/-- A round of the loops advances the pool of its node into the epoch of the context, and no
other pool. -/
theorem advancePool_latestEpochOf {wctx : WalrusContext}
    {acc acc' : VecMap ObjectID NodePool × ActiveSet} {entry : ObjectID × Nat}
    (h : advancePool wctx acc entry = .ok acc') (k : ObjectID) :
    latestEpochOf acc'.1 k = if k = entry.1 then some wctx.epoch else latestEpochOf acc.1 k := by
  obtain ⟨node, -, h⟩ := bind_eq_ok.mp h
  obtain ⟨node', hnode', h⟩ := bind_eq_ok.mp h
  obtain ⟨pools, hpools, h⟩ := bind_eq_ok.mp h
  obtain ⟨next, -, h⟩ := bind_eq_ok.mp h
  obtain ⟨balance, -, h⟩ := bind_eq_ok.mp h
  obtain ⟨⟨activeSet, inSet⟩, -, h⟩ := bind_eq_ok.mp h
  cases h
  unfold latestEpochOf
  rw [VecMap.get?_set (mapError_eq_ok.mp hpools) k]
  split
  · rw [Option.map_some, NodePool.advanceEpoch_latestEpoch hnode']
  · rfl

/-- A loop advances the pool of every node it visits into the epoch of the context, and leaves
the other pools as they were. -/
theorem foldlM_advancePool_latestEpochOf {wctx : WalrusContext} {entries : List (ObjectID × Nat)}
    {acc acc' : VecMap ObjectID NodePool × ActiveSet}
    (h : entries.foldlM (advancePool wctx) acc = .ok acc') (k : ObjectID) :
    latestEpochOf acc'.1 k =
      if k ∈ entries.map Prod.fst then some wctx.epoch else latestEpochOf acc.1 k := by
  induction entries generalizing acc with
  | nil =>
    cases h
    rfl
  | cons entry entries ih =>
    rw [List.foldlM_cons] at h
    obtain ⟨acc₁, h₁, h⟩ := bind_eq_ok.mp h
    rw [ih h, advancePool_latestEpochOf h₁ k]
    by_cases hk : k = entry.1
    · simp [hk]
    · simp only [List.map_cons, List.mem_cons, hk, false_or, if_false]

/-- `advance_epoch` advances into the new epoch the pools that the rewards name and those of
the nodes that joined the committee, and leaves every other pool as it was. -/
theorem advanceEpoch_latestEpochOf {rewards : VecMap ObjectID Nat}
    (h : self.advanceEpoch rewards = .ok self') (k : ObjectID) :
    latestEpochOf self'.pools k =
      if k ∈ rewards.keys ∨ k ∈ (Committee.diff self.committee self'.committee).2 then
        some self'.epoch
      else latestEpochOf self.pools k := by
  unfold advanceEpoch at h
  dsimp only at h
  split at h
  case h_2 => cases h
  case h_1 committee _ =>
  rw [pure_bind] at h
  obtain ⟨epoch, -, h⟩ := bind_eq_ok.mp h
  obtain ⟨acc, hrewards, h⟩ := bind_eq_ok.mp h
  obtain ⟨⟨pools, activeSet⟩, hjoined, h⟩ := bind_eq_ok.mp h
  cases h
  -- the loop over the joined nodes runs on what the loop over the rewards left
  rw [foldlM_advancePool_latestEpochOf hjoined k, foldlM_advancePool_latestEpochOf hrewards k]
  by_cases hjoin : k ∈ (Committee.diff self.committee committee).2
  · simp [hjoin, newWalrusContext]
  · by_cases hpaid : k ∈ rewards.contents.map Prod.fst
    · simp [hjoin, hpaid, VecMap.keys, newWalrusContext]
    · simp [hjoin, hpaid, VecMap.keys]

/-! ## The other calls -/

/-- What the calls other than the epoch change do to the pools' epochs: the epoch and the
committees stay, every pool keeps its latest epoch, and a new pool starts at the epoch. -/
structure KeepsPoolEpochs (inner inner' : StakingInner) : Prop where
  epoch : inner'.epoch = inner.epoch
  committee : inner'.committee = inner.committee
  previous : inner'.previousCommittee = inner.previousCommittee
  latest : ∀ k, latestEpochOf inner'.pools k = latestEpochOf inner.pools k ∨
    (latestEpochOf inner.pools k = none ∧ latestEpochOf inner'.pools k = some inner.epoch)

theorem KeepsPoolEpochs.of_pools (hpools : self'.pools = self.pools) (hepoch : self'.epoch = self.epoch)
    (hcommittee : self'.committee = self.committee)
    (hprevious : self'.previousCommittee = self.previousCommittee) : KeepsPoolEpochs self self' :=
  ⟨hepoch, hcommittee, hprevious, fun k => .inl (by rw [hpools])⟩

theorem KeepsPoolEpochs.trans {self'' : StakingInner} (h₁ : KeepsPoolEpochs self self')
    (h₂ : KeepsPoolEpochs self' self'') : KeepsPoolEpochs self self'' := by
  refine ⟨h₂.epoch.trans h₁.epoch, h₂.committee.trans h₁.committee,
    h₂.previous.trans h₁.previous, fun k => ?_⟩
  rcases h₁.latest k with hk₁ | ⟨hnone, hk₁⟩ <;> rcases h₂.latest k with hk₂ | ⟨hnone', hk₂⟩
  · exact .inl (hk₂.trans hk₁)
  · -- a pool the first call left alone is created by the second
    exact .inr ⟨hk₁ ▸ hnone', h₁.epoch ▸ hk₂⟩
  · exact .inr ⟨hnone, hk₂.trans hk₁⟩
  · rw [hk₁] at hnone'
    cases hnone'

/-- A write of a pool that keeps its latest epoch keeps the pools' epochs. -/
theorem setPool_keepsPoolEpochs {nodeId : ObjectID} {node node' : NodePool}
    (hget : self.pools.get? nodeId = some node)
    (hlatest : node'.pool.commissionPart.latestEpoch = node.pool.commissionPart.latestEpoch)
    (h : self.setPool nodeId node' = .ok self') : KeepsPoolEpochs self self' := by
  obtain ⟨pools, hpools, h⟩ := bind_eq_ok.mp h
  cases h
  refine ⟨rfl, rfl, rfl, fun k => .inl ?_⟩
  unfold latestEpochOf
  rw [VecMap.get?_set (mapError_eq_ok.mp hpools) k]
  split
  case isTrue hk => rw [hk, hget, Option.map_some, Option.map_some, hlatest]
  case isFalse => rfl

theorem updateActiveSet_keepsPoolEpochs {nodeId : ObjectID} {pool : StakePool}
    (h : self.updateActiveSet nodeId pool = .ok self') : KeepsPoolEpochs self self' := by
  obtain ⟨balance, -, h⟩ := bind_eq_ok.mp h
  obtain ⟨⟨activeSet, inSet⟩, -, h⟩ := bind_eq_ok.mp h
  cases h
  exact .of_pools rfl rfl rfl rfl

theorem createPool_keepsPoolEpochs {nodeId : ObjectID}
    {commissionRate storagePrice writePrice nodeCapacity publicKey : Nat}
    (h : self.createPool nodeId commissionRate storagePrice writePrice nodeCapacity publicKey =
      .ok self') : KeepsPoolEpochs self self' := by
  unfold createPool at h
  obtain ⟨hfresh, h⟩ := ite_throw_bind_eq_ok.mp h
  obtain ⟨pool, hpool, h⟩ := bind_eq_ok.mp h
  obtain ⟨pools, hpools, h⟩ := bind_eq_ok.mp h
  cases h
  refine ⟨rfl, rfl, rfl, fun k => ?_⟩
  unfold latestEpochOf
  rw [VecMap.get?_insert (mapError_eq_ok.mp hpools) k]
  split
  case isTrue hk =>
    -- the node had no pool, and the new one starts at the epoch
    have hnone : self.pools.get? nodeId = none :=
      VecMap.get?_eq_none_iff.mpr (by simpa using hfresh)
    rw [hk, hnone, Option.map_some, StakePool.new_latestEpoch hpool]
    exact .inr ⟨rfl, rfl⟩
  case isFalse => exact .inl rfl

/-- A setter of votes or keys changes a pool but not its stake accounting. -/
theorem updatePool_keepsPoolEpochs {nodeId : ObjectID} {f : NodePool → NodePool}
    (h : self.updatePool nodeId f = .ok self') (hf : ∀ node, (f node).pool = node.pool) :
    KeepsPoolEpochs self self' := by
  obtain ⟨node, hnode, h⟩ := bind_eq_ok.mp h
  exact setPool_keepsPoolEpochs (VecMap.get?_of_get (mapError_eq_ok.mp hnode))
    (by rw [hf node]) h

theorem setNextCommission_keepsPoolEpochs {nodeId : ObjectID} {commissionRate : Nat}
    (h : self.setNextCommission nodeId commissionRate = .ok self') : KeepsPoolEpochs self self' := by
  obtain ⟨node, hnode, h⟩ := bind_eq_ok.mp h
  obtain ⟨commissionPart, hcommission, h⟩ := bind_eq_ok.mp h
  exact setPool_keepsPoolEpochs (VecMap.get?_of_get (mapError_eq_ok.mp hnode))
    (StakingPool.setNextCommission_eq_ok hcommission).2.1 h

theorem stakeWithPool_keepsPoolEpochs {toStake : Nat} {nodeId : ObjectID}
    {r : StakingInner × StakedWal} (h : self.stakeWithPool toStake nodeId = .ok r) :
    KeepsPoolEpochs self r.1 := by
  obtain ⟨node, hnode, h⟩ := bind_eq_ok.mp h
  obtain ⟨⟨pool, stakedWal⟩, hstake, h⟩ := bind_eq_ok.mp h
  obtain ⟨self₁, h₁, h⟩ := bind_eq_ok.mp h
  obtain ⟨self₂, h₂, h⟩ := bind_eq_ok.mp h
  cases h
  refine (setPool_keepsPoolEpochs (VecMap.get?_of_get (mapError_eq_ok.mp hnode)) ?_ h₁).trans
    (updateActiveSet_keepsPoolEpochs h₂)
  rw [StakePool.stake_commissionPart hstake]

theorem requestWithdrawStake_keepsPoolEpochs {stakedWal : StakedWal}
    {r : StakingInner × StakedWal} (h : self.requestWithdrawStake stakedWal = .ok r) :
    KeepsPoolEpochs self r.1 := by
  obtain ⟨nodeId, -, h⟩ := bind_eq_ok.mp h
  obtain ⟨node, hnode, h⟩ := bind_eq_ok.mp h
  obtain ⟨⟨pool, stakedWal'⟩, hrequest, h⟩ := bind_eq_ok.mp h
  obtain ⟨self₁, h₁, h⟩ := bind_eq_ok.mp h
  obtain ⟨self₂, h₂, h⟩ := bind_eq_ok.mp h
  cases h
  refine (setPool_keepsPoolEpochs (VecMap.get?_of_get (mapError_eq_ok.mp hnode)) ?_ h₁).trans
    (updateActiveSet_keepsPoolEpochs h₂)
  rw [StakePool.requestWithdrawStake_commissionPart hrequest]

theorem withdrawStake_keepsPoolEpochs {stakedWal : StakedWal} {r : StakingInner × Nat}
    (h : self.withdrawStake stakedWal = .ok r) : KeepsPoolEpochs self r.1 := by
  obtain ⟨nodeId, -, h⟩ := bind_eq_ok.mp h
  obtain ⟨node, hnode, h⟩ := bind_eq_ok.mp h
  obtain ⟨⟨pool, amount⟩, hwithdraw, h⟩ := bind_eq_ok.mp h
  obtain ⟨self₁, h₁, h⟩ := bind_eq_ok.mp h
  obtain ⟨self₂, h₂, h⟩ := bind_eq_ok.mp h
  cases h
  refine (setPool_keepsPoolEpochs (VecMap.get?_of_get (mapError_eq_ok.mp hnode)) ?_ h₁).trans
    (updateActiveSet_keepsPoolEpochs h₂)
  rw [StakePool.withdrawStake_commissionPart hwithdraw]

theorem tryJoinActiveSet_keepsPoolEpochs {nodeId : ObjectID}
    (h : self.tryJoinActiveSet nodeId = .ok self') : KeepsPoolEpochs self self' := by
  obtain ⟨node, -, h⟩ := bind_eq_ok.mp h
  exact updateActiveSet_keepsPoolEpochs h

/-- `voting_end` selects the next committee and touches no pool. -/
theorem votingEnd_keepsPoolEpochs {now : Nat} (h : self.votingEnd PQ now = .ok self') :
    KeepsPoolEpochs self self' := by
  obtain ⟨last, self₁, -, hselect, rfl⟩ := votingEnd_eq_ok h
  obtain ⟨-, committee, votes, publicKeys, params, -, -, -, -, -, -, rfl⟩ :=
    selectCommitteeAndCalculateVotes_eq_ok hselect
  exact .of_pools rfl rfl rfl rfl

/-- `epoch_sync_done` counts the shards of a member and touches no pool. -/
theorem epochSyncDone_keepsPoolEpochs {nodeId : ObjectID} {last epoch now : Nat}
    {r : StakingInner × Nat} (h : self.epochSyncDone nodeId last epoch now = .ok r) :
    KeepsPoolEpochs self r.1 := by
  obtain ⟨-, -, -, shards, -, ⟨weight, -, -, ⟨-, hr⟩ | ⟨-, hr⟩⟩ | ⟨-, hr⟩⟩ :=
    epochSyncDone_eq_ok h <;>
  · rw [hr]
    exact .of_pools rfl rfl rfl rfl

/-! ## The invariant -/

/-- The pools' epochs in a reachable state: no pool is ahead of the staking object, and the
pools of the current and of the previous committee have been advanced into its epoch. -/
structure PoolsAdvanced (inner : StakingInner) : Prop where
  not_ahead : ∀ k e, latestEpochOf inner.pools k = some e → e ≤ inner.epoch
  committee : ∀ k ∈ inner.committee.inner.keys, latestEpochOf inner.pools k = some inner.epoch
  previous : ∀ k ∈ inner.previousCommittee.inner.keys,
    latestEpochOf inner.pools k = some inner.epoch

theorem PoolsAdvanced.new {epochZeroDuration epochDuration nShards now : Nat}
    (h : StakingInner.new epochZeroDuration epochDuration nShards now = .ok self) :
    self.PoolsAdvanced := by
  unfold StakingInner.new at h
  obtain ⟨firstEpochStart, -, h⟩ := bind_eq_ok.mp h
  obtain ⟨activeSet, -, h⟩ := bind_eq_ok.mp h
  cases h
  -- no pool, and both committees are empty
  refine ⟨fun k e hk => ?_, fun k hk => ?_, fun k hk => ?_⟩
  · simp [latestEpochOf] at hk
  · cases hk
  · cases hk

theorem PoolsAdvanced.of_keeps (hI : self.PoolsAdvanced) (hkeeps : KeepsPoolEpochs self self') :
    self'.PoolsAdvanced := by
  -- a pool at the epoch keeps it, since it existed; a new pool starts at it
  have hat : ∀ k, latestEpochOf self.pools k = some self.epoch →
      latestEpochOf self'.pools k = some self'.epoch := by
    intro k hk
    rw [hkeeps.epoch]
    rcases hkeeps.latest k with hk' | ⟨hnone, -⟩
    · rw [hk', hk]
    · rw [hk] at hnone
      cases hnone
  refine ⟨fun k e hk => ?_, fun k hk => ?_, fun k hk => ?_⟩
  · rw [hkeeps.epoch]
    rcases hkeeps.latest k with hk' | ⟨-, hk'⟩
    · exact hI.not_ahead k e (hk' ▸ hk)
    · rw [hk'] at hk
      cases hk
      exact le_rfl
  · rw [hkeeps.committee] at hk
    exact hat k (hI.committee k hk)
  · rw [hkeeps.previous] at hk
    exact hat k (hI.previous k hk)

/-- An epoch change whose rewards name every member of the committee that ends advances the
pools of that committee, which becomes the previous one, and those of the members that join. -/
theorem PoolsAdvanced.advanceEpoch (hI : self.PoolsAdvanced) {rewards : VecMap ObjectID Nat}
    (hpaid : ∀ k ∈ self.committee.inner.keys, k ∈ rewards.keys)
    (h : self.advanceEpoch rewards = .ok self') : self'.PoolsAdvanced := by
  have hlatest := advanceEpoch_latestEpochOf h
  obtain ⟨committee, pools, activeSet, -, -, rfl⟩ := advanceEpoch_eq_ok h
  refine ⟨fun k e hk => ?_, fun k hk => ?_, fun k hk => ?_⟩
  · -- an advanced pool is at the new epoch, any other one behind the old
    rw [hlatest k] at hk
    split at hk
    · cases hk
      exact le_rfl
    · exact Nat.le_succ_of_le (hI.not_ahead k e hk)
  · -- a member of the new committee was paid, or it just joined
    rw [hlatest k, if_pos]
    by_cases hold : k ∈ self.committee.inner.keys
    · exact .inl (hpaid k hold)
    · exact .inr (Committee.mem_diff_snd hk hold)
  · rw [hlatest k, if_pos (.inl (hpaid k hk))]

end StakingInner

namespace StakingRun

open StakingInner

variable {s t : StakingRun} {Q : Type} {PQ : PriorityQueue Q}

/-- The environment pays the committee that ends: the rewards of an epoch change name every
member of the current committee, as those that `system_state_inner::advance_epoch` returns
do. -/
def PaysCommittee (s : StakingRun) : StakingCall → Prop
  | .initiateEpochChange _ rewards => ∀ k ∈ s.inner.committee.inner.keys, k ∈ rewards.keys
  | _ => True

/-- Every call keeps the pools' epochs; an epoch change must pay the committee that ends. -/
theorem PoolsAdvanced.step (hI : s.inner.PoolsAdvanced) {c : StakingCall}
    (hpaid : s.PaysCommittee c) (h : s.step PQ c = .ok t) : t.inner.PoolsAdvanced := by
  have hstep := step_innerStep h
  cases c with
  | registerCandidate nodeId commissionRate storagePrice writePrice nodeCapacity publicKey =>
    exact hI.of_keeps (createPool_keepsPoolEpochs hstep)
  | setNextCommission nodeId commissionRate =>
    exact hI.of_keeps (setNextCommission_keepsPoolEpochs hstep)
  | setStoragePriceVote nodeId storagePrice =>
    exact hI.of_keeps (updatePool_keepsPoolEpochs hstep fun _ => rfl)
  | setWritePriceVote nodeId writePrice =>
    exact hI.of_keeps (updatePool_keepsPoolEpochs hstep fun _ => rfl)
  | setNodeCapacityVote nodeId nodeCapacity =>
    exact hI.of_keeps (updatePool_keepsPoolEpochs hstep fun _ => rfl)
  | setNextPublicKey nodeId publicKey =>
    exact hI.of_keeps (updatePool_keepsPoolEpochs hstep fun _ => rfl)
  | stakeWithPool toStake nodeId =>
    obtain ⟨stakedWal, hr⟩ := hstep
    exact hI.of_keeps (stakeWithPool_keepsPoolEpochs hr)
  | requestWithdrawStake i =>
    obtain ⟨stakedWal, stakedWal', hr⟩ := hstep
    exact hI.of_keeps (requestWithdrawStake_keepsPoolEpochs hr)
  | withdrawStake i =>
    obtain ⟨stakedWal, amount, hr⟩ := hstep
    exact hI.of_keeps (withdrawStake_keepsPoolEpochs hr)
  | tryJoinActiveSet nodeId => exact hI.of_keeps (tryJoinActiveSet_keepsPoolEpochs hstep)
  | votingEnd now => exact hI.of_keeps (votingEnd_keepsPoolEpochs hstep)
  | initiateEpochChange now rewards =>
    -- after the public keys are taken out, the epoch changes
    obtain ⟨last, -, hadvance⟩ := initiateEpochChange_eq_ok hstep
    have hI₀ : PoolsAdvanced { s.inner with nextEpochPublicKeys := VecMap.empty } :=
      ⟨hI.not_ahead, hI.committee, hI.previous⟩
    exact hI₀.advanceEpoch hpaid hadvance
  | epochSyncDone nodeId epoch now =>
    obtain ⟨last, lastEpochSyncDone, hr⟩ := hstep
    exact hI.of_keeps (epochSyncDone_keepsPoolEpochs hr)

/-- The pools' epochs hold along every run whose epoch changes pay the committee that ends. -/
theorem PoolsAdvanced.run (PQ : PriorityQueue Q) (hI : s.inner.PoolsAdvanced)
    (calls : List StakingCall)
    (hpaid : Admits (commit fun s x => (s.step PQ x).toOption) PaysCommittee s calls) :
    (s.run PQ calls).inner.PoolsAdvanced :=
  @run_invariant_admits StakingRun StakingCall (commit fun s x => (s.step PQ x).toOption)
    (fun s => s.inner.PoolsAdvanced) PaysCommittee (fun _ _ hx hs =>
      @commit_invariant_of StakingRun StakingCall _ (fun s => s.inner.PoolsAdvanced) _ _
        (fun _ h => PoolsAdvanced.step hs hx (toOption_eq_some.mp h)) hs)
    calls s hpaid hI

end StakingRun

/-- Along every run of the staking object from `new` whose epoch changes pay every member of the
committee that ends, no pool has been advanced beyond the staking object's epoch, and the pool
of every member of the current and of the previous committee has been advanced into it. -/
theorem committee_pools_advanced {epochZeroDuration epochDuration nShards now₀ : Nat}
    {inner : StakingInner} {Q : Type} (PQ : PriorityQueue Q)
    (hnew : StakingInner.new epochZeroDuration epochDuration nShards now₀ = .ok inner)
    (calls : List StakingCall)
    (hpaid : Admits (commit fun s x => (s.step PQ x).toOption) StakingRun.PaysCommittee
      ⟨inner, VecMap.empty, []⟩ calls) :
    let s := (StakingRun.run PQ ⟨inner, VecMap.empty, []⟩ calls).inner
    (∀ nodeId e, latestEpochOf s.pools nodeId = some e → e ≤ s.epoch) ∧
      (∀ nodeId ∈ s.committee.inner.keys, latestEpochOf s.pools nodeId = some s.epoch) ∧
      ∀ nodeId ∈ s.previousCommittee.inner.keys, latestEpochOf s.pools nodeId = some s.epoch := by
  intro s
  have hI : s.PoolsAdvanced :=
    StakingRun.PoolsAdvanced.run PQ (StakingInner.PoolsAdvanced.new hnew) calls hpaid
  exact ⟨hI.not_ahead, hI.committee, hI.previous⟩

theorem committee_pools_advanced_after_two_epochs :
    ∃ inner, StakingInner.new 0 0 10 0 = .ok inner ∧
      Admits (commit fun s x => (s.step listPriorityQueue x).toOption) StakingRun.PaysCommittee
        ⟨inner, VecMap.empty, []⟩
        [.registerCandidate ⟨Vector.replicate 32 1⟩ 0 5 1 1000 7,
          .stakeWithPool 1000000000 ⟨Vector.replicate 32 1⟩, .votingEnd 0,
          .initiateEpochChange 0 VecMap.empty, .epochSyncDone ⟨Vector.replicate 32 1⟩ 1 0,
          .votingEnd 0, .initiateEpochChange 0 ⟨[(⟨Vector.replicate 32 1⟩, 0)], by decide⟩] ∧
      let s := (StakingRun.run listPriorityQueue ⟨inner, VecMap.empty, []⟩
        [.registerCandidate ⟨Vector.replicate 32 1⟩ 0 5 1 1000 7,
          .stakeWithPool 1000000000 ⟨Vector.replicate 32 1⟩, .votingEnd 0,
          .initiateEpochChange 0 VecMap.empty, .epochSyncDone ⟨Vector.replicate 32 1⟩ 1 0,
          .votingEnd 0, .initiateEpochChange 0 ⟨[(⟨Vector.replicate 32 1⟩, 0)], by decide⟩]).inner
      (∀ nodeId e, latestEpochOf s.pools nodeId = some e → e ≤ s.epoch) ∧
        (∀ nodeId ∈ s.committee.inner.keys, latestEpochOf s.pools nodeId = some s.epoch) ∧
        ∀ nodeId ∈ s.previousCommittee.inner.keys, latestEpochOf s.pools nodeId = some s.epoch := by
  -- the second epoch change pays the node that formed the first committee
  refine ⟨_, rfl, ?hpaid, @committee_pools_advanced 0 0 10 0 _ _ listPriorityQueue rfl _ ?hpaid⟩
  simp only [Admits, StakingRun.PaysCommittee, and_true, true_and]
  decide +kernel

/-! ## A pool that skips the epoch of its new commission -/

/-- Node `1` stakes and forms the committee alone from epoch 1 on, signalling at every epoch
change. At epoch 3 node `2` registers with a commission rate of 0 and sets the rate 500 for
epoch 5. Its pool has no stake, so it is in neither committee at the changes to epochs 4 and 5,
which do not advance it. At epoch 5 it stakes, the vote selects it, and the change to epoch 6
advances its pool as a new member of the committee. -/
def skippedCommissionCalls : List StakingCall :=
  [.registerCandidate ⟨Vector.replicate 32 1⟩ 0 5 1 1000 7,
    .stakeWithPool 1000000000 ⟨Vector.replicate 32 1⟩,
    .votingEnd 0, .initiateEpochChange 0 VecMap.empty,
    .epochSyncDone ⟨Vector.replicate 32 1⟩ 1 0,
    .votingEnd 0, .initiateEpochChange 0 ⟨[(⟨Vector.replicate 32 1⟩, 0)], by decide⟩,
    .epochSyncDone ⟨Vector.replicate 32 1⟩ 2 0,
    .votingEnd 0, .initiateEpochChange 0 ⟨[(⟨Vector.replicate 32 1⟩, 0)], by decide⟩,
    .epochSyncDone ⟨Vector.replicate 32 1⟩ 3 0,
    .registerCandidate ⟨Vector.replicate 32 2⟩ 0 5 1 1000 8,
    .setNextCommission ⟨Vector.replicate 32 2⟩ 500,
    .votingEnd 0, .initiateEpochChange 0 ⟨[(⟨Vector.replicate 32 1⟩, 0)], by decide⟩,
    .epochSyncDone ⟨Vector.replicate 32 1⟩ 4 0,
    .votingEnd 0, .initiateEpochChange 0 ⟨[(⟨Vector.replicate 32 1⟩, 0)], by decide⟩,
    .epochSyncDone ⟨Vector.replicate 32 1⟩ 5 0,
    .stakeWithPool 1000000000 ⟨Vector.replicate 32 2⟩,
    .votingEnd 0, .initiateEpochChange 0 ⟨[(⟨Vector.replicate 32 1⟩, 0)], by decide⟩]

/-- None of the calls aborts. At epoch 6 node `2` is in the committee and its pool has been
advanced into epoch 6, but its commission rate is still 0 and the rate 500 stays pending for
epoch 5: the advance looked up epoch 6 only. -/
theorem commission_skipped_epoch_not_applied :
    ∃ inner, StakingInner.new 0 0 10 0 = .ok inner ∧
      ∃ t, skippedCommissionCalls.foldlM (fun (s : StakingRun) c => s.step listPriorityQueue c)
          ⟨inner, VecMap.empty, []⟩ = .ok t ∧
        t.inner.epoch = 6 ∧ (⟨Vector.replicate 32 2⟩ : ObjectID) ∈ t.inner.committee.inner.keys ∧
        ∃ node, t.inner.pools.get? ⟨Vector.replicate 32 2⟩ = some node ∧
          node.pool.commissionPart.latestEpoch = 6 ∧ node.pool.commissionPart.commissionRate = 0 ∧
          node.pool.commissionPart.pendingCommissionRate.inner.get? 5 = some 500 := by
  -- the run is evaluated once, to its epoch and to what it leaves of the pool of node 2
  have hsummary : ∀ {s : StakingRun},
      (skippedCommissionCalls.foldlM (fun (s : StakingRun) c => s.step listPriorityQueue c)
          s).toOption.map (fun t => (t.inner.epoch,
            decide ((⟨Vector.replicate 32 2⟩ : ObjectID) ∈ t.inner.committee.inner.keys),
            (t.inner.pools.get? ⟨Vector.replicate 32 2⟩).map fun node =>
              (node.pool.commissionPart.latestEpoch, node.pool.commissionPart.commissionRate,
                node.pool.commissionPart.pendingCommissionRate.inner.get? 5))) =
        some (6, true, some (6, 0, some 500)) →
      ∃ t, skippedCommissionCalls.foldlM (fun (s : StakingRun) c => s.step listPriorityQueue c)
          s = .ok t ∧
        t.inner.epoch = 6 ∧ (⟨Vector.replicate 32 2⟩ : ObjectID) ∈ t.inner.committee.inner.keys ∧
        ∃ node, t.inner.pools.get? ⟨Vector.replicate 32 2⟩ = some node ∧
          node.pool.commissionPart.latestEpoch = 6 ∧ node.pool.commissionPart.commissionRate = 0 ∧
          node.pool.commissionPart.pendingCommissionRate.inner.get? 5 = some 500 := by
    intro s h
    obtain ⟨t, ht, hsum⟩ := Option.map_eq_some_iff.mp h
    simp only [Prod.mk.injEq, decide_eq_true_eq, Option.map_eq_some_iff] at hsum
    obtain ⟨hepoch, hmem, node, hnode, hpart⟩ := hsum
    exact ⟨t, toOption_eq_some.mp ht, hepoch, hmem, node, hnode, hpart⟩
  exact ⟨_, rfl, hsummary (by decide +kernel)⟩

end Walrus.Staking
