import Mathlib
import Walrus.Staking.EpochChangeSafety
import Walrus.Staking.Dhondt

/-! # The vote of the next committee does not get stuck

`voting_end` runs the apportionment over the active set, builds the next committee from it,
reads the pool of each member for its votes, and selects the parameters of the next epoch from
the votes that a quorum of the shards supports. The calls that write the active set give it the
balance of a pool they have just read, and no pool is ever removed, so along every run of the
staking object from `new` the active set is well formed and every node in it has a pool
(`ActiveSetOver`).

Once its time has come, `voting_end` then does not abort while some node is active
(`voting_end_succeeds_when_due`): every member of the computed committee has a pool and a shard,
and the shards of the votes add up to all the shards, so every quorum threshold exists. The one
exception is the apportionment itself, whose D'Hondt rounds abort with fewer than ten shards and
twenty nodes or more (`dhondt_aborts_for_one_shard_among_twenty`).
-/

namespace Walrus.Staking

open Machine Walrus.System

/-- An active set over a map of pools: well formed, and every node in it has a pool. -/
structure ActiveSetOver (pools : VecMap ObjectID NodePool) (set : ActiveSet) : Prop where
  wellFormed : set.WellFormed
  pooled : ∀ k ∈ set.activeIds, k ∈ pools.keys

namespace StakingInner

variable {self self' : StakingInner}

theorem mem_keys_of_getPool {nodeId : ObjectID} {node : NodePool}
    (h : self.getPool nodeId = .ok node) : nodeId ∈ self.pools.keys :=
  VecMap.mem_keys_of_get (liftVecMap_eq_ok.mp h)

theorem keys_setPool {nodeId : ObjectID} {node : NodePool}
    (h : self.setPool nodeId node = .ok self') :
    self'.pools.keys = self.pools.keys ∧ self'.activeSet = self.activeSet := by
  obtain ⟨pools, hpools, h⟩ := bind_eq_ok.mp h
  cases h
  exact ⟨VecMap.keys_set (liftVecMap_eq_ok.mp hpools), rfl⟩

end StakingInner

namespace ActiveSetOver

open StakingInner

variable {pools pools' : VecMap ObjectID NodePool} {set : ActiveSet} {self self' : StakingInner}

theorem mono (hI : ActiveSetOver pools set) (hkeys : ∀ k ∈ pools.keys, k ∈ pools'.keys) :
    ActiveSetOver pools' set :=
  ⟨hI.wellFormed, fun k hk => hkeys k (hI.pooled k hk)⟩

/-- `insert_or_update` of a node with a pool keeps the invariant. -/
theorem insertOrUpdate (hI : ActiveSetOver pools set) {nodeId : ObjectID} {balance : Nat}
    {set' : ActiveSet} {inSet : Bool} (hk : nodeId ∈ pools.keys)
    (h : set.insertOrUpdate nodeId balance = .ok (set', inSet)) : ActiveSetOver pools set' := by
  refine ⟨hI.wellFormed.insertOrUpdate h, fun k hk' => ?_⟩
  rcases ActiveSet.mem_activeIds_of_insertOrUpdate h hk' with hold | rfl
  · exact hI.pooled k hold
  · exact hk

/-! ## The calls keep the active set over the pools -/

/-- The staking object starts with no node in the active set. -/
theorem new {epochZeroDuration epochDuration nShards now : Nat}
    (h : StakingInner.new epochZeroDuration epochDuration nShards now = .ok self) :
    ActiveSetOver self.pools self.activeSet := by
  unfold StakingInner.new at h
  obtain ⟨firstEpochStart, -, h⟩ := bind_eq_ok.mp h
  obtain ⟨activeSet, hactive, h⟩ := bind_eq_ok.mp h
  cases h
  refine ⟨ActiveSet.WellFormed.new hactive, fun k hk => ?_⟩
  unfold ActiveSet.new at hactive
  obtain ⟨-, hactive⟩ := ite_throw_bind_eq_ok.mp hactive
  cases hactive
  cases hk

theorem setPool (hI : ActiveSetOver self.pools self.activeSet) {nodeId : ObjectID}
    {node : NodePool} (h : self.setPool nodeId node = .ok self') :
    ActiveSetOver self'.pools self'.activeSet := by
  obtain ⟨hkeys, hactive⟩ := keys_setPool h
  rw [hactive]
  exact hI.mono fun k hk => hkeys ▸ hk

theorem updateActiveSet (hI : ActiveSetOver self.pools self.activeSet)
    {nodeId : ObjectID} {pool : StakePool} (hk : nodeId ∈ self.pools.keys)
    (h : self.updateActiveSet nodeId pool = .ok self') :
    ActiveSetOver self'.pools self'.activeSet := by
  obtain ⟨balance, -, h⟩ := bind_eq_ok.mp h
  obtain ⟨⟨activeSet, inSet⟩, hinsert, h⟩ := bind_eq_ok.mp h
  cases h
  exact hI.insertOrUpdate hk hinsert

/-- The calls on a pool and its stake read the pool, write it back and give the active set
its balance. -/
theorem getPool_setPool_updateActiveSet
    (hI : ActiveSetOver self.pools self.activeSet) {self₁ : StakingInner} {nodeId : ObjectID}
    {node node' : NodePool} {pool : StakePool} (hget : self.getPool nodeId = .ok node)
    (h₁ : self.setPool nodeId node' = .ok self₁) (h₂ : self₁.updateActiveSet nodeId pool = .ok self') :
    ActiveSetOver self'.pools self'.activeSet := by
  have hk : nodeId ∈ self₁.pools.keys := (keys_setPool h₁).1 ▸ mem_keys_of_getPool hget
  exact (hI.setPool h₁).updateActiveSet hk h₂

theorem createPool (hI : ActiveSetOver self.pools self.activeSet) {nodeId : ObjectID}
    {commissionRate storagePrice writePrice nodeCapacity publicKey : Nat}
    (h : self.createPool nodeId commissionRate storagePrice writePrice nodeCapacity publicKey =
      .ok self') : ActiveSetOver self'.pools self'.activeSet := by
  unfold StakingInner.createPool at h
  obtain ⟨-, h⟩ := ite_throw_bind_eq_ok.mp h
  obtain ⟨pool, -, h⟩ := bind_eq_ok.mp h
  obtain ⟨pools, hpools, h⟩ := bind_eq_ok.mp h
  cases h
  -- the new pool's node joins the keys
  refine hI.mono fun k hk => ?_
  rw [VecMap.keys_insert (liftVecMap_eq_ok.mp hpools)]
  exact List.mem_append_left _ hk

theorem updatePool (hI : ActiveSetOver self.pools self.activeSet)
    {nodeId : ObjectID} {f : NodePool → NodePool} (h : self.updatePool nodeId f = .ok self') :
    ActiveSetOver self'.pools self'.activeSet := by
  obtain ⟨node, -, h⟩ := bind_eq_ok.mp h
  exact hI.setPool h

theorem setNextCommission (hI : ActiveSetOver self.pools self.activeSet)
    {nodeId : ObjectID} {commissionRate : Nat}
    (h : self.setNextCommission nodeId commissionRate = .ok self') :
    ActiveSetOver self'.pools self'.activeSet := by
  obtain ⟨node, -, h⟩ := bind_eq_ok.mp h
  obtain ⟨commissionPart, -, h⟩ := bind_eq_ok.mp h
  exact hI.setPool h

theorem stakeWithPool (hI : ActiveSetOver self.pools self.activeSet)
    {toStake : Nat} {nodeId : ObjectID} {r : StakingInner × StakedWal}
    (h : self.stakeWithPool toStake nodeId = .ok r) :
    ActiveSetOver r.1.pools r.1.activeSet := by
  obtain ⟨node, hnode, h⟩ := bind_eq_ok.mp h
  obtain ⟨⟨pool, stakedWal⟩, -, h⟩ := bind_eq_ok.mp h
  obtain ⟨self₁, h₁, h⟩ := bind_eq_ok.mp h
  obtain ⟨self₂, h₂, h⟩ := bind_eq_ok.mp h
  cases h
  exact hI.getPool_setPool_updateActiveSet hnode h₁ h₂

theorem requestWithdrawStake (hI : ActiveSetOver self.pools self.activeSet)
    {stakedWal : StakedWal} {r : StakingInner × StakedWal}
    (h : self.requestWithdrawStake stakedWal = .ok r) :
    ActiveSetOver r.1.pools r.1.activeSet := by
  obtain ⟨nodeId, -, h⟩ := bind_eq_ok.mp h
  obtain ⟨node, hnode, h⟩ := bind_eq_ok.mp h
  obtain ⟨⟨pool, stakedWal'⟩, -, h⟩ := bind_eq_ok.mp h
  obtain ⟨self₁, h₁, h⟩ := bind_eq_ok.mp h
  obtain ⟨self₂, h₂, h⟩ := bind_eq_ok.mp h
  cases h
  exact hI.getPool_setPool_updateActiveSet hnode h₁ h₂

theorem withdrawStake (hI : ActiveSetOver self.pools self.activeSet)
    {stakedWal : StakedWal} {r : StakingInner × Nat} (h : self.withdrawStake stakedWal = .ok r) :
    ActiveSetOver r.1.pools r.1.activeSet := by
  obtain ⟨nodeId, -, h⟩ := bind_eq_ok.mp h
  obtain ⟨node, hnode, h⟩ := bind_eq_ok.mp h
  obtain ⟨⟨pool, amount⟩, -, h⟩ := bind_eq_ok.mp h
  obtain ⟨self₁, h₁, h⟩ := bind_eq_ok.mp h
  obtain ⟨self₂, h₂, h⟩ := bind_eq_ok.mp h
  cases h
  exact hI.getPool_setPool_updateActiveSet hnode h₁ h₂

theorem tryJoinActiveSet (hI : ActiveSetOver self.pools self.activeSet)
    {nodeId : ObjectID} (h : self.tryJoinActiveSet nodeId = .ok self') :
    ActiveSetOver self'.pools self'.activeSet := by
  obtain ⟨node, hnode, h⟩ := bind_eq_ok.mp h
  exact hI.updateActiveSet (mem_keys_of_getPool hnode) h

/-- A round of the loops of `advance_epoch` reads the pool of its node before the active set
takes the node's balance. -/
theorem advancePool {wctx : WalrusContext}
    {acc acc' : VecMap ObjectID NodePool × ActiveSet} {entry : ObjectID × Nat}
    (hI : ActiveSetOver acc.1 acc.2) (h : advancePool wctx acc entry = .ok acc') :
    ActiveSetOver acc'.1 acc'.2 := by
  obtain ⟨node, hnode, h⟩ := bind_eq_ok.mp h
  obtain ⟨node', -, h⟩ := bind_eq_ok.mp h
  obtain ⟨pools, hpools, h⟩ := bind_eq_ok.mp h
  obtain ⟨next, -, h⟩ := bind_eq_ok.mp h
  obtain ⟨balance, -, h⟩ := bind_eq_ok.mp h
  obtain ⟨⟨activeSet, inSet⟩, hinsert, h⟩ := bind_eq_ok.mp h
  cases h
  have hkeys : pools.keys = acc.1.keys := VecMap.keys_set (liftVecMap_eq_ok.mp hpools)
  have hk : entry.1 ∈ pools.keys := hkeys ▸ VecMap.mem_keys_of_get (liftVecMap_eq_ok.mp hnode)
  exact (hI.mono fun k hk' => hkeys ▸ hk').insertOrUpdate hk hinsert

theorem advanceEpoch (hI : ActiveSetOver self.pools self.activeSet)
    {rewards : VecMap ObjectID Nat} (h : self.advanceEpoch rewards = .ok self') :
    ActiveSetOver self'.pools self'.activeSet := by
  unfold StakingInner.advanceEpoch at h
  dsimp only at h
  split at h
  case h_2 => cases h
  case h_1 committee _ =>
  rw [pure_bind] at h
  obtain ⟨epoch, -, h⟩ := bind_eq_ok.mp h
  obtain ⟨acc, hrewards, h⟩ := bind_eq_ok.mp h
  obtain ⟨⟨pools, activeSet⟩, hjoined, h⟩ := bind_eq_ok.mp h
  cases h
  -- the loop over the rewards, then the loop over the nodes that joined
  have hloop : ∀ (entries : List (ObjectID × Nat)) (acc acc' : VecMap ObjectID NodePool × ActiveSet),
      ActiveSetOver acc.1 acc.2 →
      entries.foldlM (StakingInner.advancePool ⟨epoch, false⟩) acc = .ok acc' → ActiveSetOver acc'.1 acc'.2 :=
    fun entries _ _ hacc hfold =>
      @foldlM_ok_invariant _ _ _ _ (fun _ _ acc => ActiveSetOver acc.1 acc.2) entries
        (fun _ _ _ _ _ _ ht hround => ht.advancePool hround) _ _ hacc hfold
  exact hloop _ _ _ (hloop _ _ _ hI hrewards) hjoined

/-! ## Along every run from `new` -/

section Runs

variable {s t : StakingRun} {Q : Type} {PQ : PriorityQueue Q}

/-- Every call keeps the active set over the pools. -/
theorem step (hI : ActiveSetOver s.inner.pools s.inner.activeSet) {c : StakingCall}
    (h : s.step PQ c = .ok t) : ActiveSetOver t.inner.pools t.inner.activeSet := by
  have hstep := StakingRun.step_innerStep h
  cases c with
  | registerCandidate nodeId commissionRate storagePrice writePrice nodeCapacity publicKey =>
    exact hI.createPool hstep
  | setNextCommission nodeId commissionRate => exact hI.setNextCommission hstep
  | setStoragePriceVote nodeId storagePrice => exact hI.updatePool hstep
  | setWritePriceVote nodeId writePrice => exact hI.updatePool hstep
  | setNodeCapacityVote nodeId nodeCapacity => exact hI.updatePool hstep
  | setNextPublicKey nodeId publicKey => exact hI.updatePool hstep
  | stakeWithPool toStake nodeId =>
    obtain ⟨stakedWal, hr⟩ := hstep
    exact hI.stakeWithPool hr
  | requestWithdrawStake i =>
    obtain ⟨stakedWal, stakedWal', hr⟩ := hstep
    exact hI.requestWithdrawStake hr
  | withdrawStake i =>
    obtain ⟨stakedWal, amount, hr⟩ := hstep
    exact hI.withdrawStake hr
  | tryJoinActiveSet nodeId => exact hI.tryJoinActiveSet hstep
  | votingEnd now =>
    -- the vote writes neither the pools nor the active set
    obtain ⟨last, inner₁, -, hselect, hinner⟩ := votingEnd_eq_ok hstep
    obtain ⟨-, committee, votes, publicKeys, params, -, -, -, -, -, -, rfl⟩ :=
      selectCommitteeAndCalculateVotes_eq_ok hselect
    rw [hinner]
    exact hI
  | initiateEpochChange now rewards =>
    obtain ⟨last, -, hadvance⟩ := initiateEpochChange_eq_ok hstep
    exact @advanceEpoch { s.inner with nextEpochPublicKeys := VecMap.empty } _ hI _ hadvance
  | epochSyncDone nodeId epoch now =>
    -- the sync writes neither the pools nor the active set
    obtain ⟨last, lastEpochSyncDone, hr⟩ := hstep
    obtain ⟨-, -, -, shards, -, ⟨weight, -, -, ⟨-, hr'⟩ | ⟨-, hr'⟩⟩ | ⟨-, hr'⟩⟩ :=
      epochSyncDone_eq_ok hr <;>
    · dsimp only at hr'
      rw [hr']
      exact hI

theorem run (PQ : PriorityQueue Q) (hI : ActiveSetOver s.inner.pools s.inner.activeSet)
    (calls : List StakingCall) :
    ActiveSetOver (s.run PQ calls).inner.pools (s.run PQ calls).inner.activeSet :=
  @run_invariant _ _ _ (fun t => ActiveSetOver t.inner.pools t.inner.activeSet)
    (commit_invariant fun _ _ _ hs h => hs.step (toOption_eq_some.mp h)) calls s hI

end Runs

end ActiveSetOver

namespace StakingInner

variable {self self' : StakingInner} {Q : Type} (PQ : PriorityQueue Q)

/-! ## When `voting_end` succeeds -/

/-- The vote of a member with a pool and a shard is read. -/
theorem memberVote_isOk {entry : ObjectID × List Nat} (hpool : entry.1 ∈ self.pools.keys)
    (hshards : entry.2 ≠ []) : ∃ vote, self.memberVote entry = .ok vote := by
  obtain ⟨node, hnode⟩ := Option.isSome_iff_exists.mp (VecMap.contains_iff_mem.mpr hpool)
  have hget : self.getPool entry.1 = .ok node := liftVecMap_eq_ok.mpr (VecMap.get_of_get? hnode)
  have hpos : entry.2.length > 0 := List.length_pos_of_ne_nil hshards
  simp only [memberVote, hget, ok_bind, if_pos hpos]
  exact ⟨_, rfl⟩

/-- A committee whose counts are among the distribution's has only nodes of the
distribution. -/
theorem mem_keys_of_counts {c : Committee} {l : List (ObjectID × Nat)}
    (hc : (Committee.counts c.inner).Perm l) {k : ObjectID} (hk : k ∈ c.inner.keys) :
    k ∈ l.map Prod.fst := by
  obtain ⟨e, he, rfl⟩ := List.mem_map.mp hk
  exact List.mem_map.mpr ⟨(e.1, e.2.length), hc.subset (List.mem_map_of_mem he), rfl⟩

/-- The next committee is computed from a nonempty, well formed active set, for at most
`u16::MAX` shards and ten shards at least or fewer than twenty nodes; its members are active
nodes. -/
theorem computeNextCommittee_isOk (hA : ActiveSetOver self.pools self.activeSet)
    (hcur : self.committee.inner.contents = [] ∨ self.committee.WellFormed self.nShards)
    (hfit : self.nShards ≤ u16Max) (hne : self.activeSet.nodes ≠ [])
    (hroom : 10 ≤ self.nShards ∨ self.activeSet.nodes.length < 20) :
    ∃ committee, self.computeNextCommittee = .ok committee ∧
      ∀ k ∈ committee.inner.keys, k ∈ self.activeSet.activeIds := by
  set active := self.activeSet.nodes.map fun entry => (entry.nodeId, entry.stakedAmount)
  have hids : active.map Prod.fst = self.activeSet.activeIds := by
    simp [active, ActiveSet.activeIds]
  have hstakes : active.map Prod.snd = self.activeSet.nodes.map ActiveSetEntry.stakedAmount := by
    simp [active]
  -- the stakes are positive and their total is the set's, within a `u64`
  have hpos : 0 < (active.map Prod.snd).sum := by
    rw [hstakes]
    obtain ⟨e, he⟩ := List.exists_mem_of_ne_nil _ hne
    exact lt_of_lt_of_le (hA.wellFormed.staked_pos e he)
      (List.le_sum_of_mem (List.mem_map_of_mem he))
  have hsum : (active.map Prod.snd).sum ≤ u64Max := by
    rw [hstakes, ← hA.wellFormed.totalStake_eq]
    exact hA.wellFormed.totalStake_le
  obtain ⟨distribution, hdist, hkeys⟩ := apportionment_isOk (hids ▸ hA.wellFormed.ids_nodup) hfit
    hpos hsum (by simpa [active] using hroom)
  obtain ⟨hdsum, -⟩ := apportionment_eq_ok hdist
  have hactive : ∀ k ∈ distribution.keys, k ∈ self.activeSet.activeIds := fun k hk =>
    hids ▸ hkeys k hk
  unfold computeNextCommittee
  rw [hdist, ok_bind]
  split
  case isTrue =>
    -- the first committee takes the distribution's nodes
    obtain ⟨c, hc, -, -, hcounts⟩ :=
      Committee.initializeCommittee_spec distribution (by rw [hdsum]; exact hfit)
    exact ⟨c, hc, fun k hk => hactive k (mem_keys_of_counts hcounts hk)⟩
  case isFalse hsize =>
    -- a later committee takes the distribution's nodes with shards
    have hwf : self.committee.WellFormed self.nShards := by
      refine hcur.resolve_left fun hnil => hsize ?_
      simp [Committee.size, VecMap.length, hnil]
    obtain ⟨c, hc, -, hcounts, -, -⟩ := Committee.transition_spec hwf.partition hdsum hfit
    refine ⟨c, hc, fun k hk => hactive k ?_⟩
    obtain ⟨e, he, rfl⟩ := List.mem_map.mp (mem_keys_of_counts hcounts hk)
    exact List.mem_map_of_mem (List.mem_filter.mp he).1

/-- `select_committee_and_calculate_votes` succeeds on a nonempty active set over the pools:
the committee is computed, every member's vote is read, and the shards of the votes are all the
shards, so every quorum threshold exists. -/
theorem selectCommitteeAndCalculateVotes_isOk (hA : ActiveSetOver self.pools self.activeSet)
    (hnone : self.nextCommittee = none)
    (hcur : self.committee.inner.contents = [] ∨ self.committee.WellFormed self.nShards)
    (hn : 0 < self.nShards ∧ self.nShards ≤ u16Max) (hne : self.activeSet.nodes ≠ [])
    (hroom : 10 ≤ self.nShards ∨ self.activeSet.nodes.length < 20) :
    ∃ self', self.selectCommitteeAndCalculateVotes PQ = .ok self' := by
  obtain ⟨committee, hcommittee, hkeys⟩ := computeNextCommittee_isOk hA hcur hn.2 hne hroom
  have hwf := computeNextCommittee_wellFormed hcur hn.2 hcommittee
  -- every member has a pool and a shard
  obtain ⟨votes, hvotes⟩ := mapM_isOk fun e he =>
    memberVote_isOk (hA.pooled e.1 (hkeys e.1 (List.mem_map_of_mem he))) (hwf.nonempty e he)
  have hforall := mapM_eq_ok_iff.mp hvotes
  have hlen : committee.inner.keys.length = (votes.map MemberVote.publicKey).length := by
    rw [List.length_map, VecMap.keys, List.length_map]
    exact hforall.length_eq
  obtain ⟨publicKeys, hpublicKeys⟩ := VecMap.fromKeysValues_isOk committee.inner.keys_nodup hlen
  -- the shards of the votes are all the shards
  have hsum : ∀ f : MemberVote → Nat,
      ((votes.map fun v => (f v, v.weight)).map Prod.snd).sum = self.nShards := by
    intro f
    rw [List.map_map]
    show (votes.map MemberVote.weight).sum = self.nShards
    rw [weights_of_memberVotes hforall, sum_length_of_wellFormed hwf]
  obtain ⟨capacity, hcapacity, -⟩ :=
    PQ.quorumAbove_ofVotes _ hn (hsum MemberVote.capacity)
  obtain ⟨storagePrice, hstorage, -⟩ :=
    PQ.quorumBelow_ofVotes _ hn (hsum MemberVote.storagePrice)
  obtain ⟨writePrice, hwrite, -⟩ :=
    PQ.quorumBelow_ofVotes _ hn (hsum MemberVote.writePrice)
  unfold selectCommitteeAndCalculateVotes
  rw [hnone]
  have hkeys' : liftVecMap (VecMap.fromKeysValues committee.inner.keys
      (votes.map MemberVote.publicKey)) = .ok publicKeys := liftVecMap_eq_ok.mpr hpublicKeys
  simp only [Option.isNone_none, ite_true, hcommittee, hvotes, hkeys', hcapacity,
    hstorage, hwrite, ok_bind]
  exact ⟨_, rfl⟩

/-- `voting_end` at its time succeeds on a nonempty active set over the pools, before the next
committee is selected. -/
theorem votingEnd_isOk (hA : ActiveSetOver self.pools self.activeSet)
    (hnone : self.nextCommittee = none)
    (hcur : self.committee.inner.contents = [] ∨ self.committee.WellFormed self.nShards)
    (hn : 0 < self.nShards ∧ self.nShards ≤ u16Max) (hne : self.activeSet.nodes ≠ [])
    (hroom : 10 ≤ self.nShards ∨ self.activeSet.nodes.length < 20) {last now : Nat}
    (hdone : self.epochState = .epochChangeDone last)
    (hdue : if self.epoch ≠ 0 then
        last + self.epochDuration / 2 ≤ u64Max ∧ last + self.epochDuration / 2 ≤ now
      else self.firstEpochStart ≤ now) :
    ∃ self', self.votingEnd PQ now = .ok self' := by
  obtain ⟨self₁, hselect⟩ := selectCommitteeAndCalculateVotes_isOk PQ hA hnone hcur hn hne hroom
  refine ⟨{ self₁ with epochState := .nextParamsSelected last }, ?_⟩
  unfold votingEnd
  rw [hdone]
  dsimp only
  rw [pure_bind]
  split
  case isTrue hepoch =>
    -- half an epoch after the last epoch change
    rw [if_pos hepoch] at hdue
    have hadd : u64Add last (self.epochDuration / 2) = .ok (last + self.epochDuration / 2) :=
      u64Add_eq_ok.mpr ⟨hdue.1, rfl⟩
    rw [hadd, ok_bind, if_pos hdue.2]
    simp only [hselect, ok_bind]
    rfl
  case isFalse hepoch =>
    -- the first epoch waits for its start
    rw [if_neg hepoch] at hdue
    rw [if_pos hdue]
    simp only [hselect, ok_bind]
    rfl

end StakingInner

/-- Along every run of the staking object from `new` with at least one shard, the active set is
well formed and every node in it has a pool; and `voting_end` called once its time has come does
not abort while some node is active, unless there are fewer than ten shards and twenty active
nodes or more: the next committee is computed, every member has a pool and a shard, and the
thresholds of the votes exist. -/
theorem voting_end_succeeds_when_due {epochZeroDuration epochDuration nShards now₀ : Nat}
    {inner : StakingInner} {Q : Type} (PQ : PriorityQueue Q)
    (hnew : StakingInner.new epochZeroDuration epochDuration nShards now₀ = .ok inner)
    (hn : 0 < nShards ∧ nShards ≤ u16Max) (calls : List StakingCall) :
    let s := (StakingRun.run PQ ⟨inner, VecMap.empty, []⟩ calls).inner
    ActiveSetOver s.pools s.activeSet ∧
    ∀ last now, s.epochState = .epochChangeDone last →
      (if s.epoch ≠ 0 then last + s.epochDuration / 2 ≤ u64Max ∧ last + s.epochDuration / 2 ≤ now
        else s.firstEpochStart ≤ now) →
      s.activeSet.nodes ≠ [] → (10 ≤ nShards ∨ s.activeSet.nodes.length < 20) →
      ∃ inner', s.votingEnd PQ now = .ok inner' := by
  intro s
  have hA : ActiveSetOver s.pools s.activeSet := (ActiveSetOver.new hnew).run PQ calls
  refine ⟨hA, fun last now hdone hdue hne hroom => ?_⟩
  have hI : StakingRun.EpochChangeInv (StakingRun.run PQ ⟨inner, VecMap.empty, []⟩ calls) :=
    (StakingRun.EpochChangeInv.new hnew hn.2).run PQ calls
  have hnShards : s.nShards = nShards := by
    rw [StakingRun.run_nShards]
    exact StakingInner.new_nShards hnew
  -- the next committee is selected only once the parameters are
  have hnone : s.nextCommittee = none := by
    refine Option.not_isSome_iff_eq_none.mp fun hsome => ?_
    obtain ⟨t, ht⟩ := hI.selected_iff.mp hsome
    rw [hdone] at ht
    cases ht
  rw [← hnShards] at hn hroom
  exact StakingInner.votingEnd_isOk PQ hA hnone hI.current hn hne hroom hdone hdue

theorem voting_end_succeeds_when_due_after_stake :
    ∃ inner, StakingInner.new 0 0 1000 0 = .ok inner ∧ (0 < 1000 ∧ 1000 ≤ u16Max) ∧
      let s := (StakingRun.run listPriorityQueue ⟨inner, VecMap.empty, []⟩
        [.registerCandidate ⟨Vector.replicate 32 1⟩ 0 5 1 1000 7,
          .stakeWithPool 1000000000 ⟨Vector.replicate 32 1⟩]).inner
      ActiveSetOver s.pools s.activeSet ∧
      ∀ last now, s.epochState = .epochChangeDone last →
        (if s.epoch ≠ 0 then
            last + s.epochDuration / 2 ≤ u64Max ∧ last + s.epochDuration / 2 ≤ now
          else s.firstEpochStart ≤ now) →
        s.activeSet.nodes ≠ [] → (10 ≤ 1000 ∨ s.activeSet.nodes.length < 20) →
        ∃ inner', s.votingEnd listPriorityQueue now = .ok inner' :=
  ⟨_, rfl, by decide,
    @voting_end_succeeds_when_due 0 0 1000 0 _ _ listPriorityQueue rfl (by decide) _⟩

end Walrus.Staking
