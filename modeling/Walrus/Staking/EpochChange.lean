import Mathlib
import Walrus.Staking.PoolStake
import Walrus.Staking.Transition
import Walrus.Staking.Apportionment
import Walrus.Staking.ActiveSet
import Walrus.Staking.Voting
import Walrus.Contracts.BlsAggregate

/-! # The epoch change of the staking object

`walrus::staking_inner`: the staking pools by node ID, the active set, the committees of the
previous, current and next epoch, and the state of the epoch change, which cycles through
three states.

* `EpochChangeDone(t)`: the epoch change completed at `t`. Half an epoch later `voting_end`
  runs the apportionment over the active set, computes the next committee from it
  (`initialize` for the first one, `transition` after), records the public keys of its
  members for the next epoch, and reads the parameters of the next epoch off the members'
  votes, each weighted by the member's shards. The state becomes `NextParamsSelected(t)`.
* `NextParamsSelected(t)`: an epoch after `t`, `staking::initiate_epoch_change` builds the BLS
  committee of the next epoch (`next_bls_committee`), hands it to the system object, which
  pays out the rewards of the ending epoch, and `advance_epoch` moves the staking object into
  the next epoch: the next committee becomes the current one, and every pool of the old and
  the new committee is advanced. The state becomes `EpochChangeSync(0)`.
* `EpochChangeSync(w)`: the members of the new committee signal with their `StorageNodeCap`
  that they hold their shards (`epoch_sync_done`), and `w` adds up their shards. Once `w` is
  a quorum of the shards the state becomes `EpochChangeDone(now)`.

The calls that stake with a pool or withdraw from it go through the pool (`Staking.PoolStake`)
and then give the active set the pool's stake for the committee of the next vote.

`staking::initiate_epoch_change` hands the BLS committee to `system::advance_epoch`, whose
accounting is modelled in `Contracts.Rewards`; here the rewards it returns are an argument of
the call. Node metadata, names and addresses, the commission receiver and the governance
authorisation are left out: none of the functions here reads them. Public keys are numbers,
and the proof of possession that `set_next_public_key` checks is taken as valid.
-/

namespace Walrus.Staking

open Machine Walrus.System

/-- `EpochState`. -/
inductive EpochState
  /-- The epoch change is in progress; the shards of the members that are done syncing. -/
  | epochChangeSync (weight : Nat)
  /-- The epoch change completed at the timestamp. -/
  | epochChangeDone (timestamp : Nat)
  /-- The parameters of the next epoch are selected; the timestamp is the start of the
  current epoch. -/
  | nextParamsSelected (timestamp : Nat)
deriving DecidableEq, Repr

/-- `EpochParams`. -/
structure EpochParams where
  totalCapacitySize : Nat
  storagePricePerUnitSize : Nat
  writePricePerUnitSize : Nat
deriving DecidableEq, Repr

/-- A `StakingPool` as the staking object holds it: the stake accounting of `StakePool`, the
`voting_params`, and the public keys of its `node_info`. -/
structure NodePool where
  pool : StakePool
  storagePrice : Nat
  writePrice : Nat
  nodeCapacity : Nat
  publicKey : Nat
  /-- The field `next_epoch_public_key` of `StorageNodeInfo`. -/
  nextPublicKey : Option Nat

namespace NodePool

/-- `next_epoch_public_key`: the key set for the next epoch, or else the current one. -/
def nextEpochPublicKey (self : NodePool) : Nat :=
  self.nextPublicKey.getD self.publicKey

/-- `rotate_public_key`. -/
def rotatePublicKey (self : NodePool) : NodePool :=
  match self.nextPublicKey with
  | some key => { self with publicKey := key, nextPublicKey := none }
  | none => self

/-- `staking_pool::advance_epoch`: the stake accounting of `StakePool.advanceEpoch`, and the
key for the next epoch becomes the key. -/
def advanceEpoch (self : NodePool) (rewards : Nat) (wctx : WalrusContext) :
    Except Abort NodePool := do
  let pool ← self.pool.advanceEpoch rewards wctx
  pure { self.rotatePublicKey with pool }

end NodePool

/-- `StakingInnerV1`. The `ObjectTable` of the pools is a map by node ID. -/
structure StakingInner where
  nShards : Nat
  epochDuration : Nat
  firstEpochStart : Nat
  pools : VecMap ObjectID NodePool
  epoch : Nat
  activeSet : ActiveSet
  nextCommittee : Option Committee
  committee : Committee
  previousCommittee : Committee
  nextEpochParams : Option EpochParams
  epochState : EpochState
  nextEpochPublicKeys : VecMap ObjectID Nat

namespace StakingInner

/-- `TEMP_ACTIVE_SET_SIZE_LIMIT`. -/
def tempActiveSetSizeLimit : Nat := 111

/-- `MIN_STAKE`. -/
def minStake : Nat := 0

/-- `new`, at the clock's time `now`. -/
def new (epochZeroDuration epochDuration nShards now : Nat) : Except Abort StakingInner := do
  let firstEpochStart ← u64Add epochZeroDuration now
  let activeSet ← ActiveSet.new tempActiveSetSizeLimit minStake
  pure {
    nShards, epochDuration, firstEpochStart, pools := VecMap.empty, epoch := 0, activeSet
    nextCommittee := none, committee := Committee.empty, previousCommittee := Committee.empty
    nextEpochParams := none, epochState := .epochChangeDone now
    nextEpochPublicKeys := VecMap.empty }

/-- `new_walrus_context`. -/
def newWalrusContext (self : StakingInner) : WalrusContext :=
  ⟨self.epoch, self.nextCommittee.isSome⟩

/-! ## Pools -/

/-- `self.pools[node_id]`: aborts for an ID without a pool. -/
def getPool (self : StakingInner) (nodeId : ObjectID) : Except Abort NodePool :=
  liftVecMap (self.pools.get nodeId)

/-- A write through `&mut self.pools[node_id]`. -/
def setPool (self : StakingInner) (nodeId : ObjectID) (pool : NodePool) :
    Except Abort StakingInner := do
  let pools ← liftVecMap (self.pools.set nodeId pool)
  pure { self with pools }

/-- The ID of the pool a staked WAL names. A `StakedWal` keeps its `node_id` as the number of
the ID (`ObjectID.toU256`, which is injective). -/
def stakedWalNodeId (self : StakingInner) (stakedWal : StakedWal) : Except Abort ObjectID :=
  match self.pools.keys.find? fun id => id.toU256 = stakedWal.nodeId with
  | some nodeId => pure nodeId
  | none => throw (.vecMap .keyDoesNotExist)

/-- `create_pool`: `object::new` hands out a fresh ID, which becomes the node ID. -/
def createPool (self : StakingInner) (nodeId : ObjectID)
    (commissionRate storagePrice writePrice nodeCapacity publicKey : Nat) :
    Except Abort StakingInner := do
  unless !self.pools.contains nodeId do throw .objectIdInUse
  let pool ← StakePool.new nodeId.toU256 commissionRate self.newWalrusContext
  let pools ← liftVecMap (self.pools.insert nodeId
    ⟨pool, storagePrice, writePrice, nodeCapacity, publicKey, none⟩)
  pure { self with pools }

/-- A setter of `staking_inner` that changes one pool through `f` without a check:
`set_storage_price_vote`, `set_write_price_vote`, `set_node_capacity_vote` and
`set_next_public_key`. -/
def updatePool (self : StakingInner) (nodeId : ObjectID) (f : NodePool → NodePool) :
    Except Abort StakingInner := do
  let pool ← self.getPool nodeId
  self.setPool nodeId (f pool)

/-- `set_storage_price_vote`. -/
def setStoragePriceVote (self : StakingInner) (nodeId : ObjectID) (storagePrice : Nat) :
    Except Abort StakingInner :=
  self.updatePool nodeId fun pool => { pool with storagePrice }

/-- `set_write_price_vote`. -/
def setWritePriceVote (self : StakingInner) (nodeId : ObjectID) (writePrice : Nat) :
    Except Abort StakingInner :=
  self.updatePool nodeId fun pool => { pool with writePrice }

/-- `set_node_capacity_vote`. -/
def setNodeCapacityVote (self : StakingInner) (nodeId : ObjectID) (nodeCapacity : Nat) :
    Except Abort StakingInner :=
  self.updatePool nodeId fun pool => { pool with nodeCapacity }

/-- `set_next_public_key`, with a valid proof of possession: `swap_or_fill`. -/
def setNextPublicKey (self : StakingInner) (nodeId : ObjectID) (publicKey : Nat) :
    Except Abort StakingInner :=
  self.updatePool nodeId fun pool => { pool with nextPublicKey := some publicKey }

/-- `set_next_commission`: the rate is checked, and applies two epochs ahead. -/
def setNextCommission (self : StakingInner) (nodeId : ObjectID) (commissionRate : Nat) :
    Except Abort StakingInner := do
  let pool ← self.getPool nodeId
  let commissionPart ←
    pool.pool.commissionPart.setNextCommission commissionRate self.newWalrusContext.epoch
  self.setPool nodeId { pool with pool := { pool.pool with commissionPart } }

/-! ## Staking -/

/-- The stake of a pool that the active set tracks: its balance for the committee of the next
vote, which is the epoch after next once the vote of this epoch has happened. -/
def nextVoteBalance (self : StakingInner) (pool : StakePool) : Except Abort Nat :=
  match self.epochState with
  | .nextParamsSelected _ => do pool.walBalanceAtEpoch (← u32Add self.epoch 2)
  | _ => do pool.walBalanceAtEpoch (← u32Add self.epoch 1)

/-- `active_set.insert_or_update(node_id, balance)` with the pool's balance for the next vote. -/
def updateActiveSet (self : StakingInner) (nodeId : ObjectID) (pool : StakePool) :
    Except Abort StakingInner := do
  let balance ← self.nextVoteBalance pool
  let (activeSet, _) ← self.activeSet.insertOrUpdate nodeId balance
  pure { self with activeSet }

/-- `stake_with_pool`. -/
def stakeWithPool (self : StakingInner) (toStake : Nat) (nodeId : ObjectID) :
    Except Abort (StakingInner × StakedWal) := do
  let node ← self.getPool nodeId
  let (pool, stakedWal) ← node.pool.stake toStake self.newWalrusContext
  let self ← self.setPool nodeId { node with pool }
  let self ← self.updateActiveSet nodeId pool
  pure (self, stakedWal)

/-- Whether the next committee is selected and has the node:
`next_committee.is_some_and!(|cmt| cmt.contains(&node_id))`. -/
def inNextCommittee (self : StakingInner) (nodeId : ObjectID) : Bool :=
  self.nextCommittee.any fun cmt => cmt.contains nodeId

/-- `request_withdraw_stake`. -/
def requestWithdrawStake (self : StakingInner) (stakedWal : StakedWal) :
    Except Abort (StakingInner × StakedWal) := do
  let nodeId ← self.stakedWalNodeId stakedWal
  let node ← self.getPool nodeId
  let (pool, stakedWal) ← node.pool.requestWithdrawStake stakedWal
    (self.committee.contains nodeId) (self.inNextCommittee nodeId) self.newWalrusContext
  let self ← self.setPool nodeId { node with pool }
  let self ← self.updateActiveSet nodeId pool
  pure (self, stakedWal)

/-- `withdraw_stake`: the state, and the value paid out. -/
def withdrawStake (self : StakingInner) (stakedWal : StakedWal) :
    Except Abort (StakingInner × Nat) := do
  let nodeId ← self.stakedWalNodeId stakedWal
  let node ← self.getPool nodeId
  let (pool, walBalance) ← node.pool.withdrawStake stakedWal
    (self.committee.contains nodeId) (self.inNextCommittee nodeId) self.newWalrusContext
  let self ← self.setPool nodeId { node with pool }
  let self ← self.updateActiveSet nodeId pool
  pure (self, walBalance)

/-- `try_join_active_set`. -/
def tryJoinActiveSet (self : StakingInner) (nodeId : ObjectID) : Except Abort StakingInner := do
  let node ← self.getPool nodeId
  self.updateActiveSet nodeId node.pool

/-! ## Selecting the next committee -/

/-- `compute_next_committee`: the apportionment of the shards over the active set's nodes and
stakes (`active_ids_and_stake`); the first committee is numbered from scratch, the later ones
move as few shards as they can. -/
def computeNextCommittee (self : StakingInner) : Except Abort Committee := do
  let distribution ← apportionment self.nShards
    (self.activeSet.nodes.map fun entry => (entry.nodeId, entry.stakedAmount))
  if self.committee.size = 0 then Committee.initializeCommittee distribution
  else self.committee.transition distribution

/-- What one member of the next committee contributes in the loop of
`select_committee_and_calculate_votes`: its public key for the next epoch, and its votes, each
weighted by its number of shards. -/
structure MemberVote where
  publicKey : Nat
  writePrice : Nat
  storagePrice : Nat
  capacity : Nat
  weight : Nat
deriving DecidableEq, Repr

/-- One round of the loop of `select_committee_and_calculate_votes`. The capacity vote is the
node's capacity scaled to all the shards, computed on `u128` and capped to a `u64`. -/
def memberVote (self : StakingInner) (entry : ObjectID × List Nat) : Except Abort MemberVote := do
  let pool ← self.getPool entry.1
  let weight := entry.2.length
  -- every committee member must have at least one shard
  unless weight > 0 do throw .zeroNodeWeight
  let capacityVote := min (pool.nodeCapacity * self.nShards / weight) u64Max
  pure ⟨pool.nextEpochPublicKey, pool.writePrice, pool.storagePrice, capacityVote, weight⟩

section Votes

-- the `sui::priority_queue` of the votes, a parameter of the model
variable {Q : Type} (PQ : PriorityQueue Q)

/-- `select_committee_and_calculate_votes`. Each member's votes go into three priority queues
as `(value, weight)`, one insert per member in the committee's order. -/
def selectCommitteeAndCalculateVotes (self : StakingInner) : Except Abort StakingInner := do
  unless self.nextCommittee.isNone do throw .committeeSelected
  let committee ← self.computeNextCommittee
  let votes ← committee.inner.contents.mapM self.memberVote
  -- the public keys are sorted by node ID, as the committee is
  let publicKeys ← liftVecMap
    (VecMap.fromKeysValues committee.inner.keys (votes.map MemberVote.publicKey))
  let writePrices := PQ.ofVotes (votes.map fun v => (v.writePrice, v.weight))
  let storagePrices := PQ.ofVotes (votes.map fun v => (v.storagePrice, v.weight))
  let capacityVotes := PQ.ofVotes (votes.map fun v => (v.capacity, v.weight))
  let capacity ← quorumAbove PQ.toPriorityQueueOps capacityVotes self.nShards
  let storagePrice ← quorumBelow PQ.toPriorityQueueOps storagePrices self.nShards
  let writePrice ← quorumBelow PQ.toPriorityQueueOps writePrices self.nShards
  pure { self with
    nextEpochPublicKeys := publicKeys, nextCommittee := some committee
    nextEpochParams := some ⟨capacity, storagePrice, writePrice⟩ }

/-- `voting_end`, at the clock's time `now`: half an epoch after the last epoch change (the
first epoch waits for `first_epoch_start` instead). -/
def votingEnd (self : StakingInner) (now : Nat) : Except Abort StakingInner := do
  let lastEpochChange ← match self.epochState with
    | .epochChangeDone lastEpochChange => pure lastEpochChange
    | _ => throw .wrongEpochState
  if self.epoch ≠ 0 then
    let paramSelection ← u64Add lastEpochChange (self.epochDuration / 2)
    unless now ≥ paramSelection do throw .wrongEpochState
  else
    unless now ≥ self.firstEpochStart do throw .wrongEpochState
  let self ← self.selectCommitteeAndCalculateVotes PQ
  pure { self with epochState := .nextParamsSelected lastEpochChange }

end Votes

/-! ## The epoch change -/

/-- The member of the BLS committee at index `i` in `next_bls_committee`: the node ID and the
number of shards at `i` in the next committee, checked against the node ID of the public key
at `i`. -/
def blsMemberAt (members : List (ObjectID × List Nat)) (pkIds : List ObjectID) (i : Nat) :
    Except Abort BlsCommitteeMember := do
  let (nodeId, shards) ← match members[i]? with
    | some member => pure member
    | none => throw .indexOutOfBounds
  let shards ← u16Cast shards.length
  let pkNodeId ← match pkIds[i]? with
    | some pkNodeId => pure pkNodeId
    | none => throw .indexOutOfBounds
  -- sanity check that the keys are in the same order
  unless nodeId = pkNodeId do throw .incorrectNodeOrder
  pure ⟨shards, nodeId⟩

/-- `next_bls_committee`: the public keys for the next epoch are taken out, and the BLS
committee of the next epoch is built from them and the next committee. -/
def nextBlsCommittee (self : StakingInner) : Except Abort (StakingInner × BlsCommittee) := do
  let committee ← match self.nextCommittee with
    | some committee => pure committee
    | none => throw .nextCommitteeIsEmpty
  let pkIds := self.nextEpochPublicKeys.keys
  let members ← (List.range committee.inner.length).mapM
    (blsMemberAt committee.inner.contents pkIds)
  let epoch ← u32Add self.epoch 1
  let bls ← match BlsCommittee.newBlsCommittee epoch members with
    | some bls => pure bls
    | none => throw .incorrectCommittee
  pure ({ self with nextEpochPublicKeys := VecMap.empty }, bls)

/-- One pool of the loops of `advance_epoch`: the pool is advanced into the new epoch with its
rewards, and the active set takes its balance for the next epoch. -/
def advancePool (wctx : WalrusContext) (acc : VecMap ObjectID NodePool × ActiveSet)
    (entry : ObjectID × Nat) : Except Abort (VecMap ObjectID NodePool × ActiveSet) := do
  let node ← liftVecMap (acc.1.get entry.1)
  let node ← node.advanceEpoch entry.2 wctx
  let pools ← liftVecMap (acc.1.set entry.1 node)
  let balance ← node.pool.walBalanceAtEpoch (← u32Add wctx.epoch 1)
  let (activeSet, _) ← acc.2.insertOrUpdate entry.1 balance
  pure (pools, activeSet)

/-- `advance_epoch`: the next committee becomes the current one; the pools paid rewards, and
then the pools that just joined the committee, without rewards, are advanced. -/
def advanceEpoch (self : StakingInner) (rewards : VecMap ObjectID Nat) :
    Except Abort StakingInner := do
  let committee ← match self.nextCommittee with
    | some committee => pure committee
    | none => throw .wrongEpochState
  let epoch ← u32Add self.epoch 1
  let self := { self with
    epoch, previousCommittee := self.committee, committee, nextCommittee := none
    epochState := .epochChangeSync 0 }
  -- the context is the one of the new epoch
  let wctx := self.newWalrusContext
  let newIds := (Committee.diff self.previousCommittee self.committee).2
  let acc ← rewards.contents.foldlM (advancePool wctx) (self.pools, self.activeSet)
  let (pools, activeSet) ← (newIds.map fun nodeId => (nodeId, 0)).foldlM (advancePool wctx) acc
  pure { self with pools, activeSet }

/-- `initiate_epoch_change`, at the clock's time `now`: an epoch after the last epoch change
(the first epoch starts at `first_epoch_start`). -/
def initiateEpochChange (self : StakingInner) (now : Nat) (rewards : VecMap ObjectID Nat) :
    Except Abort StakingInner := do
  let lastEpochChange ← match self.epochState with
    | .nextParamsSelected lastEpochChange => pure lastEpochChange
    | _ => throw .wrongEpochState
  if self.epoch = 0 then
    unless now ≥ self.firstEpochStart do throw .wrongEpochState
  else
    let epochEnd ← u64Add lastEpochChange self.epochDuration
    unless now ≥ epochEnd do throw .wrongEpochState
  self.advanceEpoch rewards

/-- `is_quorum`. -/
def isQuorum (self : StakingInner) (weight : Nat) : Except Abort Bool :=
  isQuorumForNShards weight self.nShards

/-- `epoch_sync_done` of the node with a cap whose `last_epoch_sync_done` is
`lastEpochSyncDone`: the state, and the cap's new `last_epoch_sync_done`. -/
def epochSyncDone (self : StakingInner) (nodeId : ObjectID) (lastEpochSyncDone epoch now : Nat) :
    Except Abort (StakingInner × Nat) := do
  unless epoch = self.epoch do throw .invalidSyncEpoch
  unless lastEpochSyncDone < self.epoch do throw .duplicateSyncDone
  unless self.committee.contains nodeId do throw .notInCommittee
  let nodeShards ← self.committee.shards nodeId
  match self.epochState with
  | .epochChangeSync weight =>
    let weight ← u16Add weight (← u16Cast nodeShards.length)
    if ← self.isQuorum weight then
      pure ({ self with epochState := .epochChangeDone now }, self.epoch)
    else
      pure ({ self with epochState := .epochChangeSync weight }, self.epoch)
  | _ => pure (self, self.epoch)

/-! ## What each call does -/

section Calls

variable {self self' : StakingInner} {Q : Type} {PQ : PriorityQueue Q}

theorem new_nShards {epochZeroDuration epochDuration nShards now : Nat} {inner : StakingInner}
    (h : StakingInner.new epochZeroDuration epochDuration nShards now = .ok inner) :
    inner.nShards = nShards := by
  unfold StakingInner.new at h
  obtain ⟨firstEpochStart, -, h⟩ := bind_eq_ok.mp h
  obtain ⟨activeSet, -, h⟩ := bind_eq_ok.mp h
  cases h
  rfl

/-- What the calls on pools and stake do to the staking object: they change the pools and the
active set only. -/
def KeepsEpochChange (self self' : StakingInner) : Prop :=
  ∃ pools activeSet, self' = { self with pools, activeSet }

theorem KeepsEpochChange.refl (self : StakingInner) : KeepsEpochChange self self :=
  ⟨self.pools, self.activeSet, rfl⟩

theorem KeepsEpochChange.trans {self'' : StakingInner} (h₁ : KeepsEpochChange self self')
    (h₂ : KeepsEpochChange self' self'') : KeepsEpochChange self self'' := by
  obtain ⟨pools, activeSet, rfl⟩ := h₁
  obtain ⟨pools', activeSet', rfl⟩ := h₂
  exact ⟨pools', activeSet', rfl⟩

theorem setPool_keeps {nodeId : ObjectID} {pool : NodePool}
    (h : self.setPool nodeId pool = .ok self') : KeepsEpochChange self self' := by
  obtain ⟨pools, -, h⟩ := bind_eq_ok.mp h
  exact ⟨pools, self.activeSet, (Except.ok.inj h).symm⟩

theorem updateActiveSet_keeps {nodeId : ObjectID} {pool : StakePool}
    (h : self.updateActiveSet nodeId pool = .ok self') : KeepsEpochChange self self' := by
  obtain ⟨balance, -, h⟩ := bind_eq_ok.mp h
  obtain ⟨⟨activeSet, inSet⟩, -, h⟩ := bind_eq_ok.mp h
  exact ⟨self.pools, activeSet, (Except.ok.inj h).symm⟩

theorem createPool_keeps {nodeId : ObjectID}
    {commissionRate storagePrice writePrice nodeCapacity publicKey : Nat}
    (h : self.createPool nodeId commissionRate storagePrice writePrice nodeCapacity publicKey =
      .ok self') : KeepsEpochChange self self' := by
  unfold createPool at h
  rw [ite_throw_bind_eq_ok] at h
  obtain ⟨-, h⟩ := h
  obtain ⟨pool, -, h⟩ := bind_eq_ok.mp h
  obtain ⟨pools, -, h⟩ := bind_eq_ok.mp h
  exact ⟨pools, self.activeSet, (Except.ok.inj h).symm⟩

theorem updatePool_keeps {nodeId : ObjectID} {f : NodePool → NodePool}
    (h : self.updatePool nodeId f = .ok self') : KeepsEpochChange self self' := by
  obtain ⟨pool, -, h⟩ := bind_eq_ok.mp h
  exact setPool_keeps h

theorem setNextCommission_keeps {nodeId : ObjectID} {commissionRate : Nat}
    (h : self.setNextCommission nodeId commissionRate = .ok self') : KeepsEpochChange self self' := by
  obtain ⟨pool, -, h⟩ := bind_eq_ok.mp h
  obtain ⟨commissionPart, -, h⟩ := bind_eq_ok.mp h
  exact setPool_keeps h

theorem stakeWithPool_keeps {toStake : Nat} {nodeId : ObjectID} {r : StakingInner × StakedWal}
    (h : self.stakeWithPool toStake nodeId = .ok r) : KeepsEpochChange self r.1 := by
  obtain ⟨node, -, h⟩ := bind_eq_ok.mp h
  obtain ⟨⟨pool, stakedWal⟩, -, h⟩ := bind_eq_ok.mp h
  obtain ⟨self₁, h₁, h⟩ := bind_eq_ok.mp h
  obtain ⟨self₂, h₂, h⟩ := bind_eq_ok.mp h
  cases h
  exact (setPool_keeps h₁).trans (updateActiveSet_keeps h₂)

theorem requestWithdrawStake_keeps {stakedWal : StakedWal} {r : StakingInner × StakedWal}
    (h : self.requestWithdrawStake stakedWal = .ok r) : KeepsEpochChange self r.1 := by
  obtain ⟨nodeId, -, h⟩ := bind_eq_ok.mp h
  obtain ⟨node, -, h⟩ := bind_eq_ok.mp h
  obtain ⟨⟨pool, stakedWal'⟩, -, h⟩ := bind_eq_ok.mp h
  obtain ⟨self₁, h₁, h⟩ := bind_eq_ok.mp h
  obtain ⟨self₂, h₂, h⟩ := bind_eq_ok.mp h
  cases h
  exact (setPool_keeps h₁).trans (updateActiveSet_keeps h₂)

theorem withdrawStake_keeps {stakedWal : StakedWal} {r : StakingInner × Nat}
    (h : self.withdrawStake stakedWal = .ok r) : KeepsEpochChange self r.1 := by
  obtain ⟨nodeId, -, h⟩ := bind_eq_ok.mp h
  obtain ⟨node, -, h⟩ := bind_eq_ok.mp h
  obtain ⟨⟨pool, amount⟩, -, h⟩ := bind_eq_ok.mp h
  obtain ⟨self₁, h₁, h⟩ := bind_eq_ok.mp h
  obtain ⟨self₂, h₂, h⟩ := bind_eq_ok.mp h
  cases h
  exact (setPool_keeps h₁).trans (updateActiveSet_keeps h₂)

theorem tryJoinActiveSet_keeps {nodeId : ObjectID}
    (h : self.tryJoinActiveSet nodeId = .ok self') : KeepsEpochChange self self' := by
  obtain ⟨node, -, h⟩ := bind_eq_ok.mp h
  exact updateActiveSet_keeps h

theorem selectCommitteeAndCalculateVotes_eq_ok
    (h : self.selectCommitteeAndCalculateVotes PQ = .ok self') :
    self.nextCommittee = none ∧ ∃ committee votes publicKeys params,
      self.computeNextCommittee = .ok committee ∧
      committee.inner.contents.mapM self.memberVote = .ok votes ∧
      publicKeys.contents = committee.inner.keys.zip (votes.map MemberVote.publicKey) ∧
      quorumAbove PQ.toPriorityQueueOps (PQ.ofVotes (votes.map fun v => (v.capacity, v.weight)))
        self.nShards = .ok params.totalCapacitySize ∧
      quorumBelow PQ.toPriorityQueueOps
        (PQ.ofVotes (votes.map fun v => (v.storagePrice, v.weight))) self.nShards =
          .ok params.storagePricePerUnitSize ∧
      quorumBelow PQ.toPriorityQueueOps (PQ.ofVotes (votes.map fun v => (v.writePrice, v.weight)))
        self.nShards = .ok params.writePricePerUnitSize ∧
      self' = { self with nextEpochPublicKeys := publicKeys, nextCommittee := some committee
                          nextEpochParams := some params } := by
  unfold selectCommitteeAndCalculateVotes at h
  rw [ite_throw_bind_eq_ok] at h
  obtain ⟨hnone, h⟩ := h
  obtain ⟨committee, hcommittee, h⟩ := bind_eq_ok.mp h
  obtain ⟨votes, hvotes, h⟩ := bind_eq_ok.mp h
  obtain ⟨publicKeys, hkeys, h⟩ := bind_eq_ok.mp h
  obtain ⟨capacity, hcapacity, h⟩ := bind_eq_ok.mp h
  obtain ⟨storagePrice, hstorage, h⟩ := bind_eq_ok.mp h
  obtain ⟨writePrice, hwrite, h⟩ := bind_eq_ok.mp h
  cases h
  refine ⟨Option.isNone_iff_eq_none.mp hnone, committee, votes, publicKeys,
    ⟨capacity, storagePrice, writePrice⟩, hcommittee, hvotes, ?_, hcapacity, hstorage, hwrite, rfl⟩
  exact (VecMap.fromKeysValues_eq_ok (mapError_eq_ok.mp hkeys)).2

/-- A member's vote is its pool's, weighted by its shards, of which it has one at least. -/
theorem memberVote_eq_ok {entry : ObjectID × List Nat} {vote : MemberVote}
    (h : self.memberVote entry = .ok vote) :
    ∃ pool, self.pools.get? entry.1 = some pool ∧ 0 < entry.2.length ∧
      vote = ⟨pool.nextEpochPublicKey, pool.writePrice, pool.storagePrice,
        min (pool.nodeCapacity * self.nShards / entry.2.length) u64Max, entry.2.length⟩ := by
  unfold memberVote at h
  obtain ⟨pool, hpool, h⟩ := bind_eq_ok.mp h
  obtain ⟨hpos, h⟩ := ite_throw_bind_eq_ok.mp h
  exact ⟨pool, VecMap.get?_of_get (mapError_eq_ok.mp hpool), hpos, (Except.ok.inj h).symm⟩

/-- The votes of the members of a committee are weighted by their shards. -/
theorem weights_of_memberVotes {members : List (ObjectID × List Nat)} {votes : List MemberVote}
    (h : List.Forall₂ (fun entry vote => self.memberVote entry = .ok vote) members votes) :
    votes.map MemberVote.weight = members.map fun entry => entry.2.length := by
  induction h with
  | nil => rfl
  | cons hvote _ ih =>
    obtain ⟨-, -, -, rfl⟩ := memberVote_eq_ok hvote
    rw [List.map_cons, List.map_cons, ih]

theorem votingEnd_eq_ok {now : Nat} (h : self.votingEnd PQ now = .ok self') :
    ∃ lastEpochChange self₁, self.epochState = .epochChangeDone lastEpochChange ∧
      self.selectCommitteeAndCalculateVotes PQ = .ok self₁ ∧
      self' = { self₁ with epochState := .nextParamsSelected lastEpochChange } := by
  unfold votingEnd at h
  dsimp only at h
  split at h
  case h_2 => cases h
  case h_1 lastEpochChange hdone =>
  rw [pure_bind] at h
  -- the time check passes, and the committee is selected
  have hselect : ∃ self₁, self.selectCommitteeAndCalculateVotes PQ = .ok self₁ ∧
      self' = { self₁ with epochState := .nextParamsSelected lastEpochChange } := by
    split at h
    · obtain ⟨paramSelection, -, h⟩ := bind_eq_ok.mp h
      obtain ⟨-, h⟩ := ite_throw_bind_eq_ok.mp h
      obtain ⟨self₁, hselect, h⟩ := bind_eq_ok.mp h
      exact ⟨self₁, hselect, (Except.ok.inj h).symm⟩
    · obtain ⟨-, h⟩ := ite_throw_bind_eq_ok.mp h
      obtain ⟨self₁, hselect, h⟩ := bind_eq_ok.mp h
      exact ⟨self₁, hselect, (Except.ok.inj h).symm⟩
  obtain ⟨self₁, hselect, rfl⟩ := hselect
  exact ⟨lastEpochChange, self₁, hdone, hselect, rfl⟩

theorem advanceEpoch_eq_ok {rewards : VecMap ObjectID Nat} (h : self.advanceEpoch rewards = .ok self') :
    ∃ committee pools activeSet, self.nextCommittee = some committee ∧ self.epoch + 1 ≤ u32Max ∧
      self' = { self with epoch := self.epoch + 1, previousCommittee := self.committee, committee
                          nextCommittee := none, epochState := .epochChangeSync 0, pools, activeSet } := by
  unfold advanceEpoch at h
  dsimp only at h
  split at h
  case h_2 => cases h
  case h_1 committee hnext =>
  rw [pure_bind] at h
  obtain ⟨epoch, hepoch, h⟩ := bind_eq_ok.mp h
  obtain ⟨hfit, rfl⟩ := u32Add_eq_ok.mp hepoch
  obtain ⟨acc, -, h⟩ := bind_eq_ok.mp h
  obtain ⟨⟨pools, activeSet⟩, -, h⟩ := bind_eq_ok.mp h
  exact ⟨committee, pools, activeSet, hnext, hfit, (Except.ok.inj h).symm⟩

theorem initiateEpochChange_eq_ok {now : Nat} {rewards : VecMap ObjectID Nat}
    (h : self.initiateEpochChange now rewards = .ok self') :
    ∃ lastEpochChange, self.epochState = .nextParamsSelected lastEpochChange ∧
      self.advanceEpoch rewards = .ok self' := by
  unfold initiateEpochChange at h
  dsimp only at h
  split at h
  case h_2 => cases h
  case h_1 lastEpochChange hselected =>
  rw [pure_bind] at h
  refine ⟨lastEpochChange, hselected, ?_⟩
  split at h
  · exact (ite_throw_bind_eq_ok.mp h).2
  · obtain ⟨epochEnd, -, h⟩ := bind_eq_ok.mp h
    exact (ite_throw_bind_eq_ok.mp h).2

theorem epochSyncDone_eq_ok {nodeId : ObjectID} {lastEpochSyncDone epoch now : Nat}
    {r : StakingInner × Nat} (h : self.epochSyncDone nodeId lastEpochSyncDone epoch now = .ok r) :
    epoch = self.epoch ∧ lastEpochSyncDone < self.epoch ∧ r.2 = self.epoch ∧
      ∃ shards, self.committee.inner.get? nodeId = some shards ∧
        ((∃ weight, self.epochState = .epochChangeSync weight ∧ weight + shards.length ≤ u16Max ∧
            ((IsQuorum self.nShards (weight + shards.length) ∧
                r.1 = { self with epochState := .epochChangeDone now }) ∨
              (¬ IsQuorum self.nShards (weight + shards.length) ∧
                r.1 = { self with epochState := .epochChangeSync (weight + shards.length) }))) ∨
          ((∀ weight, self.epochState ≠ .epochChangeSync weight) ∧ r.1 = self)) := by
  unfold epochSyncDone at h
  obtain ⟨hepoch, h⟩ := ite_throw_bind_eq_ok.mp h
  obtain ⟨hlast, h⟩ := ite_throw_bind_eq_ok.mp h
  obtain ⟨-, h⟩ := ite_throw_bind_eq_ok.mp h
  obtain ⟨shards, hshards, h⟩ := bind_eq_ok.mp h
  have hget : self.committee.inner.get? nodeId = some shards :=
    VecMap.get?_of_get (mapError_eq_ok.mp hshards)
  refine ⟨hepoch, hlast, ?_⟩
  split at h
  case h_1 weight hsync =>
    obtain ⟨cast, hcast, h⟩ := bind_eq_ok.mp h
    obtain ⟨-, rfl⟩ := u16Cast_eq_ok.mp hcast
    obtain ⟨weight', hweight, h⟩ := bind_eq_ok.mp h
    obtain ⟨hfit, rfl⟩ := u16Add_eq_ok.mp hweight
    obtain ⟨quorum, hquorum, h⟩ := bind_eq_ok.mp h
    have hq := isQuorumForNShards_eq_ok hquorum
    split at h
    case isTrue htrue =>
      cases h
      refine ⟨rfl, shards, hget, .inl ⟨weight, hsync, hfit, .inl ⟨?_, rfl⟩⟩⟩
      simpa [htrue] using hq
    case isFalse hfalse =>
      cases h
      refine ⟨rfl, shards, hget, .inl ⟨weight, hsync, hfit, .inr ⟨?_, rfl⟩⟩⟩
      simpa [hfalse] using hq
  case h_2 hnot =>
    cases h
    exact ⟨rfl, shards, hget, .inr ⟨hnot, rfl⟩⟩

/-- `next_bls_committee` takes the public keys for the next epoch out and changes nothing
else. -/
theorem nextBlsCommittee_eq_ok {r : StakingInner × BlsCommittee}
    (h : self.nextBlsCommittee = .ok r) :
    r.1 = { self with nextEpochPublicKeys := VecMap.empty } := by
  unfold nextBlsCommittee at h
  dsimp only at h
  split at h
  case h_2 => cases h
  case h_1 committee _ =>
  rw [pure_bind] at h
  obtain ⟨members, -, h⟩ := bind_eq_ok.mp h
  obtain ⟨epoch, -, h⟩ := bind_eq_ok.mp h
  split at h
  case h_2 => cases h
  case h_1 bls _ =>
  cases h
  rfl

theorem blsMemberAt_of_lt {members : List (ObjectID × List Nat)} {pkIds : List ObjectID} {i : Nat}
    (hi : i < members.length) (hpk : pkIds[i]? = some members[i].1)
    (hfit : members[i].2.length ≤ u16Max) :
    blsMemberAt members pkIds i = .ok ⟨members[i].2.length, members[i].1⟩ := by
  have hcast : u16Cast members[i].2.length = .ok members[i].2.length := u16Cast_eq_ok.mpr ⟨hfit, rfl⟩
  simp only [blsMemberAt, List.getElem?_eq_getElem hi, hpk, pure_bind, hcast, ok_bind]
  rw [if_pos trivial]
  rfl

theorem nextBlsCommittee_of_selected {committee : Committee}
    (hnext : self.nextCommittee = some committee)
    (hkeys : self.nextEpochPublicKeys.keys = committee.inner.keys)
    (hpos : ∀ e ∈ committee.inner.contents, e.2 ≠ [])
    (hsum : (committee.inner.contents.map fun e => e.2.length).sum ≤ u16Max)
    (hepoch : self.epoch + 1 ≤ u32Max) :
    ∃ bls, self.nextBlsCommittee = .ok ({ self with nextEpochPublicKeys := VecMap.empty }, bls) ∧
      bls.epoch = self.epoch + 1 ∧
      bls.members = committee.inner.contents.map fun e => ⟨e.2.length, e.1⟩ := by
  set members := committee.inner.contents.map fun e => (⟨e.2.length, e.1⟩ : BlsCommitteeMember)
  -- every index passes the checks: the keys are the members', in order
  have hmembers : (List.range committee.inner.length).mapM
      (blsMemberAt committee.inner.contents self.nextEpochPublicKeys.keys) = .ok members := by
    refine mapM_range_length_eq_ok committee.inner.contents fun i hi => blsMemberAt_of_lt hi ?_ ?_
    · rw [hkeys, VecMap.keys, List.getElem?_map, List.getElem?_eq_getElem hi]
      rfl
    · have hle := List.le_sum_of_mem (List.mem_map_of_mem (f := fun e : ObjectID × List Nat => e.2.length)
        (List.getElem_mem hi))
      omega
  have hvalid : (∀ m ∈ members, 0 < m.weight) ∧ (members.map BlsCommitteeMember.weight).sum ≤ u16Max := by
    refine ⟨fun m hm => ?_, ?_⟩
    · obtain ⟨e, he, rfl⟩ := List.mem_map.mp hm
      exact List.length_pos_of_ne_nil (hpos e he)
    · simpa [members, Function.comp_def] using hsum
  refine ⟨⟨members, self.epoch + 1, hvalid.1, hvalid.2⟩, ?_, rfl, rfl⟩
  have hu32 : u32Add self.epoch 1 = .ok (self.epoch + 1) := u32Add_eq_ok.mpr ⟨hepoch, rfl⟩
  simp only [nextBlsCommittee, hnext, pure_bind, hmembers, ok_bind, hu32,
    BlsCommittee.newBlsCommittee, dif_pos hvalid]
  rfl

/-- `epoch_sync_done` of a member whose cap is behind the epoch does not abort when the weight
of the sync with the member's shards fits a `u16`. -/
theorem epochSyncDone_isOk {nodeId : ObjectID} {shards : List Nat} {last now : Nat}
    (hlast : last < self.epoch) (hmem : self.committee.inner.get? nodeId = some shards)
    (hfit : shards.length ≤ u16Max) (hn : 2 * self.nShards + 1 ≤ u64Max)
    (hweight : ∀ w, self.epochState = .epochChangeSync w → w + shards.length ≤ u16Max) :
    ∃ r, self.epochSyncDone nodeId last self.epoch now = .ok r ∧ r.2 = self.epoch := by
  have hcontains : self.committee.contains nodeId = true := by
    simp [Committee.contains, VecMap.contains, hmem]
  have hshards : self.committee.shards nodeId = .ok shards := by
    simp [Committee.shards, liftVecMap, VecMap.get, hmem]
  have hcast : u16Cast shards.length = .ok shards.length := u16Cast_eq_ok.mpr ⟨hfit, rfl⟩
  unfold epochSyncDone
  rw [if_pos rfl, if_pos hlast, if_pos hcontains, hshards, ok_bind]
  cases hstate : self.epochState with
  | epochChangeSync w =>
    have hsum : w + shards.length ≤ u16Max := hweight w hstate
    have hadd : u16Add w shards.length = .ok (w + shards.length) := u16Add_eq_ok.mpr ⟨hsum, rfl⟩
    have hquorum : self.isQuorum (w + shards.length) =
        .ok (decide (IsQuorum self.nShards (w + shards.length))) :=
      isQuorumForNShards_eq (by unfold u16Max at hsum; unfold u64Max; omega) hn
    simp only [hcast, ok_bind, hadd, hquorum]
    split <;> exact ⟨_, rfl, rfl⟩
  | epochChangeDone t => exact ⟨_, rfl, rfl⟩
  | nextParamsSelected t => exact ⟨_, rfl, rfl⟩

theorem computeNextCommittee_wellFormed {committee : Committee}
    (hcur : self.committee.inner.contents = [] ∨ self.committee.WellFormed self.nShards)
    (hfit : self.nShards ≤ u16Max) (h : self.computeNextCommittee = .ok committee) :
    committee.WellFormed self.nShards := by
  obtain ⟨distribution, hdist, h⟩ := bind_eq_ok.mp h
  obtain ⟨hsum, hpos⟩ := apportionment_eq_ok hdist
  split at h
  case isTrue =>
    -- the first committee numbers the shards node after node
    obtain ⟨c, hc, hsorted, hshards, hcounts⟩ :=
      Committee.initializeCommittee_spec distribution (by rw [hsum]; exact hfit)
    rw [hc] at h
    cases h
    exact ⟨hsorted, Committee.nonempty_of_counts hcounts hpos, by rw [hshards, hsum]⟩
  case isFalse hsize =>
    -- a committee with members is well formed, and moves to the new numbers
    have hwf : self.committee.WellFormed self.nShards := by
      refine hcur.resolve_left fun hnil => hsize ?_
      simp [Committee.size, VecMap.length, hnil]
    obtain ⟨c, hc, hsorted, hcounts, hpart, -⟩ := Committee.transition_spec hwf.partition hsum hfit
    rw [hc] at h
    cases h
    refine ⟨hsorted, Committee.nonempty_of_counts hcounts fun e he => ?_, hpart⟩
    simpa using (List.mem_filter.mp he).2

end Calls

end StakingInner

/-! ## Runs of the staking object -/

/-- The staking object with the objects its calls take and hand out: the `StorageNodeCap` of
each registered node, by node ID, with its `last_epoch_sync_done`, and the staked WAL the
stakers hold. -/
structure StakingRun where
  inner : StakingInner
  caps : VecMap ObjectID Nat
  stakes : List StakedWal

/-- The calls of `walrus::staking` on the staking object. A node's calls present its cap;
staked WAL is named by its position among the live ones. -/
inductive StakingCall
  | registerCandidate (nodeId : ObjectID)
      (commissionRate storagePrice writePrice nodeCapacity publicKey : Nat)
  | setNextCommission (nodeId : ObjectID) (commissionRate : Nat)
  | setStoragePriceVote (nodeId : ObjectID) (storagePrice : Nat)
  | setWritePriceVote (nodeId : ObjectID) (writePrice : Nat)
  | setNodeCapacityVote (nodeId : ObjectID) (nodeCapacity : Nat)
  | setNextPublicKey (nodeId : ObjectID) (publicKey : Nat)
  | stakeWithPool (toStake : Nat) (nodeId : ObjectID)
  | requestWithdrawStake (i : Nat)
  | withdrawStake (i : Nat)
  | tryJoinActiveSet (nodeId : ObjectID)
  | votingEnd (now : Nat)
  | initiateEpochChange (now : Nat) (rewards : VecMap ObjectID Nat)
  | epochSyncDone (nodeId : ObjectID) (epoch now : Nat)

namespace StakingRun

variable {Q : Type} (PQ : PriorityQueue Q)

/-- The `last_epoch_sync_done` of the node's cap; a node without a cap cannot call. -/
def cap (s : StakingRun) (nodeId : ObjectID) : Except Abort Nat :=
  match s.caps.get? nodeId with
  | some lastEpochSyncDone => pure lastEpochSyncDone
  | none => throw .noSuchObject

/-- The staked WAL at position `i`. -/
def getStake (s : StakingRun) (i : Nat) : Except Abort StakedWal :=
  match s.stakes[i]? with
  | some stakedWal => pure stakedWal
  | none => throw .noSuchObject

/-- A call that changes the staking object only, made with the node's cap. -/
def withCap (s : StakingRun) (nodeId : ObjectID)
    (f : StakingInner → Except Abort StakingInner) : Except Abort StakingRun := do
  let _ ← s.cap nodeId
  let inner ← f s.inner
  pure { s with inner }

/-- One call, as a transaction: an abort leaves every object as it was. -/
def step (s : StakingRun) : StakingCall → Except Abort StakingRun
  | .registerCandidate nodeId commissionRate storagePrice writePrice nodeCapacity publicKey => do
    let inner ← s.inner.createPool nodeId commissionRate storagePrice writePrice nodeCapacity
      publicKey
    -- `storage_node::new_cap`
    let caps ← liftVecMap (s.caps.insert nodeId 0)
    pure { s with inner, caps }
  | .setNextCommission nodeId commissionRate =>
    s.withCap nodeId fun inner => inner.setNextCommission nodeId commissionRate
  | .setStoragePriceVote nodeId storagePrice =>
    s.withCap nodeId fun inner => inner.setStoragePriceVote nodeId storagePrice
  | .setWritePriceVote nodeId writePrice =>
    s.withCap nodeId fun inner => inner.setWritePriceVote nodeId writePrice
  | .setNodeCapacityVote nodeId nodeCapacity =>
    s.withCap nodeId fun inner => inner.setNodeCapacityVote nodeId nodeCapacity
  | .setNextPublicKey nodeId publicKey =>
    s.withCap nodeId fun inner => inner.setNextPublicKey nodeId publicKey
  | .stakeWithPool toStake nodeId => do
    let (inner, stakedWal) ← s.inner.stakeWithPool toStake nodeId
    pure { s with inner, stakes := s.stakes ++ [stakedWal] }
  | .requestWithdrawStake i => do
    let stakedWal ← s.getStake i
    let (inner, stakedWal) ← s.inner.requestWithdrawStake stakedWal
    pure { s with inner, stakes := s.stakes.set i stakedWal }
  | .withdrawStake i => do
    let stakedWal ← s.getStake i
    let (inner, _) ← s.inner.withdrawStake stakedWal
    pure { s with inner, stakes := s.stakes.eraseIdx i }
  | .tryJoinActiveSet nodeId => s.withCap nodeId fun inner => inner.tryJoinActiveSet nodeId
  | .votingEnd now => do
    let inner ← s.inner.votingEnd PQ now
    pure { s with inner }
  | .initiateEpochChange now rewards => do
    -- `staking::initiate_epoch_change`: the committee and the parameters of the next epoch go
    -- to the system object first
    let (inner, _) ← s.inner.nextBlsCommittee
    let _ ← match inner.nextEpochParams with
      | some params => pure params
      | none => throw .optionNotSet
    let inner ← inner.initiateEpochChange now rewards
    pure { s with inner }
  | .epochSyncDone nodeId epoch now => do
    let lastEpochSyncDone ← s.cap nodeId
    let (inner, lastEpochSyncDone) ← s.inner.epochSyncDone nodeId lastEpochSyncDone epoch now
    let caps ← liftVecMap (s.caps.set nodeId lastEpochSyncDone)
    pure { s with inner, caps }

/-- The state after the calls, each committed when it does not abort. -/
def run (s : StakingRun) (calls : List StakingCall) : StakingRun :=
  Machine.run (commit fun s x => (s.step PQ x).toOption) s calls

end StakingRun

end Walrus.Staking
