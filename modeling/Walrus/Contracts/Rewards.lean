import Mathlib
import Walrus.Contracts.StorageAccounting
import Walrus.Contracts.BlsAggregate
import Walrus.Machine.Shares

/-! # The rewards of an epoch

The rewards half of `walrus::storage_accounting` and of `advance_epoch` in
`walrus::system_state_inner`. Every entry of the future accounting ring buffer holds the
rewards paid for its epoch, the value of a `Balance<WAL>`. At an epoch change the entry of
the ending epoch leaves the ring, and its rewards are split among the nodes of the old
committee, each in proportion to its shards times the data it stored: the used capacity of
the epoch, less the size of the node's deny list. Each share is rounded down, and what is left
over joins the rewards of the new current epoch.

The ring buffer here is the one of `StorageAccounting` with the rewards of its entries;
`toStorage` forgets them, and `ringPopExpand_toStorage` shows that the storage model is this
one seen without its rewards. The storage side of the epoch change, the used and total
capacities, is `StorageSystem.advanceEpoch`, and the event blob state is `EventBlob`;
`RewardSystem.advanceEpoch` is the rest.

What the distribution hands out is `rewardShare`, by `storedWeighted`; the shares never
exhaust the balance (`Machine.Shares`), so no split aborts once the products fit in `u128`.
-/

namespace Walrus.System

open Machine

namespace Rewards

/-- `FutureAccounting`, its rewards by the value of the balance. -/
structure FutureAccounting where
  epoch : Nat
  usedCapacity : Nat
  rewardsToDistribute : Nat
deriving DecidableEq, Repr

namespace FutureAccounting

/-- The entry as the storage accounting sees it. -/
def toStorage (self : FutureAccounting) : System.FutureAccounting :=
  ⟨self.epoch, self.usedCapacity⟩

/-- The entry once a balance of value `amount` joins its rewards. -/
def addRewards (amount : Nat) (self : FutureAccounting) : FutureAccounting :=
  { self with rewardsToDistribute := self.rewardsToDistribute + amount }

end FutureAccounting

/-- `FutureAccountingRingBuffer`, with the rewards of its entries. -/
structure FutureAccountingRingBuffer where
  currentIndex : Nat
  length : Nat
  ringBuffer : List FutureAccounting

namespace FutureAccountingRingBuffer

/-- The ring buffer as the storage accounting sees it. -/
def toStorage (self : FutureAccountingRingBuffer) : System.FutureAccountingRingBuffer :=
  ⟨self.currentIndex, self.length, self.ringBuffer.map FutureAccounting.toStorage⟩

/-- `ring_new`: the entries of epochs `0` to `length - 1`, nothing used and no rewards. -/
def ringNew (length : Nat) : FutureAccountingRingBuffer :=
  ⟨0, length, (List.range length).map fun epoch => ⟨epoch, 0, 0⟩⟩

/-- `ring_lookup`, at the vector index the storage accounting computes. -/
def ringLookup (self : FutureAccountingRingBuffer) (epochsInFuture : Nat) :
    Except Abort FutureAccounting := do
  let actualIndex ← self.toStorage.actualIndex epochsInFuture
  match self.ringBuffer[actualIndex]? with
  | some accounting => return accounting
  | none => throw .indexOutOfBounds

/-- `ring_lookup_mut(epochs_in_future).rewards_balance().join(balance)`, for a balance of
value `amount`. -/
def joinRewards (self : FutureAccountingRingBuffer) (epochsInFuture amount : Nat) :
    Except Abort FutureAccountingRingBuffer := do
  let actualIndex ← self.toStorage.actualIndex epochsInFuture
  match self.ringBuffer[actualIndex]? with
  | some accounting =>
    -- `balance::join` adds the values in `u64`
    let rewardsToDistribute ← u64Add accounting.rewardsToDistribute amount
    return { self with
      ringBuffer := self.ringBuffer.set actualIndex { accounting with rewardsToDistribute } }
  | none => throw .indexOutOfBounds

/-- `ring_pop_expand`: the entry of the current epoch leaves, with its rewards, and an empty
entry for the epoch `length` epochs after it takes its slot. -/
def ringPopExpand (self : FutureAccountingRingBuffer) :
    Except Abort (FutureAccounting × FutureAccountingRingBuffer) := do
  let currentIndex := self.currentIndex
  let some current := self.ringBuffer[currentIndex]? | throw .indexOutOfBounds
  let epoch ← u32Add current.epoch self.length
  let some (accounting, ringBuffer) :=
      swapRemove (self.ringBuffer ++ [⟨epoch, 0, 0⟩]) currentIndex
    | throw .indexOutOfBounds
  let nextIndex ← u32Add currentIndex 1
  -- `% self.length` aborts on a zero length
  if self.length = 0 then throw .arithmeticError
  return (accounting, { self with ringBuffer, currentIndex := nextIndex % self.length })

/-- The entries from the current epoch on, in order. -/
def window (self : FutureAccountingRingBuffer) : List FutureAccounting :=
  self.ringBuffer.rotate self.currentIndex

end FutureAccountingRingBuffer

/-! ## The window of the ring -/

namespace FutureAccountingRingBuffer

variable {r : FutureAccountingRingBuffer}

@[simp] theorem length_window (r : FutureAccountingRingBuffer) :
    r.window.length = r.ringBuffer.length :=
  List.length_rotate _ _

/-- The vector entry of the window position `k`. -/
theorem getElem?_ringBuffer {k : Nat} (hlen : r.ringBuffer.length = r.length)
    (hk : k < r.length) : r.ringBuffer[(k + r.currentIndex) % r.length]? = r.window[k]? := by
  unfold window
  rw [List.getElem?_rotate (by omega), hlen]

/-- `ring_pop_expand` on a ring whose epochs and index fit in `u32`: the first entry of the
window leaves, and an empty entry `length` epochs after it is appended. -/
theorem ringPopExpand_isOk (hlen : r.ringBuffer.length = r.length)
    (hcur : r.currentIndex < r.length) {acc : FutureAccounting} (hacc : r.window[0]? = some acc)
    (hepoch : acc.epoch + r.length ≤ u32Max) (hnext : r.currentIndex + 1 ≤ u32Max) :
    ∃ r', r.ringPopExpand = .ok (acc, r') ∧
      r'.window = r.window.tail ++ [⟨acc.epoch + r.length, 0, 0⟩] ∧
      r'.length = r.length ∧ r'.ringBuffer.length = r.length ∧ r'.currentIndex < r'.length := by
  have hci : r.currentIndex < r.ringBuffer.length := hlen ▸ hcur
  -- the current entry of the vector is the first of the window
  have hcurEq : r.ringBuffer[r.currentIndex]? = some acc := by
    rw [← hacc, ← getElem?_ringBuffer hlen (by omega), Nat.zero_add, Nat.mod_eq_of_lt hcur]
  have hcurGet : r.ringBuffer[r.currentIndex] = acc :=
    Option.some.inj ((List.getElem?_eq_getElem hci).symm.trans hcurEq)
  have hpos : r.length ≠ 0 := by omega
  refine ⟨⟨(r.currentIndex + 1) % r.length, r.length,
    r.ringBuffer.set r.currentIndex ⟨acc.epoch + r.length, 0, 0⟩⟩, ?_, ?_, rfl, by simp [hlen],
    Nat.mod_lt _ (by omega)⟩
  · unfold ringPopExpand
    simp only [hcurEq, bind, Except.bind, u32Add, if_pos hepoch, if_pos hnext,
      swapRemove_concat _ hci, hcurGet, hpos, if_false, pure, Except.pure]
  · -- the vector is written at the current index and the start moves one on
    have hrot := rotate_set_succ (⟨acc.epoch + r.length, 0, 0⟩ : FutureAccounting) hci
    rw [hlen] at hrot
    exact hrot

/-- A balance joining the rewards of the window position `k`, when the sum fits in `u64`. -/
theorem joinRewards_isOk (hlen : r.ringBuffer.length = r.length) {k amount : Nat}
    {a : FutureAccounting} (ha : r.window[k]? = some a)
    (hfit : a.rewardsToDistribute + amount ≤ u64Max) :
    ∃ r', r.joinRewards k amount = .ok r' ∧
      r'.window = r.window.modify k (FutureAccounting.addRewards amount) ∧
      r'.length = r.length ∧ r'.ringBuffer.length = r.length ∧
      r'.currentIndex = r.currentIndex := by
  have hk : k < r.length := by
    have := (List.getElem?_eq_some_iff.mp ha).1
    simpa [hlen] using this
  have hidx : r.toStorage.actualIndex k = .ok ((k + r.currentIndex) % r.length) :=
    FutureAccountingRingBuffer.actualIndex_eq_ok.mpr ⟨hk, rfl⟩
  have hentry : r.ringBuffer[(k + r.currentIndex) % r.length]? = some a :=
    (getElem?_ringBuffer hlen hk).trans ha
  refine ⟨⟨r.currentIndex, r.length,
    r.ringBuffer.set ((k + r.currentIndex) % r.length) (a.addRewards amount)⟩,
    ?_, ?_, rfl, by simp [hlen], rfl⟩
  · unfold joinRewards
    simp only [hidx, hentry, bind, Except.bind, u64Add, if_pos hfit, pure, Except.pure]
    rfl
  · -- the vector is written at the index of the window position `k`
    have hrot := rotate_set_mod r.currentIndex (a.addRewards amount) (hlen ▸ hk)
    rw [hlen] at hrot
    exact hrot.trans (set_eq_modify (FutureAccounting.addRewards amount) ha)

/-- A join that succeeds adds to the rewards of the window position `k`, and nothing else. -/
theorem joinRewards_eq_ok (hlen : r.ringBuffer.length = r.length) {k amount : Nat}
    {r' : FutureAccountingRingBuffer} (h : r.joinRewards k amount = .ok r') :
    ∃ a, r.window[k]? = some a ∧ a.rewardsToDistribute + amount ≤ u64Max ∧
      r'.window = r.window.modify k (FutureAccounting.addRewards amount) ∧
      r'.length = r.length ∧ r'.ringBuffer.length = r.length ∧
      r'.currentIndex = r.currentIndex := by
  have h₀ := h
  unfold joinRewards at h
  rcases bind_eq_ok.mp h with ⟨idx, hidx, h⟩
  rcases System.FutureAccountingRingBuffer.actualIndex_eq_ok.mp hidx with ⟨hk, rfl⟩
  rw [show r.toStorage.length = r.length from rfl, show r.toStorage.currentIndex =
    r.currentIndex from rfl, getElem?_ringBuffer hlen hk] at h
  cases ha : r.window[k]? with
  | none => simp [ha, throw, throwThe, MonadExceptOf.throw] at h
  | some a =>
    simp only [ha] at h
    rcases bind_eq_ok.mp h with ⟨v, hv, -⟩
    rcases u64Add_eq_ok.mp hv with ⟨hfit, -⟩
    -- the guards of the call hold, so it is the join the forward lemma describes
    rcases joinRewards_isOk hlen ha hfit with ⟨r'', h'', hwindow, hlength, hbuffer, hcurrent⟩
    have heq : r'' = r' := Except.ok.inj (h''.symm.trans h₀)
    subst heq
    exact ⟨a, rfl, hfit, hwindow, hlength, hbuffer, hcurrent⟩

/-- A pop that succeeds removes the first entry of the window and appends an empty one. -/
theorem ringPopExpand_eq_ok (hlen : r.ringBuffer.length = r.length)
    {acc : FutureAccounting} {r' : FutureAccountingRingBuffer}
    (h : r.ringPopExpand = .ok (acc, r')) :
    r.window[0]? = some acc ∧ acc.epoch + r.length ≤ u32Max ∧
      r'.window = r.window.tail ++ [⟨acc.epoch + r.length, 0, 0⟩] ∧
      r'.length = r.length ∧ r'.ringBuffer.length = r.length ∧ r'.currentIndex < r'.length := by
  have h₀ := h
  unfold ringPopExpand at h
  cases hcur : r.ringBuffer[r.currentIndex]? with
  | none => simp [hcur, throw, throwThe, MonadExceptOf.throw] at h
  | some current =>
    have hci : r.currentIndex < r.length := hlen ▸ (List.getElem?_eq_some_iff.mp hcur).1
    simp only [hcur] at h
    rcases bind_eq_ok.mp h with ⟨ep, hep, h⟩
    rcases u32Add_eq_ok.mp hep with ⟨hepoch, -⟩
    rw [swapRemove_concat _ (hlen ▸ hci)] at h
    rcases bind_eq_ok.mp h with ⟨nx, hnx, -⟩
    rcases u32Add_eq_ok.mp hnx with ⟨hnext, -⟩
    -- the current entry is the first of the window
    have hfirst : r.window[0]? = some current := by
      rw [← getElem?_ringBuffer hlen (by omega), Nat.zero_add, Nat.mod_eq_of_lt hci, hcur]
    rcases ringPopExpand_isOk hlen hci hfirst hepoch hnext with
      ⟨r'', h'', hwindow, hlength, hbuffer, hcurrent⟩
    have heq : (current, r'') = (acc, r') := Except.ok.inj (h''.symm.trans h₀)
    simp only [Prod.mk.injEq] at heq
    rcases heq with ⟨rfl, rfl⟩
    exact ⟨hfirst, hepoch, hwindow, hlength, hbuffer, hcurrent⟩

/-- The storage accounting's ring buffer is this one without its rewards: popping the
current entry commutes with forgetting them, aborts included. -/
theorem ringPopExpand_toStorage (r : FutureAccountingRingBuffer) :
    r.toStorage.ringPopExpand = r.ringPopExpand.map fun p => (p.1.toStorage, p.2.toStorage) := by
  unfold ringPopExpand System.FutureAccountingRingBuffer.ringPopExpand
  simp only [toStorage, List.getElem?_map]
  cases hcur : r.ringBuffer[r.currentIndex]? with
  | none => rfl
  | some current =>
    have hci : r.currentIndex < r.ringBuffer.length := (List.getElem?_eq_some_iff.mp hcur).1
    have hci' : r.currentIndex < (r.ringBuffer.map FutureAccounting.toStorage).length := by
      simpa using hci
    simp only [Option.map_some, bind, Except.bind, u32Add, FutureAccounting.toStorage]
    -- the two pops abort on the same bounds, and otherwise return the same entry
    by_cases hepoch : current.epoch + r.length ≤ u32Max
    case neg => simp [hepoch, Except.map]
    case pos =>
      by_cases hnext : r.currentIndex + 1 ≤ u32Max
      case neg =>
        simp [hepoch, hnext, swapRemove_concat _ hci, swapRemove_concat _ hci', Except.map]
      case pos =>
        by_cases hzero : r.length = 0
        case pos =>
          have hepoch' : current.epoch ≤ u32Max := by omega
          simp [hepoch', hnext, hzero, swapRemove_concat _ hci, swapRemove_concat _ hci',
            Except.map, throw, throwThe, MonadExceptOf.throw]
        case neg =>
          simp [hepoch, hnext, hzero, swapRemove_concat _ hci, swapRemove_concat _ hci',
            Except.map, List.map_set, FutureAccounting.toStorage, pure, Except.pure]

end FutureAccountingRingBuffer

/-- Rewards joining the first entry of a window add to its total. -/
theorem sum_rewards_modify_zero {l : List FutureAccounting} (hl : l ≠ []) (amount : Nat) :
    ((l.modify 0 (FutureAccounting.addRewards amount)).map
      FutureAccounting.rewardsToDistribute).sum =
      (l.map FutureAccounting.rewardsToDistribute).sum + amount := by
  cases l with
  | nil => exact absurd rfl hl
  | cons a l =>
    simp only [List.modify_zero_cons, List.map_cons, List.sum_cons,
      FutureAccounting.addRewards]
    omega

/-! ## The distribution -/

/-- One round of the `zip_do!` loop of `advance_epoch`, at a node and its weight: its stored
size, weighted by its shards, is added to the total and pushed. -/
def storedStep (denyListSizes : VecMap ObjectID Nat) (oldEpochUsedCapacity : Nat)
    (acc : List Nat × Nat) (entry : ObjectID × Nat) : Except Abort (List Nat × Nat) := do
  let denyListSize := (denyListSizes.get? entry.1).getD 0
  -- The deny list size cannot exceed the used capacity.
  let denyListSize := min denyListSize oldEpochUsedCapacity
  -- The total encoded size of all blobs excluding the ones on the nodes deny list.
  let stored ← checkedSub oldEpochUsedCapacity denyListSize
  let storedWeighted ← checkedMul u128Max entry.2 stored
  let totalStored ← u128Add acc.2 storedWeighted
  pure (acc.1 ++ [storedWeighted], totalStored)

/-- One round of the `map!` over the weighted stored sizes: the node's share is split off the
rewards, whose value is `acc.1`. -/
def splitStep (totalStored totalRewardsValue : Nat) (acc : Nat × List Nat) (stored : Nat) :
    Except Abort (Nat × List Nat) := do
  let share ← checkedMul u128Max stored totalRewardsValue
  let share ← checkedDiv share totalStored
  let value ← u64Cast share
  let balance ← balanceSplit acc.1 value
  pure (balance, acc.2 ++ [value])

/-- The rewards distribution of `advance_epoch`: the rewards of the old committee's nodes by
node ID, and what is left of the balance `totalRewards`. -/
def distributeRewards (oldCommittee : BlsCommittee) (denyListSizes : VecMap ObjectID Nat)
    (oldEpochUsedCapacity totalRewards : Nat) : Except Abort (VecMap ObjectID Nat × Nat) := do
  let committeeMap ← liftVecMap oldCommittee.toVecMap
  let (nodeIds, weights) := committeeMap.intoKeysValues
  -- `zip_do!` asserts that both vectors have the same length
  unless nodeIds.length = weights.length do throw .lengthMismatch
  let (storedVec, totalStored) ←
    (nodeIds.zip weights).foldlM (storedStep denyListSizes oldEpochUsedCapacity) ([], 0)
  let totalStored := max totalStored 1 -- avoid division by zero
  let totalRewardsValue := totalRewards
  let (leftover, rewardValues) ←
    storedVec.foldlM (splitStep totalStored totalRewardsValue) (totalRewards, [])
  let rewards ← liftVecMap (VecMap.fromKeysValues nodeIds rewardValues)
  pure (rewards, leftover)

/-- The part of `SystemStateInnerV1` that the rewards of an epoch change read and write: the
committee, whose epoch is the system's, the future accounting, and the deny list sizes. -/
structure RewardSystem where
  committee : BlsCommittee
  futureAccounting : FutureAccountingRingBuffer
  denyListSizes : VecMap ObjectID Nat

/-- `advance_epoch`, for the rewards: the new committee takes over, the entry of the old
epoch leaves the ring and its rewards go to the old committee's nodes, the leftover to the new
current epoch. Returns the rewards by node ID. -/
def RewardSystem.advanceEpoch (self : RewardSystem) (newCommittee : BlsCommittee) :
    Except Abort (RewardSystem × VecMap ObjectID Nat) := do
  let oldEpoch := self.committee.epoch
  let newEpoch ← u32Add oldEpoch 1
  let oldCommittee := self.committee
  unless newCommittee.epoch = newEpoch do throw .incorrectCommittee
  let (accountsOldEpoch, futureAccounting) ← self.futureAccounting.ringPopExpand
  -- Make sure that we have the correct epoch
  unless accountsOldEpoch.epoch = oldEpoch do throw .invalidAccountingEpoch
  let (rewards, leftover) ← distributeRewards oldCommittee self.denyListSizes
    accountsOldEpoch.usedCapacity accountsOldEpoch.rewardsToDistribute
  -- add the leftover rewards to the next epoch
  let futureAccounting ← futureAccounting.joinRewards 0 leftover
  pure ({ self with committee := newCommittee, futureAccounting }, rewards)

/-! ## What each node receives -/

section Shares

variable (denyListSizes : VecMap ObjectID Nat) (usedCapacity : Nat)

/-- The stored size of a member weighted by its shards: the used capacity less the member's
deny list, the deny list capped at the used capacity. -/
def storedWeighted (member : BlsCommitteeMember) : Nat :=
  member.weight *
    (usedCapacity - min ((denyListSizes.get? member.nodeId).getD 0) usedCapacity)

/-- The reward of a member: its part of `totalRewards` in proportion to its weighted stored
size among the members', rounded down. -/
def rewardShare (totalRewards : Nat) (members : List BlsCommitteeMember)
    (member : BlsCommitteeMember) : Nat :=
  storedWeighted denyListSizes usedCapacity member * totalRewards /
    max ((members.map (storedWeighted denyListSizes usedCapacity)).sum) 1

theorem storedWeighted_le (member : BlsCommitteeMember) :
    storedWeighted denyListSizes usedCapacity member ≤ member.weight * usedCapacity :=
  Nat.mul_le_mul_left _ (Nat.sub_le _ _)

/-- The weighted stored sizes of a committee add up to at most its shards times the used
capacity. -/
theorem sum_storedWeighted_le (committee : BlsCommittee) :
    (committee.members.map (storedWeighted denyListSizes usedCapacity)).sum ≤
      committee.nShards * usedCapacity := by
  calc (committee.members.map (storedWeighted denyListSizes usedCapacity)).sum
      ≤ (committee.members.map fun m => m.weight * usedCapacity).sum :=
        List.sum_le_sum fun m _ => storedWeighted_le denyListSizes usedCapacity m
    _ = committee.nShards * usedCapacity := by
        rw [List.sum_map_mul_right]
        rfl

/-- The rewards of a committee add up to at most the balance split. -/
theorem sum_rewardShare_le (totalRewards : Nat) (members : List BlsCommitteeMember) :
    (members.map (rewardShare denyListSizes usedCapacity totalRewards members)).sum ≤
      totalRewards := by
  have h := sum_map_mul_div_le (members.map (storedWeighted denyListSizes usedCapacity))
    totalRewards
  rw [List.map_map] at h
  exact h

end Shares

/-! ## The two loops -/

section Loops

variable {denyListSizes : VecMap ObjectID Nat} {usedCapacity : Nat}

/-- The weighted stored size the `zip_do!` loop computes for a member's node ID and weight. -/
theorem storedStep_eq_ok {done : List Nat} {total : Nat} (member : BlsCommitteeMember)
    (hfit : total + storedWeighted denyListSizes usedCapacity member ≤ u128Max) :
    storedStep denyListSizes usedCapacity (done, total) (member.nodeId, member.weight) =
      .ok (done ++ [storedWeighted denyListSizes usedCapacity member],
        total + storedWeighted denyListSizes usedCapacity member) := by
  unfold storedWeighted at hfit ⊢
  have hsub : checkedSub usedCapacity
      (min ((denyListSizes.get? member.nodeId).getD 0) usedCapacity) =
      .ok (usedCapacity - min ((denyListSizes.get? member.nodeId).getD 0) usedCapacity) :=
    checkedSub_eq_ok.mpr ⟨min_le_right _ _, rfl⟩
  have hmul : checkedMul u128Max member.weight
      (usedCapacity - min ((denyListSizes.get? member.nodeId).getD 0) usedCapacity) =
      .ok (member.weight *
        (usedCapacity - min ((denyListSizes.get? member.nodeId).getD 0) usedCapacity)) :=
    checkedMul_eq_ok.mpr ⟨by omega, rfl⟩
  have hadd : u128Add total (member.weight *
      (usedCapacity - min ((denyListSizes.get? member.nodeId).getD 0) usedCapacity)) =
      .ok (total + member.weight *
        (usedCapacity - min ((denyListSizes.get? member.nodeId).getD 0) usedCapacity)) :=
    u128Add_eq_ok.mpr ⟨hfit, rfl⟩
  simp only [storedStep]
  rw [hsub, ok_bind, hmul, ok_bind, hadd, ok_bind]
  rfl

/-- The `zip_do!` loop over the members' node IDs and weights: the weighted stored sizes and
their total, when the total fits in `u128`. -/
theorem foldlM_storedStep (members : List BlsCommitteeMember)
    (hfit : (members.map (storedWeighted denyListSizes usedCapacity)).sum ≤ u128Max) :
    (members.map fun m => (m.nodeId, m.weight)).foldlM
        (storedStep denyListSizes usedCapacity) ([], 0) =
      .ok (members.map (storedWeighted denyListSizes usedCapacity),
        (members.map (storedWeighted denyListSizes usedCapacity)).sum) := by
  rw [List.foldlM_map]
  -- the state after the members `done` is their sizes and the sum of them
  have hloop := @foldlM_eq_ok_of_step Abort (List Nat × Nat) BlsCommitteeMember
    (fun acc m => storedStep denyListSizes usedCapacity acc (m.nodeId, m.weight))
    (fun done => (done.map (storedWeighted denyListSizes usedCapacity),
      (done.map (storedWeighted denyListSizes usedCapacity)).sum)) members
    (by
      intro done x rest hxs
      -- every partial total is at most the whole one
      have hpart := congrArg (fun l => (l.map (storedWeighted denyListSizes usedCapacity)).sum) hxs
      simp only [List.map_append, List.map_cons, List.sum_append, List.sum_cons] at hpart
      rw [storedStep_eq_ok x (by omega), List.map_append, List.sum_append, List.map_singleton,
        List.sum_singleton])
  simpa using hloop

/-- The `map!` of splits over the weighted stored sizes `xs`: each node's share, and what is
left of the balance, when the products fit in `u128` and the shares in the balance. -/
theorem foldlM_splitStep {totalStored totalRewards : Nat} {xs : List Nat}
    (htotal : totalStored ≠ 0) (hfit : ∀ x ∈ xs, x * totalRewards ≤ u128Max)
    (hcast : ∀ x ∈ xs, x * totalRewards / totalStored ≤ u64Max)
    (hsum : (xs.map (· * totalRewards / totalStored)).sum ≤ totalRewards) :
    xs.foldlM (splitStep totalStored totalRewards) (totalRewards, []) =
      .ok (totalRewards - (xs.map (· * totalRewards / totalStored)).sum,
        xs.map (· * totalRewards / totalStored)) := by
  -- the state after the sizes `done` is the balance less their shares, and the shares
  have hloop := @foldlM_eq_ok_of_step Abort (Nat × List Nat) Nat
    (splitStep totalStored totalRewards)
    (fun done => (totalRewards - (done.map (· * totalRewards / totalStored)).sum,
      done.map (· * totalRewards / totalStored))) xs
    (by
      intro done x rest hxs
      have hx : x ∈ xs := by rw [← hxs]; simp
      -- the shares handed out so far and this one are at most the balance
      have hpart := congrArg (fun l => (l.map (· * totalRewards / totalStored)).sum) hxs
      simp only [List.map_append, List.map_cons, List.sum_append, List.sum_cons] at hpart
      have hmul : checkedMul u128Max x totalRewards = .ok (x * totalRewards) :=
        checkedMul_eq_ok.mpr ⟨hfit x hx, rfl⟩
      have hdiv : checkedDiv (x * totalRewards) totalStored =
          .ok (x * totalRewards / totalStored) :=
        checkedDiv_eq_ok.mpr ⟨htotal, rfl⟩
      have hcast' : u64Cast (x * totalRewards / totalStored) =
          .ok (x * totalRewards / totalStored) :=
        u64Cast_eq_ok.mpr ⟨hcast x hx, rfl⟩
      have hsplit : balanceSplit (totalRewards - (done.map (· * totalRewards / totalStored)).sum)
          (x * totalRewards / totalStored) =
          .ok (totalRewards - ((done ++ [x]).map (· * totalRewards / totalStored)).sum) :=
        balanceSplit_eq_ok.mpr ⟨by omega, by simp [Nat.sub_sub]⟩
      simp only [splitStep]
      rw [hmul, ok_bind, hdiv, ok_bind, hcast', ok_bind, hsplit, ok_bind, List.map_append]
      rfl)
  simpa using hloop

end Loops

/-- The weighted stored sizes of a committee fit in `u128`: at most `u16Max` shards times a
`u64` capacity. -/
theorem sum_storedWeighted_le_u128Max (committee : BlsCommittee)
    (denyListSizes : VecMap ObjectID Nat) {usedCapacity : Nat} (hused : usedCapacity ≤ u64Max) :
    (committee.members.map (storedWeighted denyListSizes usedCapacity)).sum ≤ u128Max :=
  calc (committee.members.map (storedWeighted denyListSizes usedCapacity)).sum
      ≤ committee.nShards * usedCapacity := sum_storedWeighted_le denyListSizes usedCapacity committee
    _ ≤ u16Max * u64Max := Nat.mul_le_mul committee.nShards_le_u16Max hused
    _ ≤ u128Max := by decide

/-- The distribution over a committee of distinct node IDs, when the used capacity and the
balance fit their `u64` fields and each product of a weighted stored size and the balance fits
in `u128`: each node receives its share, and the balance less the shares is left over. -/
theorem distributeRewards_eq_ok (oldCommittee : BlsCommittee)
    (denyListSizes : VecMap ObjectID Nat) {usedCapacity totalRewards : Nat}
    (hids : (oldCommittee.members.map BlsCommitteeMember.nodeId).Nodup)
    (hused : usedCapacity ≤ u64Max) (hrewards : totalRewards ≤ u64Max)
    (hfit : ∀ m ∈ oldCommittee.members,
      storedWeighted denyListSizes usedCapacity m * totalRewards ≤ u128Max) :
    ∃ rewards, distributeRewards oldCommittee denyListSizes usedCapacity totalRewards =
        .ok (rewards, totalRewards - (oldCommittee.members.map
          (rewardShare denyListSizes usedCapacity totalRewards oldCommittee.members)).sum) ∧
      rewards.contents = oldCommittee.members.map fun m =>
        (m.nodeId, rewardShare denyListSizes usedCapacity totalRewards oldCommittee.members m) := by
  rcases oldCommittee.toVecMap_eq_ok hids with ⟨committeeMap, hmap, hcontents⟩
  -- the node IDs and the weights, in the order of the members
  have hkv : committeeMap.intoKeysValues = (oldCommittee.members.map BlsCommitteeMember.nodeId,
      oldCommittee.members.map BlsCommitteeMember.weight) := by
    simp [VecMap.intoKeysValues, hcontents, List.map_map, Function.comp_def]
  have hzip : (oldCommittee.members.map BlsCommitteeMember.nodeId).zip
      (oldCommittee.members.map BlsCommitteeMember.weight) =
      oldCommittee.members.map fun m => (m.nodeId, m.weight) := List.zip_map'
  have hstored := foldlM_storedStep oldCommittee.members
    (sum_storedWeighted_le_u128Max oldCommittee denyListSizes hused)
  -- every split leaves enough for the next: the shares add up to at most the balance
  have hsplit : (oldCommittee.members.map (storedWeighted denyListSizes usedCapacity)).foldlM
      (splitStep (max (oldCommittee.members.map (storedWeighted denyListSizes usedCapacity)).sum 1)
        totalRewards) (totalRewards, []) =
      .ok (totalRewards - (oldCommittee.members.map
          (rewardShare denyListSizes usedCapacity totalRewards oldCommittee.members)).sum,
        oldCommittee.members.map
          (rewardShare denyListSizes usedCapacity totalRewards oldCommittee.members)) := by
    have hpos : max (oldCommittee.members.map (storedWeighted denyListSizes usedCapacity)).sum 1 ≠ 0 :=
      by omega
    have h := @foldlM_splitStep _ totalRewards
      (oldCommittee.members.map (storedWeighted denyListSizes usedCapacity)) hpos
      (by
        intro x hx
        rcases List.mem_map.mp hx with ⟨m, hm, rfl⟩
        exact hfit m hm)
      (by
        intro x hx
        exact (mul_div_max_le totalRewards (List.le_sum_of_mem hx)).trans hrewards)
      (sum_map_mul_div_le _ totalRewards)
    rw [List.map_map] at h
    exact h
  -- the rewards map: distinct node IDs, one share each
  have hlen : (oldCommittee.members.map BlsCommitteeMember.nodeId).length =
      (oldCommittee.members.map
        (rewardShare denyListSizes usedCapacity totalRewards oldCommittee.members)).length := by
    simp
  rcases VecMap.fromKeysValues_isOk hids hlen with ⟨rewards, hrewardsMap⟩
  have hrewardsContents := (VecMap.fromKeysValues_eq_ok hrewardsMap).2
  refine ⟨rewards, ?_, ?_⟩
  · unfold distributeRewards
    rw [liftVecMap_eq_ok.mpr hmap, ok_bind, hkv]
    simp only [List.length_map, if_true, pure, Except.pure]
    rw [hzip, hstored, ok_bind]
    simp only
    rw [hsplit, ok_bind]
    simp only
    rw [liftVecMap_eq_ok.mpr hrewardsMap, ok_bind]
  · rw [hrewardsContents, List.zip_map']

/-! ## The epoch change -/

/-- The epoch change of the rewards. When the ring buffer is well formed with the old epoch's
entry first, the new committee is the next epoch's and the epochs and the index fit in `u32`,
the used capacity fits in `u64` and so do all the rewards the ring holds together (the coin's
supply does), the old committee's node IDs are distinct, and each node's weighted stored size
times the rewards fits in `u128`: the call succeeds, each node of the old committee receives
its share of the rewards, the shares add up to at most the rewards, the leftover joins the
rewards of the new current epoch, and no reward is lost or created. -/
theorem epoch_rewards_distributed (s : RewardSystem) (newCommittee : BlsCommittee)
    {acc : FutureAccounting}
    (hlen : s.futureAccounting.ringBuffer.length = s.futureAccounting.length)
    (hcur : s.futureAccounting.currentIndex < s.futureAccounting.length)
    (hacc : s.futureAccounting.window[0]? = some acc) (hepoch : acc.epoch = s.committee.epoch)
    (hnew : newCommittee.epoch = s.committee.epoch + 1)
    (hu32 : s.committee.epoch + s.futureAccounting.length ≤ u32Max)
    (hnext : s.futureAccounting.currentIndex + 1 ≤ u32Max)
    (hused : acc.usedCapacity ≤ u64Max)
    (hsupply : (s.futureAccounting.window.map FutureAccounting.rewardsToDistribute).sum ≤ u64Max)
    (hids : (s.committee.members.map BlsCommitteeMember.nodeId).Nodup)
    (hfit : ∀ m ∈ s.committee.members,
      storedWeighted s.denyListSizes acc.usedCapacity m * acc.rewardsToDistribute ≤ u128Max) :
    ∃ s' rewards, s.advanceEpoch newCommittee = .ok (s', rewards) ∧
      rewards.contents = s.committee.members.map (fun m => (m.nodeId,
        rewardShare s.denyListSizes acc.usedCapacity acc.rewardsToDistribute
          s.committee.members m)) ∧
      (rewards.contents.map Prod.snd).sum ≤ acc.rewardsToDistribute ∧
      s'.futureAccounting.window =
        (s.futureAccounting.window.tail ++
          [(⟨acc.epoch + s.futureAccounting.length, 0, 0⟩ : FutureAccounting)]).modify
          0 (FutureAccounting.addRewards
            (acc.rewardsToDistribute - (rewards.contents.map Prod.snd).sum)) ∧
      (s'.futureAccounting.window.map FutureAccounting.rewardsToDistribute).sum +
          (rewards.contents.map Prod.snd).sum =
        (s.futureAccounting.window.map FutureAccounting.rewardsToDistribute).sum ∧
      s'.committee = newCommittee := by
  -- the window is the old epoch's entry followed by the others
  rcases hwindow : s.futureAccounting.window with _ | ⟨a, tail⟩
  · simp [hwindow] at hacc
  have ha : a = acc := by simpa [hwindow] using hacc
  subst ha
  rw [hwindow] at hsupply
  simp only [List.map_cons, List.sum_cons] at hsupply
  -- the entry leaves the ring
  have hpopEpoch : a.epoch + s.futureAccounting.length ≤ u32Max := by omega
  rcases FutureAccountingRingBuffer.ringPopExpand_isOk hlen hcur hacc hpopEpoch hnext with
    ⟨popped, hpop, hpopWindow, hpopLength, hpopBuffer, -⟩
  rw [hwindow, List.tail_cons] at hpopWindow
  -- its rewards are distributed
  rcases distributeRewards_eq_ok s.committee s.denyListSizes hids hused (by omega) hfit with
    ⟨rewards, hdist, hcontents⟩
  have hpaid : (rewards.contents.map Prod.snd).sum = (s.committee.members.map
      (rewardShare s.denyListSizes a.usedCapacity a.rewardsToDistribute s.committee.members)).sum := by
    rw [hcontents, List.map_map]
    rfl
  have hle := sum_rewardShare_le s.denyListSizes a.usedCapacity a.rewardsToDistribute
    s.committee.members
  -- the leftover joins the first entry of the new window, within the supply
  have hfresh : ((tail ++ [(⟨a.epoch + s.futureAccounting.length, 0, 0⟩ : FutureAccounting)]).map
      FutureAccounting.rewardsToDistribute).sum =
      (tail.map FutureAccounting.rewardsToDistribute).sum := by
    simp
  have hne : popped.window ≠ [] := by simp [hpopWindow]
  have hfirst : ∃ b, popped.window[0]? = some b ∧
      b.rewardsToDistribute ≤ (tail.map FutureAccounting.rewardsToDistribute).sum := by
    rw [hpopWindow]
    cases tail with
    | nil => exact ⟨_, rfl, by simp⟩
    | cons b t => exact ⟨b, by simp, by simp⟩
  rcases hfirst with ⟨b, hb, hbLe⟩
  rcases @FutureAccountingRingBuffer.joinRewards_isOk popped (hpopBuffer.trans hpopLength.symm) 0
      (a.rewardsToDistribute - (rewards.contents.map Prod.snd).sum) b hb (by omega) with
    ⟨joined, hjoin, hjoinWindow, -, -, -⟩
  refine ⟨{ s with committee := newCommittee, futureAccounting := joined }, rewards, ?_,
    hcontents, by omega, ?_, ?_, rfl⟩
  · -- the call itself
    have hnewEpoch : u32Add s.committee.epoch 1 = .ok (s.committee.epoch + 1) :=
      u32Add_eq_ok.mpr ⟨by omega, rfl⟩
    unfold RewardSystem.advanceEpoch
    simp only [hnewEpoch, ok_bind, hnew, if_true, pure, Except.pure, hpop, hepoch, hdist]
    rw [← hpaid, hjoin]
    rfl
  · rw [hjoinWindow, hpopWindow, List.tail_cons]
  · -- what leaves the ring is what the nodes receive
    rw [hjoinWindow, sum_rewards_modify_zero hne, hpopWindow, hfresh]
    simp only [List.map_cons, List.sum_cons]
    omega

/-- Two nodes of two shards and one, the second with 10 bytes on its deny list, and an epoch
that used 100 bytes with rewards of 1000. -/
theorem epoch_rewards_distributed_two_nodes :
    let s : RewardSystem :=
      ⟨⟨[⟨2, ⟨Vector.replicate 32 0⟩⟩, ⟨1, ⟨Vector.replicate 32 1⟩⟩], 0, by simp, by decide⟩,
        ⟨0, 2, [⟨0, 100, 1000⟩, ⟨1, 50, 7⟩]⟩, ⟨[(⟨Vector.replicate 32 1⟩, 10)], by simp⟩⟩
    let newCommittee : BlsCommittee :=
      ⟨[⟨2, ⟨Vector.replicate 32 0⟩⟩, ⟨1, ⟨Vector.replicate 32 1⟩⟩], 1, by simp, by decide⟩
    (s.futureAccounting.ringBuffer.length = s.futureAccounting.length ∧
      s.futureAccounting.currentIndex < s.futureAccounting.length ∧
      s.futureAccounting.window[0]? = some ⟨0, 100, 1000⟩ ∧
      (⟨0, 100, 1000⟩ : FutureAccounting).epoch = s.committee.epoch ∧
      newCommittee.epoch = s.committee.epoch + 1 ∧
      s.committee.epoch + s.futureAccounting.length ≤ u32Max ∧
      s.futureAccounting.currentIndex + 1 ≤ u32Max ∧
      (⟨0, 100, 1000⟩ : FutureAccounting).usedCapacity ≤ u64Max ∧
      (s.futureAccounting.window.map FutureAccounting.rewardsToDistribute).sum ≤ u64Max ∧
      (s.committee.members.map BlsCommitteeMember.nodeId).Nodup ∧
      ∀ m ∈ s.committee.members, storedWeighted s.denyListSizes 100 m * 1000 ≤ u128Max) ∧
    ∃ s' rewards, s.advanceEpoch newCommittee = .ok (s', rewards) ∧
      rewards.contents = s.committee.members.map (fun m => (m.nodeId,
        rewardShare s.denyListSizes 100 1000 s.committee.members m)) ∧
      (rewards.contents.map Prod.snd).sum ≤ 1000 ∧
      s'.futureAccounting.window =
        (s.futureAccounting.window.tail ++
          [(⟨0 + s.futureAccounting.length, 0, 0⟩ : FutureAccounting)]).modify
          0 (FutureAccounting.addRewards (1000 - (rewards.contents.map Prod.snd).sum)) ∧
      (s'.futureAccounting.window.map FutureAccounting.rewardsToDistribute).sum +
          (rewards.contents.map Prod.snd).sum =
        (s.futureAccounting.window.map FutureAccounting.rewardsToDistribute).sum ∧
      s'.committee = newCommittee := by
  intro s newCommittee
  exact ⟨⟨rfl, by decide, rfl, rfl, rfl, by decide, by decide, by decide, by decide, by decide,
      by decide⟩,
    epoch_rewards_distributed s newCommittee rfl (by decide) rfl rfl rfl (by decide) (by decide)
      (by decide) (by decide) (by decide) (by decide)⟩

/-- One node holding all 1000 shards, an epoch that used `2 ^ 60` bytes (an exbibyte) with
nothing on the node's deny list, and rewards of `3 * 10 ^ 17` FROST (300 million WAL, within
the supply of 5 billion): the ring buffer is well formed and every check of the epoch change
passes, but the product `stored * total_rewards_value` leaves `u128` and the call aborts. -/
theorem epoch_rewards_abort_past_u128 :
    let s : RewardSystem :=
      ⟨⟨[⟨1000, ⟨Vector.replicate 32 0⟩⟩], 0, by simp, by decide⟩,
        ⟨0, 1, [⟨0, 2 ^ 60, 3 * 10 ^ 17⟩]⟩, VecMap.empty⟩
    let newCommittee : BlsCommittee := ⟨[⟨1000, ⟨Vector.replicate 32 0⟩⟩], 1, by simp, by decide⟩
    s.futureAccounting.ringBuffer.length = s.futureAccounting.length ∧
      s.futureAccounting.window[0]? = some ⟨0, 2 ^ 60, 3 * 10 ^ 17⟩ ∧
      newCommittee.epoch = s.committee.epoch + 1 ∧
      (s.futureAccounting.window.map FutureAccounting.rewardsToDistribute).sum ≤ u64Max ∧
      s.advanceEpoch newCommittee = .error .arithmeticError := by
  refine ⟨rfl, rfl, rfl, by decide, ?_⟩
  rfl

/-! ## Rewards paid in

Between two epoch changes rewards only join the entries of the ring: the storage payments of
`reserve_space`, `register_blob` and `extend_blob`, `add_subsidy`, and
`add_per_epoch_subsidies`. Each of them keeps the ring and the epochs of its window and only
adds to the rewards of its entries (`Grows`). -/

/-- `BYTES_PER_UNIT_SIZE`: storage is priced by the mebibyte. -/
def bytesPerUnitSize : Nat := 1024 * 1024

namespace FutureAccountingRingBuffer

/-- One round of the loops of `process_storage_payments` and `add_subsidy`: `amount` is split
off the coin, of value `acc.2`, and joins the rewards of the window position `i`. -/
def payStep (amount : Nat) (acc : FutureAccountingRingBuffer × Nat) (i : Nat) :
    Except Abort (FutureAccountingRingBuffer × Nat) := do
  -- Note this will abort if the balance is not enough.
  let coin ← balanceSplit acc.2 amount
  let self ← acc.1.joinRewards i amount
  pure (self, coin)

/-- `process_storage_payments`: the price of `storageSize` bytes for each epoch from
`startOffset` to `endOffset`, paid from a coin of value `payment`. Returns the ring and what
is left of the coin. -/
def processStoragePayments (self : FutureAccountingRingBuffer)
    (storagePricePerUnitSize storageSize startOffset endOffset payment : Nat) :
    Except Abort (FutureAccountingRingBuffer × Nat) := do
  let storageUnits ← divideAndRoundUp storageSize bytesPerUnitSize
  let periodPaymentDue ← checkedMul u64Max storagePricePerUnitSize storageUnits
  (List.range' startOffset (endOffset - startOffset)).foldlM (payStep periodPaymentDue)
    (self, payment)

/-- `add_subsidy`: a subsidy of value `subsidy` split equally over the first `epochsAhead`
epochs, what the division leaves joining the first. -/
def addSubsidy (self : FutureAccountingRingBuffer) (subsidy epochsAhead : Nat) :
    Except Abort FutureAccountingRingBuffer := do
  -- Check the period is within the allowed range.
  unless epochsAhead > 0 do throw .invalidEpochsAhead
  unless epochsAhead ≤ self.length do throw .invalidEpochsAhead
  let rewardPerEpoch := subsidy / epochsAhead
  -- the code looks the entry up before it splits the coin; here neither can abort
  let (self, subsidyBalance) ←
    (List.range epochsAhead).foldlM (payStep rewardPerEpoch) (self, subsidy)
  -- Add leftover rewards to the first epoch's accounting.
  self.joinRewards 0 subsidyBalance

/-- One round of the loop of `add_per_epoch_subsidies`: the subsidy joins the epoch `acc.2`
epochs in the future. -/
def perEpochStep (acc : FutureAccountingRingBuffer × Nat) (perEpochSubsidy : Nat) :
    Except Abort (FutureAccountingRingBuffer × Nat) := do
  let self ← acc.1.joinRewards acc.2 perEpochSubsidy
  pure (self, acc.2 + 1)

/-- `add_per_epoch_subsidies`: `subsidies[i]` joins the rewards of the epoch `i` epochs in
the future. -/
def addPerEpochSubsidies (self : FutureAccountingRingBuffer) (subsidies : List Nat) :
    Except Abort FutureAccountingRingBuffer := do
  unless subsidies.length ≤ self.length do throw .invalidEpochsAhead
  let (self, _) ← subsidies.foldlM perEpochStep (self, 0)
  pure self

/-- The rewards the ring holds for `epoch`, zero when its window has no entry of that epoch. -/
def rewardsOf (self : FutureAccountingRingBuffer) (epoch : Nat) : Nat :=
  ((self.window.find? (·.epoch = epoch)).map FutureAccounting.rewardsToDistribute).getD 0

/-- `r'` is `r` with rewards joined: the same ring, the same epochs in its window, and at
every position at least the rewards of `r`. -/
structure Grows (r r' : FutureAccountingRingBuffer) : Prop where
  length_eq : r'.length = r.length
  buffer_length : r'.ringBuffer.length = r'.length
  currentIndex_eq : r'.currentIndex = r.currentIndex
  epochs_eq : r'.window.map FutureAccounting.epoch = r.window.map FutureAccounting.epoch
  rewards_le : ∀ (k : Nat) (a a' : FutureAccounting), r.window[k]? = some a →
    r'.window[k]? = some a' → a.rewardsToDistribute ≤ a'.rewardsToDistribute

variable {r r' r'' : FutureAccountingRingBuffer}

@[simp] theorem addRewards_epoch (amount : Nat) (a : FutureAccounting) :
    (a.addRewards amount).epoch = a.epoch := rfl

@[simp] theorem addRewards_rewardsToDistribute (amount : Nat) (a : FutureAccounting) :
    (a.addRewards amount).rewardsToDistribute = a.rewardsToDistribute + amount := rfl

@[simp] theorem addRewards_zero (a : FutureAccounting) : a.addRewards 0 = a := rfl

theorem addRewards_addRewards (x y : Nat) (a : FutureAccounting) :
    (a.addRewards x).addRewards y = a.addRewards (x + y) := by
  simp [FutureAccounting.addRewards, Nat.add_assoc]

/-- Joining rewards keeps the epochs of the window. -/
theorem map_epoch_modify_addRewards (l : List FutureAccounting) (k amount : Nat) :
    (l.modify k (FutureAccounting.addRewards amount)).map FutureAccounting.epoch =
      l.map FutureAccounting.epoch := by
  apply List.ext_getElem?
  intro i
  simp only [List.getElem?_map, List.getElem?_modify]
  cases l[i]? with
  | none => rfl
  | some a =>
    simp only [Option.map_eq_map, Option.map_some, Option.some.injEq]
    split <;> rfl

/-- Joining amounts position by position keeps the epochs of the window. -/
theorem map_epoch_mapIdx_addRewards (l : List FutureAccounting) (amount : Nat → Nat) :
    (l.mapIdx fun k a => a.addRewards (amount k)).map FutureAccounting.epoch =
      l.map FutureAccounting.epoch := by
  apply List.ext_getElem?
  intro i
  simp only [List.getElem?_map, List.getElem?_mapIdx]
  cases l[i]? <;> rfl

theorem Grows.refl (hlen : r.ringBuffer.length = r.length) : Grows r r :=
  ⟨rfl, hlen, rfl, rfl, fun _ a a' ha ha' => by rw [ha] at ha'; cases ha'; exact Nat.le_refl _⟩

theorem Grows.trans (h₁ : Grows r r') (h₂ : Grows r' r'') : Grows r r'' := by
  refine ⟨h₂.length_eq.trans h₁.length_eq, h₂.buffer_length,
    h₂.currentIndex_eq.trans h₁.currentIndex_eq, h₂.epochs_eq.trans h₁.epochs_eq, ?_⟩
  intro k a a'' ha ha''
  -- the middle ring has an entry at `k` too: its window is as long
  have hlen : r'.window.length = r.window.length := by
    simpa using congrArg List.length h₁.epochs_eq
  have hk : k < r'.window.length := by
    rw [hlen]
    exact (List.getElem?_eq_some_iff.mp ha).1
  obtain ⟨a', ha'⟩ : ∃ a', r'.window[k]? = some a' := ⟨_, List.getElem?_eq_getElem hk⟩
  exact (h₁.rewards_le k a a' ha ha').trans (h₂.rewards_le k a' a'' ha' ha'')

/-- A ring whose window is the old one with rewards joined at one position grew. -/
theorem grows_of_window_eq_modify {k amount : Nat}
    (hwindow : r'.window = r.window.modify k (FutureAccounting.addRewards amount))
    (hlength : r'.length = r.length) (hbuffer : r'.ringBuffer.length = r.length)
    (hcurrent : r'.currentIndex = r.currentIndex) : Grows r r' := by
  refine ⟨hlength, hbuffer.trans hlength.symm, hcurrent, ?_, ?_⟩
  · rw [hwindow, map_epoch_modify_addRewards]
  · intro i a a' ha ha'
    rw [hwindow, List.getElem?_modify, ha] at ha'
    simp only [Option.map_eq_map, Option.map_some, Option.some.injEq] at ha'
    subst ha'
    split <;> simp

theorem joinRewards_grows (hlen : r.ringBuffer.length = r.length) {k amount : Nat}
    (h : r.joinRewards k amount = .ok r') : Grows r r' := by
  rcases joinRewards_eq_ok hlen h with ⟨-, -, -, hwindow, hlength, hbuffer, hcurrent⟩
  exact grows_of_window_eq_modify hwindow hlength hbuffer hcurrent

/-- The rounds of a payment loop only join rewards. -/
theorem foldlM_payStep_grows (hlen : r.ringBuffer.length = r.length) {amount coin coin' : Nat}
    {xs : List Nat} (h : xs.foldlM (payStep amount) (r, coin) = .ok (r', coin')) :
    Grows r r' := by
  have hinv := @foldlM_ok_invariant Abort _ _ (payStep amount)
    (fun _ _ acc => Grows r acc.1) xs ?_ (r, coin) (r', coin') (Grows.refl hlen) h
  · exact hinv
  · intro _ _ _ acc acc' _ hacc hstep
    rcases bind_eq_ok.mp hstep with ⟨_, -, hstep⟩
    rcases bind_eq_ok.mp hstep with ⟨joined, hjoin, hstep⟩
    cases hstep
    exact hacc.trans (joinRewards_grows hacc.buffer_length hjoin)

theorem processStoragePayments_grows (hlen : r.ringBuffer.length = r.length)
    {storagePricePerUnitSize storageSize startOffset endOffset payment coin : Nat}
    (h : r.processStoragePayments storagePricePerUnitSize storageSize startOffset endOffset
      payment = .ok (r', coin)) : Grows r r' := by
  unfold processStoragePayments at h
  rcases bind_eq_ok.mp h with ⟨_, -, h⟩
  rcases bind_eq_ok.mp h with ⟨_, -, h⟩
  exact foldlM_payStep_grows hlen h

theorem addSubsidy_grows (hlen : r.ringBuffer.length = r.length) {subsidy epochsAhead : Nat}
    (h : r.addSubsidy subsidy epochsAhead = .ok r') : Grows r r' := by
  unfold addSubsidy at h
  rw [ite_throw_bind_eq_ok] at h
  rw [ite_throw_bind_eq_ok] at h
  rcases bind_eq_ok.mp h.2.2 with ⟨⟨paid, coin⟩, hloop, hjoin⟩
  have hgrow := foldlM_payStep_grows hlen hloop
  exact hgrow.trans (joinRewards_grows hgrow.buffer_length hjoin)

theorem addPerEpochSubsidies_grows (hlen : r.ringBuffer.length = r.length)
    {subsidies : List Nat} (h : r.addPerEpochSubsidies subsidies = .ok r') : Grows r r' := by
  unfold addPerEpochSubsidies at h
  rw [ite_throw_bind_eq_ok] at h
  rcases bind_eq_ok.mp h.2 with ⟨⟨joined, n⟩, hloop, hres⟩
  cases hres
  have hinv := @foldlM_ok_invariant Abort _ _ perEpochStep
    (fun _ _ acc => Grows r acc.1) subsidies ?_ (r, 0) (r', n) (Grows.refl hlen) hloop
  · exact hinv
  · intro _ _ _ acc acc' _ hacc hstep
    rcases bind_eq_ok.mp hstep with ⟨joined', hjoin, hstep⟩
    cases hstep
    exact hacc.trans (joinRewards_grows hacc.buffer_length hjoin)

/-- Position `k` of the window after the first subsidies of a list joined. -/
theorem mapIdx_addRewards_modify (l : List FutureAccounting) (done : List Nat) (x : Nat) :
    (l.mapIdx fun k a => a.addRewards (done.getD k 0)).modify done.length
        (FutureAccounting.addRewards x) =
      l.mapIdx fun k a => a.addRewards ((done ++ [x]).getD k 0) := by
  apply List.ext_getElem?
  intro i
  rw [List.getElem?_modify, List.getElem?_mapIdx, List.getElem?_mapIdx]
  cases l[i]? with
  | none => rfl
  | some a =>
    simp only [Option.map_some, Option.map_eq_map]
    by_cases hi : done.length = i
    case pos =>
      subst hi
      simp [List.getD_eq_getElem?_getD]
    case neg =>
      rw [if_neg hi]
      -- below the new entry the subsidies read the same; above it both read zero
      have hget : (done ++ [x]).getD i 0 = done.getD i 0 := by
        rw [List.getD_eq_getElem?_getD, List.getD_eq_getElem?_getD, List.getElem?_append]
        split
        · rfl
        · rw [List.getElem?_singleton, if_neg (by omega),
            List.getElem?_eq_none (by omega)]
      rw [hget]

/-- Before the first subsidy joins, the window is as it was. -/
theorem mapIdx_addRewards_nil (l : List FutureAccounting) :
    l.mapIdx (fun k a => a.addRewards (([] : List Nat).getD k 0)) = l := by
  apply List.ext_getElem?
  intro i
  simp [List.getElem?_mapIdx]

/-- `add_per_epoch_subsidies` with no more subsidies than the ring has epochs, each fitting in
`u64` with the rewards it joins: the `i`-th subsidy joins the `i`-th entry of the window. -/
theorem addPerEpochSubsidies_isOk (hlen : r.ringBuffer.length = r.length) {subsidies : List Nat}
    (hsub : subsidies.length ≤ r.length)
    (hfit : ∀ k a, r.window[k]? = some a → a.rewardsToDistribute + subsidies.getD k 0 ≤ u64Max) :
    ∃ r', r.addPerEpochSubsidies subsidies = .ok r' ∧
      r'.window = r.window.mapIdx (fun k a => a.addRewards (subsidies.getD k 0)) ∧
      r'.length = r.length ∧ r'.ringBuffer.length = r.length ∧
      r'.currentIndex = r.currentIndex := by
  -- the loop invariant: the counter is the number of subsidies joined, each at its position
  have hloop := @foldlM_exists_ok Abort _ _ perEpochStep
    (fun done acc => acc.2 = done.length ∧
      acc.1.window = r.window.mapIdx (fun k a => a.addRewards (done.getD k 0)) ∧
      acc.1.length = r.length ∧ acc.1.ringBuffer.length = r.length ∧
      acc.1.currentIndex = r.currentIndex) subsidies ?_ (r, 0) ⟨rfl, ?_, rfl, hlen, rfl⟩
  · rcases hloop with ⟨⟨joined, n⟩, hrun, -, hwindow, hlength, hbuffer, hcurrent⟩
    refine ⟨joined, ?_, hwindow, hlength, hbuffer, hcurrent⟩
    unfold addPerEpochSubsidies
    rw [if_pos hsub]
    simp only [hrun]
    rfl
  · intro done x rest acc hsplit ⟨hcount, hwindow, hlength, hbuffer, hcurrent⟩
    have hlt : done.length < r.window.length := by
      have : (done ++ x :: rest).length ≤ r.length := hsplit ▸ hsub
      simp at this ⊢
      omega
    obtain ⟨a, ha⟩ : ∃ a, r.window[done.length]? = some a :=
      ⟨_, List.getElem?_eq_getElem hlt⟩
    have hx : subsidies.getD done.length 0 = x := by
      rw [← hsplit, List.getD_eq_getElem?_getD, List.getElem?_append_right (Nat.le_refl _)]
      simp
    have hentry : acc.1.window[done.length]? = some a := by
      rw [hwindow, List.getElem?_mapIdx, ha]
      simp [List.getD_eq_getElem?_getD]
    rcases joinRewards_isOk (hbuffer.trans hlength.symm) hentry
        (hx ▸ hfit done.length a ha) with
      ⟨joined, hjoin, hjoinWindow, hjoinLength, hjoinBuffer, hjoinCurrent⟩
    refine ⟨(joined, acc.2 + 1), ?_, by simp [hcount], ?_, hjoinLength.trans hlength,
      hjoinBuffer.trans hlength, hjoinCurrent.trans hcurrent⟩
    · simp only [perEpochStep, hcount, hjoin, ok_bind]
      rfl
    · rw [hjoinWindow, hwindow, mapIdx_addRewards_modify]
  · exact (mapIdx_addRewards_nil _).symm

/-- A successful `add_per_epoch_subsidies` joined the `i`-th subsidy to the `i`-th entry of the
window. -/
theorem addPerEpochSubsidies_eq_ok (hlen : r.ringBuffer.length = r.length) {subsidies : List Nat}
    (h : r.addPerEpochSubsidies subsidies = .ok r') :
    r'.window = r.window.mapIdx (fun k a => a.addRewards (subsidies.getD k 0)) ∧
      r'.length = r.length ∧ r'.ringBuffer.length = r.length ∧
      r'.currentIndex = r.currentIndex := by
  unfold addPerEpochSubsidies at h
  rw [ite_throw_bind_eq_ok] at h
  rcases bind_eq_ok.mp h.2 with ⟨⟨joined, n⟩, hloop, hres⟩
  cases hres
  -- the invariant of the loop of `addPerEpochSubsidies_isOk`, read back from the rounds
  have hinv := @foldlM_ok_invariant Abort _ _ perEpochStep
    (fun done _ acc => acc.2 = done.length ∧
      acc.1.window = r.window.mapIdx (fun k a => a.addRewards (done.getD k 0)) ∧
      acc.1.length = r.length ∧ acc.1.ringBuffer.length = r.length ∧
      acc.1.currentIndex = r.currentIndex) subsidies ?_ (r, 0) (r', n)
    ⟨rfl, (mapIdx_addRewards_nil _).symm, rfl, hlen, rfl⟩ hloop
  · exact hinv.2
  · intro done x rest acc acc' _ ⟨hcount, hwindow, hlength, hbuffer, hcurrent⟩ hstep
    rcases bind_eq_ok.mp hstep with ⟨joined', hjoin, hstep⟩
    cases hstep
    rcases joinRewards_eq_ok (hbuffer.trans hlength.symm) hjoin with
      ⟨-, -, -, hjoinWindow, hjoinLength, hjoinBuffer, hjoinCurrent⟩
    refine ⟨by simp [hcount], ?_, hjoinLength.trans hlength, hjoinBuffer.trans hlength,
      hjoinCurrent.trans hcurrent⟩
    rw [hjoinWindow, hwindow, hcount, mapIdx_addRewards_modify]

/-- A lookup reads the window. -/
theorem ringLookup_eq_ok (hlen : r.ringBuffer.length = r.length) {k : Nat} {a : FutureAccounting} :
    r.ringLookup k = .ok a ↔ r.window[k]? = some a := by
  unfold ringLookup
  by_cases hk : k < r.length
  case pos =>
    have hidx : r.toStorage.actualIndex k = .ok ((k + r.currentIndex) % r.length) :=
      System.FutureAccountingRingBuffer.actualIndex_eq_ok.mpr ⟨hk, rfl⟩
    rw [hidx, ok_bind, getElem?_ringBuffer hlen hk]
    cases r.window[k]? <;> simp [throw, throwThe, MonadExceptOf.throw, pure, Except.pure]
  case neg =>
    have hidx : r.toStorage.actualIndex k = .error .tooFarInFuture := by
      simp [System.FutureAccountingRingBuffer.actualIndex, toStorage, hk, throw, throwThe,
        MonadExceptOf.throw, bind, Except.bind]
    have hnone : r.window[k]? = none := List.getElem?_eq_none (by simp; omega)
    simp [hidx, hnone, bind, Except.bind]

/-! ### Rewards by epoch -/

/-- In a window of consecutive epochs the rewards of an epoch are read at its position. -/
theorem rewardsOf_eq {start : Nat}
    (hepochs : r.window.map FutureAccounting.epoch = List.range' start r.window.length)
    (e : Nat) :
    r.rewardsOf e = if start ≤ e then
      ((r.window[e - start]?).map FutureAccounting.rewardsToDistribute).getD 0 else 0 := by
  unfold rewardsOf
  rw [find?_key_of_map_eq_range' hepochs e]
  split <;> rfl

/-- Joining rewards adds to the rewards of every epoch, or leaves them. -/
theorem Grows.rewardsOf_le (hg : Grows r r') {start : Nat}
    (hepochs : r.window.map FutureAccounting.epoch = List.range' start r.window.length)
    (e : Nat) : r.rewardsOf e ≤ r'.rewardsOf e := by
  have hlen : r'.window.length = r.window.length := by
    simpa using congrArg List.length hg.epochs_eq
  have hepochs' : r'.window.map FutureAccounting.epoch =
      List.range' start r'.window.length := by
    rw [hg.epochs_eq, hepochs, hlen]
  rw [rewardsOf_eq hepochs, rewardsOf_eq hepochs']
  split
  case isFalse => exact Nat.le_refl 0
  case isTrue =>
    cases ha : r.window[e - start]? with
    | none => exact Nat.zero_le _
    | some a =>
      -- the grown window has an entry at the same position
      have hk : e - start < r'.window.length := by
        rw [hlen]
        exact (List.getElem?_eq_some_iff.mp ha).1
      obtain ⟨a', ha'⟩ : ∃ a', r'.window[e - start]? = some a' :=
        ⟨_, List.getElem?_eq_getElem hk⟩
      rw [ha']
      exact hg.rewards_le _ a a' ha ha'

/-- The epochs after an epoch change: the window of consecutive epochs moves one on. -/
theorem map_epoch_tail_append {l : List FutureAccounting} {start : Nat}
    (hepochs : l.map FutureAccounting.epoch = List.range' start l.length) (hne : l ≠ [])
    {fresh : FutureAccounting} (hfresh : fresh.epoch = start + l.length) (leftover : Nat) :
    ((l.tail ++ [fresh]).modify 0 (FutureAccounting.addRewards leftover)).map
      FutureAccounting.epoch = List.range' (start + 1) l.length := by
  rw [map_epoch_modify_addRewards, List.map_append, List.map_tail, hepochs, List.map_singleton,
    hfresh, range'_tail_append (List.length_pos_of_ne_nil hne)]

/-- After an epoch change every epoch from the new one on holds at least the rewards it held:
the leftover only adds, and the appended entry is of an epoch the old window did not hold. -/
theorem rewardsOf_le_of_tail_append {start : Nat}
    (hepochs : r.window.map FutureAccounting.epoch = List.range' start r.window.length)
    (hne : r.window ≠ []) {fresh : FutureAccounting} (hfresh : fresh.epoch = start + r.window.length)
    {leftover : Nat}
    (hwindow : r'.window = (r.window.tail ++ [fresh]).modify 0
      (FutureAccounting.addRewards leftover)) :
    ∀ e, start + 1 ≤ e → r.rewardsOf e ≤ r'.rewardsOf e := by
  intro e he
  have hlen : r'.window.length = r.window.length := by
    rw [hwindow, List.length_modify, List.length_append, List.length_tail, List.length_singleton]
    have := List.length_pos_of_ne_nil hne
    omega
  have hepochs' : r'.window.map FutureAccounting.epoch =
      List.range' (start + 1) r'.window.length := by
    rw [hwindow, map_epoch_tail_append hepochs hne hfresh, ← hwindow, hlen]
  rw [rewardsOf_eq hepochs, rewardsOf_eq hepochs', if_pos (by omega), if_pos he, hwindow,
    List.getElem?_modify, getElem?_tail_append hne]
  -- the entry of `e` moved one position down; the appended one has no rewards yet
  by_cases hend : e - (start + 1) + 1 = r.window.length
  case pos =>
    rw [show e - start = r.window.length by omega, List.getElem?_eq_none (Nat.le_refl _)]
    exact Nat.zero_le _
  case neg =>
    rw [if_neg hend, show e - (start + 1) + 1 = e - start by omega]
    cases r.window[e - start]? with
    | none => exact Nat.zero_le _
    | some a =>
      simp only [Option.map_eq_map, Option.map_some, Option.getD_some]
      split <;> simp

end FutureAccountingRingBuffer

/-- A successful epoch change, for the ring: the entry of the old epoch was first in the window
and leaves it, an empty entry `length` epochs later is appended, and a leftover joins the new
first entry; the new committee, of the next epoch, takes over. -/
theorem RewardSystem.advanceEpoch_eq_ok {s s' : RewardSystem} {newCommittee : BlsCommittee}
    {rewards : VecMap ObjectID Nat}
    (hlen : s.futureAccounting.ringBuffer.length = s.futureAccounting.length)
    (h : s.advanceEpoch newCommittee = .ok (s', rewards)) :
    ∃ acc leftover, s.futureAccounting.window[0]? = some acc ∧ acc.epoch = s.committee.epoch ∧
      acc.epoch + s.futureAccounting.length ≤ u32Max ∧ newCommittee.epoch = s.committee.epoch + 1 ∧
      s'.futureAccounting.window =
        (s.futureAccounting.window.tail ++
          [(⟨acc.epoch + s.futureAccounting.length, 0, 0⟩ : FutureAccounting)]).modify 0
          (FutureAccounting.addRewards leftover) ∧
      s'.futureAccounting.length = s.futureAccounting.length ∧
      s'.futureAccounting.ringBuffer.length = s.futureAccounting.length ∧
      s'.futureAccounting.currentIndex < s'.futureAccounting.length ∧
      s'.committee = newCommittee ∧ s'.denyListSizes = s.denyListSizes := by
  unfold RewardSystem.advanceEpoch at h
  rcases bind_eq_ok.mp h with ⟨newEpoch, hnewEpoch, h⟩
  rcases u32Add_eq_ok.mp hnewEpoch with ⟨-, rfl⟩
  rw [ite_throw_bind_eq_ok] at h
  rcases h with ⟨hcommittee, h⟩
  rcases bind_eq_ok.mp h with ⟨⟨acc, popped⟩, hpop, h⟩
  rw [ite_throw_bind_eq_ok] at h
  rcases h with ⟨hepoch, h⟩
  rcases bind_eq_ok.mp h with ⟨⟨paid, leftover⟩, -, h⟩
  rcases bind_eq_ok.mp h with ⟨joined, hjoin, h⟩
  cases h
  rcases FutureAccountingRingBuffer.ringPopExpand_eq_ok hlen hpop with
    ⟨hfirst, hfit, hpopWindow, hpopLength, hpopBuffer, hpopCurrent⟩
  rcases FutureAccountingRingBuffer.joinRewards_eq_ok (hpopBuffer.trans hpopLength.symm) hjoin with
    ⟨-, -, -, hjoinWindow, hjoinLength, hjoinBuffer, hjoinCurrent⟩
  refine ⟨acc, leftover, hfirst, hepoch, hfit, hcommittee, ?_, hjoinLength.trans hpopLength,
    hjoinBuffer.trans hpopLength, ?_, rfl, rfl⟩
  · rw [hjoinWindow, hpopWindow]
  · rw [hjoinCurrent, hjoinLength]
    exact hpopCurrent

end Rewards

end Walrus.System
