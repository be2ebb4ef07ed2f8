import Walrus.Contracts.Subsidies

/-! # The subsidies beside the system

The usage subsidies keep their own ring of epochs beside the future accounting of the system,
and the two rotate apart: the system's at every epoch change, the subsidies' only when they run.
Here the system, the staking and the subsidies run together, over any interleaving of the calls
that touch them, from the creation of the subsidies on. Storage payments, at the system's
storage price, `add_subsidy` and `add_per_epoch_subsidies` only add to the rewards of the
window; an epoch change moves the window one epoch on, adds the leftover of the old epoch to the
new one and sets the price the vote selected.

Every reachable state is `Aligned`: the future accounting holds the consecutive epochs from the
system's, the ring of the subsidies the consecutive epochs from an earlier one, and every epoch
from the system's on holds at most its rewards in the ring. So the alignment loop always ends
with both rings of the same epochs, the subtraction of the usage subsidies never underflows,
and after a successful run the ring holds every epoch's rewards. The usage-independent
subsidies are handed out at most once per staking epoch and node.

An epoch change adds the leftover of the old epoch, subsidies included, to the rewards of the
new one; the next run subsidizes it again (`usage_subsidy_paid_twice`).
-/

namespace Walrus.Subsidies

open Machine Walrus.System.Rewards Walrus.Staking
open Walrus.System hiding FutureAccountingRingBuffer FutureAccounting

/-- `MAX_MAX_EPOCHS_AHEAD` of `system_state_inner`: `create_empty` refuses a longer ring. -/
def maxMaxEpochsAhead : Nat := 1000

/-- The system, the staking and the subsidies. -/
structure World where
  system : RewardSystem
  /-- `storage_price_per_unit_size` of the system, at which storage is paid for. -/
  storagePricePerUnitSize : Nat
  staking : StakingState
  subsidies : WalrusSubsidiesInnerV1
  /-- The usage-independent subsidies handed to the pools so far, by staking epoch and node. -/
  fixedRatePayouts : List (Nat × ObjectID)

/-- The calls that read or write the rewards of the system or the subsidies. -/
inductive Call
  /-- The payment of `reserve_space`, `register_blob`, `extend_blob` and `SharedBlob::extend`. -/
  | processStoragePayments (storageSize startOffset endOffset payment : Nat)
  | addSubsidy (subsidy epochsAhead : Nat)
  | addPerEpochSubsidies (subsidies : List Nat)
  /-- The system moves to its next epoch, with the committee and the storage price of the
  epoch parameters the vote selected. -/
  | advanceEpoch (newCommittee : BlsCommittee) (storagePrice : Nat)
  /-- The staking moves to its next epoch, with its committee. -/
  | stakingEpochChange (committee : Committee)
  | addBalance (funds : Nat)
  | setSystemSubsidyRate (newRate : Nat)
  | processSubsidies

namespace World

/-- One call. -/
def step (w : World) : Call → Except Abort World
  | .processStoragePayments storageSize startOffset endOffset payment => do
    let (futureAccounting, _) ← w.system.futureAccounting.processStoragePayments
      w.storagePricePerUnitSize storageSize startOffset endOffset payment
    pure { w with system := { w.system with futureAccounting } }
  | .addSubsidy subsidy epochsAhead => do
    let futureAccounting ← w.system.futureAccounting.addSubsidy subsidy epochsAhead
    pure { w with system := { w.system with futureAccounting } }
  | .addPerEpochSubsidies subsidies => do
    let futureAccounting ← w.system.futureAccounting.addPerEpochSubsidies subsidies
    pure { w with system := { w.system with futureAccounting } }
  | .advanceEpoch newCommittee storagePrice => do
    let (system, _) ← w.system.advanceEpoch newCommittee
    -- `self.storage_price_per_unit_size = new_epoch_params.storage_price()`
    pure { w with system, storagePricePerUnitSize := storagePrice }
  | .stakingEpochChange committee => do
    let epoch ← u32Add w.staking.epoch 1
    pure { w with staking := ⟨epoch, committee⟩ }
  | .addBalance funds => do
    let subsidies ← w.subsidies.addBalance funds
    pure { w with subsidies }
  | .setSystemSubsidyRate newRate => do
    let subsidies ← w.subsidies.setSystemSubsidyRate newRate
    pure { w with subsidies }
  | .processSubsidies => do
    let (subsidies, system, commissions) ← w.subsidies.processSubsidies w.staking w.system
    let paid := commissions.map fun c => (w.staking.epoch, c.1)
    pure { w with subsidies, system, fixedRatePayouts := w.fixedRatePayouts ++ paid }

/-- A call as a transaction: an abort leaves the world as it was. -/
def stepOption (w : World) (c : Call) : Option World :=
  (w.step c).toOption

end World

/-- A world as `WalrusSubsidies` is created: a system whose future accounting is well formed,
within `MAX_MAX_EPOCHS_AHEAD`, its window holding the consecutive epochs from the system's
within `u32`, and the subsidies `new` builds from it. The system's storage price is the one
`create_empty` sets until the first epoch change. -/
structure Init (w : World) : Prop where
  buffer_length : w.system.futureAccounting.ringBuffer.length = w.system.futureAccounting.length
  currentIndex_lt : w.system.futureAccounting.currentIndex < w.system.futureAccounting.length
  length_pos : 0 < w.system.futureAccounting.length
  length_le : w.system.futureAccounting.length ≤ maxMaxEpochsAhead
  epochs : w.system.futureAccounting.window.map Rewards.FutureAccounting.epoch =
    List.range' w.system.committee.epoch w.system.futureAccounting.length
  epochs_fit : w.system.committee.epoch + w.system.futureAccounting.length ≤ u32Max
  price_zero : w.system.committee.epoch = 0 → w.storagePricePerUnitSize = 0
  created : ∃ subsidyRate baseSubsidy subsidyPerShard, subsidyRate ≤ u32Max ∧
    WalrusSubsidiesInnerV1.new w.system w.staking.epoch subsidyRate baseSubsidy subsidyPerShard =
      .ok w.subsidies
  no_payouts : w.fixedRatePayouts = []

/-- What holds of every reachable world. -/
structure Aligned (w : World) : Prop where
  buffer_length : w.system.futureAccounting.ringBuffer.length = w.system.futureAccounting.length
  currentIndex_lt : w.system.futureAccounting.currentIndex < w.system.futureAccounting.length
  length_pos : 0 < w.system.futureAccounting.length
  length_le : w.system.futureAccounting.length ≤ maxMaxEpochsAhead
  /-- The future accounting holds the consecutive epochs from the system's. -/
  epochs : w.system.futureAccounting.window.map Rewards.FutureAccounting.epoch =
    List.range' w.system.committee.epoch w.system.futureAccounting.length
  /-- The last of them fits in `u32`. -/
  epochs_fit : w.system.committee.epoch + w.system.futureAccounting.length ≤ u32Max + 1
  ring_length : w.subsidies.alreadySubsidizedBalances.length = w.system.futureAccounting.length
  ring_currentIndex_lt :
    w.subsidies.alreadySubsidizedBalances.currentIndex < w.subsidies.alreadySubsidizedBalances.length
  /-- The ring of the subsidies holds the consecutive epochs from one at most the system's. -/
  ring_epochs : ∃ a0, a0 ≤ w.system.committee.epoch ∧
    w.subsidies.alreadySubsidizedBalances.window.map EpochBalance.epoch =
      List.range' a0 w.subsidies.alreadySubsidizedBalances.length
  /-- From the system's epoch on, no epoch is subsidized beyond its rewards. -/
  dominated : ∀ e, w.system.committee.epoch ≤ e →
    w.subsidies.alreadySubsidizedBalances.balanceOf e ≤ w.system.futureAccounting.rewardsOf e
  rate_le : w.subsidies.systemSubsidyRate ≤ u32Max
  /-- The pools were paid for no staking epoch after the latest one recorded. -/
  payouts_le : ∀ p ∈ w.fixedRatePayouts, p.1 ≤ w.subsidies.latestEpoch
  payouts_nodup : w.fixedRatePayouts.Nodup

namespace Aligned

variable {w w' : World}

theorem of_init (h : Init w) : Aligned w := by
  rcases h.created with ⟨rate, base, perShard, hrate, hnew⟩
  rw [WalrusSubsidiesInnerV1.new_eq h.buffer_length h.epochs h.epochs_fit, Except.ok.injEq] at hnew
  -- the ring of a new module is the window of the future accounting
  have hwindow : w.subsidies.alreadySubsidizedBalances.window =
      w.system.futureAccounting.window.map toEpochBalance := by
    rw [← hnew]
    exact List.rotate_zero _
  have hlength : w.subsidies.alreadySubsidizedBalances.length = w.system.futureAccounting.length := by
    rw [← EpochBalanceRingBuffer.length_window, hwindow, List.length_map,
      Rewards.FutureAccountingRingBuffer.length_window, h.buffer_length]
  refine ⟨h.buffer_length, h.currentIndex_lt, h.length_pos, h.length_le, h.epochs, by
    have := h.epochs_fit; omega, hlength, ?_, ⟨w.system.committee.epoch, Nat.le_refl _, ?_⟩,
    fun e _ => (balanceOf_of_window_eq_map hwindow e).le, by rw [← hnew]; exact hrate,
    by simp [h.no_payouts], by simp [h.no_payouts]⟩
  · rw [hlength, ← hnew]
    exact h.length_pos
  · rw [hwindow, List.map_map, hlength]
    exact h.epochs

/-- Calls that only join rewards to the future accounting keep the invariant. -/
theorem of_grows (hw : Aligned w) {F' : FutureAccountingRingBuffer}
    (hg : FutureAccountingRingBuffer.Grows w.system.futureAccounting F') :
    Aligned { w with system := { w.system with futureAccounting := F' } } := by
  have hwlen : w.system.futureAccounting.window.length = w.system.futureAccounting.length := by
    simp [hw.buffer_length]
  refine ⟨hg.buffer_length, by rw [hg.currentIndex_eq, hg.length_eq]; exact hw.currentIndex_lt,
    by rw [hg.length_eq]; exact hw.length_pos, by rw [hg.length_eq]; exact hw.length_le,
    by rw [hg.epochs_eq, hg.length_eq]; exact hw.epochs,
    by rw [hg.length_eq]; exact hw.epochs_fit, by rw [hg.length_eq]; exact hw.ring_length,
    hw.ring_currentIndex_lt, hw.ring_epochs, ?_, hw.rate_le, hw.payouts_le, hw.payouts_nodup⟩
  -- the rewards of every epoch only grew
  intro e he
  exact (hw.dominated e he).trans (hg.rewardsOf_le (hwlen ▸ hw.epochs) e)

/-- An epoch change keeps the invariant: the window moves one epoch on, the leftover only adds,
and the ring of the subsidies, which did not move, now starts before the system's epoch. -/
theorem advanceEpoch (hw : Aligned w) {newCommittee : BlsCommittee} {system' : RewardSystem}
    {rewards : VecMap ObjectID Nat}
    (h : w.system.advanceEpoch newCommittee = .ok (system', rewards)) :
    Aligned { w with system := system' } := by
  rcases RewardSystem.advanceEpoch_eq_ok hw.buffer_length h with
    ⟨acc, leftover, -, hepoch, hfit, hnew, hwindow, hlength, hbuffer, hcur, hcommittee, -⟩
  have hwlen : w.system.futureAccounting.window.length = w.system.futureAccounting.length := by
    simp [hw.buffer_length]
  have hne : w.system.futureAccounting.window ≠ [] :=
    List.ne_nil_of_length_pos (by rw [hwlen]; exact hw.length_pos)
  have hfresh : (⟨acc.epoch + w.system.futureAccounting.length, 0, 0⟩ : FutureAccounting).epoch =
      w.system.committee.epoch + w.system.futureAccounting.window.length := by
    simp only [hepoch, hwlen]
  have hepochs : w.system.futureAccounting.window.map Rewards.FutureAccounting.epoch =
      List.range' w.system.committee.epoch w.system.futureAccounting.window.length := by
    rw [hwlen]
    exact hw.epochs
  have hsysEpoch : system'.committee.epoch = w.system.committee.epoch + 1 := by
    rw [hcommittee, hnew]
  rcases hw.ring_epochs with ⟨a0, ha0, hAepochs⟩
  refine ⟨hbuffer.trans hlength.symm, hcur, by rw [hlength]; exact hw.length_pos,
    by rw [hlength]; exact hw.length_le, ?_, by rw [hsysEpoch, hlength]; omega,
    by rw [hlength]; exact hw.ring_length, hw.ring_currentIndex_lt,
    ⟨a0, by rw [hsysEpoch]; omega, hAepochs⟩, ?_, hw.rate_le, hw.payouts_le, hw.payouts_nodup⟩
  · -- the window moves one epoch on
    rw [hwindow, FutureAccountingRingBuffer.map_epoch_tail_append hepochs hne hfresh, hsysEpoch,
      hlength, hwlen]
  · -- the rewards of every epoch from the new one on only grew
    intro e he
    rw [hsysEpoch] at he
    exact (hw.dominated e (by omega)).trans
      (FutureAccountingRingBuffer.rewardsOf_le_of_tail_append hepochs hne hfresh hwindow e he)

/-- The usage-independent subsidies keep the payouts distinct: they pay only in a staking epoch
after the latest one paid, and then the distinct nodes of the committee. They leave the ring and
the rate as they were. -/
theorem fixedRate (hw : Aligned w) {self' : WalrusSubsidiesInnerV1}
    {paid : List (ObjectID × Nat)} {b : Bool}
    (h : w.subsidies.processFixedRateSubsidies w.staking = .ok (self', paid, b)) :
    (∀ p ∈ w.fixedRatePayouts ++ paid.map (fun c => (w.staking.epoch, c.1)),
      p.1 ≤ self'.latestEpoch) ∧
    (w.fixedRatePayouts ++ paid.map (fun c => (w.staking.epoch, c.1))).Nodup ∧
    self'.alreadySubsidizedBalances = w.subsidies.alreadySubsidizedBalances ∧
    self'.systemSubsidyRate = w.subsidies.systemSubsidyRate := by
  rcases WalrusSubsidiesInnerV1.processFixedRateSubsidies_eq_ok h with
    ⟨-, rfl, rfl⟩ | ⟨hlt, hkeys, pool, rfl⟩
  · rw [List.map_nil, List.append_nil]
    exact ⟨hw.payouts_le, hw.payouts_nodup, rfl, rfl⟩
  · -- the new payouts are of the staking epoch, after every earlier one
    have hnew : paid.map (fun c => (w.staking.epoch, c.1)) =
        w.staking.committee.inner.keys.map fun n => (w.staking.epoch, n) := by
      rw [← hkeys, List.map_map]
      rfl
    refine ⟨?_, ?_, rfl, rfl⟩
    · intro p hp
      rcases List.mem_append.mp hp with hold | hpaid
      · exact (hw.payouts_le p hold).trans (Nat.le_of_lt hlt)
      · rw [hnew] at hpaid
        obtain ⟨n, -, rfl⟩ := List.mem_map.mp hpaid
        exact Nat.le_refl _
    · rw [hnew, List.nodup_append]
      refine ⟨hw.payouts_nodup, w.staking.committee.inner.keys_nodup.map
        (fun _ _ h => (Prod.mk.inj h).2), ?_⟩
      intro p hold q hpaid hpq
      obtain ⟨n, -, rfl⟩ := List.mem_map.mp hpaid
      have := hw.payouts_le p hold
      rw [hpq] at this
      exact absurd this (by simp only; omega)

/-- `process_subsidies` keeps the invariant, and leaves the ring holding the window of the
future accounting, every epoch with its rewards. -/
theorem processSubsidies (hw : Aligned w) {subsidies' : WalrusSubsidiesInnerV1}
    {system' : RewardSystem} {commissions : List (ObjectID × Nat)}
    (h : w.subsidies.processSubsidies w.staking w.system = .ok (subsidies', system', commissions)) :
    Aligned ⟨system', w.storagePricePerUnitSize, w.staking, subsidies',
      w.fixedRatePayouts ++ commissions.map fun c => (w.staking.epoch, c.1)⟩ ∧
    subsidies'.alreadySubsidizedBalances.window =
      system'.futureAccounting.window.map toEpochBalance := by
  unfold WalrusSubsidiesInnerV1.processSubsidies at h
  rcases bind_eq_ok.mp h with ⟨⟨self₁, paid, b⟩, hfixed, h⟩
  rcases bind_eq_ok.mp h with ⟨⟨self₂, system₂⟩, husage, h⟩
  cases h
  rcases hw.fixedRate hfixed with ⟨hpaidLe, hpaidNodup, hring, hrate⟩
  -- the alignment of the usage subsidies, on the ring the fixed-rate subsidies left alone
  rcases hw.ring_epochs with ⟨a0, ha0, hAepochs⟩
  rcases alignLoop_aligned hw.buffer_length hw.epochs hw.length_pos hw.epochs_fit
      (hw.length_le.trans (by unfold maxMaxEpochsAhead u32Max; decide)) hw.ring_length
      hw.ring_currentIndex_lt ha0 hAepochs hw.dominated with
    ⟨A', halign, hA'epochs, hA'len, hA'cur, -, -⟩
  rw [← hring] at halign
  have hepochs : A'.window.map EpochBalance.epoch =
      w.system.futureAccounting.window.map Rewards.FutureAccounting.epoch := by
    rw [hA'epochs, hw.epochs]
  rcases WalrusSubsidiesInnerV1.processUsageSubsidies_eq_ok hw.buffer_length halign hA'len hepochs
      husage with
    ⟨A'', F'', rfl, rfl, -, hF''window, hA''window, hF''len, hF''buf, hF''cur, hA''len, hA''cur⟩
  have hF''epochs : F''.window.map Rewards.FutureAccounting.epoch =
      List.range' w.system.committee.epoch F''.length := by
    rw [hF''window, FutureAccountingRingBuffer.map_epoch_mapIdx_addRewards, hw.epochs, hF''len]
  refine ⟨⟨hF''buf.trans hF''len.symm, by rw [hF''cur, hF''len]; exact hw.currentIndex_lt,
    by rw [hF''len]; exact hw.length_pos, by rw [hF''len]; exact hw.length_le, hF''epochs,
    by rw [hF''len]; exact hw.epochs_fit, hA''len.trans hF''len.symm,
    by rw [hA''cur, hA''len, ← hA'len]; exact hA'cur, ⟨w.system.committee.epoch, Nat.le_refl _, ?_⟩,
    fun e _ => (balanceOf_of_window_eq_map hA''window e).le, hrate ▸ hw.rate_le, hpaidLe,
    hpaidNodup⟩, hA''window⟩
  rw [hA''window, List.map_map, hA''len, ← hF''len]
  exact hF''epochs

/-- Every call keeps the invariant. -/
theorem step (hw : Aligned w) {c : Call} (h : w.step c = .ok w') : Aligned w' := by
  cases c with
  | processStoragePayments storageSize startOffset endOffset payment =>
    rcases bind_eq_ok.mp h with ⟨⟨F', coin⟩, hpay, h⟩
    cases h
    exact hw.of_grows
      (FutureAccountingRingBuffer.processStoragePayments_grows hw.buffer_length hpay)
  | addSubsidy subsidy epochsAhead =>
    rcases bind_eq_ok.mp h with ⟨F', hadd, h⟩
    cases h
    exact hw.of_grows (FutureAccountingRingBuffer.addSubsidy_grows hw.buffer_length hadd)
  | addPerEpochSubsidies subsidies =>
    rcases bind_eq_ok.mp h with ⟨F', hadd, h⟩
    cases h
    exact hw.of_grows
      (FutureAccountingRingBuffer.addPerEpochSubsidies_grows hw.buffer_length hadd)
  | advanceEpoch newCommittee storagePrice =>
    -- the invariant does not read the storage price
    rcases bind_eq_ok.mp h with ⟨⟨system', rewards⟩, hadvance, h⟩
    cases h
    exact { hw.advanceEpoch hadvance with }
  | stakingEpochChange committee =>
    -- the invariant does not read the staking's epoch
    rcases bind_eq_ok.mp h with ⟨epoch, -, h⟩
    cases h
    exact { hw with }
  | addBalance funds =>
    rcases bind_eq_ok.mp h with ⟨subsidies, hadd, h⟩
    cases h
    rcases bind_eq_ok.mp hadd with ⟨pool, -, hadd⟩
    cases hadd
    exact { hw with }
  | setSystemSubsidyRate newRate =>
    rcases bind_eq_ok.mp h with ⟨subsidies, hset, h⟩
    cases h
    unfold WalrusSubsidiesInnerV1.setSystemSubsidyRate at hset
    rw [ite_throw_bind_eq_ok] at hset
    rcases hset with ⟨hle, hset⟩
    cases hset
    exact { hw with rate_le := hle.trans (by unfold maxSubsidyRate u32Max; decide) }
  | processSubsidies =>
    rcases bind_eq_ok.mp h with ⟨⟨subsidies', system', commissions⟩, hprocess, h⟩
    cases h
    exact (hw.processSubsidies hprocess).1

/-- Every reachable world is aligned. -/
theorem of_reachable : Reachable Init World.stepOption w → Aligned w :=
  Reachable.invariant (fun _ h => of_init h) (fun _ _ _ hw h => hw.step (toOption_eq_some.mp h))

end Aligned

/-- Only `process_subsidies` writes the ring of the subsidies: between two runs it keeps what
the last one recorded. -/
theorem World.step_ring {w w' : World} {c : Call} (hc : c ≠ .processSubsidies)
    (h : w.step c = .ok w') :
    w'.subsidies.alreadySubsidizedBalances = w.subsidies.alreadySubsidizedBalances := by
  cases c with
  | processSubsidies => exact absurd rfl hc
  | addBalance funds =>
    rcases bind_eq_ok.mp h with ⟨subsidies, hadd, h⟩
    cases h
    rcases bind_eq_ok.mp hadd with ⟨pool, -, hadd⟩
    cases hadd
    rfl
  | setSystemSubsidyRate newRate =>
    rcases bind_eq_ok.mp h with ⟨subsidies, hset, h⟩
    cases h
    unfold WalrusSubsidiesInnerV1.setSystemSubsidyRate at hset
    rw [ite_throw_bind_eq_ok] at hset
    cases hset.2
    rfl
  | _ =>
    -- the other calls write the system or the staking only
    rcases bind_eq_ok.mp h with ⟨_, -, h⟩
    cases h
    rfl

/-- The usage subsidies stay aligned with the system. In every world reachable from the
creation of the subsidies by storage payments, `add_subsidy`, `add_per_epoch_subsidies`, epoch
changes of the system and of the staking, funds, rate changes and runs of `process_subsidies`,
for a run of `process_usage_subsidies` on the module's ring and rate and any pool that fits in
`u64` with the rewards: the alignment loop ends with the ring of the epochs of the future
accounting; the call aborts only with `EInsufficientFundsInPool`; when it returns, the ring
holds the window of the future accounting, and every epoch of the window was subsidized at
most up to its rewards and received the rate on what its rewards exceed the balance the ring
recorded for it. Only `process_subsidies` writes the ring, and after it the ring records the
rewards of every epoch; and no node received the usage-independent subsidy twice for one
staking epoch. -/
theorem usage_subsidies_aligned {w : World} (hw : Reachable Init World.stepOption w) :
    (∀ self : WalrusSubsidiesInnerV1,
      self.alreadySubsidizedBalances = w.subsidies.alreadySubsidizedBalances →
      self.systemSubsidyRate = w.subsidies.systemSubsidyRate →
      self.subsidyPool +
        (w.system.futureAccounting.window.map FutureAccounting.rewardsToDistribute).sum ≤ u64Max →
      (∃ A', alignLoop w.system.futureAccounting self.alreadySubsidizedBalances = .ok A' ∧
        A'.window.map EpochBalance.epoch =
          w.system.futureAccounting.window.map Rewards.FutureAccounting.epoch) ∧
      (self.processUsageSubsidies w.system = .error .insufficientFundsInPool ∨
        ∃ self' system', self.processUsageSubsidies w.system = .ok (self', system') ∧
          self'.alreadySubsidizedBalances.window =
            system'.futureAccounting.window.map toEpochBalance ∧
          ∀ e, w.system.committee.epoch ≤ e →
            e < w.system.committee.epoch + w.system.futureAccounting.length →
            w.subsidies.alreadySubsidizedBalances.balanceOf e ≤
              w.system.futureAccounting.rewardsOf e ∧
            system'.futureAccounting.rewardsOf e = w.system.futureAccounting.rewardsOf e +
              (w.system.futureAccounting.rewardsOf e -
                w.subsidies.alreadySubsidizedBalances.balanceOf e) *
                w.subsidies.systemSubsidyRate / hundredPercent)) ∧
    (∀ c w', c ≠ .processSubsidies → w.step c = .ok w' →
      w'.subsidies.alreadySubsidizedBalances = w.subsidies.alreadySubsidizedBalances) ∧
    (∀ w', w.step .processSubsidies = .ok w' → ∀ e,
      w'.subsidies.alreadySubsidizedBalances.balanceOf e =
        w'.system.futureAccounting.rewardsOf e) ∧
    w.fixedRatePayouts.Nodup := by
  have hal := Aligned.of_reachable hw
  refine ⟨?_, fun c w' hc h => World.step_ring hc h, ?_, hal.payouts_nodup⟩
  · intro self hA hrate hsupply
    rcases hal.ring_epochs with ⟨a0, ha0, hAepochs⟩
    rcases alignLoop_aligned hal.buffer_length hal.epochs hal.length_pos hal.epochs_fit
        (hal.length_le.trans (by unfold maxMaxEpochsAhead u32Max; decide)) hal.ring_length
        hal.ring_currentIndex_lt ha0 hAepochs hal.dominated with
      ⟨A', halign, hA'epochs, hA'len, -, hbal, hdom⟩
    rw [← hA] at halign
    have hepochs : A'.window.map EpochBalance.epoch =
        w.system.futureAccounting.window.map Rewards.FutureAccounting.epoch := by
      rw [hA'epochs, hal.epochs]
    refine ⟨⟨A', halign, hepochs⟩, ?_⟩
    rcases WalrusSubsidiesInnerV1.processUsageSubsidies_isOk hal.buffer_length halign hA'len
        hepochs hdom (hrate ▸ hal.rate_le) hsupply with herr | ⟨⟨self', system'⟩, hok⟩
    · exact .inl herr
    right
    rcases WalrusSubsidiesInnerV1.processUsageSubsidies_eq_ok hal.buffer_length halign hA'len
        hepochs hok with ⟨A'', F'', rfl, rfl, -, hF''window, hA''window, -⟩
    refine ⟨_, _, hok, hA''window, ?_⟩
    intro e he he'
    refine ⟨hal.dominated e he, ?_⟩
    -- the subsidy of the epoch, read off the aligned ring, whose balance is the one recorded
    rw [rewardsOf_usage hal.buffer_length hal.epochs (hA'len ▸ hA'epochs) hA'len hF''window he he',
      hbal e he, hrate]
  · intro w' h e
    rcases bind_eq_ok.mp h with ⟨⟨subsidies', system', commissions⟩, hprocess, h⟩
    cases h
    exact balanceOf_of_window_eq_map (hal.processSubsidies hprocess).2 e

/-- The system of epoch 0 with a future accounting of one epoch, no committee and the storage
price of `create_empty`, the staking at epoch 0, and the subsidies just created at a rate of
100%. -/
def createdWorld : World :=
  ⟨⟨BlsCommittee.empty 0, ⟨0, 1, [⟨0, 0, 0⟩]⟩, VecMap.empty⟩, 0, ⟨0, Committee.empty⟩,
    ⟨10000, 0, 0, 0, 0, ⟨0, [⟨0, 0⟩]⟩⟩, []⟩

theorem createdWorld_init : Init createdWorld :=
  ⟨rfl, by decide, by decide, by decide, rfl, by decide, fun _ => rfl,
    ⟨10000, 0, 0, by decide, rfl⟩, rfl⟩

theorem usage_subsidies_aligned_created :
    Reachable Init World.stepOption createdWorld ∧
      (∀ self : WalrusSubsidiesInnerV1,
        self.alreadySubsidizedBalances = createdWorld.subsidies.alreadySubsidizedBalances →
        self.systemSubsidyRate = createdWorld.subsidies.systemSubsidyRate →
        self.subsidyPool + (createdWorld.system.futureAccounting.window.map
          FutureAccounting.rewardsToDistribute).sum ≤ u64Max →
        (∃ A', alignLoop createdWorld.system.futureAccounting self.alreadySubsidizedBalances =
            .ok A' ∧ A'.window.map EpochBalance.epoch =
            createdWorld.system.futureAccounting.window.map Rewards.FutureAccounting.epoch) ∧
        (self.processUsageSubsidies createdWorld.system = .error .insufficientFundsInPool ∨
          ∃ self' system', self.processUsageSubsidies createdWorld.system = .ok (self', system') ∧
            self'.alreadySubsidizedBalances.window =
              system'.futureAccounting.window.map toEpochBalance ∧
            ∀ e, createdWorld.system.committee.epoch ≤ e →
              e < createdWorld.system.committee.epoch + createdWorld.system.futureAccounting.length →
              createdWorld.subsidies.alreadySubsidizedBalances.balanceOf e ≤
                createdWorld.system.futureAccounting.rewardsOf e ∧
              system'.futureAccounting.rewardsOf e = createdWorld.system.futureAccounting.rewardsOf e +
                (createdWorld.system.futureAccounting.rewardsOf e -
                  createdWorld.subsidies.alreadySubsidizedBalances.balanceOf e) *
                  createdWorld.subsidies.systemSubsidyRate / hundredPercent)) ∧
      (∀ c w', c ≠ .processSubsidies → createdWorld.step c = .ok w' →
        w'.subsidies.alreadySubsidizedBalances = createdWorld.subsidies.alreadySubsidizedBalances) ∧
      (∀ w', createdWorld.step .processSubsidies = .ok w' → ∀ e,
        w'.subsidies.alreadySubsidizedBalances.balanceOf e =
          w'.system.futureAccounting.rewardsOf e) ∧
      createdWorld.fixedRatePayouts.Nodup :=
  ⟨.init createdWorld_init, usage_subsidies_aligned (.init createdWorld_init)⟩

/-- The committee of epoch 1 in the staking: one node holding all ten shards. -/
def nextStakingCommittee : Committee := ⟨⟨[(⟨Vector.replicate 32 1⟩, List.range 10)], by decide⟩⟩

/-- The same committee in the system, its node weighted by its ten shards. -/
def nextCommittee : BlsCommittee :=
  (BlsCommittee.newBlsCommittee 1 [⟨10, ⟨Vector.replicate 32 1⟩⟩]).get rfl

/-- From `createdWorld`, with a pool of 100000 FROST: `add_subsidy` of 10000 FROST for epoch 0,
the only reward that enters from outside; `process_subsidies`; the epoch change, in the staking
and in the system, with no data stored; and `process_subsidies` again. -/
def subsidizedTwiceCalls : List Call :=
  [.addBalance 100000, .addSubsidy 10000 1, .processSubsidies,
    .stakingEpochChange nextStakingCommittee, .advanceEpoch nextCommittee 5, .processSubsidies]

/-- A unit of reward is subsidized more than once. No call aborts. The first
`process_subsidies` pays the 100% usage subsidy of 10000; the 20000 FROST of epoch 0 are all
left over to epoch 1; and the second subsidizes those 20000 again. The pool paid 30000 FROST of
usage subsidies for 10000 FROST of rewards. -/
theorem usage_subsidy_paid_twice :
    Init createdWorld ∧ ∃ w, subsidizedTwiceCalls.foldlM World.step createdWorld = .ok w ∧
      w.subsidies.subsidyPool = 70000 := by
  have hrun : (subsidizedTwiceCalls.foldlM World.step createdWorld).toOption.map
      (·.subsidies.subsidyPool) = some 70000 := by
    decide +kernel
  obtain ⟨w, hw, hpool⟩ := Option.map_eq_some_iff.mp hrun
  exact ⟨createdWorld_init, w, toOption_eq_some.mp hw, hpool⟩

end Walrus.Subsidies
