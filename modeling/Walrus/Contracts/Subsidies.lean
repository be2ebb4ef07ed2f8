import Walrus.Contracts.Rewards
import Walrus.Contracts.EpochBalance
import Walrus.Staking.Committee

/-! # The subsidies

`walrus_subsidies::walrus_subsidies_inner`: a pool of WAL that tops up the rewards of the
system. Once per staking epoch each node of the staking committee receives a fixed subsidy,
a base amount and an amount per shard, as commission of its pool
(`process_fixed_rate_subsidies`). And the rewards paid into the system are subsidized at a rate
in basis points (`process_usage_subsidies`): the module remembers, in an epoch balance ring
beside the future accounting, the rewards of each epoch it has already subsidized, and pays the
rate on what the rewards of the epoch grew by since.

Before it pays, the usage subsidy pops the entries of the epochs that have ended, until the
first epoch of its ring is the first of the future accounting (`alignLoop`, a `while` loop
that ends because each pop moves an entry `length` epochs on). With both windows of the same
consecutive epochs, the subsidy of each epoch is `usageSubsidy` of its two entries
(`foldlM_usageStep`), and afterwards the ring holds exactly the rewards of the future
accounting, subsidies included (`processUsageSubsidies_eq_ok`).

The clock's timestamp that `process_subsidies` records is read by no contract and is left out.
-/

namespace Walrus.Subsidies

open Machine Walrus.System.Rewards Walrus.Staking
open Walrus.System hiding FutureAccountingRingBuffer FutureAccounting

/-- `HUNDRED_PERCENT`: rates are in basis points. -/
def hundredPercent : Nat := 10000

/-- `MAX_SUBSIDY_RATE`. -/
def maxSubsidyRate : Nat := 1000000

/-- `WalrusSubsidiesInnerV1`, the pool by its value. -/
structure WalrusSubsidiesInnerV1 where
  systemSubsidyRate : Nat
  subsidyPool : Nat
  baseSubsidy : Nat
  subsidyPerShard : Nat
  latestEpoch : Nat
  alreadySubsidizedBalances : EpochBalanceRingBuffer

/-- The parts of `Staking` that the subsidies read: its epoch and its committee. -/
structure StakingState where
  epoch : Nat
  committee : Committee

namespace WalrusSubsidiesInnerV1

/-- The rewards of the window position `i` of the future accounting, as the closure of
`vector::tabulate!` in `new` reads them. -/
def rewardsAt (futureAccounting : FutureAccountingRingBuffer) (i : Nat) : Except Abort Nat := do
  let accounting ← futureAccounting.ringLookup i
  pure accounting.rewardsToDistribute

/-- `new`: the ring starts with the rewards the system already holds, which are never
subsidized. -/
def new (system : RewardSystem) (stakingEpoch subsidyRate baseSubsidy subsidyPerShard : Nat) :
    Except Abort WalrusSubsidiesInnerV1 := do
  let futureAccounting := system.futureAccounting
  let balances ← (List.range futureAccounting.length).mapM (rewardsAt futureAccounting)
  let alreadySubsidizedBalances ←
    EpochBalanceRingBuffer.ringNewFromBalances system.committee.epoch balances
  -- We start paying subsidies in the current epoch if we are not in epoch 0, so set the latest
  -- epoch to the previous epoch.
  let latestEpoch := if stakingEpoch = 0 then 0 else stakingEpoch - 1
  pure ⟨subsidyRate, 0, baseSubsidy, subsidyPerShard, latestEpoch, alreadySubsidizedBalances⟩

/-- `add_balance`. -/
def addBalance (self : WalrusSubsidiesInnerV1) (funds : Nat) :
    Except Abort WalrusSubsidiesInnerV1 := do
  let subsidyPool ← u64Add self.subsidyPool funds
  pure { self with subsidyPool }

/-- `set_system_subsidy_rate`. -/
def setSystemSubsidyRate (self : WalrusSubsidiesInnerV1) (newRate : Nat) :
    Except Abort WalrusSubsidiesInnerV1 := do
  unless newRate ≤ maxSubsidyRate do throw .invalidSubsidyRate
  pure { self with systemSubsidyRate := newRate }

/-! ## The usage-independent subsidies -/

/-- One call of the closure of `map!` in `process_fixed_rate_subsidies`: the subsidy of a node
holding `shardsPerNode` is split off the pool, of value `acc.1`. -/
def fixedStep (baseSubsidy subsidyPerShard : Nat) (acc : Nat × List Nat)
    (shardsPerNode : List Nat) : Except Abort (Nat × List Nat) := do
  let perShard ← checkedMul u64Max shardsPerNode.length subsidyPerShard
  let subsidyValue ← u64Add baseSubsidy perShard
  unless acc.1 ≥ subsidyValue do throw .insufficientFundsInPool
  let subsidyPool ← balanceSplit acc.1 subsidyValue
  pure (subsidyPool, acc.2 ++ [subsidyValue])

/-- `process_fixed_rate_subsidies`: once per staking epoch, every node of the committee receives
its subsidy as commission. Returns the subsidies paid, by node, and whether it paid. -/
def processFixedRateSubsidies (self : WalrusSubsidiesInnerV1) (staking : StakingState) :
    Except Abort (WalrusSubsidiesInnerV1 × List (ObjectID × Nat) × Bool) := do
  -- Check if we have paid subsidies for the current epoch already.
  if self.latestEpoch ≥ staking.epoch then return (self, [], false)
  let (nodeIds, shards) := staking.committee.inner.intoKeysValues
  let (subsidyPool, subsidies) ←
    shards.foldlM (fixedStep self.baseSubsidy self.subsidyPerShard) (self.subsidyPool, [])
  -- `add_commission_to_pools` pairs the nodes with their subsidies by `zip_do!`
  unless nodeIds.length = subsidies.length do throw .lengthMismatch
  pure ({ self with subsidyPool, latestEpoch := staking.epoch }, nodeIds.zip subsidies, true)

end WalrusSubsidiesInnerV1

/-! ## The alignment loop -/

/-- The condition of the `while` loop of `process_usage_subsidies`: the first epoch of the ring
is before the first of the future accounting. -/
def alignCond (futureAccounting : FutureAccountingRingBuffer)
    (alreadySubsidized : EpochBalanceRingBuffer) : Except Abort Bool := do
  let first ← alreadySubsidized.ringLookup 0
  let current ← futureAccounting.ringLookup 0
  pure (decide (first.epoch < current.epoch))

/-- The body of the loop: the entry of an epoch that is over leaves the ring. -/
def alignBody (alreadySubsidized : EpochBalanceRingBuffer) :
    Except Abort EpochBalanceRingBuffer := do
  let (_, alreadySubsidized) ← alreadySubsidized.ringPopExpand
  pure alreadySubsidized

/-- How far the entries of the ring are from the first epoch of the future accounting. -/
def alignMeasure (futureAccounting : FutureAccountingRingBuffer)
    (alreadySubsidized : EpochBalanceRingBuffer) : Nat :=
  match futureAccounting.ringLookup 0 with
  | .ok current => alreadySubsidized.distanceTo current.epoch
  | .error _ => 0

/-- A round of the loop pops the first entry, which is before the first epoch of the future
accounting, and so brings the ring closer to it. -/
theorem alignBody_lowers (futureAccounting : FutureAccountingRingBuffer) :
    ∀ a a', alignCond futureAccounting a = .ok true → alignBody a = .ok a' →
      alignMeasure futureAccounting a' < alignMeasure futureAccounting a := by
  intro a a' hc hb
  unfold alignCond at hc
  rcases bind_eq_ok.mp hc with ⟨first, hfirst, hc⟩
  rcases bind_eq_ok.mp hc with ⟨current, hcurrent, hc⟩
  have hlt : first.epoch < current.epoch := by
    simpa [pure, Except.pure] using hc
  unfold alignBody at hb
  rcases bind_eq_ok.mp hb with ⟨⟨popped, a''⟩, hpop, hb⟩
  cases hb
  -- the popped entry is the first of the window, the one the condition compared
  rcases EpochBalanceRingBuffer.ringPopExpand_eq_ok hpop with ⟨-, hwindow, -⟩
  have hsame : popped = first := by
    rw [EpochBalanceRingBuffer.ringLookup_eq_ok, hwindow] at hfirst
    exact Option.some.inj hfirst
  unfold alignMeasure
  rw [hcurrent]
  exact EpochBalanceRingBuffer.ringPopExpand_lowers hpop (hsame ▸ hlt)

/-- `while (already_subsidized[0].epoch() < future_accounting[0].epoch())
already_subsidized.ring_pop_expand();` -/
def alignLoop (futureAccounting : FutureAccountingRingBuffer) :
    EpochBalanceRingBuffer → Except Abort EpochBalanceRingBuffer :=
  whileM (alignCond futureAccounting) alignBody (alignMeasure futureAccounting)
    (alignBody_lowers futureAccounting)

/-! ## The usage subsidies -/

/-- The usage subsidy of an epoch whose rewards are those of `a` and whose rewards already
subsidized are the balance of `b`: the rate on what the rewards grew by. -/
def usageSubsidy (rate : Nat) (a : FutureAccounting) (b : EpochBalance) : Nat :=
  (a.rewardsToDistribute - b.balance) * rate / hundredPercent

/-- The usage subsidies of the epochs of two windows, position by position. -/
def usageSubsidies (rate : Nat) (futureAccounting : FutureAccountingRingBuffer)
    (alreadySubsidized : EpochBalanceRingBuffer) : List Nat :=
  List.zipWith (usageSubsidy rate) futureAccounting.window alreadySubsidized.window

/-- The entry of the epoch of `a` with all its rewards subsidized. -/
def toEpochBalance (a : FutureAccounting) : EpochBalance :=
  ⟨a.epoch, a.rewardsToDistribute⟩

/-- One call of the closure of `vector::tabulate!` in `process_usage_subsidies`: the subsidy of
the epoch `idx` epochs in the future is split off the pool, of value `acc.1`, and the ring
`acc.2.1` records the epoch's rewards with it; the subsidies are collected in `acc.2.2`. -/
def usageStep (futureAccounting : FutureAccountingRingBuffer) (systemSubsidyRate : Nat)
    (acc : Nat × EpochBalanceRingBuffer × List Nat) (idx : Nat) :
    Except Abort (Nat × EpochBalanceRingBuffer × List Nat) := do
  let accounting ← futureAccounting.ringLookup idx
  let epochRewards := accounting.rewardsToDistribute
  let entry ← acc.2.1.ringLookup idx
  let toSubsidize ← checkedSub epochRewards entry.balance
  let product ← checkedMul u128Max toSubsidize systemSubsidyRate
  let subsidyValue := product / hundredPercent
  unless subsidyValue ≤ acc.1 do throw .insufficientFundsInPool
  -- Safe to cast down to u64, since it is less than the pool value which is a u64.
  let subsidy ← u64Cast subsidyValue
  let subsidyPool ← balanceSplit acc.1 subsidy
  -- Update the already subsidized balances; the code looks the entry up before it adds, and
  -- neither can abort here
  let balance ← u64Add epochRewards subsidy
  let alreadySubsidized ← acc.2.1.setBalance idx balance
  pure (subsidyPool, alreadySubsidized, acc.2.2 ++ [subsidy])

namespace WalrusSubsidiesInnerV1

/-- `process_usage_subsidies`: subsidize, for every epoch of the future accounting, what its
rewards grew by since they were last subsidized. -/
def processUsageSubsidies (self : WalrusSubsidiesInnerV1) (system : RewardSystem) :
    Except Abort (WalrusSubsidiesInnerV1 × RewardSystem) := do
  let futureAccounting := system.futureAccounting
  -- Get rid of old epochs that are already over.
  let alreadySubsidized ← alignLoop futureAccounting self.alreadySubsidizedBalances
  -- Calculate and collect subsidies.
  let (subsidyPool, alreadySubsidized, subsidies) ←
    (List.range futureAccounting.length).foldlM
      (usageStep futureAccounting self.systemSubsidyRate) (self.subsidyPool, alreadySubsidized, [])
  let futureAccounting ← futureAccounting.addPerEpochSubsidies subsidies
  pure ({ self with subsidyPool, alreadySubsidizedBalances := alreadySubsidized },
    { system with futureAccounting })

/-- `process_subsidies`: the usage-independent subsidies, then the usage subsidies. Returns the
commissions paid to the pools. -/
def processSubsidies (self : WalrusSubsidiesInnerV1) (staking : StakingState)
    (system : RewardSystem) :
    Except Abort (WalrusSubsidiesInnerV1 × RewardSystem × List (ObjectID × Nat)) := do
  let (self, commissions, _) ← self.processFixedRateSubsidies staking
  let (self, system) ← self.processUsageSubsidies system
  pure (self, system, commissions)

end WalrusSubsidiesInnerV1

/-! ## The ring of a new module -/

namespace WalrusSubsidiesInnerV1

/-- The closure of `new` reads the rewards of each position of the window. -/
theorem mapM_rewardsAt {F : FutureAccountingRingBuffer} (hlen : F.ringBuffer.length = F.length) :
    (List.range F.length).mapM (rewardsAt F) =
      .ok (F.window.map FutureAccounting.rewardsToDistribute) := by
  have hwlen : F.window.length = F.length := by simp [hlen]
  have h := @mapM_eq_ok Abort _ _ (rewardsAt F)
    (fun i => ((F.window[i]?).map FutureAccounting.rewardsToDistribute).getD 0)
    (List.range F.length) ?_
  · rw [h]
    congr 1
    apply List.ext_getElem?
    intro i
    rw [List.getElem?_map, List.getElem?_map]
    by_cases hi : i < F.length
    case pos =>
      rw [List.getElem?_range hi, List.getElem?_eq_getElem (hwlen ▸ hi)]
      simp only [Option.map_some, List.getElem?_eq_getElem (hwlen ▸ hi), Option.getD_some]
    case neg =>
      rw [List.getElem?_eq_none (by simp; omega), List.getElem?_eq_none (by omega)]
      rfl
  · intro i hi
    have hi' : i < F.window.length := by simpa [hwlen] using hi
    have hlook : F.ringLookup i = .ok F.window[i] :=
      (FutureAccountingRingBuffer.ringLookup_eq_ok hlen).mpr (List.getElem?_eq_getElem hi')
    rw [rewardsAt, hlook, ok_bind, List.getElem?_eq_getElem hi']
    rfl

/-- Numbering the rewards of a window of the consecutive epochs from `start` gives back its
epochs. -/
theorem mapIdx_rewards_eq {F : FutureAccountingRingBuffer} {start : Nat}
    (hepochs : F.window.map Rewards.FutureAccounting.epoch = List.range' start F.window.length) :
    (F.window.map FutureAccounting.rewardsToDistribute).mapIdx
        (fun i balance => (⟨start + i, balance⟩ : EpochBalance)) =
      F.window.map toEpochBalance := by
  apply List.ext_getElem?
  intro i
  rw [List.getElem?_mapIdx, List.getElem?_map, List.getElem?_map]
  cases ha : F.window[i]? with
  | none => rfl
  | some a =>
    have hepoch : a.epoch = start + i := key_of_map_eq_range' hepochs ha
    simp [toEpochBalance, hepoch]

/-- `new` on a system whose window holds the consecutive epochs from its own: the ring is
the window of the future accounting, with the rewards of each epoch as its balance. -/
theorem new_eq {system : RewardSystem}
    (hlen : system.futureAccounting.ringBuffer.length = system.futureAccounting.length)
    (hepochs : system.futureAccounting.window.map Rewards.FutureAccounting.epoch =
      List.range' system.committee.epoch system.futureAccounting.length)
    (hfit : system.committee.epoch + system.futureAccounting.length ≤ u32Max)
    (stakingEpoch subsidyRate baseSubsidy subsidyPerShard : Nat) :
    new system stakingEpoch subsidyRate baseSubsidy subsidyPerShard =
      .ok ⟨subsidyRate, 0, baseSubsidy, subsidyPerShard,
        if stakingEpoch = 0 then 0 else stakingEpoch - 1,
        ⟨0, system.futureAccounting.window.map toEpochBalance⟩⟩ := by
  have hwlen : system.futureAccounting.window.length = system.futureAccounting.length := by
    simp [hlen]
  unfold new
  dsimp only
  rw [mapM_rewardsAt hlen, ok_bind,
    EpochBalanceRingBuffer.ringNewFromBalances_eq (by simpa [hwlen] using hfit), ok_bind,
    mapIdx_rewards_eq (hwlen ▸ hepochs)]
  rfl

end WalrusSubsidiesInnerV1

/-- A ring whose window is the window of the future accounting, balance for rewards, holds for
every epoch the rewards of the future accounting. -/
theorem balanceOf_of_window_eq_map {B : EpochBalanceRingBuffer} {F : FutureAccountingRingBuffer}
    (h : B.window = F.window.map toEpochBalance) (e : Nat) : B.balanceOf e = F.rewardsOf e := by
  unfold EpochBalanceRingBuffer.balanceOf FutureAccountingRingBuffer.rewardsOf
  -- an entry and its image have the same epoch
  have hsame : ((fun x : EpochBalance => decide (x.epoch = e)) ∘ toEpochBalance) =
      fun a => decide (a.epoch = e) := rfl
  rw [h, List.find?_map, hsame]
  cases F.window.find? (fun a => decide (a.epoch = e)) <;> rfl

/-! ## The alignment -/

/-- The condition of the loop on a ring of the consecutive epochs from `b`. -/
theorem alignCond_eq {F : FutureAccountingRingBuffer} {c : FutureAccounting}
    (hc : F.ringLookup 0 = .ok c) {B : EpochBalanceRingBuffer} {b : Nat}
    (hepochs : B.window.map EpochBalance.epoch = List.range' b B.length) (hpos : 0 < B.length) :
    alignCond F B = .ok (decide (b < c.epoch)) := by
  obtain ⟨first, hfirst, hepoch⟩ := exists_getElem?_zero_of_map_eq_range' hepochs hpos
  unfold alignCond
  rw [EpochBalanceRingBuffer.ringLookup_eq_ok.mpr hfirst, ok_bind, hc, ok_bind, hepoch]
  rfl

/-- The alignment loop on a ring of the consecutive epochs from `a0`, at most the first epoch
`s` of the future accounting: the ring ends up with the epochs from `s`, each epoch from `s`
on keeping its balance. -/
theorem alignLoop_consecutive {F : FutureAccountingRingBuffer} {A : EpochBalanceRingBuffer}
    (hlen : F.ringBuffer.length = F.length) {s : Nat}
    (hFepochs : F.window.map Rewards.FutureAccounting.epoch = List.range' s F.length)
    (hpos : 0 < F.length) (hfit : s + F.length ≤ u32Max + 1) (hmax : F.length ≤ u32Max)
    (hA : A.length = F.length) (hAcur : A.currentIndex < A.length) {a0 : Nat} (ha0 : a0 ≤ s)
    (hAepochs : A.window.map EpochBalance.epoch = List.range' a0 A.length) :
    ∃ A', alignLoop F A = .ok A' ∧
      A'.window.map EpochBalance.epoch = List.range' s F.length ∧ A'.length = F.length ∧
      A'.currentIndex < A'.length ∧ ∀ e, s ≤ e → A'.balanceOf e = A.balanceOf e := by
  -- the first entry of the future accounting is of epoch `s`
  obtain ⟨c, hc, hcEpoch⟩ := exists_getElem?_zero_of_map_eq_range' hFepochs hpos
  have hlook : F.ringLookup 0 = .ok c := (FutureAccountingRingBuffer.ringLookup_eq_ok hlen).mpr hc
  -- the invariant: the ring holds the consecutive epochs from some `b` up to `s`, with the
  -- balances of the epochs from `b` on
  have hloop := @whileM_exists_ok Abort _ (alignCond F) alignBody (alignMeasure F)
    (alignBody_lowers F)
    (fun B => ∃ b, b ≤ s ∧ B.window.map EpochBalance.epoch = List.range' b B.length ∧
      B.length = F.length ∧ B.currentIndex < B.length ∧
      ∀ e, b ≤ e → B.balanceOf e = A.balanceOf e) ?_ ?_ A ⟨a0, ha0, hAepochs, hA, hAcur, fun _ _ => rfl⟩
  · rcases hloop with ⟨A', hrun, ⟨b, hb, hepochs, hlength, hcur, hbal⟩, hexit⟩
    rw [alignCond_eq hlook hepochs (by omega), hcEpoch] at hexit
    have hbs : b = s := by
      have : ¬ b < s := by simpa using hexit
      omega
    subst hbs
    exact ⟨A', hrun, hlength ▸ hepochs, hlength, hcur, hbal⟩
  · rintro B ⟨b, -, hepochs, hlength, -, -⟩
    exact ⟨_, alignCond_eq hlook hepochs (by omega)⟩
  · rintro B ⟨b, hb, hepochs, hlength, hcur, hbal⟩ hcond
    rw [alignCond_eq hlook hepochs (by omega), hcEpoch] at hcond
    have hlt : b < s := by simpa using hcond
    -- the round pops the entry of epoch `b`
    rcases EpochBalanceRingBuffer.ringPopExpand_consecutive hcur hepochs (by omega) (by omega) with
      ⟨e, B', hpop, hepochs', hlength', hcur', hbal'⟩
    refine ⟨B', ?_, b + 1, by omega, hlength' ▸ hepochs', hlength'.trans hlength, hcur', ?_⟩
    · simp only [alignBody, hpop, ok_bind]
      rfl
    · intro x hx
      rw [hbal' x hx, hbal x (by omega)]

/-! ## The usage subsidies -/

/-- One round of the usage subsidies, at entries that fit: it pays `usageSubsidy` when the pool
covers it, and otherwise aborts with `EInsufficientFundsInPool`. -/
theorem usageStep_cases {F : FutureAccountingRingBuffer} (hlen : F.ringBuffer.length = F.length)
    {rate pool j : Nat} {B : EpochBalanceRingBuffer} {subs : List Nat} {a : FutureAccounting}
    {b : EpochBalance} (ha : F.window[j]? = some a) (hb : B.window[j]? = some b)
    (hle : b.balance ≤ a.rewardsToDistribute) (hrate : rate ≤ u32Max)
    (hfit : a.rewardsToDistribute + pool ≤ u64Max) :
    usageStep F rate (pool, B, subs) j = .error .insufficientFundsInPool ∨
      usageSubsidy rate a b ≤ pool ∧ ∃ B',
        B.setBalance j (a.rewardsToDistribute + usageSubsidy rate a b) = .ok B' ∧
        usageStep F rate (pool, B, subs) j =
          .ok (pool - usageSubsidy rate a b, B', subs ++ [usageSubsidy rate a b]) := by
  have hlookF : F.ringLookup j = .ok a := (FutureAccountingRingBuffer.ringLookup_eq_ok hlen).mpr ha
  have hlookB : B.ringLookup j = .ok b := EpochBalanceRingBuffer.ringLookup_eq_ok.mpr hb
  have hsub : checkedSub a.rewardsToDistribute b.balance =
      .ok (a.rewardsToDistribute - b.balance) := checkedSub_eq_ok.mpr ⟨hle, rfl⟩
  -- what is subsidized fits in `u64` and the rate in `u32`, so their product fits in `u128`
  have hproduct : (a.rewardsToDistribute - b.balance) * rate ≤ u128Max :=
    calc (a.rewardsToDistribute - b.balance) * rate ≤ u64Max * u32Max :=
          Nat.mul_le_mul (by omega) hrate
      _ ≤ u128Max := by unfold u64Max u32Max u128Max; decide
  have hmul : checkedMul u128Max (a.rewardsToDistribute - b.balance) rate =
      .ok ((a.rewardsToDistribute - b.balance) * rate) := checkedMul_eq_ok.mpr ⟨hproduct, rfl⟩
  by_cases hpool : usageSubsidy rate a b ≤ pool
  case neg =>
    left
    unfold usageSubsidy at hpool
    simp only [usageStep, hlookF, hlookB, hsub, hmul, ok_bind, hpool, if_false, throw,
      throwThe, MonadExceptOf.throw]
    rfl
  case pos =>
    right
    obtain ⟨B', hset, -⟩ := @EpochBalanceRingBuffer.setBalance_isOk B j
      (a.rewardsToDistribute + usageSubsidy rate a b) b hb
    refine ⟨hpool, B', hset, ?_⟩
    have hcast : u64Cast (usageSubsidy rate a b) = .ok (usageSubsidy rate a b) :=
      u64Cast_eq_ok.mpr ⟨by omega, rfl⟩
    have hsplit : balanceSplit pool (usageSubsidy rate a b) = .ok (pool - usageSubsidy rate a b) :=
      balanceSplit_eq_ok.mpr ⟨hpool, rfl⟩
    have hadd : u64Add a.rewardsToDistribute (usageSubsidy rate a b) =
        .ok (a.rewardsToDistribute + usageSubsidy rate a b) := u64Add_eq_ok.mpr ⟨by omega, rfl⟩
    unfold usageSubsidy at hpool hcast hsplit hadd hset
    simp only [usageStep, hlookF, hlookB, hsub, hmul, ok_bind, hpool, if_true, hcast, hsplit,
      hadd, hset]
    rfl

/-- A round of the usage subsidies that succeeds paid `usageSubsidy` of its two entries out of
a pool that covered it, and recorded the epoch's rewards with it. -/
theorem usageStep_eq_ok {F : FutureAccountingRingBuffer} (hlen : F.ringBuffer.length = F.length)
    {rate pool j : Nat} {B : EpochBalanceRingBuffer} {subs : List Nat} {a : FutureAccounting}
    {b : EpochBalance} {st' : Nat × EpochBalanceRingBuffer × List Nat}
    (ha : F.window[j]? = some a) (hb : B.window[j]? = some b)
    (h : usageStep F rate (pool, B, subs) j = .ok st') :
    usageSubsidy rate a b ≤ pool ∧ ∃ B',
      B.setBalance j (a.rewardsToDistribute + usageSubsidy rate a b) = .ok B' ∧
      st' = (pool - usageSubsidy rate a b, B', subs ++ [usageSubsidy rate a b]) := by
  have hlookF : F.ringLookup j = .ok a := (FutureAccountingRingBuffer.ringLookup_eq_ok hlen).mpr ha
  have hlookB : B.ringLookup j = .ok b := EpochBalanceRingBuffer.ringLookup_eq_ok.mpr hb
  unfold usageStep at h
  rw [hlookF, ok_bind] at h
  dsimp only at h
  rw [hlookB, ok_bind] at h
  rcases bind_eq_ok.mp h with ⟨toSubsidize, hsub, h⟩
  rcases checkedSub_eq_ok.mp hsub with ⟨-, rfl⟩
  rcases bind_eq_ok.mp h with ⟨product, hmul, h⟩
  rcases checkedMul_eq_ok.mp hmul with ⟨-, rfl⟩
  rw [ite_throw_bind_eq_ok] at h
  rcases h with ⟨hpool, h⟩
  rcases bind_eq_ok.mp h with ⟨subsidy, hcast, h⟩
  rcases u64Cast_eq_ok.mp hcast with ⟨-, rfl⟩
  rcases bind_eq_ok.mp h with ⟨rest, hsplit, h⟩
  rcases balanceSplit_eq_ok.mp hsplit with ⟨-, rfl⟩
  rcases bind_eq_ok.mp h with ⟨balance, hadd, h⟩
  rcases u64Add_eq_ok.mp hadd with ⟨-, rfl⟩
  rcases bind_eq_ok.mp h with ⟨B', hset, h⟩
  cases h
  exact ⟨hpool, B', hset, rfl⟩

/-- The ring once every epoch of the window is subsidized: each epoch with its rewards and its
usage subsidy. -/
def syncedWindow (rate : Nat) (F : FutureAccountingRingBuffer) (A : EpochBalanceRingBuffer) :
    List EpochBalance :=
  (F.window.mapIdx fun k a => a.addRewards ((usageSubsidies rate F A).getD k 0)).map toEpochBalance

theorem getElem?_usageSubsidies {rate j : Nat} {F : FutureAccountingRingBuffer}
    {A : EpochBalanceRingBuffer} {a : FutureAccounting} {b : EpochBalance}
    (ha : F.window[j]? = some a) (hb : A.window[j]? = some b) :
    (usageSubsidies rate F A)[j]? = some (usageSubsidy rate a b) := by
  simp [usageSubsidies, List.getElem?_zipWith, ha, hb]

theorem getElem?_syncedWindow {rate j : Nat} {F : FutureAccountingRingBuffer}
    {A : EpochBalanceRingBuffer} {a : FutureAccounting} (ha : F.window[j]? = some a) :
    (syncedWindow rate F A)[j]? =
      some ⟨a.epoch, a.rewardsToDistribute + (usageSubsidies rate F A).getD j 0⟩ := by
  simp [syncedWindow, List.getElem?_mapIdx, ha, toEpochBalance]

/-- The state of the usage loop after its first `j` rounds over the windows of `F` and `A`:
the first `j` subsidies are paid out of the pool, and the first `j` positions of the ring hold
their epoch's rewards with the subsidy. -/
structure UsageInv (rate pool : Nat) (F : FutureAccountingRingBuffer) (A : EpochBalanceRingBuffer)
    (j : Nat) (st : Nat × EpochBalanceRingBuffer × List Nat) : Prop where
  paid : st.2.2 = (usageSubsidies rate F A).take j
  paid_le : ((usageSubsidies rate F A).take j).sum ≤ pool
  pool_eq : st.1 = pool - ((usageSubsidies rate F A).take j).sum
  window : ∀ i, st.2.1.window[i]? = if i < j then (syncedWindow rate F A)[i]? else A.window[i]?
  length_eq : st.2.1.length = A.length
  currentIndex_eq : st.2.1.currentIndex = A.currentIndex

section UsageLoop

variable {F : FutureAccountingRingBuffer} {A : EpochBalanceRingBuffer} {rate pool : Nat}

theorem usageInv_zero : UsageInv rate pool F A 0 (pool, A, []) :=
  ⟨rfl, by simp, by simp, fun i => by simp, rfl, rfl⟩

/-- A round that succeeds keeps the invariant of the loop, one position on. -/
theorem usageInv_step (hlen : F.ringBuffer.length = F.length)
    (hepochs : A.window.map EpochBalance.epoch = F.window.map Rewards.FutureAccounting.epoch)
    {j : Nat} {st st' : Nat × EpochBalanceRingBuffer × List Nat}
    (hinv : UsageInv rate pool F A j st) {a : FutureAccounting} {b : EpochBalance}
    (ha : F.window[j]? = some a) (hb : A.window[j]? = some b)
    (h : usageStep F rate st j = .ok st') : UsageInv rate pool F A (j + 1) st' := by
  obtain ⟨p, B, ss⟩ := st
  rcases hinv with ⟨hss, hle, hp, hwin, hlength, hcur⟩
  dsimp only at hss hp hwin hlength hcur
  -- the round reads the entry of the ring that no earlier round wrote
  have hbB : B.window[j]? = some b := by
    rw [hwin, if_neg (Nat.lt_irrefl _), hb]
  rcases usageStep_eq_ok hlen ha hbB h with ⟨hcover, B', hset, rfl⟩
  have hnext : (usageSubsidies rate F A).take (j + 1) =
      (usageSubsidies rate F A).take j ++ [usageSubsidy rate a b] := by
    rw [List.take_add_one, getElem?_usageSubsidies ha hb]
    rfl
  have hgetD : (usageSubsidies rate F A).getD j 0 = usageSubsidy rate a b := by
    rw [List.getD_eq_getElem?_getD, getElem?_usageSubsidies ha hb]
    rfl
  have hepoch : b.epoch = a.epoch := by
    have h := congrArg (·[j]?) hepochs
    simpa [List.getElem?_map, ha, hb] using h
  rcases EpochBalanceRingBuffer.setBalance_eq_ok hset with ⟨-, hwindow, hlength', hcur'⟩
  refine ⟨by rw [hss, hnext], by rw [hnext, List.sum_append, List.sum_singleton]; omega,
    by dsimp only; rw [hp, hnext, List.sum_append, List.sum_singleton]; omega, ?_,
    hlength'.trans hlength, hcur'.trans hcur⟩
  intro i
  rw [hwindow, List.getElem?_modify]
  by_cases hi : j = i
  case pos =>
    -- the position of the round now holds its epoch's rewards with the subsidy
    subst hi
    rw [hbB, if_pos (Nat.lt_succ_self _), getElem?_syncedWindow ha, hgetD]
    cases b
    simp only at hepoch
    simp [hepoch]
  case neg =>
    have hiff : i < j + 1 ↔ i < j := by omega
    simp only [hi, if_false, Option.map_eq_map, Option.map_id', hiff]
    exact hwin i

/-- After the last round the ring is the synced window and every subsidy is paid. -/
theorem UsageInv.final (hA : A.length = F.length) (hlen : F.ringBuffer.length = F.length)
    {st : Nat × EpochBalanceRingBuffer × List Nat} (hinv : UsageInv rate pool F A F.length st) :
    st = (pool - (usageSubsidies rate F A).sum, st.2.1, usageSubsidies rate F A) ∧
      (usageSubsidies rate F A).sum ≤ pool ∧ st.2.1.window = syncedWindow rate F A ∧
      st.2.1.length = A.length ∧ st.2.1.currentIndex = A.currentIndex := by
  obtain ⟨p, B, ss⟩ := st
  rcases hinv with ⟨hss, hle, hp, hwin, hlength, hcur⟩
  dsimp only at hss hp hwin hlength hcur ⊢
  have hwlen : F.window.length = F.length := by simp [hlen]
  have hAwlen : A.window.length = F.length := by simp [hA]
  have hsubsLen : (usageSubsidies rate F A).length = F.length := by
    simp [usageSubsidies, hwlen, hAwlen]
  have hsyncedLen : (syncedWindow rate F A).length = F.length := by simp [syncedWindow, hwlen]
  rw [List.take_of_length_le (by omega)] at hss hle hp
  refine ⟨by rw [hss, hp], hle, ?_, hlength, hcur⟩
  apply List.ext_getElem?
  intro i
  rw [hwin i]
  split
  · rfl
  · rw [List.getElem?_eq_none (by omega), List.getElem?_eq_none (by omega)]

/-- The usage loop over windows of the same epochs, each balance at most the rewards of its
epoch, and a pool that fits in `u64` with all the rewards: it aborts with
`EInsufficientFundsInPool`, or it runs every round. -/
theorem foldlM_usageStep (hlen : F.ringBuffer.length = F.length) (hA : A.length = F.length)
    (hepochs : A.window.map EpochBalance.epoch = F.window.map Rewards.FutureAccounting.epoch)
    (hdom : ∀ (i : Nat) (a : FutureAccounting) (b : EpochBalance), F.window[i]? = some a →
      A.window[i]? = some b → b.balance ≤ a.rewardsToDistribute)
    (hrate : rate ≤ u32Max)
    (hsupply : pool + (F.window.map FutureAccounting.rewardsToDistribute).sum ≤ u64Max) :
    (List.range F.length).foldlM (usageStep F rate) (pool, A, []) =
        .error .insufficientFundsInPool ∨
      ∃ st, (List.range F.length).foldlM (usageStep F rate) (pool, A, []) = .ok st := by
  have hloop := @foldlM_eq_error_or_exists_ok Abort _ _ (usageStep F rate)
    (fun done st => UsageInv rate pool F A done.length st) (List.range F.length)
    .insufficientFundsInPool ?_ (pool, A, []) usageInv_zero
  · rcases hloop with herr | ⟨st, hrun, -⟩
    · exact .inl herr
    · exact .inr ⟨st, hrun⟩
  · rintro done x rest ⟨p, B, ss⟩ hsplit hinv
    have hx : x = done.length := eq_length_of_append_cons_eq_range hsplit
    have hlt : done.length < F.length := by
      have := congrArg List.length hsplit
      simp only [List.length_append, List.length_cons, List.length_range] at this
      omega
    subst hx
    obtain ⟨a, ha⟩ : ∃ a, F.window[done.length]? = some a :=
      ⟨_, List.getElem?_eq_getElem (by simp [hlen]; omega)⟩
    obtain ⟨b, hb⟩ : ∃ b, A.window[done.length]? = some b :=
      ⟨_, List.getElem?_eq_getElem (by simp [hA]; omega)⟩
    have hbB : B.window[done.length]? = some b := by
      rw [hinv.window, if_neg (Nat.lt_irrefl _), hb]
    -- what is left of the pool fits in `u64` with the rewards of the round's epoch
    have hrewards : a.rewardsToDistribute ≤
        (F.window.map FutureAccounting.rewardsToDistribute).sum :=
      List.le_sum_of_mem (List.mem_map.mpr ⟨a, List.mem_of_getElem? ha, rfl⟩)
    have hp : p ≤ pool := by
      have := hinv.pool_eq
      dsimp only at this
      omega
    have hfitp : a.rewardsToDistribute + p ≤ u64Max := by omega
    rcases @usageStep_cases F hlen rate p done.length B ss a b ha hbB (hdom _ a b ha hb) hrate
        hfitp with herr | ⟨-, B', -, hstep⟩
    · exact .inl herr
    · rw [List.length_append, List.length_singleton]
      exact .inr ⟨_, hstep, usageInv_step hlen hepochs hinv ha hb hstep⟩

/-- A usage loop that succeeds ran every round: the invariant of all rounds holds. -/
theorem foldlM_usageStep_eq_ok (hlen : F.ringBuffer.length = F.length) (hA : A.length = F.length)
    (hepochs : A.window.map EpochBalance.epoch = F.window.map Rewards.FutureAccounting.epoch)
    {st : Nat × EpochBalanceRingBuffer × List Nat}
    (h : (List.range F.length).foldlM (usageStep F rate) (pool, A, []) = .ok st) :
    UsageInv rate pool F A F.length st := by
  have hinv := @foldlM_ok_invariant Abort _ _ (usageStep F rate)
    (fun done _ st => UsageInv rate pool F A done.length st) (List.range F.length) ?_
    (pool, A, []) st usageInv_zero h
  · simpa using hinv
  · intro done x rest st₁ st₂ hsplit hinv hstep
    have hx : x = done.length := eq_length_of_append_cons_eq_range hsplit
    have hlt : done.length < F.length := by
      have := congrArg List.length hsplit
      simp only [List.length_append, List.length_cons, List.length_range] at this
      omega
    subst hx
    obtain ⟨a, ha⟩ : ∃ a, F.window[done.length]? = some a :=
      ⟨_, List.getElem?_eq_getElem (by simp [hlen]; omega)⟩
    obtain ⟨b, hb⟩ : ∃ b, A.window[done.length]? = some b :=
      ⟨_, List.getElem?_eq_getElem (by simp [hA]; omega)⟩
    rw [List.length_append, List.length_singleton]
    exact usageInv_step hlen hepochs hinv ha hb hstep

end UsageLoop

/-- An entry of a list of amounts is at most their sum. -/
theorem getD_le_sum (l : List Nat) (k : Nat) : l.getD k 0 ≤ l.sum := by
  rw [List.getD_eq_getElem?_getD]
  cases hk : l[k]? with
  | none => exact Nat.zero_le _
  | some x => exact List.le_sum_of_mem (List.mem_of_getElem? hk)

/-- The rewards of every epoch of the window once the usage subsidies joined them: the rewards
it had and the rate on what they exceed the balance of its epoch in the aligned ring. -/
theorem rewardsOf_usage {F F'' : FutureAccountingRingBuffer} {A : EpochBalanceRingBuffer}
    {rate s : Nat} (hlen : F.ringBuffer.length = F.length)
    (hFepochs : F.window.map Rewards.FutureAccounting.epoch = List.range' s F.length)
    (hAepochs : A.window.map EpochBalance.epoch = List.range' s A.length) (hA : A.length = F.length)
    (hwindow : F''.window = F.window.mapIdx fun k a =>
      a.addRewards ((usageSubsidies rate F A).getD k 0))
    {e : Nat} (he : s ≤ e) (he' : e < s + F.length) :
    F''.rewardsOf e = F.rewardsOf e + (F.rewardsOf e - A.balanceOf e) * rate / hundredPercent := by
  have hwlen : F.window.length = F.length := by simp [hlen]
  have hF''epochs : F''.window.map Rewards.FutureAccounting.epoch =
      List.range' s F''.window.length := by
    rw [hwindow, FutureAccountingRingBuffer.map_epoch_mapIdx_addRewards, hFepochs,
      List.length_mapIdx, hwlen]
  obtain ⟨a, ha⟩ : ∃ a, F.window[e - s]? = some a := ⟨_, List.getElem?_eq_getElem (by omega)⟩
  obtain ⟨b, hb⟩ : ∃ b, A.window[e - s]? = some b :=
    ⟨_, List.getElem?_eq_getElem (by simp [hA]; omega)⟩
  have hrew : F.rewardsOf e = a.rewardsToDistribute := by
    rw [FutureAccountingRingBuffer.rewardsOf_eq (hwlen ▸ hFepochs), if_pos he, ha]
    rfl
  have hbal : A.balanceOf e = b.balance := by
    rw [EpochBalanceRingBuffer.balanceOf_eq hAepochs, if_pos he, hb]
    rfl
  have hgetD : (usageSubsidies rate F A).getD (e - s) 0 = usageSubsidy rate a b := by
    rw [List.getD_eq_getElem?_getD, getElem?_usageSubsidies ha hb]
    rfl
  rw [FutureAccountingRingBuffer.rewardsOf_eq hF''epochs, if_pos he, hwindow,
    List.getElem?_mapIdx, ha, hrew, hbal, hgetD]
  rfl

/-- The alignment, on a future accounting whose window holds the consecutive epochs from `s` and
a ring of the consecutive epochs from at most `s` whose balances are at most the rewards of their
epochs, gives a ring of the same epochs as the future accounting, in which every balance is at
most the rewards of its epoch. -/
theorem alignLoop_aligned {F : FutureAccountingRingBuffer} {A : EpochBalanceRingBuffer}
    (hlen : F.ringBuffer.length = F.length) {s : Nat}
    (hFepochs : F.window.map Rewards.FutureAccounting.epoch = List.range' s F.length)
    (hpos : 0 < F.length) (hfit : s + F.length ≤ u32Max + 1) (hmax : F.length ≤ u32Max)
    (hA : A.length = F.length) (hAcur : A.currentIndex < A.length) {a0 : Nat} (ha0 : a0 ≤ s)
    (hAepochs : A.window.map EpochBalance.epoch = List.range' a0 A.length)
    (hdom : ∀ e, s ≤ e → A.balanceOf e ≤ F.rewardsOf e) :
    ∃ A', alignLoop F A = .ok A' ∧ A'.window.map EpochBalance.epoch = List.range' s F.length ∧
      A'.length = F.length ∧ A'.currentIndex < A'.length ∧
      (∀ e, s ≤ e → A'.balanceOf e = A.balanceOf e) ∧
      ∀ (i : Nat) (a : FutureAccounting) (b : EpochBalance),
        F.window[i]? = some a → A'.window[i]? = some b → b.balance ≤ a.rewardsToDistribute := by
  rcases alignLoop_consecutive hlen hFepochs hpos hfit hmax hA hAcur ha0 hAepochs with
    ⟨A', halign, hA'epochs, hA'len, hA'cur, hbal⟩
  refine ⟨A', halign, hA'epochs, hA'len, hA'cur, hbal, ?_⟩
  -- position `i` of both windows is the epoch `s + i`
  intro i a b ha hb
  have hwlen : F.window.length = F.length := by simp [hlen]
  have hlt : i < F.length := by
    have := (List.getElem?_eq_some_iff.mp ha).1
    omega
  have hbal' : A'.balanceOf (s + i) = b.balance := by
    rw [EpochBalanceRingBuffer.balanceOf_eq (hA'len ▸ hA'epochs), if_pos (by omega),
      show s + i - s = i by omega, hb]
    rfl
  have hrew : F.rewardsOf (s + i) = a.rewardsToDistribute := by
    rw [FutureAccountingRingBuffer.rewardsOf_eq (hwlen ▸ hFepochs), if_pos (by omega),
      show s + i - s = i by omega, ha]
    rfl
  rw [← hbal', ← hrew, hbal _ (by omega)]
  exact hdom _ (by omega)

namespace WalrusSubsidiesInnerV1

section Usage

variable {self : WalrusSubsidiesInnerV1} {system : RewardSystem}

/-- A successful `process_usage_subsidies` on an aligned ring paid the usage subsidy of
every epoch out of the pool, joined it to the epoch's rewards, and left the ring holding every
epoch with its rewards. -/
theorem processUsageSubsidies_eq_ok
    (hlen : system.futureAccounting.ringBuffer.length = system.futureAccounting.length)
    {A' : EpochBalanceRingBuffer}
    (halign : alignLoop system.futureAccounting self.alreadySubsidizedBalances = .ok A')
    (hA' : A'.length = system.futureAccounting.length)
    (hepochs : A'.window.map EpochBalance.epoch =
      system.futureAccounting.window.map Rewards.FutureAccounting.epoch)
    {self' : WalrusSubsidiesInnerV1} {system' : RewardSystem}
    (h : self.processUsageSubsidies system = .ok (self', system')) :
    ∃ A'' F'', self' = ⟨self.systemSubsidyRate, self.subsidyPool -
          (usageSubsidies self.systemSubsidyRate system.futureAccounting A').sum,
        self.baseSubsidy, self.subsidyPerShard, self.latestEpoch, A''⟩ ∧
      system' = { system with futureAccounting := F'' } ∧
      (usageSubsidies self.systemSubsidyRate system.futureAccounting A').sum ≤ self.subsidyPool ∧
      F''.window = system.futureAccounting.window.mapIdx (fun k a => a.addRewards
        ((usageSubsidies self.systemSubsidyRate system.futureAccounting A').getD k 0)) ∧
      A''.window = F''.window.map toEpochBalance ∧
      F''.length = system.futureAccounting.length ∧
      F''.ringBuffer.length = system.futureAccounting.length ∧
      F''.currentIndex = system.futureAccounting.currentIndex ∧
      A''.length = system.futureAccounting.length ∧ A''.currentIndex = A'.currentIndex := by
  unfold processUsageSubsidies at h
  dsimp only at h
  rw [halign, ok_bind] at h
  rcases bind_eq_ok.mp h with ⟨st, hloop, h⟩
  rcases (foldlM_usageStep_eq_ok hlen hA' hepochs hloop).final hA' hlen with
    ⟨hst, hle, hwindow, hlength, hcur⟩
  rw [hst] at h
  dsimp only at h
  rcases bind_eq_ok.mp h with ⟨F'', hadd, h⟩
  cases h
  rcases FutureAccountingRingBuffer.addPerEpochSubsidies_eq_ok hlen hadd with
    ⟨hF''window, hF''len, hF''buf, hF''cur⟩
  refine ⟨st.2.1, F'', rfl, rfl, hle, hF''window, ?_, hF''len, hF''buf, hF''cur,
    hlength.trans hA', hcur⟩
  rw [hwindow, hF''window]
  rfl

/-- `process_usage_subsidies` on a system whose window holds the consecutive epochs from
`s`, with a ring of the consecutive epochs from at most `s` whose balances are at most the
rewards of their epochs, a rate in `u32` and a pool that fits in `u64` with all the rewards:
the call aborts with `EInsufficientFundsInPool`, or it succeeds. -/
theorem processUsageSubsidies_isOk
    (hlen : system.futureAccounting.ringBuffer.length = system.futureAccounting.length)
    {A' : EpochBalanceRingBuffer}
    (halign : alignLoop system.futureAccounting self.alreadySubsidizedBalances = .ok A')
    (hA' : A'.length = system.futureAccounting.length)
    (hepochs : A'.window.map EpochBalance.epoch =
      system.futureAccounting.window.map Rewards.FutureAccounting.epoch)
    (hdom : ∀ (i : Nat) (a : FutureAccounting) (b : EpochBalance),
      system.futureAccounting.window[i]? = some a → A'.window[i]? = some b →
      b.balance ≤ a.rewardsToDistribute)
    (hrate : self.systemSubsidyRate ≤ u32Max)
    (hsupply : self.subsidyPool +
      (system.futureAccounting.window.map FutureAccounting.rewardsToDistribute).sum ≤ u64Max) :
    self.processUsageSubsidies system = .error .insufficientFundsInPool ∨
      ∃ r, self.processUsageSubsidies system = .ok r := by
  rcases foldlM_usageStep hlen hA' hepochs hdom hrate hsupply with herr | ⟨st, hloop⟩
  · left
    unfold processUsageSubsidies
    dsimp only
    rw [halign, ok_bind, herr]
    rfl
  · right
    rcases (foldlM_usageStep_eq_ok hlen hA' hepochs hloop).final hA' hlen with
      ⟨hst, hle, -, -, -⟩
    set subs := usageSubsidies self.systemSubsidyRate system.futureAccounting A'
    -- the subsidies join the future accounting within `u64`: together they are at most the pool
    have hfitJoin : ∀ (k : Nat) (a : FutureAccounting), system.futureAccounting.window[k]? = some a →
        a.rewardsToDistribute + subs.getD k 0 ≤ u64Max := by
      intro k a ha
      have hrewards : a.rewardsToDistribute ≤
          (system.futureAccounting.window.map FutureAccounting.rewardsToDistribute).sum :=
        List.le_sum_of_mem (List.mem_map.mpr ⟨a, List.mem_of_getElem? ha, rfl⟩)
      have := getD_le_sum subs k
      omega
    have hsubsLen : subs.length ≤ system.futureAccounting.length := by
      simp [subs, usageSubsidies, hlen]
    rcases FutureAccountingRingBuffer.addPerEpochSubsidies_isOk hlen hsubsLen hfitJoin with
      ⟨F'', hadd, -⟩
    refine ⟨(⟨self.systemSubsidyRate, self.subsidyPool - subs.sum, self.baseSubsidy,
      self.subsidyPerShard, self.latestEpoch, st.2.1⟩, { system with futureAccounting := F'' }), ?_⟩
    unfold processUsageSubsidies
    dsimp only
    rw [halign, ok_bind, hloop, ok_bind, hst]
    dsimp only
    rw [hadd, ok_bind]
    rfl

end Usage

/-- The usage-independent subsidies pay nothing in an epoch already paid; otherwise every node
of the committee, once, and the epoch is recorded as paid. -/
theorem processFixedRateSubsidies_eq_ok {self self' : WalrusSubsidiesInnerV1}
    {staking : StakingState} {paid : List (ObjectID × Nat)} {b : Bool}
    (h : self.processFixedRateSubsidies staking = .ok (self', paid, b)) :
    (staking.epoch ≤ self.latestEpoch ∧ self' = self ∧ paid = []) ∨
      (self.latestEpoch < staking.epoch ∧ paid.map Prod.fst = staking.committee.inner.keys ∧
        ∃ subsidyPool, self' = { self with subsidyPool, latestEpoch := staking.epoch }) := by
  unfold processFixedRateSubsidies at h
  by_cases hpaid : self.latestEpoch ≥ staking.epoch
  case pos =>
    rw [if_pos hpaid] at h
    simp only [pure, Except.pure, Except.ok.injEq, Prod.mk.injEq] at h
    exact .inl ⟨hpaid, h.1.symm, h.2.1.symm⟩
  case neg =>
    rw [if_neg hpaid] at h
    rcases bind_eq_ok.mp h with ⟨⟨subsidyPool, subsidies⟩, -, h⟩
    rw [ite_throw_bind_eq_ok] at h
    rcases h with ⟨hlength, h⟩
    simp only [pure, Except.pure, Except.ok.injEq, Prod.mk.injEq] at h
    rcases h with ⟨rfl, rfl, -⟩
    refine .inr ⟨by omega, ?_, subsidyPool, rfl⟩
    exact List.map_fst_zip (by omega)

end WalrusSubsidiesInnerV1

end Walrus.Subsidies
