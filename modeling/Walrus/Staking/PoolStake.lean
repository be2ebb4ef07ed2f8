import Mathlib
import Walrus.Staking.StakingPool
import Walrus.Machine.Shares

/-! # Stake and shares of a staking pool

`walrus::pool_exchange_rate`, `walrus::staked_wal`, and the part of `walrus::staking_pool`
that `StakingPool` leaves out: the WAL balance of the pool and its shares, `stake`,
`request_withdraw_stake`, `withdraw_stake`, `calculate_rewards`, `advance_epoch` with
`process_pending_stake`, and `wal_balance_at_epoch`.

The pool counts its stake in shares. When it is advanced into epoch `E` it records the rate
of its balance to its shares as the exchange rate of `E`, adds the stake that activates at
`E` and takes out the withdrawals due at `E`, both converted at that rate, and recounts its
shares from its new balance. A `StakedWal` only keeps its principal and its activation epoch:
its shares are recomputed, at the rate recorded for its activation epoch, whenever it is
withdrawn.

`wal_balance_at_epoch` predicts the balance from the pending values without changing the
pool, and the active set reads it as the stake of the node for the next committee.
`processPendingStake_walBalance` shows that the prediction for an epoch is the balance the
pool has once it is advanced into that epoch without rewards.

Node metadata, keys, voting parameters and the checks on them are not modelled: none of the
functions here reads them.
-/

namespace Walrus.Staking

open Machine Walrus.System
open PendingValues (dueTotal)

/-- `WalrusContext`: the current epoch, and whether the committee of the next epoch is
selected. -/
structure WalrusContext where
  epoch : Nat
  committeeSelected : Bool

/-! ## Exchange rates -/

/-- `PoolExchangeRate`. A variable rate carries what `new` checks of it: its share amount is
positive and at most its WAL amount. -/
inductive PoolExchangeRate
  | flat
  | «variable» (walAmount shareAmount : Nat) (valid : 0 < shareAmount ∧ shareAmount ≤ walAmount)

namespace PoolExchangeRate

/-- `new`. -/
def new (walAmount shareAmount : Nat) : Except Abort PoolExchangeRate :=
  if hle : shareAmount ≤ walAmount then
    if hzero : walAmount = 0 ∨ shareAmount = 0 then .ok .flat
    else .ok (.«variable» walAmount shareAmount ⟨Nat.pos_of_ne_zero (not_or.mp hzero).2, hle⟩)
  else .error .invalidRate

/-- `convert_to_wal_amount`: `amount` shares in WAL, rounded down. The product is a `u128`
of two `u64`s, which cannot overflow; the quotient is cast back to `u64`. -/
def convertToWalAmount : PoolExchangeRate → Nat → Except Abort Nat
  | .flat, amount => .ok amount
  | .«variable» walAmount shareAmount _, amount => u64Cast (amount * walAmount / shareAmount)

/-- `convert_to_share_amount`: `amount` WAL in shares, rounded down. -/
def convertToShareAmount : PoolExchangeRate → Nat → Except Abort Nat
  | .flat, amount => .ok amount
  | .«variable» walAmount shareAmount _, amount => u64Cast (amount * shareAmount / walAmount)

/-- The WAL worth of `amount` shares, as `convert_to_wal_amount` computes it before the
cast. -/
def walValue : PoolExchangeRate → Nat → Nat
  | .flat, amount => amount
  | .«variable» walAmount shareAmount _, amount => amount * walAmount / shareAmount

/-- The shares `amount` WAL buy, as `convert_to_share_amount` computes them before the
cast. -/
def shareValue : PoolExchangeRate → Nat → Nat
  | .flat, amount => amount
  | .«variable» walAmount shareAmount _, amount => amount * shareAmount / walAmount

theorem convertToWalAmount_eq_ok {r : PoolExchangeRate} {amount v : Nat}
    (h : r.convertToWalAmount amount = .ok v) : v = r.walValue amount := by
  cases r with
  | flat => exact (Except.ok.inj h).symm
  | «variable» walAmount shareAmount _ => exact (u64Cast_eq_ok.mp h).2.symm

theorem convertToShareAmount_eq_ok {r : PoolExchangeRate} {amount v : Nat}
    (h : r.convertToShareAmount amount = .ok v) : v = r.shareValue amount := by
  cases r with
  | flat => exact (Except.ok.inj h).symm
  | «variable» walAmount shareAmount _ => exact (u64Cast_eq_ok.mp h).2.symm

theorem convertToShareAmount_of_le {r : PoolExchangeRate} {amount : Nat}
    (h : r.shareValue amount ≤ u64Max) :
    r.convertToShareAmount amount = .ok (r.shareValue amount) := by
  cases r with
  | flat => rfl
  | «variable» walAmount shareAmount _ => exact u64Cast_eq_ok.mpr ⟨h, rfl⟩

@[simp] theorem shareValue_zero (r : PoolExchangeRate) : r.shareValue 0 = 0 := by
  cases r <;> simp [shareValue]

/-- A share is worth at least one WAL: WAL buy at most as many shares. -/
theorem shareValue_le (r : PoolExchangeRate) (amount : Nat) : r.shareValue amount ≤ amount := by
  cases r with
  | flat => exact le_rfl
  | «variable» walAmount shareAmount valid =>
    apply Nat.div_le_of_le_mul
    calc amount * shareAmount ≤ amount * walAmount := Nat.mul_le_mul_left amount valid.2
      _ = walAmount * amount := Nat.mul_comm _ _

theorem shareValue_mono (r : PoolExchangeRate) {a b : Nat} (h : a ≤ b) :
    r.shareValue a ≤ r.shareValue b := by
  cases r with
  | flat => exact h
  | «variable» walAmount shareAmount _ => exact Nat.div_le_div_right (Nat.mul_le_mul_right _ h)

/-- Converting two amounts apart rounds down twice: at most the shares of their sum. -/
theorem shareValue_add_le (r : PoolExchangeRate) (a b : Nat) :
    r.shareValue a + r.shareValue b ≤ r.shareValue (a + b) := by
  cases r with
  | flat => exact le_rfl
  | «variable» walAmount shareAmount _ =>
    simp only [shareValue, Nat.add_mul]
    exact Nat.div_add_div_le_add_div

/-- Rounding favours the pool: the shares of an amount are worth at most the amount. -/
theorem walValue_shareValue_le (r : PoolExchangeRate) (amount : Nat) :
    r.walValue (r.shareValue amount) ≤ amount := by
  cases r with
  | flat => exact le_rfl
  | «variable» walAmount shareAmount valid =>
    apply Nat.div_le_of_le_mul
    calc amount * shareAmount / walAmount * walAmount ≤ amount * shareAmount :=
          Nat.div_mul_le_self _ _
      _ = shareAmount * amount := Nat.mul_comm _ _

/-- `new` aborts with `EInvalidRate` exactly when there are more shares than WAL. -/
theorem new_of_le {walAmount shareAmount : Nat} (h : shareAmount ≤ walAmount) :
    ∃ r, new walAmount shareAmount = .ok r := by
  unfold new
  rw [dif_pos h]
  split
  · exact ⟨_, rfl⟩
  · exact ⟨_, rfl⟩

/-- The rate `new` makes of a balance of `walAmount` and `shareAmount` shares: it needs at
most the shares they hold, and at it at most the balance pays for any of the shares; and
recounting the shares at it, after some of them are paid out and `a` WAL come in, keeps the
shares left and the shares the `a` WAL buy. -/
theorem new_eq_ok {walAmount shareAmount : Nat} {r : PoolExchangeRate}
    (h : new walAmount shareAmount = .ok r) :
    shareAmount ≤ walAmount ∧ (∀ x ≤ shareAmount, r.walValue x ≤ walAmount) ∧
      ∀ x ≤ shareAmount, ∀ a,
        r.shareValue a + (shareAmount - x) ≤ r.shareValue (walAmount + a - r.walValue x) := by
  unfold new at h
  split at h
  · rename_i hle
    split at h
    · -- a flat rate: no shares are left
      rename_i hzero
      cases h
      have hs : shareAmount = 0 := by omega
      refine ⟨hle, fun x hx => ?_, fun x hx a => ?_⟩
      · simp only [walValue]
        omega
      · simp only [shareValue, walValue]
        omega
    · rename_i hzero
      cases h
      refine ⟨hle, fun x hx => ?_, fun x hx a => ?_⟩
      · exact Nat.div_le_of_le_mul (Nat.mul_le_mul_right _ hx)
      · exact mul_div_add_sub_le a (by omega) hx
  · cases h

end PoolExchangeRate

/-- `exchange_rates.add`: a `Table` aborts on a key it holds already. -/
def addRate (rates : Nat → Option PoolExchangeRate) (epoch : Nat) (rate : PoolExchangeRate) :
    Except Abort (Nat → Option PoolExchangeRate) :=
  match rates epoch with
  | some _ => .error .fieldAlreadyExists
  | none => .ok fun e => if e = epoch then some rate else rates e

/-- The loop of `exchange_rate_at_epoch`, from `epoch` down to `activationEpoch`: the rate of
the latest epoch in between that has one, `flat` when none has. Stepping below epoch `0` is
an underflow. -/
def rateAtOrBefore (rates : Nat → Option PoolExchangeRate) (activationEpoch : Nat) :
    Nat → Except Abort PoolExchangeRate
  | 0 =>
    if activationEpoch ≤ 0 then
      match rates 0 with
      | some rate => .ok rate
      | none => .error .arithmeticError
    else .ok .flat
  | e + 1 =>
    if activationEpoch ≤ e + 1 then
      match rates (e + 1) with
      | some rate => .ok rate
      | none => rateAtOrBefore rates activationEpoch e
    else .ok .flat

theorem addRate_eq_ok {rates rates' : Nat → Option PoolExchangeRate} {epoch : Nat}
    {rate : PoolExchangeRate} (h : addRate rates epoch rate = .ok rates') :
    rates epoch = none ∧ rates' = fun e => if e = epoch then some rate else rates e := by
  unfold addRate at h
  split at h
  · cases h
  · rename_i hnone
    cases h
    exact ⟨hnone, rfl⟩

/-- A rate stored for `epoch` itself is the one found. -/
theorem rateAtOrBefore_of_eq_some {rates : Nat → Option PoolExchangeRate}
    {activationEpoch epoch : Nat} {rate : PoolExchangeRate} (ha : activationEpoch ≤ epoch)
    (h : rates epoch = some rate) : rateAtOrBefore rates activationEpoch epoch = .ok rate := by
  cases epoch with
  | zero => simp [rateAtOrBefore, ha, h]
  | succ e => simp [rateAtOrBefore, ha, h]

/-- The search reads the rates at `epoch` and below only. -/
theorem rateAtOrBefore_congr {rates rates' : Nat → Option PoolExchangeRate}
    {activationEpoch : Nat} :
    ∀ epoch, (∀ e ≤ epoch, rates' e = rates e) →
      rateAtOrBefore rates' activationEpoch epoch = rateAtOrBefore rates activationEpoch epoch
  | 0, h => by simp only [rateAtOrBefore, h 0 le_rfl]
  | e + 1, h => by
    simp only [rateAtOrBefore, h (e + 1) le_rfl,
      rateAtOrBefore_congr e fun e' he' => h e' (Nat.le_succ_of_le he')]

/-! ## Staked WAL -/

/-- `MIN_STAKING_THRESHOLD`: 1 WAL. -/
def minStakingThreshold : Nat := 1000000000

/-- `StakedWalState`. -/
inductive StakedWalState
  | staked
  | withdrawing (withdrawEpoch : Nat)
deriving DecidableEq, Repr

/-- `StakedWal`, with the value of its principal. -/
structure StakedWal where
  state : StakedWalState
  nodeId : Nat
  principal : Nat
  activationEpoch : Nat
deriving DecidableEq, Repr

namespace StakedWal

/-- `mint`. -/
def mint (nodeId principal activationEpoch : Nat) : Except Abort StakedWal := do
  unless principal ≥ minStakingThreshold do throw .stakeBelowThreshold
  pure ⟨.staked, nodeId, principal, activationEpoch⟩

/-- `is_staked`. -/
def isStaked (sw : StakedWal) : Bool :=
  sw.state == .staked

/-- `is_withdrawing`. -/
def isWithdrawing (sw : StakedWal) : Bool :=
  match sw.state with
  | .withdrawing _ => true
  | .staked => false

/-- `withdraw_epoch`. -/
def withdrawEpoch (sw : StakedWal) : Except Abort Nat :=
  match sw.state with
  | .withdrawing withdrawEpoch => .ok withdrawEpoch
  | .staked => .error .stakedWalNotWithdrawing

/-- `set_withdrawing`. -/
def setWithdrawing (sw : StakedWal) (withdrawEpoch : Nat) : Except Abort StakedWal := do
  unless sw.isStaked do throw .alreadyWithdrawing
  pure { sw with state := .withdrawing withdrawEpoch }

/-- `can_withdraw_early`: the stake is not active yet, and will not be counted for the next
committee. The second `u32` addition cannot overflow once the first did not. -/
def canWithdrawEarly (sw : StakedWal) (nodeInNextCommittee : Bool) (wctx : WalrusContext) :
    Except Abort Bool :=
  if sw.isWithdrawing then .ok false
  else do
    let afterNext ← u32Add wctx.epoch 2
    pure (sw.activationEpoch == afterNext ||
      (sw.activationEpoch == wctx.epoch + 1 && !nodeInNextCommittee))

/-- `join`: `other` is merged into `sw`; both are staked, or both withdrawing at the same
epoch, with the same node and activation epoch. -/
def join (sw other : StakedWal) : Except Abort StakedWal := do
  unless sw.nodeId = other.nodeId do throw .metadataMismatch
  unless sw.activationEpoch = other.activationEpoch do throw .metadataMismatch
  if sw.isStaked then
    unless other.isStaked do throw .metadataMismatch
    let principal ← u64Add sw.principal other.principal
    pure { sw with principal }
  else
    unless sw.isWithdrawing && other.isWithdrawing do throw .metadataMismatch
    let withdrawEpoch ← sw.withdrawEpoch
    let otherWithdrawEpoch ← other.withdrawEpoch
    unless withdrawEpoch = otherWithdrawEpoch do throw .metadataMismatch
    let principal ← u64Add sw.principal other.principal
    pure { sw with principal }

/-- `split`: `amount` of the principal goes to a new `StakedWal` in the same state; both
parts keep at least the threshold. -/
def split (sw : StakedWal) (amount : Nat) : Except Abort (StakedWal × StakedWal) := do
  unless sw.principal > amount do throw .invalidAmount
  unless amount ≥ minStakingThreshold do throw .stakeBelowThreshold
  unless sw.principal - amount ≥ minStakingThreshold do throw .stakeBelowThreshold
  pure ({ sw with principal := sw.principal - amount }, { sw with principal := amount })

theorem mint_eq_ok {nodeId principal activationEpoch : Nat} {sw : StakedWal}
    (h : mint nodeId principal activationEpoch = .ok sw) :
    sw = ⟨.staked, nodeId, principal, activationEpoch⟩ := by
  unfold mint at h
  rw [ite_throw_bind_eq_ok] at h
  exact (Except.ok.inj h.2).symm

theorem setWithdrawing_eq_ok {sw sw' : StakedWal} {withdrawEpoch : Nat}
    (h : sw.setWithdrawing withdrawEpoch = .ok sw') :
    sw.state = .staked ∧ sw' = { sw with state := .withdrawing withdrawEpoch } := by
  unfold setWithdrawing at h
  rw [ite_throw_bind_eq_ok] at h
  obtain ⟨hstaked, h⟩ := h
  refine ⟨by simpa [isStaked] using hstaked, (Except.ok.inj h).symm⟩

/-- A staked WAL can be withdrawn early when it is staked and activates in the epoch after
next, or in the next one without being counted for the next committee. -/
theorem canWithdrawEarly_eq_ok {sw : StakedWal} {next : Bool} {wctx : WalrusContext} {b : Bool}
    (h : sw.canWithdrawEarly next wctx = .ok b) :
    b = true ↔ sw.state = .staked ∧
      (sw.activationEpoch = wctx.epoch + 2 ∨ sw.activationEpoch = wctx.epoch + 1 ∧ next = false) := by
  unfold canWithdrawEarly at h
  cases hstate : sw.state with
  | withdrawing e =>
    simp only [isWithdrawing, hstate, if_true, Except.ok.injEq] at h
    simp [← h]
  | staked =>
    simp only [isWithdrawing, hstate, Bool.false_eq_true, if_false] at h
    obtain ⟨afterNext, hafter, h⟩ := bind_eq_ok.mp h
    obtain ⟨-, rfl⟩ := u32Add_eq_ok.mp hafter
    simp only [pure, Except.pure, Except.ok.injEq] at h
    subst h
    simp

/-- A join merges staked WAL of one node, one activation epoch and one state. -/
theorem join_eq_ok {sw other joined : StakedWal} (h : sw.join other = .ok joined) :
    other.nodeId = sw.nodeId ∧ other.activationEpoch = sw.activationEpoch ∧
      other.state = sw.state ∧ joined = { sw with principal := sw.principal + other.principal } := by
  unfold join at h
  rw [ite_throw_bind_eq_ok] at h
  obtain ⟨hnode, h⟩ := h
  rw [ite_throw_bind_eq_ok] at h
  obtain ⟨hact, h⟩ := h
  split at h
  · -- both staked
    rename_i hstaked
    rw [ite_throw_bind_eq_ok] at h
    obtain ⟨hother, h⟩ := h
    obtain ⟨principal, hadd, h⟩ := bind_eq_ok.mp h
    obtain ⟨-, rfl⟩ := u64Add_eq_ok.mp hadd
    refine ⟨hnode.symm, hact.symm, ?_, (Except.ok.inj h).symm⟩
    simp only [isStaked, beq_iff_eq] at hstaked hother
    rw [hstaked, hother]
  · -- both withdrawing, at the same epoch
    rw [ite_throw_bind_eq_ok] at h
    obtain ⟨-, h⟩ := h
    obtain ⟨e, he, h⟩ := bind_eq_ok.mp h
    obtain ⟨e', he', h⟩ := bind_eq_ok.mp h
    rw [ite_throw_bind_eq_ok] at h
    obtain ⟨hee, h⟩ := h
    obtain ⟨principal, hadd, h⟩ := bind_eq_ok.mp h
    obtain ⟨-, rfl⟩ := u64Add_eq_ok.mp hadd
    refine ⟨hnode.symm, hact.symm, ?_, (Except.ok.inj h).symm⟩
    -- the withdraw epochs are only read off withdrawing states
    cases hs : sw.state with
    | staked => simp [withdrawEpoch, hs] at he
    | withdrawing w =>
      cases ho : other.state with
      | staked => simp [withdrawEpoch, ho] at he'
      | withdrawing w' =>
        simp only [withdrawEpoch, hs, ho, Except.ok.injEq] at he he'
        rw [he, he', hee]

/-- A split leaves two parts in the state of the whole, their principals adding up to it. -/
theorem split_eq_ok {sw a b : StakedWal} {amount : Nat} (h : sw.split amount = .ok (a, b)) :
    amount < sw.principal ∧ a = { sw with principal := sw.principal - amount } ∧
      b = { sw with principal := amount } := by
  unfold split at h
  rw [ite_throw_bind_eq_ok] at h
  obtain ⟨hlt, h⟩ := h
  rw [ite_throw_bind_eq_ok] at h
  obtain ⟨-, h⟩ := h
  rw [ite_throw_bind_eq_ok] at h
  obtain ⟨-, h⟩ := h
  simp only [pure, Except.pure, Except.ok.injEq, Prod.mk.injEq] at h
  exact ⟨hlt, h.1.symm, h.2.symm⟩

end StakedWal

/-! ## The pool -/

/-- `PoolState`. -/
inductive PoolState
  | active
  | withdrawing (epoch : Nat)
  | withdrawn
deriving DecidableEq, Repr

/-- The fields of a `StakingPool` that its stake, its shares and its rewards read and write,
with the fields of its commission as `StakingPool` models them. -/
structure StakePool where
  /-- The pool's `id`, the node ID its staked WAL carries. -/
  id : Nat
  state : PoolState
  activationEpoch : Nat
  /-- `latest_epoch` and the commission. -/
  commissionPart : StakingPool
  walBalance : Nat
  numShares : Nat
  pendingSharesWithdraw : PendingValues
  preActiveWithdrawals : PendingValues
  pendingStake : PendingValues
  /-- `exchange_rates`, the table of rates by epoch. -/
  exchangeRates : Nat → Option PoolExchangeRate
  /-- The value of the `rewards_pool` balance. -/
  rewardsPool : Nat

namespace StakePool

/-- `new`, of its checks the one on the commission rate. The table of rates starts with the
flat rate at the activation epoch. -/
def new (id commissionRate : Nat) (wctx : WalrusContext) : Except Abort StakePool := do
  let commissionPart ← StakingPool.new commissionRate wctx.epoch
  let activationEpoch ← if wctx.committeeSelected then u32Add wctx.epoch 1 else pure wctx.epoch
  pure {
    id, state := .active, activationEpoch, commissionPart
    walBalance := 0, numShares := 0
    pendingSharesWithdraw := .empty, preActiveWithdrawals := .empty, pendingStake := .empty
    exchangeRates := fun e => if e = activationEpoch then some .flat else none
    rewardsPool := 0 }

/-- `is_active`. -/
def isActive (pool : StakePool) : Bool :=
  pool.state == .active

/-- `is_withdrawing`. -/
def isWithdrawing (pool : StakePool) : Bool :=
  match pool.state with
  | .withdrawing _ => true
  | _ => false

/-- `set_withdrawing`. -/
def setWithdrawing (pool : StakePool) (wctx : WalrusContext) : Except Abort StakePool := do
  unless !pool.isWithdrawing do throw .poolAlreadyWithdrawing
  let epoch ← u32Add wctx.epoch 1
  pure { pool with state := .withdrawing epoch }

/-- `exchange_rate_at_epoch`. -/
def exchangeRateAtEpoch (pool : StakePool) (epoch : Nat) : Except Abort PoolExchangeRate :=
  rateAtOrBefore pool.exchangeRates pool.activationEpoch epoch

/-- `calculate_rewards`: what `stakedPrincipal` staked at `activationEpoch` is worth more at
`withdrawEpoch`. -/
def calculateRewards (pool : StakePool) (stakedPrincipal activationEpoch withdrawEpoch : Nat) :
    Except Abort Nat := do
  let shares ← (← pool.exchangeRateAtEpoch activationEpoch).convertToShareAmount stakedPrincipal
  let walAmount ← (← pool.exchangeRateAtEpoch withdrawEpoch).convertToWalAmount shares
  pure (if walAmount ≥ stakedPrincipal then walAmount - stakedPrincipal else 0)

/-- `stake`: the stake activates in the next epoch, or in the one after when the next
committee is selected already. -/
def stake (pool : StakePool) (toStake : Nat) (wctx : WalrusContext) :
    Except Abort (StakePool × StakedWal) := do
  unless pool.isActive do throw .poolIsNotActive
  unless toStake > 0 do throw .zeroStake
  let activationEpoch ← u32Add wctx.epoch (if wctx.committeeSelected then 2 else 1)
  let stakedWal ← StakedWal.mint pool.id toStake activationEpoch
  let pendingStake ← pool.pendingStake.insertOrAdd activationEpoch toStake
  pure ({ pool with pendingStake }, stakedWal)

/-- The withdraw epoch of an active stake: after next when the node is in the next
committee, next when it is only in the current one; a node in neither is withdrawn from
directly. -/
def requestWithdrawEpoch (inCurrentCommittee inNextCommittee : Bool) (wctx : WalrusContext) :
    Except Abort Nat :=
  if inNextCommittee then u32Add wctx.epoch 2
  else if inCurrentCommittee then u32Add wctx.epoch 1
  else throw .withdrawDirectly

/-- `request_withdraw_stake`: a stake activating in the next epoch, and counted for its
committee, is withdrawn one epoch after its activation by its principal; an active stake is
withdrawn by its shares, in the epoch after next when the node is in the next committee and
in the next epoch when it is only in the current one. -/
def requestWithdrawStake (pool : StakePool) (stakedWal : StakedWal)
    (inCurrentCommittee inNextCommittee : Bool) (wctx : WalrusContext) :
    Except Abort (StakePool × StakedWal) := do
  unless stakedWal.principal > 0 do throw .zeroStake
  unless stakedWal.nodeId = pool.id do throw .incorrectPoolId
  unless stakedWal.isStaked do throw .notStaked
  unless !(← stakedWal.canWithdrawEarly inNextCommittee wctx) do throw .withdrawDirectly
  let nextEpoch ← u32Add wctx.epoch 1
  if stakedWal.activationEpoch = nextEpoch then
    -- the principal is converted to shares once the stake is active
    let withdrawEpoch ← u32Add stakedWal.activationEpoch 1
    let preActiveWithdrawals ←
      pool.preActiveWithdrawals.insertOrAdd withdrawEpoch stakedWal.principal
    let stakedWal ← stakedWal.setWithdrawing withdrawEpoch
    pure ({ pool with preActiveWithdrawals }, stakedWal)
  else
    unless stakedWal.activationEpoch ≤ wctx.epoch do throw .activationEpochNotReached
    let withdrawEpoch ← requestWithdrawEpoch inCurrentCommittee inNextCommittee wctx
    let rate ← pool.exchangeRateAtEpoch stakedWal.activationEpoch
    let shareAmount ← rate.convertToShareAmount stakedWal.principal
    unless shareAmount ≠ 0 do throw .zeroShares
    let pendingSharesWithdraw ←
      pool.pendingSharesWithdraw.insertOrAdd withdrawEpoch shareAmount
    let stakedWal ← stakedWal.setWithdrawing withdrawEpoch
    pure ({ pool with pendingSharesWithdraw }, stakedWal)

/-- The part of `withdraw_stake` after the early withdrawal: the pool, and the rewards owed.
A staked WAL of a node in neither committee is withdrawn in one step, from the pending stake
or by its shares at the current epoch; otherwise it must be withdrawing, and due. -/
def withdrawRewards (pool : StakePool) (stakedWal : StakedWal)
    (inCurrentCommittee inNextCommittee : Bool) (wctx : WalrusContext) :
    Except Abort (StakePool × Nat) :=
  let activationEpoch := stakedWal.activationEpoch
  if !inCurrentCommittee && !inNextCommittee && stakedWal.isStaked then
    if activationEpoch > wctx.epoch then do
      let pendingStake ← pool.pendingStake.reduce activationEpoch stakedWal.principal
      pure ({ pool with pendingStake }, 0)
    else do
      let rate ← pool.exchangeRateAtEpoch activationEpoch
      let shareAmount ← rate.convertToShareAmount stakedWal.principal
      let pendingSharesWithdraw ←
        pool.pendingSharesWithdraw.insertOrAdd wctx.epoch shareAmount
      let rewards ← pool.calculateRewards stakedWal.principal activationEpoch wctx.epoch
      pure ({ pool with pendingSharesWithdraw }, rewards)
  else do
    unless stakedWal.isWithdrawing do throw .notWithdrawing
    let withdrawEpoch ← stakedWal.withdrawEpoch
    unless withdrawEpoch ≤ wctx.epoch do throw .withdrawEpochNotReached
    unless activationEpoch ≤ wctx.epoch do throw .activationEpochNotReached
    let rewards ← pool.calculateRewards stakedWal.principal activationEpoch withdrawEpoch
    pure (pool, rewards)

/-- `withdraw_stake`: the pool, and the value paid out, the principal and as much of the
rewards as the rewards pool holds. -/
def withdrawStake (pool : StakePool) (stakedWal : StakedWal)
    (inCurrentCommittee inNextCommittee : Bool) (wctx : WalrusContext) :
    Except Abort (StakePool × Nat) := do
  unless stakedWal.principal > 0 do throw .zeroStake
  unless stakedWal.nodeId = pool.id do throw .incorrectPoolId
  if ← stakedWal.canWithdrawEarly inNextCommittee wctx then
    let pendingStake ←
      pool.pendingStake.reduce stakedWal.activationEpoch stakedWal.principal
    pure ({ pool with pendingStake }, stakedWal.principal)
  else
    let (pool, rewardsAmount) ←
      pool.withdrawRewards stakedWal inCurrentCommittee inNextCommittee wctx
    -- rounding can owe more than the rewards pool holds
    let rewardsAmount := min rewardsAmount pool.rewardsPool
    let rewardsPool ← balanceSplit pool.rewardsPool rewardsAmount
    let toWithdraw ← u64Add rewardsAmount stakedWal.principal
    pure ({ pool with rewardsPool }, toWithdraw)

/-- The shares of `value` WAL of early withdrawals due at `epoch`: the principal became
active in the epoch before, and converts at that epoch's rate. -/
def preActiveShares (pool : StakePool) (epoch value : Nat) : Except Abort Nat := do
  let activationEpoch ← checkedSub epoch 1
  let rate ← pool.exchangeRateAtEpoch activationEpoch
  rate.convertToShareAmount value

/-- One round of the loop of `process_pending_stake` over the early withdrawals, on a copy of
their map: an epoch up to `currentEpoch` is removed and its shares added up. -/
def preActiveStep (pool : StakePool) (currentEpoch : Nat) (acc : VecMap Nat Nat × Nat)
    (epoch : Nat) : Except Abort (VecMap Nat Nat × Nat) :=
  if epoch ≤ currentEpoch then do
    let (entry, map) ← liftVecMap (acc.1.remove epoch)
    let sharesForEpoch ← pool.preActiveShares epoch entry.2
    let total ← u64Add acc.2 sharesForEpoch
    pure (map, total)
  else pure acc

/-- `process_pending_stake`: the rate of the balance to the shares becomes the rate of the
current epoch; the stake activating by now is added, the withdrawals due by now are taken
out at that rate, and the shares are recounted. -/
def processPendingStake (pool : StakePool) (wctx : WalrusContext) : Except Abort StakePool := do
  let currentEpoch := wctx.epoch
  let exchangeRate ← PoolExchangeRate.new pool.walBalance pool.numShares
  let exchangeRates ← addRate pool.exchangeRates currentEpoch exchangeRate
  let (pendingStake, added) ← pool.pendingStake.flush currentEpoch
  let walBalance ← u64Add pool.walBalance added
  let pool := { pool with exchangeRates, pendingStake, walBalance }
  let (_, preActiveSharesWithdraw) ←
    pool.preActiveWithdrawals.inner.keys.foldlM (pool.preActiveStep currentEpoch)
      (pool.preActiveWithdrawals.inner, 0)
  -- the loop worked on a copy
  let (preActiveWithdrawals, _) ← pool.preActiveWithdrawals.flush currentEpoch
  let (pendingSharesWithdraw, sharesWithdraw) ← pool.pendingSharesWithdraw.flush currentEpoch
  let shares ← u64Add sharesWithdraw preActiveSharesWithdraw
  let pendingWithdrawal ← exchangeRate.convertToWalAmount shares
  unless pool.walBalance ≥ pendingWithdrawal do throw .calculationError
  let walBalance := pool.walBalance - pendingWithdrawal
  let numShares ← exchangeRate.convertToShareAmount walBalance
  pure { pool with preActiveWithdrawals, pendingSharesWithdraw, walBalance, numShares }

/-- `advance_epoch`: the commission is split off the rewards, the rest joins the rewards pool
and the balance, and the pending stake and withdrawals are processed. -/
def advanceEpoch (pool : StakePool) (rewards : Nat) (wctx : WalrusContext) :
    Except Abort StakePool := do
  unless wctx.epoch > pool.commissionPart.latestEpoch do throw .poolAlreadyUpdated
  unless rewards = 0 ∨ pool.walBalance > 0 do throw .incorrectEpochAdvance
  -- the commission part checks the epoch again, and records it as the latest
  let (commissionPart, rewardsAmount) ← pool.commissionPart.advanceEpoch rewards wctx.epoch
  let rewardsPool ← u64Add pool.rewardsPool rewardsAmount
  let walBalance ← u64Add pool.walBalance rewardsAmount
  processPendingStake { pool with commissionPart, rewardsPool, walBalance } wctx

/-- One round of the loop of `wal_balance_at_epoch` over the early withdrawals. -/
def preActiveAtStep (pool : StakePool) (epoch total oldEpoch : Nat) : Except Abort Nat :=
  if oldEpoch ≤ epoch then do
    let walValue ← liftVecMap (pool.preActiveWithdrawals.inner.get oldEpoch)
    let sharesForEpoch ← pool.preActiveShares oldEpoch walValue
    u64Add total sharesForEpoch
  else pure total

/-- `wal_balance_at_epoch`: the balance once the stake and the withdrawals pending up to
`epoch` are processed at the current rate. -/
def walBalanceAtEpoch (pool : StakePool) (epoch : Nat) : Except Abort Nat := do
  let exchangeRate ← PoolExchangeRate.new pool.walBalance pool.numShares
  let preActiveSharesWithdraw ←
    pool.preActiveWithdrawals.inner.keys.foldlM (pool.preActiveAtStep epoch) 0
  let sharesWithdraw ← pool.pendingSharesWithdraw.valueAt epoch
  let shares ← u64Add sharesWithdraw preActiveSharesWithdraw
  let pendingWithdrawal ← exchangeRate.convertToWalAmount shares
  let pending ← pool.pendingStake.valueAt epoch
  let total ← u64Add pool.walBalance pending
  checkedSub total pendingWithdrawal

/-! ### What each operation does -/

/-- A stake that does not abort mints a staked WAL of the pool activating one or two epochs
ahead, and adds its principal to the stake pending for that epoch. -/
theorem stake_eq_ok {pool pool' : StakePool} {toStake : Nat} {wctx : WalrusContext}
    {sw : StakedWal} (h : pool.stake toStake wctx = .ok (pool', sw)) :
    sw = ⟨.staked, pool.id, toStake, wctx.epoch + if wctx.committeeSelected then 2 else 1⟩ ∧
      ∃ pendingStake, pool.pendingStake.insertOrAdd sw.activationEpoch toStake = .ok pendingStake ∧
        pool' = { pool with pendingStake } := by
  unfold stake at h
  rw [ite_throw_bind_eq_ok] at h
  obtain ⟨-, h⟩ := h
  rw [ite_throw_bind_eq_ok] at h
  obtain ⟨-, h⟩ := h
  obtain ⟨act, hact, h⟩ := bind_eq_ok.mp h
  obtain ⟨-, rfl⟩ := u32Add_eq_ok.mp hact
  obtain ⟨minted, hmint, h⟩ := bind_eq_ok.mp h
  obtain ⟨pending, hpending, h⟩ := bind_eq_ok.mp h
  simp only [pure, Except.pure, Except.ok.injEq, Prod.mk.injEq] at h
  obtain ⟨rfl, rfl⟩ := h
  rw [StakedWal.mint_eq_ok hmint]
  exact ⟨rfl, pending, hpending, rfl⟩

/-- `set_withdrawing` changes the state of the pool only. -/
theorem setWithdrawing_eq_ok {pool pool' : StakePool} {wctx : WalrusContext}
    (h : pool.setWithdrawing wctx = .ok pool') :
    ∃ epoch, pool' = { pool with state := .withdrawing epoch } := by
  unfold setWithdrawing at h
  rw [ite_throw_bind_eq_ok] at h
  obtain ⟨-, h⟩ := h
  obtain ⟨epoch, -, h⟩ := bind_eq_ok.mp h
  exact ⟨epoch, (Except.ok.inj h).symm⟩

/-- A withdrawal request that does not abort is for a staked WAL of the pool. One activating
in the next epoch has its principal pending for the epoch after; an active one has its
shares, at the rate of its activation epoch, pending for its withdraw epoch. -/
theorem requestWithdrawStake_eq_ok {pool pool' : StakePool} {sw sw' : StakedWal}
    {inCurrentCommittee inNextCommittee : Bool} {wctx : WalrusContext}
    (h : pool.requestWithdrawStake sw inCurrentCommittee inNextCommittee wctx = .ok (pool', sw')) :
    sw.nodeId = pool.id ∧ sw.state = .staked ∧
      ((sw.activationEpoch = wctx.epoch + 1 ∧ ∃ preActiveWithdrawals,
          pool.preActiveWithdrawals.insertOrAdd (wctx.epoch + 2) sw.principal =
            .ok preActiveWithdrawals ∧
          pool' = { pool with preActiveWithdrawals } ∧
          sw' = { sw with state := .withdrawing (wctx.epoch + 2) }) ∨
        (sw.activationEpoch ≤ wctx.epoch ∧ ∃ withdrawEpoch rate shareAmount pendingSharesWithdraw,
          pool.exchangeRateAtEpoch sw.activationEpoch = .ok rate ∧
          rate.convertToShareAmount sw.principal = .ok shareAmount ∧
          pool.pendingSharesWithdraw.insertOrAdd withdrawEpoch shareAmount =
            .ok pendingSharesWithdraw ∧
          pool' = { pool with pendingSharesWithdraw } ∧
          sw' = { sw with state := .withdrawing withdrawEpoch })) := by
  unfold requestWithdrawStake at h
  rw [ite_throw_bind_eq_ok] at h
  obtain ⟨-, h⟩ := h
  rw [ite_throw_bind_eq_ok] at h
  obtain ⟨hnode, h⟩ := h
  rw [ite_throw_bind_eq_ok] at h
  obtain ⟨hstaked, h⟩ := h
  obtain ⟨early, -, h⟩ := bind_eq_ok.mp h
  rw [ite_throw_bind_eq_ok] at h
  obtain ⟨-, h⟩ := h
  obtain ⟨nextEpoch, hnext, h⟩ := bind_eq_ok.mp h
  obtain ⟨-, rfl⟩ := u32Add_eq_ok.mp hnext
  refine ⟨hnode, by simpa [StakedWal.isStaked] using hstaked, ?_⟩
  split at h
  · -- not active yet: the principal waits for the activation
    rename_i hact
    obtain ⟨withdrawEpoch, hwe, h⟩ := bind_eq_ok.mp h
    obtain ⟨-, rfl⟩ := u32Add_eq_ok.mp hwe
    obtain ⟨pre, hpre, h⟩ := bind_eq_ok.mp h
    obtain ⟨sw'', hset, h⟩ := bind_eq_ok.mp h
    simp only [pure, Except.pure, Except.ok.injEq, Prod.mk.injEq] at h
    obtain ⟨rfl, rfl⟩ := h
    rw [hact] at hpre hset
    exact .inl ⟨hact, pre, hpre, rfl, (StakedWal.setWithdrawing_eq_ok hset).2⟩
  · -- active: withdrawn by its shares
    rw [ite_throw_bind_eq_ok] at h
    obtain ⟨hle, h⟩ := h
    obtain ⟨withdrawEpoch, -, h⟩ := bind_eq_ok.mp h
    obtain ⟨rate, hrate, h⟩ := bind_eq_ok.mp h
    obtain ⟨shareAmount, hshares, h⟩ := bind_eq_ok.mp h
    rw [ite_throw_bind_eq_ok] at h
    obtain ⟨-, h⟩ := h
    obtain ⟨psw, hpsw, h⟩ := bind_eq_ok.mp h
    obtain ⟨sw'', hset, h⟩ := bind_eq_ok.mp h
    simp only [pure, Except.pure, Except.ok.injEq, Prod.mk.injEq] at h
    obtain ⟨rfl, rfl⟩ := h
    exact .inr ⟨hle, withdrawEpoch, rate, shareAmount, psw, hrate, hshares, hpsw, rfl,
      (StakedWal.setWithdrawing_eq_ok hset).2⟩

/-- The three ways of `withdrawRewards`: a staked WAL not active yet leaves the pending
stake, owing nothing; an active one of a node in neither committee has its shares pending
for the current epoch; a withdrawing one leaves the pool as it is. -/
theorem withdrawRewards_eq_ok {pool pool' : StakePool} {sw : StakedWal}
    {inCurrentCommittee inNextCommittee : Bool} {wctx : WalrusContext} {rewards : Nat}
    (h : pool.withdrawRewards sw inCurrentCommittee inNextCommittee wctx = .ok (pool', rewards)) :
    (sw.state = .staked ∧ wctx.epoch < sw.activationEpoch ∧ rewards = 0 ∧ ∃ pendingStake,
        pool.pendingStake.reduce sw.activationEpoch sw.principal = .ok pendingStake ∧
        pool' = { pool with pendingStake }) ∨
      (sw.state = .staked ∧ sw.activationEpoch ≤ wctx.epoch ∧
        ∃ rate shareAmount pendingSharesWithdraw,
        pool.exchangeRateAtEpoch sw.activationEpoch = .ok rate ∧
        rate.convertToShareAmount sw.principal = .ok shareAmount ∧
        pool.pendingSharesWithdraw.insertOrAdd wctx.epoch shareAmount =
          .ok pendingSharesWithdraw ∧
        pool' = { pool with pendingSharesWithdraw }) ∨
      (sw.isWithdrawing ∧ pool' = pool) := by
  unfold withdrawRewards at h
  dsimp only at h
  split at h
  · rename_i hone
    have hstaked : sw.state = .staked := by
      simp only [Bool.and_eq_true, StakedWal.isStaked, beq_iff_eq] at hone
      exact hone.2
    split at h
    · -- not active yet
      rename_i hlt
      obtain ⟨pending, hpending, h⟩ := bind_eq_ok.mp h
      simp only [pure, Except.pure, Except.ok.injEq, Prod.mk.injEq] at h
      obtain ⟨rfl, rfl⟩ := h
      exact .inl ⟨hstaked, hlt, rfl, pending, hpending, rfl⟩
    · rename_i hle
      obtain ⟨rate, hrate, h⟩ := bind_eq_ok.mp h
      obtain ⟨shareAmount, hshares, h⟩ := bind_eq_ok.mp h
      obtain ⟨psw, hpsw, h⟩ := bind_eq_ok.mp h
      obtain ⟨r, -, h⟩ := bind_eq_ok.mp h
      simp only [pure, Except.pure, Except.ok.injEq, Prod.mk.injEq] at h
      obtain ⟨rfl, rfl⟩ := h
      exact .inr (.inl ⟨hstaked, Nat.le_of_not_lt hle, rate, shareAmount, psw, hrate, hshares,
        hpsw, rfl⟩)
  · rw [ite_throw_bind_eq_ok] at h
    obtain ⟨hwithdrawing, h⟩ := h
    obtain ⟨withdrawEpoch, -, h⟩ := bind_eq_ok.mp h
    rw [ite_throw_bind_eq_ok] at h
    obtain ⟨-, h⟩ := h
    rw [ite_throw_bind_eq_ok] at h
    obtain ⟨-, h⟩ := h
    obtain ⟨r, -, h⟩ := bind_eq_ok.mp h
    simp only [pure, Except.pure, Except.ok.injEq, Prod.mk.injEq] at h
    obtain ⟨rfl, rfl⟩ := h
    exact .inr (.inr ⟨hwithdrawing, rfl⟩)

/-- A withdrawal that does not abort is of a staked WAL of the pool. One not active yet
leaves the pending stake; an active one of a node in neither committee has its shares pending
for the current epoch; a withdrawing one leaves the stake as it is. Beyond that only the
rewards pool changes. -/
theorem withdrawStake_eq_ok {pool pool' : StakePool} {sw : StakedWal}
    {inCurrentCommittee inNextCommittee : Bool} {wctx : WalrusContext} {paid : Nat}
    (h : pool.withdrawStake sw inCurrentCommittee inNextCommittee wctx = .ok (pool', paid)) :
    sw.nodeId = pool.id ∧
      ((sw.state = .staked ∧ wctx.epoch < sw.activationEpoch ∧ ∃ pendingStake,
          pool.pendingStake.reduce sw.activationEpoch sw.principal = .ok pendingStake ∧
          pool' = { pool with pendingStake }) ∨
        (sw.state = .staked ∧ sw.activationEpoch ≤ wctx.epoch ∧
          ∃ rate shareAmount pendingSharesWithdraw rewardsPool,
          pool.exchangeRateAtEpoch sw.activationEpoch = .ok rate ∧
          rate.convertToShareAmount sw.principal = .ok shareAmount ∧
          pool.pendingSharesWithdraw.insertOrAdd wctx.epoch shareAmount =
            .ok pendingSharesWithdraw ∧
          pool' = { pool with pendingSharesWithdraw, rewardsPool }) ∨
        (sw.isWithdrawing ∧ ∃ rewardsPool, pool' = { pool with rewardsPool })) := by
  unfold withdrawStake at h
  rw [ite_throw_bind_eq_ok] at h
  obtain ⟨-, h⟩ := h
  rw [ite_throw_bind_eq_ok] at h
  obtain ⟨hnode, h⟩ := h
  refine ⟨hnode, ?_⟩
  obtain ⟨early, hearly, h⟩ := bind_eq_ok.mp h
  cases early with
  | true =>
    -- withdrawn early, from the pending stake
    obtain ⟨hstaked, hact⟩ := (StakedWal.canWithdrawEarly_eq_ok hearly).mp rfl
    simp only [if_true] at h
    obtain ⟨pending, hpending, h⟩ := bind_eq_ok.mp h
    simp only [pure, Except.pure, Except.ok.injEq, Prod.mk.injEq] at h
    obtain ⟨rfl, -⟩ := h
    exact .inl ⟨hstaked, by omega, pending, hpending, rfl⟩
  | false =>
    simp only [Bool.false_eq_true, if_false] at h
    obtain ⟨⟨pool₁, rewards⟩, hrewards, h⟩ := bind_eq_ok.mp h
    obtain ⟨rewardsPool, hsplit, h⟩ := bind_eq_ok.mp h
    obtain ⟨toWithdraw, -, h⟩ := bind_eq_ok.mp h
    simp only [pure, Except.pure, Except.ok.injEq, Prod.mk.injEq] at h
    obtain ⟨rfl, -⟩ := h
    rcases withdrawRewards_eq_ok hrewards with
      ⟨hstaked, hlt, rfl, pending, hpending, rfl⟩ |
        ⟨hstaked, hle, rate, shareAmount, psw, hrate, hshares, hpsw, rfl⟩ | ⟨hwithdrawing, rfl⟩
    · -- nothing is owed, so the rewards pool keeps its value
      obtain ⟨-, rfl⟩ := balanceSplit_eq_ok.mp hsplit
      exact .inl ⟨hstaked, hlt, pending, hpending, by simp⟩
    · exact .inr (.inl ⟨hstaked, hle, rate, shareAmount, psw, rewardsPool, hrate, hshares, hpsw,
        rfl⟩)
    · exact .inr (.inr ⟨hwithdrawing, rewardsPool, rfl⟩)

/-- A stake, a withdrawal request and a withdrawal leave the commission part of the pool, with
its latest epoch, as it was. -/
theorem stake_commissionPart {pool pool' : StakePool} {toStake : Nat} {wctx : WalrusContext}
    {sw : StakedWal} (h : pool.stake toStake wctx = .ok (pool', sw)) :
    pool'.commissionPart = pool.commissionPart := by
  obtain ⟨-, pendingStake, -, rfl⟩ := stake_eq_ok h
  rfl

theorem requestWithdrawStake_commissionPart {pool pool' : StakePool} {sw sw' : StakedWal}
    {inCurrentCommittee inNextCommittee : Bool} {wctx : WalrusContext}
    (h : pool.requestWithdrawStake sw inCurrentCommittee inNextCommittee wctx = .ok (pool', sw')) :
    pool'.commissionPart = pool.commissionPart := by
  rcases requestWithdrawStake_eq_ok h with
    ⟨-, -, ⟨-, pre, -, rfl, -⟩ | ⟨-, withdrawEpoch, rate, shares, psw, -, -, -, rfl, -⟩⟩ <;> rfl

theorem withdrawStake_commissionPart {pool pool' : StakePool} {sw : StakedWal}
    {inCurrentCommittee inNextCommittee : Bool} {wctx : WalrusContext} {paid : Nat}
    (h : pool.withdrawStake sw inCurrentCommittee inNextCommittee wctx = .ok (pool', paid)) :
    pool'.commissionPart = pool.commissionPart := by
  rcases withdrawStake_eq_ok h with
    ⟨-, ⟨-, -, pendingStake, -, rfl⟩ | ⟨-, -, rate, shares, psw, rewardsPool, -, -, -, rfl⟩ |
      ⟨-, rewardsPool, rfl⟩⟩ <;> rfl

/-! ### Processing the pending stake -/

/-- One round of adding up the shares of the early withdrawals due by `epoch`, over one
entry of their map. -/
def preActiveTotalStep (pool : StakePool) (epoch total : Nat) (entry : Nat × Nat) :
    Except Abort Nat :=
  if entry.1 ≤ epoch then do
    let sharesForEpoch ← pool.preActiveShares entry.1 entry.2
    u64Add total sharesForEpoch
  else pure total

/-- The shares of the early withdrawals of `entries` due by `epoch`, added up in order: what
the loops of `process_pending_stake` and of `wal_balance_at_epoch` both compute. -/
def preActiveTotal (pool : StakePool) (epoch : Nat) (entries : List (Nat × Nat)) :
    Except Abort Nat :=
  entries.foldlM (pool.preActiveTotalStep epoch) 0

/-- The loop of `process_pending_stake` adds up what `preActiveTotal` does: every key it
visits is still in the copy it removes the due ones from. -/
theorem foldlM_preActiveStep {pool : StakePool} {currentEpoch : Nat} :
    ∀ (l done : List (Nat × Nat)) (m m' : VecMap Nat Nat) (acc t : Nat),
      m.contents = done ++ l →
      (l.map Prod.fst).foldlM (pool.preActiveStep currentEpoch) (m, acc) = .ok (m', t) →
      l.foldlM (pool.preActiveTotalStep currentEpoch) acc = .ok t
  | [], _, m, m', acc, t, _, h => by
    simp only [List.map_nil, List.foldlM_nil, pure, Except.pure, Except.ok.injEq,
      Prod.mk.injEq] at h
    simp [h.2, pure, Except.pure]
  | (k, v) :: l, done, m, m', acc, t, hm, h => by
    rw [List.map_cons, List.foldlM_cons] at h
    rw [List.foldlM_cons]
    obtain ⟨⟨m₁, acc₁⟩, hstep, h⟩ := bind_eq_ok.mp h
    by_cases hk : k ≤ currentEpoch
    · -- a due key: taken out of the copy, and its shares added
      obtain ⟨m₂, hrem, hm₂⟩ := VecMap.remove_of_contents hm
      simp only [preActiveStep, if_pos hk, liftVecMap, hrem, Except.mapError] at hstep
      rw [ok_bind] at hstep
      obtain ⟨shares, hshares, hstep⟩ := bind_eq_ok.mp hstep
      obtain ⟨total, htotal, hstep⟩ := bind_eq_ok.mp hstep
      simp only [pure, Except.pure, Except.ok.injEq, Prod.mk.injEq] at hstep
      obtain ⟨rfl, rfl⟩ := hstep
      have hstep' : pool.preActiveTotalStep currentEpoch acc (k, v) = .ok total := by
        simp only [preActiveTotalStep, if_pos hk, hshares, ok_bind, htotal]
      rw [hstep', ok_bind]
      exact foldlM_preActiveStep l done m₂ m' total t hm₂ h
    · -- a key still to come: nothing changes
      simp only [preActiveStep, if_neg hk, pure, Except.pure, Except.ok.injEq,
        Prod.mk.injEq] at hstep
      obtain ⟨rfl, rfl⟩ := hstep
      have hstep' : pool.preActiveTotalStep currentEpoch acc (k, v) = .ok acc := by
        simp only [preActiveTotalStep, if_neg hk, pure, Except.pure]
      rw [hstep', ok_bind]
      exact foldlM_preActiveStep l (done ++ [(k, v)]) m m' acc t (by rw [hm]; simp) h

/-- The loop of `wal_balance_at_epoch` is `preActiveTotal`: every key it visits looks up its
own entry. -/
theorem foldlM_preActiveAtStep (pool : StakePool) (epoch : Nat) :
    pool.preActiveWithdrawals.inner.keys.foldlM (pool.preActiveAtStep epoch) 0 =
      pool.preActiveTotal epoch pool.preActiveWithdrawals.inner.contents := by
  rw [VecMap.keys, List.foldlM_map, preActiveTotal]
  refine foldlM_congr (fun acc e he => ?_) 0
  unfold preActiveAtStep preActiveTotalStep
  split
  · simp only [liftVecMap, VecMap.get_of_get? (VecMap.get?_of_mem he), Except.mapError, ok_bind]
  · rfl

/-- The early withdrawals due by `epoch` read the rates below `epoch` only. -/
theorem preActiveTotal_congr {pool pool' : StakePool} {epoch : Nat}
    (hact : pool'.activationEpoch = pool.activationEpoch)
    (hrates : ∀ e < epoch, pool'.exchangeRates e = pool.exchangeRates e)
    (entries : List (Nat × Nat)) :
    pool'.preActiveTotal epoch entries = pool.preActiveTotal epoch entries := by
  unfold preActiveTotal
  refine foldlM_congr (fun acc e _ => ?_) 0
  unfold preActiveTotalStep
  split
  · rename_i he
    -- the principal became active in the epoch before the one it is due at
    have hshares : pool'.preActiveShares e.1 e.2 = pool.preActiveShares e.1 e.2 := by
      unfold preActiveShares exchangeRateAtEpoch
      cases hk : e.1 with
      | zero => rfl
      | succ j =>
        have hsub : checkedSub (j + 1) 1 = .ok j := checkedSub_eq_ok.mpr ⟨by omega, by omega⟩
        rw [hsub, ok_bind, ok_bind, hact,
          rateAtOrBefore_congr j fun e' he' => hrates e' (by omega)]
    rw [hshares]
  · rfl

/-- The loop of `process_pending_stake`, run on the pool with the new rate, adds up the
shares `preActiveTotal` finds on the pool before: the early withdrawals due read the rates
of earlier epochs only. -/
theorem preActiveTotal_of_foldlM {pool pool' : StakePool} {epoch : Nat} {m : VecMap Nat Nat}
    {preShares : Nat}
    (hloop : pool'.preActiveWithdrawals.inner.keys.foldlM (pool'.preActiveStep epoch)
      (pool'.preActiveWithdrawals.inner, 0) = .ok (m, preShares))
    (hact : pool'.activationEpoch = pool.activationEpoch)
    (hrates : ∀ e < epoch, pool'.exchangeRates e = pool.exchangeRates e)
    (hpre : pool'.preActiveWithdrawals = pool.preActiveWithdrawals) :
    pool.preActiveTotal epoch pool.preActiveWithdrawals.inner.contents = .ok preShares := by
  rw [← hpre, ← preActiveTotal_congr hact hrates]
  exact foldlM_preActiveStep _ [] _ _ 0 preShares rfl hloop

/-- When every early withdrawal due is converted at one rate, their shares add up to at
most the shares of their total: each conversion rounds down. -/
theorem preActiveTotal_le {pool : StakePool} {epoch : Nat} {rate : PoolExchangeRate}
    {entries : List (Nat × Nat)}
    (hrate : ∀ e ∈ entries, e.1 ≤ epoch → ∀ x, pool.preActiveShares e.1 e.2 = .ok x →
      x = rate.shareValue e.2)
    {preShares : Nat} (h : pool.preActiveTotal epoch entries = .ok preShares) :
    preShares ≤ rate.shareValue (dueTotal entries epoch) := by
  -- the fold from any start, over the entries from `l` on
  suffices hloop : ∀ (l : List (Nat × Nat)) (acc t : Nat), (∀ e ∈ l, e ∈ entries) →
      l.foldlM (pool.preActiveTotalStep epoch) acc = .ok t →
      t ≤ acc + rate.shareValue (dueTotal l epoch) by
    simpa using hloop entries 0 preShares (fun e he => he) h
  intro l
  induction l with
  | nil =>
    intro acc t _ hl
    simp only [List.foldlM_nil, pure, Except.pure, Except.ok.injEq] at hl
    simp [hl, dueTotal]
  | cons e l ih =>
    intro acc t hsub hl
    rw [List.foldlM_cons] at hl
    obtain ⟨acc', hstep, hl⟩ := bind_eq_ok.mp hl
    have hrest := ih acc' t (fun e' he' => hsub e' (List.mem_cons_of_mem e he')) hl
    unfold preActiveTotalStep at hstep
    by_cases he : e.1 ≤ epoch
    · -- a due entry adds the shares of its principal
      rw [if_pos he] at hstep
      obtain ⟨x, hx, hstep⟩ := bind_eq_ok.mp hstep
      obtain ⟨-, rfl⟩ := u64Add_eq_ok.mp hstep
      rw [hrate e (hsub e List.mem_cons_self) he x hx] at hrest
      have hdue : dueTotal (e :: l) epoch = e.2 + dueTotal l epoch := by
        simp [dueTotal, he]
      have hadd := rate.shareValue_add_le e.2 (dueTotal l epoch)
      rw [hdue]
      omega
    · rw [if_neg he] at hstep
      simp only [pure, Except.pure, Except.ok.injEq] at hstep
      subst hstep
      have hdue : dueTotal (e :: l) epoch = dueTotal l epoch := by
        simp [dueTotal, he]
      rw [hdue]
      exact hrest

/-- What `process_pending_stake` at `epoch` does, with the rate `rate` of the balance to the
shares, the shares `preShares` of the early withdrawals due and the WAL `pendingWithdrawal`
paid out for the withdrawals due. -/
structure ProcessedWith (pool : StakePool) (epoch : Nat) (rate : PoolExchangeRate)
    (preShares pendingWithdrawal : Nat) (pool' : StakePool) : Prop where
  newRate : PoolExchangeRate.new pool.walBalance pool.numShares = .ok rate
  unrated : pool.exchangeRates epoch = none
  balanceFits : pool.walBalance + dueTotal pool.pendingStake.inner.contents epoch ≤ u64Max
  preActive : pool.preActiveTotal epoch pool.preActiveWithdrawals.inner.contents = .ok preShares
  sharesFit : dueTotal pool.pendingSharesWithdraw.inner.contents epoch + preShares ≤ u64Max
  withdrawal : rate.convertToWalAmount
    (dueTotal pool.pendingSharesWithdraw.inner.contents epoch + preShares) = .ok pendingWithdrawal
  /-- The sanity check of `ECalculationError` passes. -/
  covered : pendingWithdrawal ≤ pool.walBalance + dueTotal pool.pendingStake.inner.contents epoch
  exchangeRates : pool'.exchangeRates = fun e => if e = epoch then some rate else pool.exchangeRates e
  pendingStake : pool'.pendingStake.inner.contents =
    pool.pendingStake.inner.contents.filter fun e => ¬ e.1 ≤ epoch
  preActiveWithdrawals : pool'.preActiveWithdrawals.inner.contents =
    pool.preActiveWithdrawals.inner.contents.filter fun e => ¬ e.1 ≤ epoch
  pendingSharesWithdraw : pool'.pendingSharesWithdraw.inner.contents =
    pool.pendingSharesWithdraw.inner.contents.filter fun e => ¬ e.1 ≤ epoch
  walBalance : pool'.walBalance =
    pool.walBalance + dueTotal pool.pendingStake.inner.contents epoch - pendingWithdrawal
  numShares : rate.convertToShareAmount pool'.walBalance = .ok pool'.numShares
  frame : pool'.id = pool.id ∧ pool'.state = pool.state ∧
    pool'.activationEpoch = pool.activationEpoch ∧ pool'.commissionPart = pool.commissionPart ∧
    pool'.rewardsPool = pool.rewardsPool

theorem processPendingStake_eq_ok {pool pool' : StakePool} {wctx : WalrusContext}
    (h : pool.processPendingStake wctx = .ok pool') :
    ∃ rate preShares pendingWithdrawal,
      ProcessedWith pool wctx.epoch rate preShares pendingWithdrawal pool' := by
  unfold processPendingStake at h
  obtain ⟨rate, hrate, h⟩ := bind_eq_ok.mp h
  obtain ⟨rates, hrates, h⟩ := bind_eq_ok.mp h
  obtain ⟨⟨pendingStake, added⟩, hflush, h⟩ := bind_eq_ok.mp h
  dsimp only at h
  obtain ⟨walBalance, hwal, h⟩ := bind_eq_ok.mp h
  obtain ⟨⟨copy, preShares⟩, hloop, h⟩ := bind_eq_ok.mp h
  dsimp only at h
  obtain ⟨⟨pre, preTotal⟩, hpre, h⟩ := bind_eq_ok.mp h
  dsimp only at h
  obtain ⟨⟨psw, sharesWithdraw⟩, hpsw, h⟩ := bind_eq_ok.mp h
  dsimp only at h
  obtain ⟨shares, hshares, h⟩ := bind_eq_ok.mp h
  obtain ⟨pendingWithdrawal, hwithdrawal, h⟩ := bind_eq_ok.mp h
  rw [ite_throw_bind_eq_ok] at h
  obtain ⟨hcovered, h⟩ := h
  obtain ⟨numShares, hnum, h⟩ := bind_eq_ok.mp h
  simp only [pure, Except.pure, Except.ok.injEq] at h
  subst h
  obtain ⟨hunrated, rfl⟩ := addRate_eq_ok hrates
  obtain ⟨hpending, rfl⟩ := PendingValues.flush_eq_ok hflush
  obtain ⟨hfits, rfl⟩ := u64Add_eq_ok.mp hwal
  obtain ⟨hpsw', rfl⟩ := PendingValues.flush_eq_ok hpsw
  obtain ⟨hfit, rfl⟩ := u64Add_eq_ok.mp hshares
  -- the loop reads the rates below the current epoch only, which the new rate leaves
  have hloop' := @preActiveTotal_of_foldlM pool _ _ _ _ hloop rfl
    (fun e he => if_neg (Nat.ne_of_lt he)) rfl
  exact ⟨rate, preShares, pendingWithdrawal,
    { newRate := hrate, unrated := hunrated, balanceFits := hfits, preActive := hloop'
      sharesFit := hfit, withdrawal := hwithdrawal, covered := hcovered
      exchangeRates := rfl, pendingStake := hpending
      preActiveWithdrawals := (PendingValues.flush_eq_ok hpre).1
      pendingSharesWithdraw := hpsw', walBalance := rfl, numShares := hnum
      frame := ⟨rfl, rfl, rfl, rfl, rfl⟩ }⟩

/-! ### Where `ECalculationError` comes from

Only the sanity check of `process_pending_stake` aborts with `ECalculationError`: every
other part of an advance aborts with an error of its own, if at all. -/

section CalculationError

theorem u64Add_ne_calculationError (a b : Nat) : u64Add a b ≠ .error .calculationError := by
  unfold u64Add
  split <;> simp

theorem checkedSub_ne_calculationError (a b : Nat) :
    checkedSub a b ≠ .error .calculationError := by
  unfold checkedSub
  split <;> simp

theorem u64Cast_ne_calculationError (a : Nat) : u64Cast a ≠ .error .calculationError := by
  unfold u64Cast
  split <;> simp

theorem liftVecMap_ne_calculationError {α : Type} (x : Except VecMapError α) :
    liftVecMap x ≠ .error .calculationError := by
  cases x <;> simp [liftVecMap, Except.mapError]

theorem rateAtOrBefore_ne_calculationError (rates : Nat → Option PoolExchangeRate)
    (activationEpoch : Nat) :
    ∀ epoch, rateAtOrBefore rates activationEpoch epoch ≠ .error .calculationError
  | 0 => by
    unfold rateAtOrBefore
    split
    · split <;> simp
    · simp
  | e + 1 => by
    unfold rateAtOrBefore
    split
    · split
      · simp
      · exact rateAtOrBefore_ne_calculationError rates activationEpoch e
    · simp

theorem convertToWalAmount_ne_calculationError (r : PoolExchangeRate) (amount : Nat) :
    r.convertToWalAmount amount ≠ .error .calculationError := by
  cases r with
  | flat => simp [PoolExchangeRate.convertToWalAmount]
  | «variable» => exact u64Cast_ne_calculationError _

theorem convertToShareAmount_ne_calculationError (r : PoolExchangeRate) (amount : Nat) :
    r.convertToShareAmount amount ≠ .error .calculationError := by
  cases r with
  | flat => simp [PoolExchangeRate.convertToShareAmount]
  | «variable» => exact u64Cast_ne_calculationError _

theorem preActiveStep_ne_calculationError (pool : StakePool) (currentEpoch : Nat)
    (acc : VecMap Nat Nat × Nat) (epoch : Nat) :
    pool.preActiveStep currentEpoch acc epoch ≠ .error .calculationError := by
  unfold preActiveStep
  split
  · refine bind_ne_error (liftVecMap_ne_calculationError _) fun ⟨entry, map⟩ _ => ?_
    refine bind_ne_error ?_ fun shares _ => ?_
    · unfold preActiveShares
      refine bind_ne_error (checkedSub_ne_calculationError _ _) fun e _ => ?_
      refine bind_ne_error (rateAtOrBefore_ne_calculationError _ _ _) fun rate _ => ?_
      exact convertToShareAmount_ne_calculationError _ _
    · exact bind_ne_error (u64Add_ne_calculationError _ _) fun _ _ => by simp [pure, Except.pure]
  · simp [pure, Except.pure]

theorem flush_ne_calculationError (self : PendingValues) (toEpoch : Nat) :
    self.flush toEpoch ≠ .error .calculationError := by
  unfold PendingValues.flush
  refine bind_ne_error (foldlM_ne_error (fun acc epoch => ?_) _ _) fun _ _ => by
    simp [pure, Except.pure]
  unfold PendingValues.flushStep
  split
  · refine bind_ne_error (liftVecMap_ne_calculationError _) fun ⟨entry, map⟩ _ => ?_
    exact bind_ne_error (u64Add_ne_calculationError _ _) fun _ _ => by simp [pure, Except.pure]
  · simp [pure, Except.pure]

/-- `process_pending_stake` aborts with `ECalculationError` only when the withdrawals due
are worth more, at the new rate, than the balance with the stake added. -/
theorem processPendingStake_ne_calculationError {pool : StakePool} {wctx : WalrusContext}
    (hcheck : ∀ rate preShares, PoolExchangeRate.new pool.walBalance pool.numShares = .ok rate →
      pool.preActiveTotal wctx.epoch pool.preActiveWithdrawals.inner.contents = .ok preShares →
      rate.walValue (dueTotal pool.pendingSharesWithdraw.inner.contents wctx.epoch + preShares) ≤
        pool.walBalance + dueTotal pool.pendingStake.inner.contents wctx.epoch) :
    pool.processPendingStake wctx ≠ .error .calculationError := by
  unfold processPendingStake
  refine bind_ne_error ?_ fun rate hrate => ?_
  · unfold PoolExchangeRate.new
    split
    · split <;> simp
    · simp
  refine bind_ne_error ?_ fun rates hrates => ?_
  · unfold addRate
    split <;> simp
  refine bind_ne_error (flush_ne_calculationError _ _) fun ⟨pendingStake, added⟩ hflush => ?_
  dsimp only
  refine bind_ne_error (u64Add_ne_calculationError _ _) fun walBalance hwal => ?_
  refine bind_ne_error (foldlM_ne_error (preActiveStep_ne_calculationError _ _) _ _)
    fun ⟨copy, preShares⟩ hloop => ?_
  dsimp only
  refine bind_ne_error (flush_ne_calculationError _ _) fun ⟨pre, preTotal⟩ _ => ?_
  dsimp only
  refine bind_ne_error (flush_ne_calculationError _ _) fun ⟨psw, sharesWithdraw⟩ hpsw => ?_
  dsimp only
  refine bind_ne_error (u64Add_ne_calculationError _ _) fun shares hshares => ?_
  refine bind_ne_error (convertToWalAmount_ne_calculationError _ _)
    fun pendingWithdrawal hwithdrawal => ?_
  -- the sanity check passes
  obtain ⟨-, rfl⟩ := addRate_eq_ok hrates
  obtain ⟨-, rfl⟩ := PendingValues.flush_eq_ok hflush
  obtain ⟨-, rfl⟩ := u64Add_eq_ok.mp hwal
  obtain ⟨-, rfl⟩ := PendingValues.flush_eq_ok hpsw
  obtain ⟨-, rfl⟩ := u64Add_eq_ok.mp hshares
  have hcovered := hcheck rate preShares hrate
    (@preActiveTotal_of_foldlM pool _ _ _ _ hloop rfl (fun e he => if_neg (Nat.ne_of_lt he)) rfl)
  rw [← PoolExchangeRate.convertToWalAmount_eq_ok hwithdrawal] at hcovered
  rw [if_pos hcovered]
  exact bind_ne_error (convertToShareAmount_ne_calculationError _ _) fun _ _ => by
    simp [pure, Except.pure]

theorem applyPendingRate_ne_calculationError (pool : StakingPool) (currentEpoch : Nat) :
    pool.applyPendingRate currentEpoch ≠ .error .calculationError := by
  unfold StakingPool.applyPendingRate
  split
  · refine bind_ne_error ?_ fun rate _ => ?_
    · unfold u16Cast
      split <;> simp
    · refine bind_ne_error (flush_ne_calculationError _ _) fun ⟨pending, total⟩ _ => ?_
      simp [pure, Except.pure]
  · simp [pure, Except.pure]

/-- An advance aborts with `ECalculationError` only where processing the pool with the
rewards added does. -/
theorem advanceEpoch_ne_calculationError {pool : StakePool} {rewards : Nat}
    {wctx : WalrusContext}
    (hprocess : ∀ commissionPart rewardsAmount,
      pool.commissionPart.advanceEpoch rewards wctx.epoch = .ok (commissionPart, rewardsAmount) →
      { pool with
        commissionPart, rewardsPool := pool.rewardsPool + rewardsAmount,
        walBalance := pool.walBalance + rewardsAmount }.processPendingStake wctx ≠
          .error .calculationError) :
    pool.advanceEpoch rewards wctx ≠ .error .calculationError := by
  unfold advanceEpoch
  refine ite_throw_bind_ne_error (fun _ => ?_) (by simp)
  refine ite_throw_bind_ne_error (fun _ => ?_) (by simp)
  refine bind_ne_error ?_ fun ⟨commissionPart, rewardsAmount⟩ hcommission => ?_
  · -- the commission part aborts with errors of its own
    unfold StakingPool.advanceEpoch
    refine ite_throw_bind_ne_error (fun _ => ?_) (by simp)
    refine bind_ne_error ?_ fun total _ => ?_
    · unfold checkedMul
      split <;> simp
    · refine ite_throw_bind_ne_error (fun _ => ?_) (by simp)
      refine bind_ne_error (u64Add_ne_calculationError _ _) fun commission _ => ?_
      exact bind_ne_error (applyPendingRate_ne_calculationError _ _) fun _ _ => by
        simp [pure, Except.pure]
  · dsimp only
    refine bind_ne_error (u64Add_ne_calculationError _ _) fun rewardsPool hrp => ?_
    refine bind_ne_error (u64Add_ne_calculationError _ _) fun walBalance hwal => ?_
    obtain ⟨-, rfl⟩ := u64Add_eq_ok.mp hrp
    obtain ⟨-, rfl⟩ := u64Add_eq_ok.mp hwal
    exact hprocess commissionPart rewardsAmount hcommission

end CalculationError

/-- `wal_balance_at_epoch` predicts what `process_pending_stake` makes of the balance: the
same rate, the same stake added and the same withdrawals taken out. -/
theorem processPendingStake_walBalance {pool pool' : StakePool} {wctx : WalrusContext}
    (h : pool.processPendingStake wctx = .ok pool') :
    pool.walBalanceAtEpoch wctx.epoch = .ok pool'.walBalance := by
  obtain ⟨rate, preShares, pendingWithdrawal, hp⟩ := processPendingStake_eq_ok h
  -- the totals `value_at` adds up fit, since the processing added them up
  have hshares : pool.pendingSharesWithdraw.valueAt wctx.epoch =
      .ok (dueTotal pool.pendingSharesWithdraw.inner.contents wctx.epoch) :=
    PendingValues.valueAt_of_le (by have := hp.sharesFit; omega)
  have hpending : pool.pendingStake.valueAt wctx.epoch =
      .ok (dueTotal pool.pendingStake.inner.contents wctx.epoch) :=
    PendingValues.valueAt_of_le (by have := hp.balanceFits; omega)
  have hsum : u64Add (dueTotal pool.pendingSharesWithdraw.inner.contents wctx.epoch) preShares =
      .ok (dueTotal pool.pendingSharesWithdraw.inner.contents wctx.epoch + preShares) :=
    u64Add_eq_ok.mpr ⟨hp.sharesFit, rfl⟩
  have hbalance : u64Add pool.walBalance (dueTotal pool.pendingStake.inner.contents wctx.epoch) =
      .ok (pool.walBalance + dueTotal pool.pendingStake.inner.contents wctx.epoch) :=
    u64Add_eq_ok.mpr ⟨hp.balanceFits, rfl⟩
  unfold walBalanceAtEpoch
  rw [hp.newRate, ok_bind, foldlM_preActiveAtStep, hp.preActive, ok_bind, hshares, ok_bind, hsum,
    ok_bind, hp.withdrawal, ok_bind, hpending, ok_bind, hbalance, ok_bind, hp.walBalance]
  exact checkedSub_eq_ok.mpr ⟨hp.covered, rfl⟩

/-- An advance that does not abort is to a later epoch; it splits the commission off the
rewards, adds the rest to the rewards pool and to the balance, and processes the pending
stake. -/
theorem advanceEpoch_eq_ok {pool pool' : StakePool} {rewards : Nat} {wctx : WalrusContext}
    (h : pool.advanceEpoch rewards wctx = .ok pool') :
    pool.commissionPart.latestEpoch < wctx.epoch ∧ ∃ commissionPart rewardsAmount,
      pool.commissionPart.advanceEpoch rewards wctx.epoch = .ok (commissionPart, rewardsAmount) ∧
      rewardsAmount ≤ rewards ∧
      { pool with
        commissionPart, rewardsPool := pool.rewardsPool + rewardsAmount,
        walBalance := pool.walBalance + rewardsAmount }.processPendingStake wctx = .ok pool' := by
  unfold advanceEpoch at h
  rw [ite_throw_bind_eq_ok] at h
  obtain ⟨hlt, h⟩ := h
  rw [ite_throw_bind_eq_ok] at h
  obtain ⟨-, h⟩ := h
  obtain ⟨⟨commissionPart, rewardsAmount⟩, hcommission, h⟩ := bind_eq_ok.mp h
  dsimp only at h
  obtain ⟨rewardsPool, hrp, h⟩ := bind_eq_ok.mp h
  obtain ⟨-, rfl⟩ := u64Add_eq_ok.mp hrp
  obtain ⟨walBalance, hwal, h⟩ := bind_eq_ok.mp h
  obtain ⟨-, rfl⟩ := u64Add_eq_ok.mp hwal
  exact ⟨hlt, commissionPart, rewardsAmount, hcommission,
    StakingPool.advanceEpoch_rest_le hcommission, h⟩

/-- An advance records its epoch as the pool's latest. -/
theorem advanceEpoch_latestEpoch {pool pool' : StakePool} {rewards : Nat} {wctx : WalrusContext}
    (h : pool.advanceEpoch rewards wctx = .ok pool') :
    pool'.commissionPart.latestEpoch = wctx.epoch := by
  obtain ⟨-, commissionPart, rewardsAmount, hcommission, -, hprocess⟩ := advanceEpoch_eq_ok h
  obtain ⟨rate, preShares, pendingWithdrawal, hp⟩ := processPendingStake_eq_ok hprocess
  obtain ⟨-, -, -, hcp, -⟩ := hp.frame
  rw [hcp]
  exact (StakingPool.advanceEpoch_eq_ok hcommission).2.1

/-- A new pool starts at the epoch it is created in. -/
theorem new_latestEpoch {id commissionRate : Nat} {wctx : WalrusContext} {pool : StakePool}
    (h : StakePool.new id commissionRate wctx = .ok pool) :
    pool.commissionPart.latestEpoch = wctx.epoch := by
  obtain ⟨commissionPart, hcommission, h⟩ := bind_eq_ok.mp h
  have hlatest : commissionPart.latestEpoch = wctx.epoch := by
    obtain ⟨-, hcommission⟩ := ite_throw_bind_eq_ok.mp hcommission
    cases hcommission
    rfl
  -- either activation epoch builds the pool with this commission part
  dsimp only at h
  split at h
  · obtain ⟨activationEpoch, -, h⟩ := bind_eq_ok.mp h
    cases h
    exact hlatest
  · rw [pure_bind] at h
    cases h
    exact hlatest

/-- The prediction reads the balance, the shares, the pending values and the rates only. -/
theorem walBalanceAtEpoch_congr {pool pool' : StakePool} (epoch : Nat)
    (hwal : pool'.walBalance = pool.walBalance) (hshares : pool'.numShares = pool.numShares)
    (hpre : pool'.preActiveWithdrawals = pool.preActiveWithdrawals)
    (hpsw : pool'.pendingSharesWithdraw = pool.pendingSharesWithdraw)
    (hpending : pool'.pendingStake = pool.pendingStake)
    (hrates : pool'.exchangeRates = pool.exchangeRates)
    (hact : pool'.activationEpoch = pool.activationEpoch) :
    pool'.walBalanceAtEpoch epoch = pool.walBalanceAtEpoch epoch := by
  have hstep : pool'.preActiveAtStep epoch = pool.preActiveAtStep epoch := by
    funext total oldEpoch
    simp only [preActiveAtStep, preActiveShares, exchangeRateAtEpoch, hpre, hrates, hact]
  simp only [walBalanceAtEpoch, hstep, hwal, hshares, hpre, hpsw, hpending]

/-- The stake the active set records for a node for the next epoch, the prediction of
`wal_balance_at_epoch`, is the balance its pool has once advanced into that epoch without
rewards, as a node joining the committee is. -/
theorem advanceEpoch_walBalance_eq_prediction {pool pool' : StakePool} {wctx : WalrusContext}
    (h : pool.advanceEpoch 0 wctx = .ok pool') :
    pool.walBalanceAtEpoch wctx.epoch = .ok pool'.walBalance := by
  obtain ⟨-, commissionPart, rewardsAmount, -, hzero, hprocess⟩ := advanceEpoch_eq_ok h
  obtain rfl : rewardsAmount = 0 := Nat.le_zero.mp hzero
  -- the prediction does not read the commission, and nothing was added to the balance
  rw [← processPendingStake_walBalance hprocess]
  exact (walBalanceAtEpoch_congr wctx.epoch (Nat.add_zero _) rfl rfl rfl rfl rfl rfl).symm

theorem advanceEpoch_walBalance_eq_prediction_after_stake :
    ∃ pool sw pool', (new 0 0 ⟨0, false⟩ >>= fun p => p.stake 1000000000 ⟨0, false⟩) =
        .ok (pool, sw) ∧ pool.advanceEpoch 0 ⟨1, false⟩ = .ok pool' ∧
      pool.walBalanceAtEpoch 1 = .ok pool'.walBalance ∧ pool'.walBalance = 1000000000 :=
  ⟨_, _, _, rfl, rfl, @advanceEpoch_walBalance_eq_prediction _ _ ⟨1, false⟩ rfl, rfl⟩

end StakePool

end Walrus.Staking
