import Mathlib
import Walrus.Staking.PoolStake
import Walrus.Machine.Count

/-! # The shares of a pool advanced at every epoch cover its withdrawals

A pool, the staked WAL its `stake` mints, and the calls that act on them: withdrawal requests
and withdrawals, `join` and `split` of staked WAL, `set_withdrawing`, and the epoch changes, at
which the system advances the pool when it is in the old or the new committee.

The pool owes shares to the withdrawals pending by shares, to the early withdrawals due at the
next epoch, at the current rate, and to the staked WAL active by now, each at the rate of its
activation epoch (`claims`). The stake still to activate, and the early withdrawals taken out
of it, wait in the pending stake of their epoch. In a run that advances the pool at every
epoch change the claims stay within the shares and the shares within the balance (`Backed`),
so the withdrawals an advance pays out are covered, and the sanity check of
`process_pending_stake` never aborts with `ECalculationError` (`advance_never_overdrawn`).

An epoch change that leaves the pool out breaks this. A stake activating in a skipped epoch
is converted, when withdrawn, at the rate `exchange_rate_at_epoch` finds for it, the one of
the last advance; that rate was taken before the advance recounted the shares, rounding down,
and gives more shares than the pool counted for the stake (`skipped_epoch_overdrawn`).
-/

namespace Walrus.Staking

open Machine Walrus.System
open PendingValues (dueTotal)

/-! ## Runs of one pool with its staked WAL -/

/-- A call on the pool or on its staked WAL, or an epoch change. Staked WAL objects are named
by their position among the live ones. -/
inductive StakeCall
  | stake (toStake : Nat) (committeeSelected : Bool)
  | requestWithdrawStake (i : Nat) (inCurrentCommittee inNextCommittee : Bool)
  | withdrawStake (i : Nat) (inCurrentCommittee inNextCommittee : Bool)
  /-- `StakedWal::join` of the staked WAL `j` into the staked WAL `i`. -/
  | join (i j : Nat)
  /-- `StakedWal::split` of `amount` off the staked WAL `i`. -/
  | split (i amount : Nat)
  | setWithdrawing
  /-- The epoch changes; the pool is advanced with its rewards when it is in the old or the
  new committee. -/
  | epochChange (advanced : Bool) (rewards : Nat)
deriving DecidableEq, Repr

/-- Every call but an epoch change that leaves the pool out. -/
def StakeCall.keepsCurrent : StakeCall → Bool
  | .epochChange advanced _ => advanced
  | _ => true

/-- The system's epoch, one pool, and the staked WAL of the pool. -/
structure StakeRun where
  epoch : Nat
  pool : StakePool
  stakes : List StakedWal

namespace StakeRun

/-- The staked WAL `i`. -/
def getStake (s : StakeRun) (i : Nat) : Except Abort StakedWal :=
  match s.stakes[i]? with
  | some stakedWal => .ok stakedWal
  | none => .error .noSuchObject

/-- One transaction. The context's flag of the committee selection is read by `stake`
only. -/
def step (s : StakeRun) : StakeCall → Except Abort StakeRun
  | .stake toStake committeeSelected => do
    let (pool, stakedWal) ← s.pool.stake toStake ⟨s.epoch, committeeSelected⟩
    pure { s with pool, stakes := s.stakes ++ [stakedWal] }
  | .requestWithdrawStake i inCurrentCommittee inNextCommittee => do
    let stakedWal ← s.getStake i
    let (pool, stakedWal) ←
      s.pool.requestWithdrawStake stakedWal inCurrentCommittee inNextCommittee ⟨s.epoch, false⟩
    pure { s with pool, stakes := s.stakes.set i stakedWal }
  | .withdrawStake i inCurrentCommittee inNextCommittee => do
    let stakedWal ← s.getStake i
    let (pool, _) ←
      s.pool.withdrawStake stakedWal inCurrentCommittee inNextCommittee ⟨s.epoch, false⟩
    pure { s with pool, stakes := s.stakes.eraseIdx i }
  | .join i j => do
    unless i ≠ j do throw .noSuchObject
    let stakedWal ← s.getStake i
    let other ← s.getStake j
    let joined ← stakedWal.join other
    pure { s with stakes := (s.stakes.set i joined).eraseIdx j }
  | .split i amount => do
    let stakedWal ← s.getStake i
    let (stakedWal, rest) ← stakedWal.split amount
    pure { s with stakes := s.stakes.set i stakedWal ++ [rest] }
  | .setWithdrawing => do
    let pool ← s.pool.setWithdrawing ⟨s.epoch, false⟩
    pure { s with pool }
  | .epochChange true rewards => do
    let epoch ← u32Add s.epoch 1
    let pool ← s.pool.advanceEpoch rewards ⟨epoch, false⟩
    pure { s with epoch, pool }
  | .epochChange false _ => do
    let epoch ← u32Add s.epoch 1
    pure { s with epoch }

/-- A run from `s`: an aborted transaction leaves the state as it was. -/
def run (s : StakeRun) (calls : List StakeCall) : StakeRun :=
  Machine.run (commit fun s x => (s.step x).toOption) s calls

theorem getStake_eq_ok {s : StakeRun} {i : Nat} {stakedWal : StakedWal} :
    s.getStake i = .ok stakedWal ↔ s.stakes[i]? = some stakedWal := by
  unfold getStake
  split <;> simp_all

end StakeRun

/-! ## What the pool owes -/

/-- The principal of a staked WAL still staked and activating at `e`. -/
def StakedWal.stakedAt (sw : StakedWal) (e : Nat) : Nat :=
  if sw.state = .staked ∧ sw.activationEpoch = e then sw.principal else 0

/-- The principal of the staked WAL of `stakes` still staked and activating at `e`. -/
def stakedPrincipal (stakes : List StakedWal) (e : Nat) : Nat :=
  (stakes.map (·.stakedAt e)).sum

/-- The rate recorded for epoch `e`. -/
def StakePool.rateAt (pool : StakePool) (e : Nat) : PoolExchangeRate :=
  (pool.exchangeRates e).getD .flat

/-- The shares the pool owes: to the withdrawals pending by shares, to the early withdrawals
due at the next epoch, at the current rate, and to the staked WAL active by now, each at the
rate of its activation epoch. -/
def claims (s : StakeRun) : Nat :=
  s.pool.pendingSharesWithdraw.total +
    (s.pool.rateAt s.epoch).shareValue (s.pool.preActiveWithdrawals.valueFor (s.epoch + 1)) +
    ∑ e ∈ Finset.range (s.epoch + 1), (s.pool.rateAt e).shareValue (stakedPrincipal s.stakes e)

section StakedPrincipal

variable {l : List StakedWal} {i : Nat} {sw old : StakedWal} {e : Nat}

theorem stakedPrincipal_concat (l : List StakedWal) (sw : StakedWal) (e : Nat) :
    stakedPrincipal (l ++ [sw]) e = stakedPrincipal l e + sw.stakedAt e := by
  simp [stakedPrincipal]

theorem stakedPrincipal_set (h : l[i]? = some old) (sw : StakedWal) (e : Nat) :
    stakedPrincipal (l.set i sw) e + old.stakedAt e = stakedPrincipal l e + sw.stakedAt e := by
  obtain ⟨hi, rfl⟩ := List.getElem?_eq_some_iff.mp h
  exact sum_map_set _ l i sw hi

theorem stakedPrincipal_eraseIdx (h : l[i]? = some old) (e : Nat) :
    stakedPrincipal (l.eraseIdx i) e + old.stakedAt e = stakedPrincipal l e := by
  obtain ⟨hi, rfl⟩ := List.getElem?_eq_some_iff.mp h
  exact sum_map_eraseIdx _ l i hi

theorem stakedAt_of_staked {sw : StakedWal} (h : sw.state = .staked) (e : Nat) :
    sw.stakedAt e = if sw.activationEpoch = e then sw.principal else 0 := by
  simp [StakedWal.stakedAt, h]

theorem stakedAt_of_withdrawing {sw : StakedWal} {w : Nat} (h : sw.state = .withdrawing w)
    (e : Nat) : sw.stakedAt e = 0 := by
  simp [StakedWal.stakedAt, h]

/-- Two staked WAL of one state and activation epoch, merged. -/
theorem stakedAt_merge {a b : StakedWal} (hstate : b.state = a.state)
    (hact : b.activationEpoch = a.activationEpoch) (e : Nat) :
    ({ a with principal := a.principal + b.principal } : StakedWal).stakedAt e =
      a.stakedAt e + b.stakedAt e := by
  unfold StakedWal.stakedAt
  rw [hstate, hact]
  split <;> simp

/-- Replacing a staked WAL by two of its state and activation epoch, with its principal
between them, leaves the principal of every epoch as it was. -/
theorem stakedPrincipal_split (h : l[i]? = some old) {a b : StakedWal}
    (ha : a.state = old.state ∧ a.activationEpoch = old.activationEpoch)
    (hb : b.state = old.state ∧ b.activationEpoch = old.activationEpoch)
    (hsum : a.principal + b.principal = old.principal) (e : Nat) :
    stakedPrincipal (l.set i a ++ [b]) e = stakedPrincipal l e := by
  have hset := stakedPrincipal_set h a e
  have hparts : a.stakedAt e + b.stakedAt e = old.stakedAt e := by
    unfold StakedWal.stakedAt
    rw [ha.1, ha.2, hb.1, hb.2]
    split <;> omega
  rw [stakedPrincipal_concat]
  omega

end StakedPrincipal

/-! ## Pending values read by epoch -/

namespace PendingValues

variable {self self' : PendingValues} {epoch value : Nat}

theorem valueFor_insertOrAdd (h : self.insertOrAdd epoch value = .ok self') (k : Nat) :
    self'.valueFor k = self.valueFor k + if k = epoch then value else 0 := by
  rw [valueFor, (insertOrAdd_eq_ok h).1 k]
  split
  · rename_i hk
    subst hk
    rfl
  · simp [valueFor]

theorem valueFor_reduce (h : self.reduce epoch value = .ok self') (k : Nat) :
    self'.valueFor k + (if k = epoch then value else 0) = self.valueFor k := by
  obtain ⟨curr, hcurr, hle, hget⟩ := reduce_eq_ok h
  rw [valueFor, hget k]
  split
  · rename_i hk
    subst hk
    simp only [Option.getD_some, valueFor, hcurr]
    omega
  · simp [valueFor]

/-- What a flush to `epoch` leaves: the values pending after it. -/
theorem get?_of_flushed (h : self'.inner.contents = self.inner.contents.filter fun e => ¬ e.1 ≤ epoch)
    (k : Nat) : self'.inner.get? k = if k ≤ epoch then none else self.inner.get? k := by
  rw [VecMap.get?_of_contents_filter (p := fun k => ¬ k ≤ epoch) h k]
  by_cases hk : k ≤ epoch <;> simp [hk]

theorem valueFor_of_flushed (h : self'.inner.contents = self.inner.contents.filter fun e => ¬ e.1 ≤ epoch)
    (k : Nat) : self'.valueFor k = if k ≤ epoch then 0 else self.valueFor k := by
  rw [valueFor, get?_of_flushed h k]
  split <;> rfl

theorem total_of_flushed (h : self'.inner.contents = self.inner.contents.filter fun e => ¬ e.1 ≤ epoch) :
    self'.total + dueTotal self.inner.contents epoch = self.total := by
  rw [total, total, h, sum_snd_eq_filter_add_dueTotal self.inner.contents epoch]

/-- With nothing pending up to `epoch`, every key lies after it. -/
theorem keys_gt (h : ∀ k ≤ epoch, self.inner.get? k = none) :
    ∀ e ∈ self.inner.contents, epoch < e.1 := by
  intro e he
  by_contra hle
  have hnone := h e.1 (Nat.le_of_not_lt hle)
  rw [VecMap.get?_of_mem (k := e.1) (v := e.2) he] at hnone
  cases hnone

end PendingValues

/-! ## The invariant -/

/-- An early withdrawal due at `epoch + 1` converts at the rate recorded for `epoch`. -/
theorem StakePool.preActiveShares_of_rated {pool : StakePool} {epoch value x : Nat}
    {rate : PoolExchangeRate} (hact : pool.activationEpoch ≤ epoch)
    (hrate : pool.exchangeRates epoch = some rate)
    (h : pool.preActiveShares (epoch + 1) value = .ok x) : x = rate.shareValue value := by
  have hsub : checkedSub (epoch + 1) 1 = .ok epoch := checkedSub_eq_ok.mpr ⟨by omega, by omega⟩
  unfold preActiveShares exchangeRateAtEpoch at h
  rw [hsub, ok_bind, rateAtOrBefore_of_eq_some hact hrate, ok_bind] at h
  exact PoolExchangeRate.convertToShareAmount_eq_ok h

namespace StakeRun

variable {s s' : StakeRun}

/-- The pool is at the system's epoch, with a rate for every epoch from its activation on and
none beyond; its staked WAL is its own, activating after it; nothing is pending for an epoch
reached; the stake pending for a later epoch covers the staked WAL activating then and the
early withdrawals taken out of it; the claims stay within the shares, and the shares within the
balance. -/
structure Backed (s : StakeRun) : Prop where
  latest : s.pool.commissionPart.latestEpoch = s.epoch
  activation : s.pool.activationEpoch ≤ s.epoch
  rated : ∀ e, s.pool.activationEpoch ≤ e → e ≤ s.epoch →
    s.pool.exchangeRates e = some (s.pool.rateAt e)
  unrated : ∀ e, s.epoch < e → s.pool.exchangeRates e = none
  stakes : ∀ sw ∈ s.stakes, sw.nodeId = s.pool.id ∧ s.pool.activationEpoch ≤ sw.activationEpoch
  pendingAhead : ∀ k ≤ s.epoch, s.pool.pendingStake.inner.get? k = none
  preAhead : ∀ k ≤ s.epoch, s.pool.preActiveWithdrawals.inner.get? k = none
  pendingCovers : ∀ k, s.epoch < k →
    stakedPrincipal s.stakes k + s.pool.preActiveWithdrawals.valueFor (k + 1) ≤
      s.pool.pendingStake.valueFor k
  claimsLe : claims s ≤ s.pool.numShares
  sharesLe : s.pool.numShares ≤ s.pool.walBalance

/-- A pool created outside the committee selection starts backed, with no staked WAL. -/
theorem backed_new {id commissionRate epoch : Nat} {pool : StakePool}
    (h : StakePool.new id commissionRate ⟨epoch, false⟩ = .ok pool) :
    Backed ⟨epoch, pool, []⟩ := by
  unfold StakePool.new at h
  obtain ⟨commissionPart, hcommission, h⟩ := bind_eq_ok.mp h
  simp only [Bool.false_eq_true, if_false, pure, Except.pure, ok_bind, Except.ok.injEq] at h
  subst h
  unfold StakingPool.new at hcommission
  rw [ite_throw_bind_eq_ok] at hcommission
  obtain ⟨-, hcommission⟩ := hcommission
  cases hcommission
  have hempty : ∀ k, (PendingValues.empty).inner.get? k = none := fun k => rfl
  refine ⟨rfl, le_rfl, fun e he he' => ?_, fun e he => ?_, fun sw hsw => absurd hsw List.not_mem_nil,
    fun k _ => hempty k, fun k _ => hempty k, fun k _ => ?_, ?_, le_rfl⟩
  · obtain rfl : e = epoch := le_antisymm he' he
    simp [StakePool.rateAt]
  · simp [Nat.ne_of_gt he]
  · simp [stakedPrincipal, PendingValues.valueFor, hempty]
  · simp [claims, stakedPrincipal, PendingValues.total, PendingValues.valueFor,
      PendingValues.empty, VecMap.empty, VecMap.get?]

/-- The claims read the epoch, the pending shares, the early withdrawals due next, the rates
and the principal staked by epoch. -/
theorem claims_congr {t : StakeRun} (hepoch : t.epoch = s.epoch)
    (hpsw : t.pool.pendingSharesWithdraw.total = s.pool.pendingSharesWithdraw.total)
    (hpre : t.pool.preActiveWithdrawals.valueFor (s.epoch + 1) =
      s.pool.preActiveWithdrawals.valueFor (s.epoch + 1))
    (hrates : t.pool.exchangeRates = s.pool.exchangeRates)
    (hstakes : ∀ e ≤ s.epoch, stakedPrincipal t.stakes e = stakedPrincipal s.stakes e) :
    claims t = claims s := by
  unfold claims StakePool.rateAt
  rw [hepoch, hpsw, hpre, hrates]
  congr 1
  exact Finset.sum_congr rfl fun e he => by
    rw [hstakes e (Nat.lt_succ_iff.mp (Finset.mem_range.mp he))]

/-- Taking the principal `p` staked at `act` out of the sum over the epochs up to `epoch`
frees at least the shares it had there. -/
theorem sum_shareValue_remove {epoch act p : Nat} {r : Nat → PoolExchangeRate}
    {F F' : Nat → Nat} (hact : act ≤ epoch) (h : ∀ e, F' e + (if act = e then p else 0) = F e) :
    ∑ e ∈ Finset.range (epoch + 1), (r e).shareValue (F' e) + (r act).shareValue p ≤
      ∑ e ∈ Finset.range (epoch + 1), (r e).shareValue (F e) := by
  have hpoint : ∀ e, (r e).shareValue (F' e) + (if act = e then (r act).shareValue p else 0)
      ≤ (r e).shareValue (F e) := by
    intro e
    have he := h e
    by_cases hae : act = e
    · subst hae
      rw [if_pos rfl] at he ⊢
      rw [← he]
      exact (r act).shareValue_add_le _ _
    · rw [if_neg hae] at he ⊢
      rw [← he, Nat.add_zero, Nat.add_zero]
  have hmem : act ∈ Finset.range (epoch + 1) := Finset.mem_range.mpr (by omega)
  calc ∑ e ∈ Finset.range (epoch + 1), (r e).shareValue (F' e) + (r act).shareValue p
      = ∑ e ∈ Finset.range (epoch + 1),
          ((r e).shareValue (F' e) + if act = e then (r act).shareValue p else 0) := by
        rw [Finset.sum_add_distrib, Finset.sum_ite_eq, if_pos hmem]
    _ ≤ ∑ e ∈ Finset.range (epoch + 1), (r e).shareValue (F e) :=
        Finset.sum_le_sum fun e _ => hpoint e

/-- Withdrawing the principal of an active staked WAL by its shares, at the rate of its
activation epoch, keeps the claims within what they were. -/
theorem claims_le_of_withdrawn {t : StakeRun} {act p : Nat} (hact : act ≤ s.epoch)
    (hepoch : t.epoch = s.epoch)
    (hpsw : t.pool.pendingSharesWithdraw.total =
      s.pool.pendingSharesWithdraw.total + (s.pool.rateAt act).shareValue p)
    (hpre : t.pool.preActiveWithdrawals.valueFor (s.epoch + 1) =
      s.pool.preActiveWithdrawals.valueFor (s.epoch + 1))
    (hrates : t.pool.exchangeRates = s.pool.exchangeRates)
    (hstakes : ∀ e, stakedPrincipal t.stakes e + (if act = e then p else 0) =
      stakedPrincipal s.stakes e) :
    claims t ≤ claims s := by
  have hsum := sum_shareValue_remove (r := s.pool.rateAt) hact hstakes
  unfold claims
  rw [hepoch, hpsw, hpre, show t.pool.rateAt = s.pool.rateAt by
    funext e
    simp only [StakePool.rateAt, hrates]]
  omega

/-- What the invariant says of the withdrawals an advance into the next epoch pays out: the
early withdrawals due then convert into at most the shares the claims count for them, and with
the withdrawals pending by shares they come to at most the pool's shares. -/
theorem Backed.withdrawn_le (hI : s.Backed) {pool : StakePool} {preShares : Nat}
    (h : pool.preActiveTotal (s.epoch + 1) s.pool.preActiveWithdrawals.inner.contents =
      .ok preShares)
    (hact : pool.activationEpoch = s.pool.activationEpoch)
    (hrates : pool.exchangeRates = s.pool.exchangeRates) :
    preShares ≤ (s.pool.rateAt s.epoch).shareValue
        (s.pool.preActiveWithdrawals.valueFor (s.epoch + 1)) ∧
      dueTotal s.pool.pendingSharesWithdraw.inner.contents (s.epoch + 1) + preShares ≤
        s.pool.numShares := by
  have hkeys := PendingValues.keys_gt hI.preAhead
  have hrate : pool.exchangeRates s.epoch = some (s.pool.rateAt s.epoch) := by
    rw [hrates]
    exact hI.rated s.epoch hI.activation le_rfl
  -- every early withdrawal due is due at the next epoch, and converts at the current rate
  have hpre := StakePool.preActiveTotal_le (fun e he hdue x hx => by
    have hk : e.1 = s.epoch + 1 := le_antisymm hdue (hkeys e he)
    rw [hk] at hx
    exact StakePool.preActiveShares_of_rated (hact ▸ hI.activation) hrate hx) h
  rw [@PendingValues.dueTotal_eq_valueFor _ (s.epoch + 1) fun e he => hkeys e he] at hpre
  refine ⟨hpre, ?_⟩
  have hdue := PendingValues.sum_snd_eq_filter_add_dueTotal
    s.pool.pendingSharesWithdraw.inner.contents (s.epoch + 1)
  have hclaims := hI.claimsLe
  unfold claims PendingValues.total at hclaims
  omega

/-- A staked WAL active by now converts at the rate of its activation epoch. -/
theorem Backed.exchangeRateAtEpoch (hI : s.Backed) {sw : StakedWal} (hmem : sw ∈ s.stakes)
    (hact : sw.activationEpoch ≤ s.epoch) :
    s.pool.exchangeRateAtEpoch sw.activationEpoch = .ok (s.pool.rateAt sw.activationEpoch) :=
  rateAtOrBefore_of_eq_some (hI.stakes sw hmem).2 (hI.rated _ (hI.stakes sw hmem).2 hact)

/-! ## Every call keeps the invariant -/

/-- A stake adds its principal to the stake pending for its activation epoch, after the
current one; the claims do not change. -/
theorem Backed.stake (hI : s.Backed) {toStake : Nat} {committeeSelected : Bool}
    (h : s.step (.stake toStake committeeSelected) = .ok s') : s'.Backed := by
  obtain ⟨⟨pool, sw⟩, hstake, h⟩ := bind_eq_ok.mp h
  simp only [pure, Except.pure, Except.ok.injEq] at h
  subst h
  have hsw := StakePool.stake_eq_ok hstake
  dsimp only at hsw
  obtain ⟨rfl, pending, hpending, rfl⟩ := hsw
  dsimp only at hpending
  have hact : s.epoch < s.epoch + if committeeSelected then 2 else 1 := by
    split <;> omega
  have hvalue := PendingValues.valueFor_insertOrAdd hpending
  have hget := (PendingValues.insertOrAdd_eq_ok hpending).1
  -- the new staked WAL counts at its activation epoch only
  have hSP : ∀ e, stakedPrincipal (s.stakes ++ [⟨.staked, s.pool.id, toStake,
      s.epoch + if committeeSelected then 2 else 1⟩]) e = stakedPrincipal s.stakes e +
      if s.epoch + (if committeeSelected then 2 else 1) = e then toStake else 0 := by
    intro e
    rw [stakedPrincipal_concat, stakedAt_of_staked rfl]
  refine ⟨hI.latest, hI.activation, hI.rated, hI.unrated, fun x hx => ?_, fun k hk => ?_,
    hI.preAhead, fun k hk => ?_, ?_, hI.sharesLe⟩
  · rcases List.mem_append.mp hx with hx | hx
    · exact hI.stakes x hx
    · rw [List.mem_singleton.mp hx]
      exact ⟨rfl, Nat.le_trans hI.activation (Nat.le_add_right _ _)⟩
  · dsimp only at hk ⊢
    rw [hget k, if_neg (by omega)]
    exact hI.pendingAhead k hk
  · dsimp only at hk ⊢
    have hcov := hI.pendingCovers k hk
    rw [hSP k, hvalue k]
    split_ifs <;> omega
  · refine Eq.trans_le (claims_congr (s := s) rfl rfl rfl rfl fun e he => ?_) hI.claimsLe
    rw [hSP e, if_neg (by omega), Nat.add_zero]

/-- A withdrawal request moves the principal of a staked WAL out of the stake: one not active
yet into the early withdrawals of the epoch after its activation, an active one into the
withdrawals pending by shares, at no more shares than it had. -/
theorem Backed.requestWithdraw (hI : s.Backed) {i : Nat} {inCurrentCommittee inNextCommittee : Bool}
    (h : s.step (.requestWithdrawStake i inCurrentCommittee inNextCommittee) = .ok s') :
    s'.Backed := by
  obtain ⟨sw, hsw, h⟩ := bind_eq_ok.mp h
  obtain ⟨⟨pool, sw'⟩, hreq, h⟩ := bind_eq_ok.mp h
  simp only [pure, Except.pure, Except.ok.injEq] at h
  subst h
  have hget := getStake_eq_ok.mp hsw
  have hmem : sw ∈ s.stakes := List.mem_of_getElem? hget
  obtain ⟨-, hstaked, hpath⟩ := StakePool.requestWithdrawStake_eq_ok hreq
  dsimp only at hpath
  -- the staked WAL, now withdrawing, leaves the principal staked at its activation epoch
  have hSP : ∀ w e, stakedPrincipal (s.stakes.set i { sw with state := .withdrawing w }) e +
      (if sw.activationEpoch = e then sw.principal else 0) = stakedPrincipal s.stakes e := by
    intro w e
    have hset := stakedPrincipal_set hget { sw with state := .withdrawing w } e
    rw [@stakedAt_of_withdrawing { sw with state := .withdrawing w } w rfl,
      stakedAt_of_staked hstaked] at hset
    omega
  have hstakes : ∀ w, ∀ x ∈ s.stakes.set i { sw with state := .withdrawing w },
      x.nodeId = s.pool.id ∧ s.pool.activationEpoch ≤ x.activationEpoch := by
    intro w x hx
    rcases List.mem_or_eq_of_mem_set hx with hx | rfl
    · exact hI.stakes x hx
    · exact hI.stakes sw hmem
  rcases hpath with ⟨hact, pre, hpre, rfl, rfl⟩ |
    ⟨hact, w, rate, shareAmount, psw, hrate, hshares, hpsw, rfl, rfl⟩
  · -- not active yet: the principal moves to the early withdrawals of the epoch after
    have hvalue := PendingValues.valueFor_insertOrAdd hpre
    have hget' := (PendingValues.insertOrAdd_eq_ok hpre).1
    refine ⟨hI.latest, hI.activation, hI.rated, hI.unrated, hstakes _, hI.pendingAhead,
      fun k hk => ?_, fun k hk => ?_, ?_, hI.sharesLe⟩
    · dsimp only at hk ⊢
      rw [hget' k, if_neg (by omega)]
      exact hI.preAhead k hk
    · dsimp only at hk ⊢
      have hcov := hI.pendingCovers k hk
      have hk' := hSP (s.epoch + 2) k
      rw [hvalue (k + 1)]
      split_ifs at hk' ⊢ <;> omega
    · refine Eq.trans_le (claims_congr (s := s) rfl rfl ?_ rfl fun e he => ?_) hI.claimsLe
      · dsimp only
        rw [hvalue, if_neg (by omega), Nat.add_zero]
      · have hk' := hSP (s.epoch + 2) e
        rw [if_neg (by omega), Nat.add_zero] at hk'
        exact hk'
  · -- active: withdrawn by its shares, at the rate of its activation epoch
    obtain rfl : rate = s.pool.rateAt sw.activationEpoch :=
      Except.ok.inj (hrate.symm.trans (hI.exchangeRateAtEpoch hmem hact))
    obtain rfl := PoolExchangeRate.convertToShareAmount_eq_ok hshares
    refine ⟨hI.latest, hI.activation, hI.rated, hI.unrated, hstakes _, hI.pendingAhead,
      hI.preAhead, fun k hk => ?_, ?_, hI.sharesLe⟩
    · dsimp only at hk ⊢
      have hk' := hSP w k
      rw [if_neg (by omega), Nat.add_zero] at hk'
      rw [hk']
      exact hI.pendingCovers k hk
    · exact le_trans (claims_le_of_withdrawn (s := s) hact rfl
        (PendingValues.insertOrAdd_eq_ok hpsw).2 rfl rfl (hSP w)) hI.claimsLe

/-- A withdrawal takes a staked WAL out: one not active yet out of the pending stake, an
active one, of a node in neither committee, into the withdrawals pending by shares; one
withdrawing was taken out of the stake by its request already. -/
theorem Backed.withdraw (hI : s.Backed) {i : Nat} {inCurrentCommittee inNextCommittee : Bool}
    (h : s.step (.withdrawStake i inCurrentCommittee inNextCommittee) = .ok s') :
    s'.Backed := by
  obtain ⟨sw, hsw, h⟩ := bind_eq_ok.mp h
  obtain ⟨⟨pool, paid⟩, hwithdraw, h⟩ := bind_eq_ok.mp h
  simp only [pure, Except.pure, Except.ok.injEq] at h
  subst h
  have hget := getStake_eq_ok.mp hsw
  have hmem : sw ∈ s.stakes := List.mem_of_getElem? hget
  have hSP := stakedPrincipal_eraseIdx hget
  have hstakes : ∀ x ∈ s.stakes.eraseIdx i,
      x.nodeId = s.pool.id ∧ s.pool.activationEpoch ≤ x.activationEpoch :=
    fun x hx => hI.stakes x (List.mem_of_mem_eraseIdx hx)
  obtain ⟨-, hpath⟩ := StakePool.withdrawStake_eq_ok hwithdraw
  dsimp only at hpath
  rcases hpath with ⟨hstaked, hlt, pending, hpending, rfl⟩ |
    ⟨hstaked, hact, rate, shareAmount, psw, rewardsPool, hrate, hshares, hpsw, rfl⟩ |
    ⟨hwithdrawing, rewardsPool, rfl⟩
  · -- not active yet: the principal leaves the pending stake of its activation epoch
    have hvalue := PendingValues.valueFor_reduce hpending
    obtain ⟨curr, -, -, hget'⟩ := PendingValues.reduce_eq_ok hpending
    simp only [stakedAt_of_staked hstaked] at hSP
    refine ⟨hI.latest, hI.activation, hI.rated, hI.unrated, hstakes, fun k hk => ?_,
      hI.preAhead, fun k hk => ?_, ?_, hI.sharesLe⟩
    · dsimp only at hk ⊢
      rw [hget' k, if_neg (by omega)]
      exact hI.pendingAhead k hk
    · dsimp only at hk ⊢
      have hcov := hI.pendingCovers k hk
      have hk' := hSP k
      have hv := hvalue k
      split_ifs at hk' hv <;> omega
    · refine Eq.trans_le (claims_congr (s := s) rfl rfl rfl rfl fun e he => ?_) hI.claimsLe
      have hk' := hSP e
      rw [if_neg (by omega), Nat.add_zero] at hk'
      exact hk'
  · -- active, of a node in neither committee: withdrawn by its shares at once
    obtain rfl : rate = s.pool.rateAt sw.activationEpoch :=
      Except.ok.inj (hrate.symm.trans (hI.exchangeRateAtEpoch hmem hact))
    obtain rfl := PoolExchangeRate.convertToShareAmount_eq_ok hshares
    simp only [stakedAt_of_staked hstaked] at hSP
    refine ⟨hI.latest, hI.activation, hI.rated, hI.unrated, hstakes, hI.pendingAhead,
      hI.preAhead, fun k hk => ?_, ?_, hI.sharesLe⟩
    · dsimp only at hk ⊢
      have hk' := hSP k
      rw [if_neg (by omega), Nat.add_zero] at hk'
      rw [hk']
      exact hI.pendingCovers k hk
    · exact le_trans (claims_le_of_withdrawn (s := s) hact rfl
        (PendingValues.insertOrAdd_eq_ok hpsw).2 rfl rfl hSP) hI.claimsLe
  · -- withdrawing: its principal left the stake with its request
    obtain ⟨w, hw⟩ : ∃ w, sw.state = .withdrawing w := by
      cases hs : sw.state with
      | staked => simp [StakedWal.isWithdrawing, hs] at hwithdrawing
      | withdrawing w => exact ⟨w, rfl⟩
    have hk' : ∀ e, stakedPrincipal (s.stakes.eraseIdx i) e = stakedPrincipal s.stakes e := by
      intro e
      have := hSP e
      rw [stakedAt_of_withdrawing hw] at this
      omega
    refine ⟨hI.latest, hI.activation, hI.rated, hI.unrated, hstakes, hI.pendingAhead,
      hI.preAhead, fun k hk => ?_, Eq.trans_le
        (claims_congr (s := s) rfl rfl rfl rfl fun e _ => hk' e) hI.claimsLe, hI.sharesLe⟩
    dsimp only at hk ⊢
    rw [hk']
    exact hI.pendingCovers k hk

/-- A join merges two staked WAL of one state and activation epoch: the principal of every
epoch stays. -/
theorem Backed.join (hI : s.Backed) {i j : Nat} (h : s.step (.join i j) = .ok s') :
    s'.Backed := by
  rw [step, ite_throw_bind_eq_ok] at h
  obtain ⟨hij, h⟩ := h
  obtain ⟨sw, hsw, h⟩ := bind_eq_ok.mp h
  obtain ⟨other, hother, h⟩ := bind_eq_ok.mp h
  obtain ⟨joined, hjoin, h⟩ := bind_eq_ok.mp h
  simp only [pure, Except.pure, Except.ok.injEq] at h
  subst h
  have hgi := getStake_eq_ok.mp hsw
  have hgj := getStake_eq_ok.mp hother
  obtain ⟨-, hact, hstate, rfl⟩ := StakedWal.join_eq_ok hjoin
  have hgj' : (s.stakes.set i { sw with principal := sw.principal + other.principal })[j]? =
      some other := by
    rw [List.getElem?_set_ne hij]
    exact hgj
  have hSP : ∀ e, stakedPrincipal
      ((s.stakes.set i { sw with principal := sw.principal + other.principal }).eraseIdx j) e =
      stakedPrincipal s.stakes e := by
    intro e
    have herase := stakedPrincipal_eraseIdx hgj' e
    have hset := stakedPrincipal_set hgi { sw with principal := sw.principal + other.principal } e
    rw [stakedAt_merge hstate hact] at hset
    omega
  have hstakes : ∀ x ∈ (s.stakes.set i { sw with principal := sw.principal + other.principal
      }).eraseIdx j, x.nodeId = s.pool.id ∧ s.pool.activationEpoch ≤ x.activationEpoch := by
    intro x hx
    rcases List.mem_or_eq_of_mem_set (List.mem_of_mem_eraseIdx hx) with hx | rfl
    · exact hI.stakes x hx
    · exact hI.stakes sw (List.mem_of_getElem? hgi)
  refine ⟨hI.latest, hI.activation, hI.rated, hI.unrated, hstakes, hI.pendingAhead,
    hI.preAhead, fun k hk => ?_, Eq.trans_le
      (claims_congr (s := s) rfl rfl rfl rfl fun e _ => hSP e) hI.claimsLe, hI.sharesLe⟩
  dsimp only at hk ⊢
  rw [hSP]
  exact hI.pendingCovers k hk

/-- A split parts a staked WAL in two of its state and activation epoch: the principal of
every epoch stays. -/
theorem Backed.split (hI : s.Backed) {i amount : Nat} (h : s.step (.split i amount) = .ok s') :
    s'.Backed := by
  obtain ⟨sw, hsw, h⟩ := bind_eq_ok.mp h
  obtain ⟨⟨a, b⟩, hsplit, h⟩ := bind_eq_ok.mp h
  simp only [pure, Except.pure, Except.ok.injEq] at h
  subst h
  have hget := getStake_eq_ok.mp hsw
  obtain ⟨hlt, rfl, rfl⟩ := StakedWal.split_eq_ok hsplit
  have hSP := stakedPrincipal_split hget (a := { sw with principal := sw.principal - amount })
    (b := { sw with principal := amount }) ⟨rfl, rfl⟩ ⟨rfl, rfl⟩ (Nat.sub_add_cancel hlt.le)
  have hstakes : ∀ x ∈ s.stakes.set i { sw with principal := sw.principal - amount } ++
      [{ sw with principal := amount }],
      x.nodeId = s.pool.id ∧ s.pool.activationEpoch ≤ x.activationEpoch := by
    intro x hx
    have hsw' := hI.stakes sw (List.mem_of_getElem? hget)
    rcases List.mem_append.mp hx with hx | hx
    · rcases List.mem_or_eq_of_mem_set hx with hx | rfl
      · exact hI.stakes x hx
      · exact hsw'
    · rw [List.mem_singleton.mp hx]
      exact hsw'
  refine ⟨hI.latest, hI.activation, hI.rated, hI.unrated, hstakes, hI.pendingAhead,
    hI.preAhead, fun k hk => ?_, Eq.trans_le
      (claims_congr (s := s) rfl rfl rfl rfl fun e _ => hSP e) hI.claimsLe, hI.sharesLe⟩
  dsimp only at hk ⊢
  rw [hSP]
  exact hI.pendingCovers k hk

theorem Backed.setWithdrawing (hI : s.Backed) (h : s.step .setWithdrawing = .ok s') :
    s'.Backed := by
  obtain ⟨pool, hset, h⟩ := bind_eq_ok.mp h
  simp only [pure, Except.pure, Except.ok.injEq] at h
  subst h
  obtain ⟨w, rfl⟩ := StakePool.setWithdrawing_eq_ok hset
  exact ⟨hI.latest, hI.activation, hI.rated, hI.unrated, hI.stakes, hI.pendingAhead, hI.preAhead,
    hI.pendingCovers, hI.claimsLe, hI.sharesLe⟩

/-- An advance into the next epoch records the rate of the balance to the shares, adds the
stake activating, pays out the withdrawals due and recounts the shares. The claims of the
stake activating and of its early withdrawals are at most the shares the stake added buys;
what is paid out is covered by the shares it takes out; and the recount keeps both. -/
theorem Backed.advance (hI : s.Backed) {rewards : Nat}
    (h : s.step (.epochChange true rewards) = .ok s') : s'.Backed := by
  obtain ⟨epoch, hepoch, h⟩ := bind_eq_ok.mp h
  obtain ⟨-, rfl⟩ := u32Add_eq_ok.mp hepoch
  obtain ⟨pool', hadv, h⟩ := bind_eq_ok.mp h
  simp only [pure, Except.pure, Except.ok.injEq] at h
  subst h
  obtain ⟨-, commissionPart, rewardsAmount, hcommission, -, hprocess⟩ :=
    StakePool.advanceEpoch_eq_ok hadv
  obtain ⟨rate, preShares, pendingWithdrawal, hp⟩ := StakePool.processPendingStake_eq_ok hprocess
  obtain ⟨hid, -, hact, hcp, -⟩ := hp.frame
  -- what the processing did, read on the pool before the advance
  have hrates : ∀ e, pool'.exchangeRates e =
      if e = s.epoch + 1 then some rate else s.pool.exchangeRates e := fun e => by
    rw [hp.exchangeRates]
  have hrateAt : ∀ e, pool'.rateAt e = if e = s.epoch + 1 then rate else s.pool.rateAt e := by
    intro e
    unfold StakePool.rateAt
    rw [hrates e]
    split <;> rfl
  have hpending : ∀ k, pool'.pendingStake.inner.get? k =
      if k ≤ s.epoch + 1 then none else s.pool.pendingStake.inner.get? k :=
    PendingValues.get?_of_flushed hp.pendingStake
  have hpre : ∀ k, pool'.preActiveWithdrawals.inner.get? k =
      if k ≤ s.epoch + 1 then none else s.pool.preActiveWithdrawals.inner.get? k :=
    PendingValues.get?_of_flushed hp.preActiveWithdrawals
  have hpendingValue : ∀ k, pool'.pendingStake.valueFor k =
      if k ≤ s.epoch + 1 then 0 else s.pool.pendingStake.valueFor k :=
    PendingValues.valueFor_of_flushed hp.pendingStake
  have hpreValue : ∀ k, pool'.preActiveWithdrawals.valueFor k =
      if k ≤ s.epoch + 1 then 0 else s.pool.preActiveWithdrawals.valueFor k :=
    PendingValues.valueFor_of_flushed hp.preActiveWithdrawals
  refine ⟨?_, ?_, fun e he he' => ?_, fun e he => ?_, fun x hx => ?_, fun k hk => ?_,
    fun k hk => ?_, fun k hk => ?_, ?_, ?_⟩
  case refine_1 =>
    rw [hcp]
    exact (StakingPool.advanceEpoch_eq_ok hcommission).2.1
  case refine_2 =>
    rw [hact]
    exact Nat.le_succ_of_le hI.activation
  case refine_3 =>
    rw [hact] at he
    rw [hrates e, hrateAt e]
    split
    · rfl
    · exact hI.rated e he (by dsimp only at he'; omega)
  case refine_4 =>
    dsimp only at he
    rw [hrates e, if_neg (by omega)]
    exact hI.unrated e (by omega)
  case refine_5 =>
    rw [hid, hact]
    exact hI.stakes x hx
  case refine_6 =>
    rw [hpending k]
    exact if_pos hk
  case refine_7 =>
    rw [hpre k]
    exact if_pos hk
  case refine_8 =>
    dsimp only at hk ⊢
    rw [hpreValue (k + 1), hpendingValue k, if_neg (by omega), if_neg (by omega)]
    exact hI.pendingCovers k (by omega)
  case refine_9 =>
    -- the stake activating now, and its early withdrawals, buy at most the stake added
    have hkeys := PendingValues.keys_gt hI.pendingAhead
    have hadded : dueTotal s.pool.pendingStake.inner.contents (s.epoch + 1) =
        s.pool.pendingStake.valueFor (s.epoch + 1) :=
      PendingValues.dueTotal_eq_valueFor fun e he => hkeys e he
    have hcov := hI.pendingCovers (s.epoch + 1) (Nat.lt_succ_self _)
    have hactivated : rate.shareValue (s.pool.preActiveWithdrawals.valueFor (s.epoch + 1 + 1)) +
        rate.shareValue (stakedPrincipal s.stakes (s.epoch + 1)) ≤
          rate.shareValue (dueTotal s.pool.pendingStake.inner.contents (s.epoch + 1)) := by
      rw [hadded]
      calc _ ≤ rate.shareValue (s.pool.preActiveWithdrawals.valueFor (s.epoch + 1 + 1) +
            stakedPrincipal s.stakes (s.epoch + 1)) := rate.shareValue_add_le _ _
        _ ≤ _ := rate.shareValue_mono (by omega)
    -- the withdrawals paid out are within the shares, which the recount keeps
    obtain ⟨hpreShares, hwithdrawn⟩ := hI.withdrawn_le hp.preActive rfl rfl
    have hrecount : rate.shareValue (dueTotal s.pool.pendingStake.inner.contents (s.epoch + 1)) +
        (s.pool.numShares -
          (dueTotal s.pool.pendingSharesWithdraw.inner.contents (s.epoch + 1) + preShares)) ≤
        rate.shareValue (s.pool.walBalance + rewardsAmount +
          dueTotal s.pool.pendingStake.inner.contents (s.epoch + 1) - rate.walValue
            (dueTotal s.pool.pendingSharesWithdraw.inner.contents (s.epoch + 1) + preShares)) :=
      (PoolExchangeRate.new_eq_ok hp.newRate).2.2 _ hwithdrawn _
    have hpaid : pendingWithdrawal = rate.walValue
        (dueTotal s.pool.pendingSharesWithdraw.inner.contents (s.epoch + 1) + preShares) :=
      PoolExchangeRate.convertToWalAmount_eq_ok hp.withdrawal
    have hshares : pool'.numShares = rate.shareValue pool'.walBalance :=
      PoolExchangeRate.convertToShareAmount_eq_ok hp.numShares
    have hbalance : pool'.walBalance = s.pool.walBalance + rewardsAmount +
        dueTotal s.pool.pendingStake.inner.contents (s.epoch + 1) - pendingWithdrawal :=
      hp.walBalance
    have htotal : pool'.pendingSharesWithdraw.total +
        dueTotal s.pool.pendingSharesWithdraw.inner.contents (s.epoch + 1) =
          s.pool.pendingSharesWithdraw.total :=
      PendingValues.total_of_flushed hp.pendingSharesWithdraw
    -- the sum over the epochs reached gains the one just reached, at its new rate
    have hsum : ∑ e ∈ Finset.range (s.epoch + 1 + 1),
        (pool'.rateAt e).shareValue (stakedPrincipal s.stakes e) =
          ∑ e ∈ Finset.range (s.epoch + 1),
            (s.pool.rateAt e).shareValue (stakedPrincipal s.stakes e) +
          rate.shareValue (stakedPrincipal s.stakes (s.epoch + 1)) := by
      rw [Finset.sum_range_succ, hrateAt, if_pos rfl]
      congr 1
      exact Finset.sum_congr rfl fun e he => by
        rw [hrateAt, if_neg (Nat.ne_of_lt (Finset.mem_range.mp he))]
    have hclaims := hI.claimsLe
    unfold claims at hclaims ⊢
    dsimp only
    rw [hsum, hrateAt, if_pos rfl, hpreValue, if_neg (by omega), hshares, hbalance, hpaid]
    omega
  case refine_10 =>
    rw [PoolExchangeRate.convertToShareAmount_eq_ok hp.numShares]
    exact rate.shareValue_le _

/-- An advance of a backed pool into the next epoch does not abort with
`ECalculationError`. -/
theorem Backed.advance_ne_calculationError (hI : s.Backed) (rewards : Nat)
    {wctx : WalrusContext} (hepoch : wctx.epoch = s.epoch + 1) :
    s.pool.advanceEpoch rewards wctx ≠ .error .calculationError := by
  refine StakePool.advanceEpoch_ne_calculationError fun commissionPart rewardsAmount _ => ?_
  refine StakePool.processPendingStake_ne_calculationError fun rate preShares hrate hpre => ?_
  rw [hepoch] at hpre ⊢
  obtain ⟨-, hwithdrawn⟩ := hI.withdrawn_le hpre rfl rfl
  have hpaid := (PoolExchangeRate.new_eq_ok hrate).2.1 _ hwithdrawn
  dsimp only at hpaid ⊢
  omega

/-- Every call but an epoch change that leaves the pool out keeps it backed. -/
theorem Backed.step (hI : s.Backed) {x : StakeCall} (hx : x.keepsCurrent)
    (h : s.step x = .ok s') : s'.Backed := by
  cases x with
  | stake toStake committeeSelected => exact hI.stake h
  | requestWithdrawStake i inCurrentCommittee inNextCommittee => exact hI.requestWithdraw h
  | withdrawStake i inCurrentCommittee inNextCommittee => exact hI.withdraw h
  | join i j => exact hI.join h
  | split i amount => exact hI.split h
  | setWithdrawing => exact hI.setWithdrawing h
  | epochChange advanced rewards =>
    cases advanced with
    | false => cases hx
    | true => exact hI.advance h

/-- Runs that advance the pool at every epoch change keep it backed. -/
theorem backed_run (hs : s.Backed) (calls : List StakeCall)
    (hkeep : ∀ x ∈ calls, x.keepsCurrent) : (s.run calls).Backed :=
  run_invariant_of_forall
    (fun s x hx hs => by
      -- only a committed transaction changes the state
      rcases h : (s.step x).toOption with _ | s'
      · rwa [commit_of_eq_none h]
      · rw [commit_of_eq_some h]
        exact hs.step hx (toOption_eq_some.mp h))
    calls s hkeep hs

/-! ## On every run: the shares stay within the balance

Whatever the calls and whether the pool is advanced at an epoch change, only an advance
changes the balance and the shares, and it recounts the shares from the balance, rounding
down. -/

/-- Every call keeps the shares within the balance. -/
theorem step_sharesLe (hs : s.pool.numShares ≤ s.pool.walBalance) {x : StakeCall}
    (h : s.step x = .ok s') : s'.pool.numShares ≤ s'.pool.walBalance := by
  cases x with
  | stake toStake committeeSelected =>
    obtain ⟨⟨pool, sw⟩, hstake, h⟩ := bind_eq_ok.mp h
    simp only [pure, Except.pure, Except.ok.injEq] at h
    subst h
    obtain ⟨-, pending, -, rfl⟩ := StakePool.stake_eq_ok hstake
    exact hs
  | requestWithdrawStake i inCurrentCommittee inNextCommittee =>
    obtain ⟨sw, -, h⟩ := bind_eq_ok.mp h
    obtain ⟨⟨pool, sw'⟩, hreq, h⟩ := bind_eq_ok.mp h
    simp only [pure, Except.pure, Except.ok.injEq] at h
    subst h
    obtain ⟨-, -, ⟨-, pre, -, rfl, -⟩ | ⟨-, w, rate, shareAmount, psw, -, -, -, rfl, -⟩⟩ :=
      StakePool.requestWithdrawStake_eq_ok hreq
    · exact hs
    · exact hs
  | withdrawStake i inCurrentCommittee inNextCommittee =>
    obtain ⟨sw, -, h⟩ := bind_eq_ok.mp h
    obtain ⟨⟨pool, paid⟩, hwithdraw, h⟩ := bind_eq_ok.mp h
    simp only [pure, Except.pure, Except.ok.injEq] at h
    subst h
    obtain ⟨-, ⟨-, -, pending, -, rfl⟩ |
      ⟨-, -, rate, shareAmount, psw, rewardsPool, -, -, -, rfl⟩ | ⟨-, rewardsPool, rfl⟩⟩ :=
      StakePool.withdrawStake_eq_ok hwithdraw
    · exact hs
    · exact hs
    · exact hs
  | join i j =>
    rw [step, ite_throw_bind_eq_ok] at h
    obtain ⟨-, h⟩ := h
    obtain ⟨sw, -, h⟩ := bind_eq_ok.mp h
    obtain ⟨other, -, h⟩ := bind_eq_ok.mp h
    obtain ⟨joined, -, h⟩ := bind_eq_ok.mp h
    simp only [pure, Except.pure, Except.ok.injEq] at h
    subst h
    exact hs
  | split i amount =>
    obtain ⟨sw, -, h⟩ := bind_eq_ok.mp h
    obtain ⟨⟨a, b⟩, -, h⟩ := bind_eq_ok.mp h
    simp only [pure, Except.pure, Except.ok.injEq] at h
    subst h
    exact hs
  | setWithdrawing =>
    obtain ⟨pool, hset, h⟩ := bind_eq_ok.mp h
    simp only [pure, Except.pure, Except.ok.injEq] at h
    subst h
    obtain ⟨w, rfl⟩ := StakePool.setWithdrawing_eq_ok hset
    exact hs
  | epochChange advanced rewards =>
    cases advanced with
    | false =>
      obtain ⟨epoch, -, h⟩ := bind_eq_ok.mp h
      simp only [pure, Except.pure, Except.ok.injEq] at h
      subst h
      exact hs
    | true =>
      -- the recount converts the new balance into shares, rounding down
      obtain ⟨epoch, -, h⟩ := bind_eq_ok.mp h
      obtain ⟨pool', hadv, h⟩ := bind_eq_ok.mp h
      simp only [pure, Except.pure, Except.ok.injEq] at h
      subst h
      obtain ⟨-, commissionPart, rewardsAmount, -, -, hprocess⟩ :=
        StakePool.advanceEpoch_eq_ok hadv
      obtain ⟨rate, preShares, pendingWithdrawal, hp⟩ :=
        StakePool.processPendingStake_eq_ok hprocess
      show pool'.numShares ≤ pool'.walBalance
      rw [PoolExchangeRate.convertToShareAmount_eq_ok hp.numShares]
      exact rate.shareValue_le _

/-- Along every run the shares stay within the balance. -/
theorem run_sharesLe (hs : s.pool.numShares ≤ s.pool.walBalance) (calls : List StakeCall) :
    (s.run calls).pool.numShares ≤ (s.run calls).pool.walBalance :=
  run_invariant
    (fun s x hs => commit_invariant (fun _ _ _ hs h => step_sharesLe hs (toOption_eq_some.mp h))
      s x hs)
    calls s hs

end StakeRun

/-- Along every run from a new pool, whatever the calls and whether the pool is advanced at
each epoch change, the pool never holds more shares than WAL, so the rate
`process_pending_stake` and `wal_balance_at_epoch` make of its balance never aborts with
`EInvalidRate`. -/
theorem exchange_rate_always_valid {id commissionRate : Nat} {wctx : WalrusContext}
    {pool : StakePool} (hnew : StakePool.new id commissionRate wctx = .ok pool) (epoch : Nat)
    (stakes : List StakedWal) (calls : List StakeCall) :
    let s := StakeRun.run ⟨epoch, pool, stakes⟩ calls
    s.pool.numShares ≤ s.pool.walBalance ∧
      ∃ rate, PoolExchangeRate.new s.pool.walBalance s.pool.numShares = .ok rate := by
  intro s
  -- a new pool holds neither WAL nor shares
  have hzero : pool.numShares ≤ pool.walBalance := by
    unfold StakePool.new at hnew
    obtain ⟨commissionPart, -, hnew⟩ := bind_eq_ok.mp hnew
    split at hnew
    · obtain ⟨activationEpoch, -, hnew⟩ := bind_eq_ok.mp hnew
      cases hnew
      exact le_rfl
    · cases hnew
      exact le_rfl
  have hle : s.pool.numShares ≤ s.pool.walBalance := StakeRun.run_sharesLe hzero calls
  exact ⟨hle, PoolExchangeRate.new_of_le hle⟩

theorem exchange_rate_always_valid_after_skip :
    ∃ pool, StakePool.new 0 0 ⟨0, true⟩ = .ok pool ∧
      let s := StakeRun.run ⟨0, pool, []⟩
        [.stake 1000000000 false, .epochChange false 0, .epochChange true 7]
      s.pool.numShares ≤ s.pool.walBalance ∧
        ∃ rate, PoolExchangeRate.new s.pool.walBalance s.pool.numShares = .ok rate :=
  ⟨_, rfl, @exchange_rate_always_valid 0 0 ⟨0, true⟩ _ rfl 0 [] _⟩

/-- Along every run from a pool created outside the committee selection, in which every
epoch change advances the pool, the shares the pool owes stay within its shares and its shares
within its balance, and the next advance does not abort with `ECalculationError`: the
withdrawals it pays out are covered. -/
theorem advance_never_overdrawn {id commissionRate epoch : Nat} {pool : StakePool}
    (hnew : StakePool.new id commissionRate ⟨epoch, false⟩ = .ok pool)
    (calls : List StakeCall) (hkeep : ∀ x ∈ calls, x.keepsCurrent) (rewards : Nat)
    (committeeSelected : Bool) :
    let s := StakeRun.run ⟨epoch, pool, []⟩ calls
    claims s ≤ s.pool.numShares ∧ s.pool.numShares ≤ s.pool.walBalance ∧
      s.pool.advanceEpoch rewards ⟨s.epoch + 1, committeeSelected⟩ ≠ .error .calculationError := by
  intro s
  have hI : s.Backed := StakeRun.backed_run (StakeRun.backed_new hnew) calls hkeep
  exact ⟨hI.claimsLe, hI.sharesLe, hI.advance_ne_calculationError rewards rfl⟩

theorem advance_never_overdrawn_after_stake :
    ∃ pool, StakePool.new 0 0 ⟨0, false⟩ = .ok pool ∧
      (∀ x ∈ [StakeCall.stake 1000000000 false, .epochChange true 0], x.keepsCurrent) ∧
      let s := StakeRun.run ⟨0, pool, []⟩ [StakeCall.stake 1000000000 false, .epochChange true 0]
      claims s ≤ s.pool.numShares ∧ s.pool.numShares ≤ s.pool.walBalance ∧
        s.pool.advanceEpoch 5 ⟨s.epoch + 1, false⟩ ≠ .error .calculationError :=
  ⟨_, rfl, by decide, @advance_never_overdrawn 0 0 0 _ rfl _ (by decide) 5 false⟩

/-- Without an advance at every epoch change the withdrawals can come to more than the
balance. Stake activates at epochs 1 and 3 while the pool is advanced at each epoch; then the
pool is left out at epochs 4 and 5, and 3000 WAL staked at epoch 4 activate at epoch 5, where
`exchange_rate_at_epoch` finds the rate recorded at epoch 3. At epoch 6 all three staked WAL
ask to withdraw at epoch 8, and the advance into epoch 8 aborts with `ECalculationError`. -/
theorem skipped_epoch_overdrawn :
    ∃ pool, StakePool.new 7 0 ⟨0, false⟩ = .ok pool ∧
      let s := StakeRun.run ⟨0, pool, []⟩
        [.stake 2000000000 false, .epochChange true 0, .epochChange true 1000000000,
          .stake 1000000001 false, .epochChange true 0, .epochChange false 0,
          .stake 3000000000000 false, .epochChange false 0, .epochChange true 0,
          .requestWithdrawStake 0 true true, .requestWithdrawStake 1 true true,
          .requestWithdrawStake 2 true true, .epochChange true 0]
      s.epoch = 7 ∧ (s.stakes.map (·.state)).all (· == .withdrawing 8) ∧
        s.pool.advanceEpoch 0 ⟨8, false⟩ = .error .calculationError :=
  ⟨_, rfl, rfl, rfl, rfl⟩

end Walrus.Staking
