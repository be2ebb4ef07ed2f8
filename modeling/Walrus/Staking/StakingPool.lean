import Mathlib
import Walrus.Contracts.Move
import Walrus.Machine.Run

/-! # Commission rates of a staking pool

`walrus::pending_values` and the part of `walrus::staking_pool` that schedules and applies
commission rates. `set_next_commission` stores a rate under the epoch two ahead
(`insert_or_replace`); the pool's `advance_epoch` splits the commission off the rewards at the
current rate, then looks up the rate pending for exactly the new epoch: if there is one it
becomes the rate and every pending rate up to the epoch is flushed, and if there is none
nothing changes (`advanceEpoch_eq_ok`).

The system advances a pool only at the epoch changes at which the pool is in the old or the
new committee (`StakingInnerV1::advance_epoch`), so a pool can skip the epoch a rate is pending
for. Its next advance then never applies that rate: the entry stays, below the pool's epoch, and
the old rate remains (a run of the system that does so is in `Staking.PoolEpochs`).

Only the commission fields of the pool are modelled; the stake, the shares, the exchange rates
and `process_pending_stake`, which `advance_epoch` also updates, neither read nor write them.
-/

namespace Walrus.Staking

open Machine Walrus.System

/-! ## Pending values -/

/-- `PendingValues`: values by the epoch at which they are pending. -/
structure PendingValues where
  inner : VecMap Nat Nat

namespace PendingValues

/-- `empty`. -/
def empty : PendingValues := ⟨VecMap.empty⟩

/-- `insert_or_replace`: the value for `epoch` becomes `value`. -/
def insertOrReplace (self : PendingValues) (epoch value : Nat) : Except Abort PendingValues :=
  if !self.inner.contains epoch then do
    let map ← liftVecMap (self.inner.insert epoch value)
    pure ⟨map⟩
  else do
    let map ← liftVecMap (self.inner.set epoch value)
    pure ⟨map⟩

/-- One round of `flush` over the keys as they were: an epoch up to `toEpoch` is removed and
its value added to the total, in a `u64`. -/
def flushStep (toEpoch : Nat) (acc : VecMap Nat Nat × Nat) (epoch : Nat) :
    Except Abort (VecMap Nat Nat × Nat) :=
  if epoch ≤ toEpoch then do
    let (entry, map) ← liftVecMap (acc.1.remove epoch)
    let value ← u64Add acc.2 entry.2
    pure (map, value)
  else pure acc

/-- `flush`: the values pending up to `toEpoch` are removed, and their total returned. -/
def flush (self : PendingValues) (toEpoch : Nat) : Except Abort (PendingValues × Nat) := do
  let (map, value) ← self.inner.keys.foldlM (flushStep toEpoch) (self.inner, 0)
  pure (⟨map⟩, value)

/-- `insert_or_replace` does not abort: `epoch` holds the new value and every other epoch
what it held. -/
theorem insertOrReplace_spec (self : PendingValues) (epoch value : Nat) :
    ∃ self', self.insertOrReplace epoch value = .ok self' ∧
      ∀ k, self'.inner.get? k = if k = epoch then some value else self.inner.get? k := by
  unfold insertOrReplace
  rcases hc : self.inner.contains epoch
  · obtain ⟨m, hm⟩ := VecMap.insert_isOk value hc
    refine ⟨⟨m⟩, ?_, VecMap.get?_insert hm⟩
    simp only [Bool.not_false, if_true, liftVecMap, hm, Except.mapError]
    rfl
  · obtain ⟨m, hm⟩ := VecMap.set_isOk value hc
    refine ⟨⟨m⟩, ?_, VecMap.get?_set hm⟩
    simp only [Bool.not_true, Bool.false_eq_true, if_false, liftVecMap, hm, Except.mapError]
    rfl

/-- The total of the values pending up to `toEpoch`. -/
def dueTotal (entries : List (Nat × Nat)) (toEpoch : Nat) : Nat :=
  ((entries.filter fun e => e.1 ≤ toEpoch).map Prod.snd).sum

theorem dueTotal_append (l l' : List (Nat × Nat)) (toEpoch : Nat) :
    dueTotal (l ++ l') toEpoch = dueTotal l toEpoch + dueTotal l' toEpoch := by
  simp [dueTotal, List.filter_append]

/-- One round of `flush`, over the entry `(x, v)` of the map it started from: the entries
visited that are due are removed and added up, and the others are kept in order. -/
theorem flushStep_eq_ok {toEpoch x v : Nat} {done rest : List (Nat × Nat)}
    {acc acc' : VecMap Nat Nat × Nat}
    (hcontents : acc.1.contents = (done.filter fun e => ¬ e.1 ≤ toEpoch) ++ (x, v) :: rest)
    (hvalue : acc.2 = dueTotal done toEpoch) (h : flushStep toEpoch acc x = .ok acc') :
    acc'.1.contents = ((done ++ [(x, v)]).filter fun e => ¬ e.1 ≤ toEpoch) ++ rest ∧
      acc'.2 = dueTotal (done ++ [(x, v)]) toEpoch := by
  by_cases hx : x ≤ toEpoch
  · -- a due entry: it is removed, and its value counted
    obtain ⟨m', hrem, hm'⟩ := VecMap.remove_of_contents hcontents
    simp only [flushStep, if_pos hx, liftVecMap, hrem, Except.mapError] at h
    rw [ok_bind] at h
    obtain ⟨value, hadd, h⟩ := bind_eq_ok.mp h
    obtain ⟨-, rfl⟩ := u64Add_eq_ok.mp hadd
    simp only [pure, Except.pure, Except.ok.injEq] at h
    subst h
    constructor
    · rw [hm', List.filter_append]
      simp [hx]
    · rw [dueTotal_append, hvalue]
      simp [dueTotal, hx]
  · -- an entry still to come: nothing changes
    have hx' : toEpoch < x := Nat.lt_of_not_le hx
    simp only [flushStep, if_neg hx, pure, Except.pure, Except.ok.injEq] at h
    subst h
    constructor
    · rw [hcontents, List.filter_append]
      simp [hx']
    · rw [hvalue, dueTotal_append]
      simp [dueTotal, hx]

/-- A `flush` that does not abort removes the entries up to `toEpoch`, keeps the others in
order, and returns their total. -/
theorem flush_eq_ok {self self' : PendingValues} {toEpoch total : Nat}
    (h : self.flush toEpoch = .ok (self', total)) :
    self'.inner.contents = (self.inner.contents.filter fun e => ¬ e.1 ≤ toEpoch) ∧
      total = dueTotal self.inner.contents toEpoch := by
  rw [flush, VecMap.keys, List.foldlM_map] at h
  obtain ⟨acc, hloop, h⟩ := bind_eq_ok.mp h
  simp only [pure, Except.pure, Except.ok.injEq, Prod.mk.injEq] at h
  obtain ⟨rfl, rfl⟩ := h
  -- the loop runs over the keys of the entries as they were before it
  have hinv := @foldlM_ok_invariant _ _ _ (fun acc e => flushStep toEpoch acc e.1)
    (fun done rest acc => acc.1.contents = (done.filter fun e => ¬ e.1 ≤ toEpoch) ++ rest ∧
      acc.2 = dueTotal done toEpoch) self.inner.contents
    (fun _ _ _ _ _ _ hinv hstep => flushStep_eq_ok hinv.1 hinv.2 hstep) _ _ ⟨rfl, rfl⟩ hloop
  exact ⟨by rw [hinv.1, List.append_nil], hinv.2⟩

/-- After a flush the epochs up to `toEpoch` hold nothing, and the others what they held. -/
theorem get?_flush {self self' : PendingValues} {toEpoch : Nat}
    (h : self'.inner.contents = self.inner.contents.filter fun e => ¬ e.1 ≤ toEpoch) (k : Nat) :
    self'.inner.get? k = if k ≤ toEpoch then none else self.inner.get? k := by
  rw [VecMap.get?_of_contents_filter (p := fun k => ¬ k ≤ toEpoch) h k]
  by_cases hk : k ≤ toEpoch <;> simp [hk]

/-- `insert_or_add`: `value` is added to what `epoch` holds, or stored under it. -/
def insertOrAdd (self : PendingValues) (epoch value : Nat) : Except Abort PendingValues :=
  if !self.inner.contains epoch then do
    let map ← liftVecMap (self.inner.insert epoch value)
    pure ⟨map⟩
  else do
    let curr ← liftVecMap (self.inner.get epoch)
    let sum ← u64Add curr value
    let map ← liftVecMap (self.inner.set epoch sum)
    pure ⟨map⟩

/-- `reduce`: `value` is taken off what `epoch` holds. -/
def reduce (self : PendingValues) (epoch value : Nat) : Except Abort PendingValues :=
  if !self.inner.contains epoch then throw .missingEpochValue
  else do
    let curr ← liftVecMap (self.inner.get epoch)
    unless curr ≥ value do throw .reduceValueTooLarge
    let map ← liftVecMap (self.inner.set epoch (curr - value))
    pure ⟨map⟩

/-- One round of the fold of `value_at`: the value of an epoch up to `epoch` is added, in a
`u64`. -/
def valueAtStep (self : PendingValues) (epoch value e : Nat) : Except Abort Nat :=
  if e ≤ epoch then do
    let v ← liftVecMap (self.inner.get e)
    u64Add value v
  else pure value

/-- `value_at`: the total of the values pending up to `epoch`. -/
def valueAt (self : PendingValues) (epoch : Nat) : Except Abort Nat :=
  self.inner.keys.foldlM (self.valueAtStep epoch) 0

/-- The value pending for exactly `epoch`, `0` when none is. -/
def valueFor (self : PendingValues) (epoch : Nat) : Nat :=
  (self.inner.get? epoch).getD 0

/-- The total of the values pending. -/
def total (self : PendingValues) : Nat :=
  (self.inner.contents.map Prod.snd).sum

/-- An `insert_or_add` that does not abort adds `value` to what `epoch` holds, and to the
total. -/
theorem insertOrAdd_eq_ok {self self' : PendingValues} {epoch value : Nat}
    (h : self.insertOrAdd epoch value = .ok self') :
    (∀ k, self'.inner.get? k =
      if k = epoch then some (self.valueFor epoch + value) else self.inner.get? k) ∧
      self'.total = self.total + value := by
  unfold insertOrAdd at h
  rcases hc : self.inner.contains epoch
  · -- a new entry, appended
    simp only [hc, Bool.not_false, if_true] at h
    obtain ⟨m, hm, h⟩ := bind_eq_ok.mp h
    simp only [pure, Except.pure, Except.ok.injEq] at h
    subst h
    have hm' := liftVecMap_eq_ok.mp hm
    have hnone : self.inner.get? epoch = none := VecMap.get?_eq_none_iff.mpr hc
    refine ⟨fun k => ?_, ?_⟩
    · rw [VecMap.get?_insert hm' k, valueFor, hnone, Option.getD_none, Nat.zero_add]
    · simp [total, (VecMap.insert_eq_ok hm').2]
  · -- the entry of `epoch`, rewritten
    simp only [hc, Bool.not_true, Bool.false_eq_true, if_false] at h
    obtain ⟨curr, hcurr, h⟩ := bind_eq_ok.mp h
    obtain ⟨sum, hsum, h⟩ := bind_eq_ok.mp h
    obtain ⟨m, hm, h⟩ := bind_eq_ok.mp h
    simp only [pure, Except.pure, Except.ok.injEq] at h
    subst h
    have hget := VecMap.get?_of_get (liftVecMap_eq_ok.mp hcurr)
    obtain ⟨-, rfl⟩ := u64Add_eq_ok.mp hsum
    have hm' := liftVecMap_eq_ok.mp hm
    refine ⟨fun k => ?_, ?_⟩
    · rw [VecMap.get?_set hm' k, valueFor, hget, Option.getD_some]
    · have hsum' := VecMap.sum_snd_set hm' hget
      simp only [total]
      omega

/-- A `reduce` that does not abort takes `value` off what `epoch` holds, which is at least
`value`. -/
theorem reduce_eq_ok {self self' : PendingValues} {epoch value : Nat}
    (h : self.reduce epoch value = .ok self') :
    ∃ curr, self.inner.get? epoch = some curr ∧ value ≤ curr ∧
      ∀ k, self'.inner.get? k = if k = epoch then some (curr - value) else self.inner.get? k := by
  unfold reduce at h
  rcases hc : self.inner.contains epoch
  · simp [hc, throw, throwThe, MonadExceptOf.throw] at h
  · simp only [hc, Bool.not_true, Bool.false_eq_true, if_false] at h
    obtain ⟨curr, hcurr, h⟩ := bind_eq_ok.mp h
    rw [ite_throw_bind_eq_ok] at h
    obtain ⟨hle, h⟩ := h
    obtain ⟨m, hm, h⟩ := bind_eq_ok.mp h
    simp only [pure, Except.pure, Except.ok.injEq] at h
    subst h
    exact ⟨curr, VecMap.get?_of_get (liftVecMap_eq_ok.mp hcurr), hle,
      VecMap.get?_set (liftVecMap_eq_ok.mp hm)⟩

/-- The values, as those pending after `toEpoch` and those due by then. -/
theorem sum_snd_eq_filter_add_dueTotal (l : List (Nat × Nat)) (toEpoch : Nat) :
    (l.map Prod.snd).sum = ((l.filter fun e => ¬ e.1 ≤ toEpoch).map Prod.snd).sum +
      dueTotal l toEpoch := by
  induction l with
  | nil => simp [dueTotal]
  | cons e l ih =>
    by_cases he : e.1 ≤ toEpoch
    · simp only [dueTotal, List.filter_cons, he] at ih ⊢
      simp only [not_true_eq_false, decide_false, Bool.false_eq_true, if_false, decide_true,
        if_true, List.map_cons, List.sum_cons]
      omega
    · simp only [dueTotal, List.filter_cons, he] at ih ⊢
      simp only [not_false_eq_true, decide_true, if_true, decide_false, Bool.false_eq_true,
        if_false, List.map_cons, List.sum_cons]
      omega

/-- With no key below `epoch`, what is due by `epoch` is what is pending for it. -/
theorem dueTotal_eq_valueFor {self : PendingValues} {epoch : Nat}
    (h : ∀ e ∈ self.inner.contents, epoch ≤ e.1) :
    dueTotal self.inner.contents epoch = self.valueFor epoch := by
  -- the entries due are those of key `epoch`, of which there is one at most
  have hdue : dueTotal self.inner.contents epoch =
      ((self.inner.contents.filter fun e => e.1 = epoch).map Prod.snd).sum := by
    unfold dueTotal
    congr 2
    refine List.filter_congr fun e he => ?_
    have := h e he
    simp only [decide_eq_decide]
    omega
  rw [hdue, valueFor]
  cases hget : self.inner.get? epoch with
  | none =>
    rw [List.filter_eq_nil_iff.mpr]
    · rfl
    · intro e he hek
      have hk : e.1 = epoch := by simpa using hek
      have := VecMap.get?_of_mem (show (e.1, e.2) ∈ self.inner.contents from he)
      rw [hk, hget] at this
      cases this
  | some v =>
    obtain ⟨A, B, hAB, hA, hB⟩ := VecMap.exists_split_of_mem (VecMap.mem_of_get? hget)
    rw [hAB, List.filter_append, List.filter_cons, List.filter_eq_nil_iff.mpr (by simpa using hA),
      List.filter_eq_nil_iff.mpr (by simpa using hB)]
    simp

/-- A flush takes what it returns off the total. -/
theorem total_flush {self self' : PendingValues} {toEpoch t : Nat}
    (h : self.flush toEpoch = .ok (self', t)) : self'.total + t = self.total := by
  obtain ⟨hcontents, rfl⟩ := flush_eq_ok h
  rw [total, total, hcontents, sum_snd_eq_filter_add_dueTotal self.inner.contents toEpoch]

/-- `value_at` adds up what is due by `epoch`, without an abort when that fits in a `u64`. -/
theorem valueAt_of_le {self : PendingValues} {epoch : Nat}
    (h : dueTotal self.inner.contents epoch ≤ u64Max) :
    self.valueAt epoch = .ok (dueTotal self.inner.contents epoch) := by
  -- the fold over the entries from `l` on, each of them the entry its key looks up
  have hloop : ∀ (l : List (Nat × Nat)) (acc : Nat),
      (∀ e ∈ l, self.inner.get? e.1 = some e.2) → acc + dueTotal l epoch ≤ u64Max →
      l.foldlM (fun acc e => self.valueAtStep epoch acc e.1) acc =
        .ok (acc + dueTotal l epoch) := by
    intro l
    induction l with
    | nil =>
      intro acc _ _
      simp [dueTotal, pure, Except.pure]
    | cons e l ih =>
      intro acc hl hfit
      have hl' : ∀ e' ∈ l, self.inner.get? e'.1 = some e'.2 :=
        fun e' he' => hl e' (List.mem_cons_of_mem e he')
      rw [List.foldlM_cons]
      by_cases he : e.1 ≤ epoch
      · have hget := VecMap.get_of_get? (hl e List.mem_cons_self)
        have hdue : dueTotal (e :: l) epoch = e.2 + dueTotal l epoch := by
          simp [dueTotal, he]
        rw [hdue] at hfit ⊢
        have hstep : self.valueAtStep epoch acc e.1 = .ok (acc + e.2) := by
          simp only [valueAtStep, if_pos he, liftVecMap, hget, Except.mapError]
          exact u64Add_eq_ok.mpr ⟨by omega, rfl⟩
        rw [hstep, ok_bind, ih (acc + e.2) hl' (by omega), Nat.add_assoc]
      · have hdue : dueTotal (e :: l) epoch = dueTotal l epoch := by
          simp [dueTotal, he]
        rw [hdue] at hfit ⊢
        have hstep : self.valueAtStep epoch acc e.1 = .ok acc := by
          simp only [valueAtStep, if_neg he, pure, Except.pure]
        rw [hstep, ok_bind, ih acc hl' hfit]
  unfold valueAt
  rw [VecMap.keys, List.foldlM_map]
  simpa using hloop self.inner.contents 0 (fun e he => VecMap.get?_of_mem he) (by simpa using h)

end PendingValues

/-! ## The commission of a pool -/

/-- `N_BASIS_POINTS`: rates are in basis points. -/
def nBasisPoints : Nat := 10000

/-- The fields of a `StakingPool` that its commission reads and writes. -/
structure StakingPool where
  /-- `latest_epoch`: the epoch at which the pool was created or last advanced. -/
  latestEpoch : Nat
  pendingCommissionRate : PendingValues
  commissionRate : Nat
  /-- The value of the `commission` balance. -/
  commission : Nat

namespace StakingPool

/-- `new` at epoch `epoch`, of its checks the one on the rate. -/
def new (commissionRate epoch : Nat) : Except Abort StakingPool := do
  unless commissionRate ≤ nBasisPoints do throw .incorrectCommissionRate
  pure ⟨epoch, PendingValues.empty, commissionRate, 0⟩

/-- `set_next_commission` at epoch `epoch`: the rate is pending for two epochs later. -/
def setNextCommission (pool : StakingPool) (commissionRate epoch : Nat) :
    Except Abort StakingPool := do
  unless commissionRate ≤ nBasisPoints do throw .incorrectCommissionRate
  let target ← u32Add epoch 2
  let pending ← pool.pendingCommissionRate.insertOrReplace target commissionRate
  pure { pool with pendingCommissionRate := pending }

/-- `try_get(&current_epoch).do!(...)` in `advance_epoch`: only the rate pending for this very
epoch is looked up; when there is one it becomes the rate, and the rates pending up to the
epoch are flushed. -/
def applyPendingRate (pool : StakingPool) (currentEpoch : Nat) : Except Abort StakingPool :=
  match pool.pendingCommissionRate.inner.get? currentEpoch with
  | some rate => do
    let rate ← u16Cast rate
    let (pending, _) ← pool.pendingCommissionRate.flush currentEpoch
    pure { pool with commissionRate := rate, pendingCommissionRate := pending }
  | none => pure pool

/-- The commission part of `advance_epoch` at `currentEpoch`, with rewards of value
`rewards`: the commission is split off at the current rate, then the rate pending for exactly
`currentEpoch`, if any, takes effect. Returns the pool and what is left of the rewards. -/
def advanceEpoch (pool : StakingPool) (rewards currentEpoch : Nat) :
    Except Abort (StakingPool × Nat) := do
  unless currentEpoch > pool.latestEpoch do throw .poolAlreadyUpdated
  -- split the commission from the rewards
  let total ← checkedMul u64Max rewards pool.commissionRate
  let amount := total / nBasisPoints
  unless amount ≤ rewards do throw .notEnough
  let commission ← u64Add pool.commission amount
  let pool ← applyPendingRate { pool with commission := commission } currentEpoch
  pure ({ pool with latestEpoch := currentEpoch }, rewards - amount)

/-- A rate set without an abort is valid and pending two epochs later; nothing else
changes. -/
theorem setNextCommission_eq_ok {pool pool' : StakingPool} {rate epoch : Nat}
    (h : pool.setNextCommission rate epoch = .ok pool') :
    rate ≤ nBasisPoints ∧ pool'.latestEpoch = pool.latestEpoch ∧
      pool'.commissionRate = pool.commissionRate ∧
      ∀ k, pool'.pendingCommissionRate.inner.get? k =
        if k = epoch + 2 then some rate else pool.pendingCommissionRate.inner.get? k := by
  unfold setNextCommission at h
  rw [ite_throw_bind_eq_ok] at h
  obtain ⟨hrate, h⟩ := h
  obtain ⟨target, htarget, h⟩ := bind_eq_ok.mp h
  obtain ⟨-, rfl⟩ := u32Add_eq_ok.mp htarget
  obtain ⟨pending, hins, h⟩ := bind_eq_ok.mp h
  simp only [pure, Except.pure, Except.ok.injEq] at h
  subst h
  obtain ⟨pending', hins', hget⟩ := pool.pendingCommissionRate.insertOrReplace_spec (epoch + 2) rate
  rw [hins', Except.ok.injEq] at hins
  subst hins
  exact ⟨hrate, rfl, rfl, hget⟩

/-- The rate pending for exactly `E`, if any, becomes the rate and every rate pending up to
`E` is dropped; without one, rate and pending rates stay. -/
theorem applyPendingRate_eq_ok {pool pool' : StakingPool} {E : Nat}
    (h : pool.applyPendingRate E = .ok pool') :
    pool'.latestEpoch = pool.latestEpoch ∧
      pool'.commissionRate = (pool.pendingCommissionRate.inner.get? E).getD pool.commissionRate ∧
      ∀ k, pool'.pendingCommissionRate.inner.get? k =
        if k ≤ E ∧ (pool.pendingCommissionRate.inner.get? E).isSome then none
        else pool.pendingCommissionRate.inner.get? k := by
  unfold applyPendingRate at h
  cases hE : pool.pendingCommissionRate.inner.get? E with
  | none =>
    -- no rate is pending for `E`, whatever is pending for earlier epochs
    simp only [hE, pure, Except.pure, Except.ok.injEq] at h
    subst h
    simp
  | some rate =>
    simp only [hE] at h
    obtain ⟨rate', hcast, h⟩ := bind_eq_ok.mp h
    obtain ⟨-, rfl⟩ := u16Cast_eq_ok.mp hcast
    obtain ⟨flushed, hflush, h⟩ := bind_eq_ok.mp h
    simp only [pure, Except.pure, Except.ok.injEq] at h
    subst h
    refine ⟨rfl, rfl, fun k => ?_⟩
    rw [PendingValues.get?_flush (PendingValues.flush_eq_ok hflush).1 k]
    simp

/-- An advance without an abort is to a later epoch, and applies the rate pending for exactly
that epoch. -/
theorem advanceEpoch_eq_ok {pool pool' : StakingPool} {rewards E rest : Nat}
    (h : pool.advanceEpoch rewards E = .ok (pool', rest)) :
    pool.latestEpoch < E ∧ pool'.latestEpoch = E ∧
      pool'.commissionRate = (pool.pendingCommissionRate.inner.get? E).getD pool.commissionRate ∧
      ∀ k, pool'.pendingCommissionRate.inner.get? k =
        if k ≤ E ∧ (pool.pendingCommissionRate.inner.get? E).isSome then none
        else pool.pendingCommissionRate.inner.get? k := by
  unfold advanceEpoch at h
  rw [ite_throw_bind_eq_ok] at h
  obtain ⟨hlt, h⟩ := h
  obtain ⟨total, -, h⟩ := bind_eq_ok.mp h
  rw [ite_throw_bind_eq_ok] at h
  obtain ⟨-, h⟩ := h
  obtain ⟨commission, -, h⟩ := bind_eq_ok.mp h
  obtain ⟨pool₁, hpool₁, h⟩ := bind_eq_ok.mp h
  simp only [pure, Except.pure, Except.ok.injEq, Prod.mk.injEq] at h
  obtain ⟨rfl, -⟩ := h
  obtain ⟨-, hrate, hpending⟩ := applyPendingRate_eq_ok hpool₁
  exact ⟨hlt, rfl, hrate, hpending⟩

/-- What an advance leaves of the rewards is at most the rewards. -/
theorem advanceEpoch_rest_le {pool pool' : StakingPool} {rewards E rest : Nat}
    (h : pool.advanceEpoch rewards E = .ok (pool', rest)) : rest ≤ rewards := by
  unfold advanceEpoch at h
  rw [ite_throw_bind_eq_ok] at h
  obtain ⟨-, h⟩ := h
  obtain ⟨total, -, h⟩ := bind_eq_ok.mp h
  rw [ite_throw_bind_eq_ok] at h
  obtain ⟨-, h⟩ := h
  obtain ⟨commission, -, h⟩ := bind_eq_ok.mp h
  obtain ⟨pool₁, -, h⟩ := bind_eq_ok.mp h
  simp only [pure, Except.pure, Except.ok.injEq, Prod.mk.injEq] at h
  rw [← h.2]
  exact Nat.sub_le _ _

end StakingPool

end Walrus.Staking
