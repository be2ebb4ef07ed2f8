import Walrus.Core.Types
import Walrus.Machine.VecMap
import Walrus.Machine.Run
import Walrus.Machine.UInt

/-! # Move aborts and checked arithmetic

A call into the contracts either returns or aborts with an error code; an aborted
transaction leaves every object as it was. The models return `Except Abort`, with one
constructor per error constant of the modelled functions, and one each for the aborts of the
Move runtime that they can reach: arithmetic overflow or underflow, a vector index out of
bounds, and the aborts of `VecMap`.

Integers are natural numbers; each Move addition or subtraction that can leave its type
goes through one of the checked operations below.
-/

namespace Walrus.System

open Machine

/-- The aborts of the modelled calls. -/
inductive Abort
  -- `system_state_inner`
  | storageExceeded
  | invalidEpochsAhead
  | invalidIdEpoch
  | incorrectCommittee
  | invalidAccountingEpoch
  | incorrectAttestation
  | repeatedAttestation
  | notCommitteeMember
  | invalidResourceSize
  -- `event_blob`
  | invalidSequenceNumber
  -- `storage_resource`
  | invalidEpoch
  | incompatibleEpochs
  | incompatibleAmount
  | invalidEpochRange
  -- `storage_accounting`
  | tooFarInFuture
  -- `blob`
  | resourceBounds
  | notCertified
  | blobNotDeletable
  | resourceSize
  | alreadyCertified
  | invalidBlobId
  | invalidBlobObject
  -- `EInvalidBlobPersistenceType` of `blob`, not the one of `messages`
  | blobPersistenceTypeMismatch
  -- `encoding`
  | invalidEncodingType
  -- `staking_inner`
  | wrongEpochState
  | invalidSyncEpoch
  | duplicateSyncDone
  | noStake
  | notInCommittee
  | committeeSelected
  | nextCommitteeIsEmpty
  | zeroNodeWeight
  | incorrectNodeOrder
  -- `committee`
  | invalidShardAssignment
  -- `staking_pool`
  | poolAlreadyUpdated
  | incorrectCommissionRate
  | incorrectEpochAdvance
  | calculationError
  | poolAlreadyWithdrawing
  | poolIsNotActive
  | zeroStake
  | notStaked
  | incorrectPoolId
  | notWithdrawing
  | withdrawEpochNotReached
  | activationEpochNotReached
  | withdrawDirectly
  | zeroShares
  -- `pool_exchange_rate`
  | invalidRate
  -- `pending_values`
  | missingEpochValue
  | reduceValueTooLarge
  -- `staked_wal`; `ENotWithdrawing` of `staked_wal`, not the one of `staking_pool`
  | stakedWalNotWithdrawing
  | metadataMismatch
  | invalidAmount
  | alreadyWithdrawing
  | stakeBelowThreshold
  -- `sui::dynamic_field`, behind a `Table`
  | fieldAlreadyExists
  -- `active_set`
  | zeroMaxSize
  | duplicateInsertion
  -- `bls_aggregate`
  | invalidBitmap
  | notEnoughStake
  | sigVerification
  -- `messages`
  | incorrectAppId
  | incorrectEpoch
  | invalidMsgType
  | incorrectIntentVersion
  | invalidBlobPersistenceType
  | notDeletable
  -- `sui::bcs`
  | outOfRange
  -- `epoch_balance`
  | balanceIndexOutOfBounds
  -- `walrus_subsidies_inner`
  | invalidSubsidyRate
  | insufficientFundsInPool
  -- `sui::balance`
  | notEnough
  -- `apportionment_queue`
  | popFromEmptyHeap
  -- `std::uq64_64`
  | denominator
  | quotientTooSmall
  | quotientTooLarge
  -- `std::option`
  | optionNotSet
  -- the Move runtime
  | arithmeticError
  | indexOutOfBounds
  | vecMap (e : VecMapError)
  -- the assertion of `vector::zip_do!` that both vectors have the same length
  | lengthMismatch
  -- a transaction naming an object that does not exist, or one object twice, which Sui
  -- rejects before running it
  | noSuchObject
  -- a call creating an object with an ID already handed out, which `object::new` never does
  | objectIdInUse
deriving DecidableEq, Repr

/-- Move's `u16` addition. -/
def u16Add (a b : Nat) : Except Abort Nat :=
  if a + b ≤ u16Max then .ok (a + b) else .error .arithmeticError

/-- Move's `u32` addition. -/
def u32Add (a b : Nat) : Except Abort Nat :=
  if a + b ≤ u32Max then .ok (a + b) else .error .arithmeticError

/-- Move's `u64` addition. -/
def u64Add (a b : Nat) : Except Abort Nat :=
  if a + b ≤ u64Max then .ok (a + b) else .error .arithmeticError

/-- Move's `u128` addition. -/
def u128Add (a b : Nat) : Except Abort Nat :=
  if a + b ≤ u128Max then .ok (a + b) else .error .arithmeticError

/-- Move's subtraction, which aborts below zero. -/
def checkedSub (a b : Nat) : Except Abort Nat :=
  if b ≤ a then .ok (a - b) else .error .arithmeticError

/-- Move's cast to `u16`, which aborts on a value out of range. -/
def u16Cast (a : Nat) : Except Abort Nat :=
  if a ≤ u16Max then .ok a else .error .arithmeticError

/-- Move's cast to `u64`, which aborts on a value out of range. -/
def u64Cast (a : Nat) : Except Abort Nat :=
  if a ≤ u64Max then .ok a else .error .arithmeticError

/-- Move's multiplication in the unsigned type whose largest value is `max`. -/
def checkedMul (max a b : Nat) : Except Abort Nat :=
  if a * b ≤ max then .ok (a * b) else .error .arithmeticError

/-- Move's division, which aborts on a zero divisor. -/
def checkedDiv (a b : Nat) : Except Abort Nat :=
  if b = 0 then .error .arithmeticError else .ok (a / b)

/-- `divide_and_round_up` of the standard library; a zero divisor aborts. -/
def divideAndRoundUp (x y : Nat) : Except Abort Nat :=
  if y = 0 then .error .arithmeticError
  else .ok (if x % y = 0 then x / y else x / y + 1)

/-- `diff` of the standard library: the distance between two numbers. -/
def diff (x y : Nat) : Nat :=
  if x > y then x - y else y - x

/-- `balance::split` on a balance of value `self`: the value left once `value` is taken out;
aborts when there is not enough. -/
def balanceSplit (self value : Nat) : Except Abort Nat :=
  if value ≤ self then .ok (self - value) else .error .notEnough

/-- A `VecMap` operation inside a call. -/
def liftVecMap {α : Type} (x : Except VecMapError α) : Except Abort α :=
  x.mapError .vecMap

@[simp] theorem u16Add_eq_ok {a b c : Nat} : u16Add a b = .ok c ↔ a + b ≤ u16Max ∧ a + b = c := by
  unfold u16Add
  split <;> simp_all

@[simp] theorem u32Add_eq_ok {a b c : Nat} : u32Add a b = .ok c ↔ a + b ≤ u32Max ∧ a + b = c := by
  unfold u32Add
  split <;> simp_all

@[simp] theorem u64Add_eq_ok {a b c : Nat} : u64Add a b = .ok c ↔ a + b ≤ u64Max ∧ a + b = c := by
  unfold u64Add
  split <;> simp_all

@[simp] theorem u128Add_eq_ok {a b c : Nat} :
    u128Add a b = .ok c ↔ a + b ≤ u128Max ∧ a + b = c := by
  unfold u128Add
  split <;> simp_all

@[simp] theorem checkedSub_eq_ok {a b c : Nat} : checkedSub a b = .ok c ↔ b ≤ a ∧ a - b = c := by
  unfold checkedSub
  split <;> simp_all

@[simp] theorem u16Cast_eq_ok {a c : Nat} : u16Cast a = .ok c ↔ a ≤ u16Max ∧ a = c := by
  unfold u16Cast
  split <;> simp_all

@[simp] theorem u64Cast_eq_ok {a c : Nat} : u64Cast a = .ok c ↔ a ≤ u64Max ∧ a = c := by
  unfold u64Cast
  split <;> simp_all

@[simp] theorem balanceSplit_eq_ok {self value c : Nat} :
    balanceSplit self value = .ok c ↔ value ≤ self ∧ self - value = c := by
  unfold balanceSplit
  split <;> simp_all

@[simp] theorem checkedMul_eq_ok {max a b c : Nat} :
    checkedMul max a b = .ok c ↔ a * b ≤ max ∧ a * b = c := by
  unfold checkedMul
  split <;> simp_all

@[simp] theorem checkedDiv_eq_ok {a b c : Nat} : checkedDiv a b = .ok c ↔ b ≠ 0 ∧ a / b = c := by
  unfold checkedDiv
  split <;> simp_all

/-- The standard library's rounding up is Rust's `div_ceil`. -/
theorem divideAndRoundUp_eq {x y : Nat} (hy : y ≠ 0) : divideAndRoundUp x y = .ok (divCeil x y) := by
  unfold divideAndRoundUp divCeil
  rw [if_neg hy]
  dsimp only
  by_cases hr : x % y = 0
  case pos => rw [if_pos hr, if_neg (by omega)]
  case neg => rw [if_neg hr, if_pos (by omega)]

@[simp] theorem liftVecMap_eq_ok {α : Type} {x : Except VecMapError α} {a : α} :
    liftVecMap x = .ok a ↔ x = .ok a := by
  cases x <;> simp [liftVecMap, Except.mapError]

/-- A sum by a checked addition that does not abort is the sum. -/
theorem foldlM_add_eq_ok {f : Nat → Nat → Except Abort Nat}
    (hf : ∀ a b c, f a b = .ok c → c = a + b) :
    ∀ (l : List Nat) {a t : Nat}, l.foldlM f a = .ok t → t = a + l.sum
  | [], a, t, h => by
    simp only [List.foldlM_nil, pure, Except.pure, Except.ok.injEq] at h
    simp [h]
  | x :: l, a, t, h => by
    rw [List.foldlM_cons] at h
    obtain ⟨b, hb, h'⟩ := bind_eq_ok.mp h
    rw [foldlM_add_eq_ok hf l h', hf a x b hb, List.sum_cons]
    omega

theorem foldlM_u16Add_eq_ok {l : List Nat} {a t : Nat} (h : l.foldlM u16Add a = .ok t) :
    t = a + l.sum :=
  foldlM_add_eq_ok (fun _ _ _ h => (u16Add_eq_ok.mp h).2.symm) l h

theorem foldlM_u64Add_eq_ok {l : List Nat} {a t : Nat} (h : l.foldlM u64Add a = .ok t) :
    t = a + l.sum :=
  foldlM_add_eq_ok (fun _ _ _ h => (u64Add_eq_ok.mp h).2.symm) l h

/-- A sum that fits in `u64` is computed without an abort: every partial sum is at most the
whole. -/
theorem foldlM_u64Add_of_le :
    ∀ (l : List Nat) {a : Nat}, a + l.sum ≤ u64Max → l.foldlM u64Add a = .ok (a + l.sum)
  | [], a, _ => by simp [pure, Except.pure]
  | x :: l, a, h => by
    rw [List.sum_cons] at h
    have hx : u64Add a x = .ok (a + x) := u64Add_eq_ok.mpr ⟨by omega, rfl⟩
    rw [List.foldlM_cons, hx, ok_bind, foldlM_u64Add_of_le l (by omega), List.sum_cons,
      Nat.add_assoc]

/-- A sum that fits in `u16` is computed without an abort. -/
theorem foldlM_u16Add_of_le :
    ∀ (l : List Nat) {a : Nat}, a + l.sum ≤ u16Max → l.foldlM u16Add a = .ok (a + l.sum)
  | [], a, _ => by simp [pure, Except.pure]
  | x :: l, a, h => by
    rw [List.sum_cons] at h
    have hx : u16Add a x = .ok (a + x) := u16Add_eq_ok.mpr ⟨by omega, rfl⟩
    rw [List.foldlM_cons, hx, ok_bind, foldlM_u16Add_of_le l (by omega), List.sum_cons,
      Nat.add_assoc]

/-- Casting every entry to `u16` without an abort changes nothing. -/
theorem mapM_u16Cast_eq_ok :
    ∀ (l : List Nat) {l' : List Nat}, l.mapM u16Cast = .ok l' → l' = l ∧ ∀ x ∈ l, x ≤ u16Max
  | [], l', h => by
    simp only [List.mapM_nil, pure, Except.pure, Except.ok.injEq] at h
    exact ⟨h.symm, by simp⟩
  | x :: l, l', h => by
    rw [List.mapM_cons] at h
    obtain ⟨y, hy, h₁⟩ := bind_eq_ok.mp h
    obtain ⟨ys, hys, h₂⟩ := bind_eq_ok.mp h₁
    obtain ⟨hx, rfl⟩ := u16Cast_eq_ok.mp hy
    obtain ⟨rfl, hl⟩ := mapM_u16Cast_eq_ok l hys
    simp only [pure, Except.pure, Except.ok.injEq] at h₂
    refine ⟨h₂.symm, ?_⟩
    intro z hz
    rcases List.mem_cons.mp hz with rfl | hz
    · exact hx
    · exact hl z hz

end Walrus.System
