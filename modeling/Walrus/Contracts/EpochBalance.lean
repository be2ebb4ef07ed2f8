import Walrus.Contracts.Move
import Walrus.Machine.Ring
import Walrus.Machine.Count

/-! # The epoch balances of the subsidies

`walrus_subsidies::epoch_balance`: a ring buffer of pairs of an epoch and a balance, which
the usage subsidies keep beside the system's future accounting to remember how much of each
epoch's rewards they have already subsidized. Like the future accounting it is a vector with a
moving current index: `ring_pop_expand` writes an entry for the epoch `length` epochs after the
current one in the current slot, through `push_back` and `swap_remove`, and moves the index on.

Read from the current index, the vector is the `window`: the entry of the current epoch first.
`ring_pop_expand` drops the window's first entry and appends a zero balance
(`ringPopExpand_isOk`), and writing a balance changes one position of the window
(`setBalance_isOk`). Each of the two has an inversion lemma that the callers use. The loop of the subsidies
that pops until the epochs are aligned ends because each pop moves one entry `length` epochs
on (`ringPopExpand_lowers`).

The lookups compute `(index + current_index) % length` in `u32`; both summands are below the
length, which the ring of the subsidies takes from the future accounting, at most
`MAX_MAX_EPOCHS_AHEAD`, so the sum is taken as a natural number, as in `StorageAccounting`.
-/

namespace Walrus.Subsidies

open Machine Walrus.System

/-- `EpochBalance`, the balance by its value. -/
structure EpochBalance where
  epoch : Nat
  balance : Nat
deriving DecidableEq, Repr

/-- `EpochBalanceRingBuffer`. -/
structure EpochBalanceRingBuffer where
  currentIndex : Nat
  ringBuffer : List EpochBalance
deriving DecidableEq, Repr

namespace EpochBalanceRingBuffer

/-- One call of the closure of `map!` in `ring_new_from_balances`: the entry of the next
epoch, and the epoch after it in `u32`. -/
def newStep (acc : Nat × List EpochBalance) (balance : Nat) :
    Except Abort (Nat × List EpochBalance) := do
  let epochBalance : EpochBalance := ⟨acc.1, balance⟩
  let epoch ← u32Add acc.1 1
  pure (epoch, acc.2 ++ [epochBalance])

/-- `ring_new_from_balances`: the balances of the epochs from `startingEpoch` on. -/
def ringNewFromBalances (startingEpoch : Nat) (balances : List Nat) :
    Except Abort EpochBalanceRingBuffer := do
  let (_, ringBuffer) ← balances.foldlM newStep (startingEpoch, [])
  pure ⟨0, ringBuffer⟩

/-- `length`. -/
def length (self : EpochBalanceRingBuffer) : Nat :=
  self.ringBuffer.length

/-- The vector index of the position `index` of `ring_lookup` and `ring_lookup_mut`. -/
def vectorIndex (self : EpochBalanceRingBuffer) (index : Nat) : Except Abort Nat := do
  -- Check for out-of-bounds access.
  unless index < self.length do throw .balanceIndexOutOfBounds
  pure ((index + self.currentIndex) % self.length)

/-- `ring_lookup`. -/
def ringLookup (self : EpochBalanceRingBuffer) (index : Nat) : Except Abort EpochBalance := do
  let vectorIndex ← self.vectorIndex index
  match self.ringBuffer[vectorIndex]? with
  | some epochBalance => pure epochBalance
  | none => throw .indexOutOfBounds

/-- `ring_lookup_mut(index).set_balance(balance)`. -/
def setBalance (self : EpochBalanceRingBuffer) (index balance : Nat) :
    Except Abort EpochBalanceRingBuffer := do
  let vectorIndex ← self.vectorIndex index
  match self.ringBuffer[vectorIndex]? with
  | some epochBalance =>
    pure { self with ringBuffer := self.ringBuffer.set vectorIndex { epochBalance with balance } }
  | none => throw .indexOutOfBounds

/-- `ring_pop_expand`: the current entry leaves, and a zero balance for the epoch `length`
epochs after it takes its slot. -/
def ringPopExpand (self : EpochBalanceRingBuffer) :
    Except Abort (EpochBalance × EpochBalanceRingBuffer) := do
  let currentIndex := self.currentIndex
  let some current := self.ringBuffer[currentIndex]? | throw .indexOutOfBounds
  let newEpoch ← u32Add current.epoch self.length
  let some (epochBalance, ringBuffer) :=
      swapRemove (self.ringBuffer ++ [⟨newEpoch, 0⟩]) currentIndex
    | throw .indexOutOfBounds
  let nextIndex ← u32Add currentIndex 1
  -- `% self.length()` aborts on an empty vector
  if ringBuffer.length = 0 then throw .arithmeticError
  pure (epochBalance, ⟨nextIndex % ringBuffer.length, ringBuffer⟩)

/-- The entries from the current one on, in order. -/
def window (self : EpochBalanceRingBuffer) : List EpochBalance :=
  self.ringBuffer.rotate self.currentIndex

end EpochBalanceRingBuffer

/-! ## The window of the ring -/

namespace EpochBalanceRingBuffer

variable {r : EpochBalanceRingBuffer}

@[simp] theorem length_window (r : EpochBalanceRingBuffer) : r.window.length = r.length :=
  List.length_rotate _ _

/-- The rounds of `ring_new_from_balances` number the balances from the starting epoch. -/
theorem foldlM_newStep {startingEpoch : Nat} {balances : List Nat}
    (hfit : startingEpoch + balances.length ≤ u32Max) :
    balances.foldlM newStep (startingEpoch, []) =
      .ok (startingEpoch + balances.length,
        balances.mapIdx fun i balance => ⟨startingEpoch + i, balance⟩) := by
  have h := @foldlM_eq_ok_of_step Abort _ _ newStep
    (fun done => (startingEpoch + done.length,
      done.mapIdx fun i balance => (⟨startingEpoch + i, balance⟩ : EpochBalance))) balances ?_
  · simpa using h
  · intro done x rest hsplit
    have hlen : done.length + 1 ≤ balances.length := by
      rw [← hsplit]
      simp
    have hnext : u32Add (startingEpoch + done.length) 1 =
        .ok (startingEpoch + (done ++ [x]).length) :=
      u32Add_eq_ok.mpr ⟨by omega, by simp [Nat.add_assoc]⟩
    simp only [newStep, hnext, ok_bind, List.mapIdx_append, List.mapIdx_singleton, Nat.zero_add]
    rfl

/-- `ring_new_from_balances` succeeds when the epoch after the last fits in `u32`, with the
balances in order from the starting epoch. -/
theorem ringNewFromBalances_eq {startingEpoch : Nat} {balances : List Nat}
    (hfit : startingEpoch + balances.length ≤ u32Max) :
    ringNewFromBalances startingEpoch balances =
      .ok ⟨0, balances.mapIdx fun i balance => ⟨startingEpoch + i, balance⟩⟩ := by
  unfold ringNewFromBalances
  rw [foldlM_newStep hfit]
  rfl

theorem vectorIndex_eq_ok {k i : Nat} :
    r.vectorIndex k = .ok i ↔ k < r.length ∧ (k + r.currentIndex) % r.length = i := by
  unfold vectorIndex
  by_cases hk : k < r.length <;> simp [hk, pure, Except.pure, bind, Except.bind]

/-- The vector entry of the window position `k`. -/
theorem getElem?_ringBuffer {k : Nat} (hk : k < r.length) :
    r.ringBuffer[(k + r.currentIndex) % r.length]? = r.window[k]? := by
  unfold window
  rw [List.getElem?_rotate (by unfold length at hk; omega)]
  rfl

/-- A lookup reads the window. -/
theorem ringLookup_eq_ok {k : Nat} {e : EpochBalance} :
    r.ringLookup k = .ok e ↔ r.window[k]? = some e := by
  unfold ringLookup
  by_cases hk : k < r.length
  case pos =>
    have hidx : r.vectorIndex k = .ok ((k + r.currentIndex) % r.length) :=
      vectorIndex_eq_ok.mpr ⟨hk, rfl⟩
    rw [hidx, ok_bind, getElem?_ringBuffer hk]
    cases r.window[k]? <;> simp [throw, throwThe, MonadExceptOf.throw, pure, Except.pure]
  case neg =>
    have hidx : r.vectorIndex k = .error .balanceIndexOutOfBounds := by
      simp [vectorIndex, hk, throw, throwThe, MonadExceptOf.throw, bind, Except.bind]
    have hnone : r.window[k]? = none := List.getElem?_eq_none (by simp; omega)
    simp [hidx, hnone, bind, Except.bind]

/-- A lookup past the end aborts with the module's own error. -/
theorem ringLookup_of_length_le {k : Nat} (hk : r.length ≤ k) :
    r.ringLookup k = .error .balanceIndexOutOfBounds := by
  simp [ringLookup, vectorIndex, Nat.not_lt.mpr hk, throw, throwThe, MonadExceptOf.throw, bind,
    Except.bind]

/-- Writing the balance of the window position `k`. -/
theorem setBalance_isOk {k balance : Nat} {e : EpochBalance} (he : r.window[k]? = some e) :
    ∃ r', r.setBalance k balance = .ok r' ∧
      r'.window = r.window.modify k (fun e => { e with balance }) ∧ r'.length = r.length ∧
      r'.currentIndex = r.currentIndex := by
  have hk : k < r.length := by simpa using (List.getElem?_eq_some_iff.mp he).1
  have hidx : r.vectorIndex k = .ok ((k + r.currentIndex) % r.length) :=
    vectorIndex_eq_ok.mpr ⟨hk, rfl⟩
  have hentry : r.ringBuffer[(k + r.currentIndex) % r.length]? = some e :=
    (getElem?_ringBuffer hk).trans he
  refine ⟨⟨r.currentIndex, r.ringBuffer.set ((k + r.currentIndex) % r.length)
    { e with balance }⟩, ?_, ?_, by simp [length], rfl⟩
  · simp only [setBalance, hidx, hentry, ok_bind]
    rfl
  · -- the vector is written at the index of the window position `k`
    have hrot := rotate_set_mod r.currentIndex ({ e with balance } : EpochBalance) hk
    exact hrot.trans (set_eq_modify (fun e : EpochBalance => { e with balance }) he)

/-- A write that succeeds changes the balance of the window position `k`, and nothing else. -/
theorem setBalance_eq_ok {k balance : Nat} {r' : EpochBalanceRingBuffer}
    (h : r.setBalance k balance = .ok r') :
    k < r.length ∧ r'.window = r.window.modify k (fun e => { e with balance }) ∧
      r'.length = r.length ∧ r'.currentIndex = r.currentIndex := by
  have h₀ := h
  unfold setBalance at h
  rcases bind_eq_ok.mp h with ⟨idx, hidx, h⟩
  rcases vectorIndex_eq_ok.mp hidx with ⟨hk, rfl⟩
  rw [getElem?_ringBuffer hk] at h
  cases he : r.window[k]? with
  | none => simp [he, throw, throwThe, MonadExceptOf.throw] at h
  | some e =>
    rcases setBalance_isOk he with ⟨r'', h'', hwindow, hlength, hcurrent⟩
    have heq : r'' = r' := Except.ok.inj (h''.symm.trans h₀)
    subst heq
    exact ⟨hk, hwindow, hlength, hcurrent⟩

/-- `ring_pop_expand` on a ring whose current index is inside it and whose epochs fit in
`u32`: the first entry of the window leaves, and a zero balance `length` epochs after it is
appended. -/
theorem ringPopExpand_isOk (hcur : r.currentIndex < r.length) {e : EpochBalance}
    (he : r.window[0]? = some e) (hepoch : e.epoch + r.length ≤ u32Max)
    (hnext : r.currentIndex + 1 ≤ u32Max) :
    ∃ r', r.ringPopExpand = .ok (e, r') ∧ r'.window = r.window.tail ++ [⟨e.epoch + r.length, 0⟩] ∧
      r'.length = r.length ∧ r'.currentIndex < r'.length := by
  have hci : r.currentIndex < r.ringBuffer.length := hcur
  -- the current entry of the vector is the first of the window
  have hcurEq : r.ringBuffer[r.currentIndex]? = some e := by
    rw [← he, ← getElem?_ringBuffer (by omega), Nat.zero_add, Nat.mod_eq_of_lt hcur]
  have hcurGet : r.ringBuffer[r.currentIndex] = e :=
    Option.some.inj ((List.getElem?_eq_getElem hci).symm.trans hcurEq)
  have hpos : r.ringBuffer.length ≠ 0 := by omega
  refine ⟨⟨(r.currentIndex + 1) % r.length,
    r.ringBuffer.set r.currentIndex ⟨e.epoch + r.length, 0⟩⟩, ?_, ?_, by simp [length],
    by simp only [length, List.length_set]; exact Nat.mod_lt _ (by unfold length at hcur; omega)⟩
  · unfold ringPopExpand
    simp only [hcurEq, bind, Except.bind, u32Add, if_pos hepoch, if_pos hnext,
      swapRemove_concat _ hci, hcurGet, hpos, if_false, pure, Except.pure, List.length_set]
    rfl
  · -- the vector is written at the current index and the start moves one on
    exact rotate_set_succ (⟨e.epoch + r.length, 0⟩ : EpochBalance) hci

/-- A pop that succeeds removes the first entry of the window and appends a zero balance. -/
theorem ringPopExpand_eq_ok {e : EpochBalance} {r' : EpochBalanceRingBuffer}
    (h : r.ringPopExpand = .ok (e, r')) :
    r.currentIndex < r.length ∧ r.window[0]? = some e ∧ e.epoch + r.length ≤ u32Max ∧
      r'.ringBuffer = r.ringBuffer.set r.currentIndex ⟨e.epoch + r.length, 0⟩ ∧
      r'.window = r.window.tail ++ [⟨e.epoch + r.length, 0⟩] ∧
      r'.length = r.length ∧ r'.currentIndex < r'.length := by
  have h₀ := h
  unfold ringPopExpand at h
  cases hcur : r.ringBuffer[r.currentIndex]? with
  | none => simp [hcur, throw, throwThe, MonadExceptOf.throw] at h
  | some current =>
    have hci : r.currentIndex < r.length := (List.getElem?_eq_some_iff.mp hcur).1
    simp only [hcur] at h
    rcases bind_eq_ok.mp h with ⟨ep, hep, h⟩
    rcases u32Add_eq_ok.mp hep with ⟨hepoch, -⟩
    rw [swapRemove_concat _ hci] at h
    rcases bind_eq_ok.mp h with ⟨nx, hnx, -⟩
    rcases u32Add_eq_ok.mp hnx with ⟨hnext, -⟩
    -- the current entry is the first of the window
    have hfirst : r.window[0]? = some current := by
      rw [← getElem?_ringBuffer (by omega), Nat.zero_add, Nat.mod_eq_of_lt hci, hcur]
    rcases ringPopExpand_isOk hci hfirst hepoch hnext with
      ⟨r'', h'', hwindow, hlength, hcurrent⟩
    have heq : (current, r'') = (e, r') := Except.ok.inj (h''.symm.trans h₀)
    simp only [Prod.mk.injEq] at heq
    rcases heq with ⟨rfl, rfl⟩
    -- the vector of the result, read off the call itself
    have hbuffer : r''.ringBuffer = r.ringBuffer.set r.currentIndex ⟨current.epoch + r.length, 0⟩ := by
      have hcurGet : r.ringBuffer[r.currentIndex] = current :=
        Option.some.inj ((List.getElem?_eq_getElem hci).symm.trans hcur)
      have hpos : r.ringBuffer.length ≠ 0 := by
        unfold length at hci
        omega
      unfold ringPopExpand at h₀
      simp only [hcur, bind, Except.bind, u32Add, if_pos hepoch, if_pos hnext,
        swapRemove_concat _ hci, hcurGet, List.length_set, hpos, if_false, pure,
        Except.pure] at h₀
      cases h₀
      rfl
    exact ⟨hci, hfirst, hepoch, hbuffer, hwindow, hlength, hcurrent⟩

/-- The distance of every entry to the epoch `target`. -/
def distanceTo (target : Nat) (r : EpochBalanceRingBuffer) : Nat :=
  (r.ringBuffer.map fun e => target - e.epoch).sum

/-- A pop of an entry before `target` brings the entries closer to it: the popped entry moves
`length` epochs on. -/
theorem ringPopExpand_lowers {target : Nat} {e : EpochBalance} {r' : EpochBalanceRingBuffer}
    (h : r.ringPopExpand = .ok (e, r')) (hlt : e.epoch < target) :
    distanceTo target r' < distanceTo target r := by
  rcases ringPopExpand_eq_ok h with ⟨hci, hfirst, -, hbuffer, -, -, -⟩
  have hcurGet : r.ringBuffer[r.currentIndex] = e := by
    rw [← getElem?_ringBuffer (by omega), Nat.zero_add, Nat.mod_eq_of_lt hci] at hfirst
    exact Option.some.inj ((List.getElem?_eq_getElem hci).symm.trans hfirst)
  have hset := sum_map_set (fun e : EpochBalance => target - e.epoch) r.ringBuffer
    r.currentIndex ⟨e.epoch + r.length, 0⟩ hci
  rw [hcurGet] at hset
  unfold distanceTo
  rw [hbuffer]
  simp only at hset
  omega

/-! ## The balances by epoch

Read by epoch, the ring is a function from epochs to balances, zero outside its window. While
the window holds consecutive epochs, a pop only forgets the balance of the epoch that leaves
(`ringPopExpand_consecutive`). -/

/-- The balance the ring holds for `epoch`, zero when its window has no entry of that epoch. -/
def balanceOf (self : EpochBalanceRingBuffer) (epoch : Nat) : Nat :=
  ((self.window.find? (·.epoch = epoch)).map EpochBalance.balance).getD 0

/-- In a window of consecutive epochs the balance of an epoch is read at its position. -/
theorem balanceOf_eq {start : Nat}
    (hepochs : r.window.map EpochBalance.epoch = List.range' start r.length) (e : Nat) :
    r.balanceOf e = if start ≤ e then ((r.window[e - start]?).map EpochBalance.balance).getD 0
      else 0 := by
  unfold balanceOf
  rw [find?_key_of_map_eq_range' (by rw [length_window]; exact hepochs) e]
  split <;> rfl

/-- `ring_pop_expand` on a window of the consecutive epochs from `b`: the window moves one
epoch on, and every later epoch keeps its balance. -/
theorem ringPopExpand_consecutive (hcur : r.currentIndex < r.length) {b : Nat}
    (hepochs : r.window.map EpochBalance.epoch = List.range' b r.length)
    (hfit : b + r.length ≤ u32Max) (hnext : r.currentIndex + 1 ≤ u32Max) :
    ∃ e r', r.ringPopExpand = .ok (e, r') ∧
      r'.window.map EpochBalance.epoch = List.range' (b + 1) r.length ∧ r'.length = r.length ∧
      r'.currentIndex < r'.length ∧ ∀ x, b + 1 ≤ x → r'.balanceOf x = r.balanceOf x := by
  have hpos : 0 < r.length := by omega
  have hne : r.window ≠ [] := List.ne_nil_of_length_pos (by simpa using hpos)
  -- the first entry of the window is of epoch `b`
  obtain ⟨e, he, heEpoch⟩ := exists_getElem?_zero_of_map_eq_range' hepochs hpos
  rcases ringPopExpand_isOk hcur he (by omega) hnext with ⟨r', hpop, hwindow, hlength, hcur'⟩
  have hepochs' : r'.window.map EpochBalance.epoch = List.range' (b + 1) r.length := by
    rw [hwindow, List.map_append, List.map_tail, hepochs, heEpoch, List.map_singleton,
      range'_tail_append hpos]
  refine ⟨e, r', hpop, hepochs', hlength, hcur', ?_⟩
  intro x hx
  rw [balanceOf_eq (hlength ▸ hepochs'), balanceOf_eq hepochs, if_pos hx, if_pos (by omega),
    hwindow, getElem?_tail_append hne]
  -- the appended entry has a zero balance, as the old window has none past its end
  by_cases hend : x - (b + 1) + 1 = r.window.length
  case pos =>
    rw [if_pos hend, show x - b = r.window.length by omega, List.getElem?_eq_none (Nat.le_refl _)]
    rfl
  case neg =>
    rw [if_neg hend, show x - (b + 1) + 1 = x - b by omega]

end EpochBalanceRingBuffer

end Walrus.Subsidies
