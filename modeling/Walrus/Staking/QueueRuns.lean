import Walrus.Staking.Dhondt

/-! # Runs of the apportionment queue

`dhondt` uses the queue of `apportionment_queue` through `new`, `insert` and `pop_max`. What a
max-priority queue is for is stated over multisets in `Machine.Heap`: it holds a multiset of
entries, and its pop takes out an entry of the largest key and leaves every other entry
(`PopsMax`). This module reads every run of calls from `new` against that.

The entries stay in heap order under the order `higher_priority_than` compares in, after every
call (`Reachable.isHeap`); from such a queue `insert` adds its entry (`insert_elements`), and
`pop_max` aborts exactly on the empty queue (`popMax_eq_error_iff`) and otherwise pops the
abstract queue's way (`popMax_popsMax`).

As for the active set, a call that aborts changes nothing. In `dhondt` such an abort ends the
transaction, which then reaches no further state: the states are the same.
-/

namespace Walrus.Staking

open Machine Machine.Heap Walrus.System

namespace ApportionmentQueue

/-- The entries of the queue, in no order. -/
def elements (pq : ApportionmentQueue) : Multiset Entry := pq.entries

/-- The calls on the queue. -/
inductive Op
  | insert (priority : UQ64_64) (tieBreaker value : Nat)
  | popMax

/-- A call: the queue it leaves. -/
def step (pq : ApportionmentQueue) : Op → Except Abort ApportionmentQueue
  | .insert priority tieBreaker value => pure (pq.insert priority tieBreaker value)
  | .popMax => do
    let (_, pq) ← pq.popMax
    pure pq

/-- A call that aborts is not committed. -/
def stepOption (pq : ApportionmentQueue) (op : Op) : Option ApportionmentQueue :=
  (pq.step op).toOption

/-! ## Each call on a heap -/

theorem isHeap_new : IsHeap Entry.key new.entries :=
  fun c _ => below_of_length_le (Nat.zero_le c)

/-- `insert` adds its entry. -/
theorem insert_elements {pq : ApportionmentQueue} (h : IsHeap Entry.key pq.entries)
    (priority : UQ64_64) (tieBreaker value : Nat) :
    (pq.insert priority tieBreaker value).elements =
      ⟨priority, tieBreaker, value⟩ ::ₘ pq.elements :=
  Multiset.coe_eq_coe.mpr (insert_spec h priority tieBreaker value).2

/-- `pop_max` aborts exactly on the empty queue. -/
theorem popMax_eq_error_iff {pq : ApportionmentQueue} (h : IsHeap Entry.key pq.entries) :
    (∃ a, pq.popMax = .error a) ↔ pq.entries = [] := by
  constructor
  · rintro ⟨a, ha⟩
    by_contra hne
    obtain ⟨e, rest, hpop, -⟩ := popMax_spec h hne
    rw [hpop] at ha
    cases ha
  · intro hnil
    rcases pq with ⟨entries⟩
    subst hnil
    exact ⟨.popFromEmptyHeap, popMax_nil⟩

/-- On a heap, `pop_max` pops as a max-priority queue does, and leaves a heap. -/
theorem popMax_popsMax {pq pq' : ApportionmentQueue} {e : Entry}
    (h : IsHeap Entry.key pq.entries) (hpop : pq.popMax = .ok (e, pq')) :
    PopsMax Entry.key pq.elements e pq'.elements ∧ IsHeap Entry.key pq'.entries := by
  have hne : pq.entries ≠ [] := by
    intro hnil
    obtain ⟨a, ha⟩ := (popMax_eq_error_iff h).mpr hnil
    rw [hpop] at ha
    cases ha
  obtain ⟨e₀, rest, hpop₀, hheap, hperm, hmax⟩ := popMax_spec h hne
  rw [hpop, Except.ok.injEq, Prod.mk.injEq] at hpop₀
  obtain ⟨rfl, rfl⟩ := hpop₀
  exact ⟨popsMax_of_perm hperm hmax, hheap⟩

/-- Every call keeps heap order. -/
theorem step_isHeap {pq pq' : ApportionmentQueue} {op : Op} (h : IsHeap Entry.key pq.entries)
    (hstep : pq.step op = .ok pq') : IsHeap Entry.key pq'.entries := by
  cases op with
  | insert priority tieBreaker value =>
    cases hstep
    exact (insert_spec h priority tieBreaker value).1
  | popMax =>
    obtain ⟨⟨e, pq''⟩, hpop, hret⟩ := bind_eq_ok.mp hstep
    cases hret
    exact (popMax_popsMax h hpop).2

/-! ## Every run -/

/-- A queue reached from `new` by calls is in heap order. -/
theorem Reachable.isHeap {pq : ApportionmentQueue} :
    Reachable (· = new) stepOption pq → IsHeap Entry.key pq.entries :=
  Reachable.invariant (fun _ hnew => hnew ▸ isHeap_new)
    (fun _ _ _ hheap hstep => step_isHeap hheap (toOption_eq_some.mp hstep))

/-- The queue after the six inserts of `test_pq`. -/
def testQueue : ApportionmentQueue :=
  (((((new.insert ⟨3⟩ 1 10).insert ⟨1⟩ 2 20).insert ⟨4⟩ 3 30).insert ⟨2⟩ 4 40).insert
    ⟨5⟩ 5 50).insert ⟨2⟩ 6 60

example :
    testQueue.popMax.map (fun r => (r.1, r.2.entries.length)) = .ok (⟨⟨5⟩, 5, 50⟩, 5) := by
  decide +kernel

end ApportionmentQueue

end Walrus.Staking
