import Walrus.Contracts.Move
import Walrus.Machine.Count
import Walrus.Machine.Ring
import Walrus.Machine.Vector

/-! # Apportionment of the shards

`walrus::staking_inner::apportionment` and `dhondt`, with the priority queue of
`walrus::apportionment_queue` and the fixed-point quotients of `std::uq64_64` they use. The
active set's nodes and stakes are the input. Each node first gets the shards its stake surely
earns under D'Hondt (the Hagenbach-Bischoff lower bound, capped per node); then the remaining
shards go one at a time to the node with the highest quotient `stake / (shards + 1)`, ties
broken by priority. Nodes that end with no shard are left out of the distribution.

What the committee needs from this is that a distribution that is computed gives out exactly
`n_shards` shards, each to a node with at least one (`apportionment_eq_ok`).
-/

namespace Walrus.Staking

open Machine Walrus.System

/-! ## `std::uq64_64` -/

/-- `UQ64_64`: a fixed-point number with 64 fractional bits, as its raw `u128` value. -/
structure UQ64_64 where
  raw : Nat
deriving DecidableEq, Repr

/-- `uq64_64::from_quotient`, as the standard library computes it: the numerator scaled by
`2^128` over the denominator scaled by `2^64`. -/
def UQ64_64.fromQuotient (numerator denominator : Nat) : Except Abort UQ64_64 := do
  if denominator = 0 then throw .denominator
  let scaledNumerator := numerator * 2 ^ 128
  let scaledDenominator := denominator * 2 ^ 64
  let quotient := scaledNumerator / scaledDenominator
  if quotient = 0 ∧ numerator ≠ 0 then throw .quotientTooSmall
  if quotient > 2 ^ 128 - 1 then throw .quotientTooLarge
  return ⟨quotient⟩

/-! ## `apportionment_queue` -/

/-- `Entry`: a node's index with its quotient and its priority for ties. -/
structure Entry where
  priority : UQ64_64
  tieBreaker : Nat
  value : Nat
deriving DecidableEq, Repr

/-- `higher_priority_than`. -/
def Entry.higherPriorityThan (entry1 entry2 : Entry) : Bool :=
  entry1.priority.raw > entry2.priority.raw ||
    (entry1.priority = entry2.priority && entry1.tieBreaker > entry2.tieBreaker)

/-- `ApportionmentQueue`: a max-heap in a vector, the children of `i` at `2 * i + 1` and
`2 * i + 2`. -/
structure ApportionmentQueue where
  entries : List Entry

namespace ApportionmentQueue

/-- Whether the entry at `a` comes before the one at `b`. -/
def higherAt (elements : List Entry) (a b : Nat) : Bool :=
  match elements[a]?, elements[b]? with
  | some x, some y => x.higherPriorityThan y
  | _, _ => false

/-- One comparison of `bubble_down`: the candidate position takes over from the current one
when it is in range and has a higher priority. -/
def pickHigher (elements : List Entry) (candidate current : Nat) : Nat :=
  if candidate < elements.length && higherAt elements candidate current then candidate
  else current

theorem pickHigher_cases (elements : List Entry) (candidate current : Nat) :
    pickHigher elements candidate current = current ∨
      (pickHigher elements candidate current = candidate ∧ candidate < elements.length) := by
  unfold pickHigher
  by_cases hc : (decide (candidate < elements.length) && higherAt elements candidate current) = true
  · rw [if_pos hc]
    simp only [Bool.and_eq_true, decide_eq_true_eq] at hc
    exact .inr ⟨rfl, hc.1⟩
  · rw [if_neg hc]
    exact .inl rfl

/-- The position among `i` and its two children with the highest priority. -/
def maxChild (elements : List Entry) (i : Nat) : Nat :=
  pickHigher elements (i * 2 + 1 + 1) (pickHigher elements (i * 2 + 1) i)

theorem maxChild_lt {elements : List Entry} {i : Nat} (h : maxChild elements i ≠ i) :
    i < maxChild elements i ∧ maxChild elements i < elements.length := by
  unfold maxChild at h ⊢
  rcases pickHigher_cases elements (i * 2 + 1) i with h₁ | ⟨h₁, hl₁⟩ <;>
    rcases pickHigher_cases elements (i * 2 + 1 + 1) (pickHigher elements (i * 2 + 1) i) with
      h₂ | ⟨h₂, hl₂⟩ <;>
    omega

/-- `bubble_down`: the entry at `i` moves down while a child has a higher priority. -/
def bubbleDown (elements : List Entry) (i : Nat) : List Entry :=
  if i < elements.length then
    if _h : maxChild elements i = i then elements
    else bubbleDown (swap elements (maxChild elements i) i) (maxChild elements i)
  else elements
termination_by elements.length - i
decreasing_by
  have := maxChild_lt _h
  simp only [length_swap]
  omega

/-- `bubble_up`: the entry at `i` moves up while it has a higher priority than its parent. -/
def bubbleUp (elements : List Entry) (i : Nat) : List Entry :=
  if 0 < i then
    if higherAt elements i ((i - 1) / 2) then
      bubbleUp (swap elements i ((i - 1) / 2)) ((i - 1) / 2)
    else elements
  else elements
termination_by i
decreasing_by omega

/-- `new`: the empty queue. -/
def new : ApportionmentQueue := ⟨[]⟩

/-- `insert`. -/
def insert (pq : ApportionmentQueue) (priority : UQ64_64) (tieBreaker value : Nat) :
    ApportionmentQueue :=
  ⟨bubbleUp (pq.entries ++ [⟨priority, tieBreaker, value⟩]) pq.entries.length⟩

/-- `pop_max`. -/
def popMax (pq : ApportionmentQueue) : Except Abort (Entry × ApportionmentQueue) := do
  unless 0 < pq.entries.length do throw .popFromEmptyHeap
  let some (entry, entries) := swapRemove pq.entries 0 | throw .indexOutOfBounds
  return (entry, ⟨bubbleDown entries 0⟩)

end ApportionmentQueue

/-! ## `dhondt` -/

/-- `MIN_NODES_FOR_SHARDS_LIMIT`. -/
def minNodesForShardsLimit : Nat := 20

/-- `SHARDS_LIMIT_DENOMINATOR`. -/
def shardsLimitDenominator : Nat := 10

/-- `max_shards_per_node`. -/
def maxShardsPerNode (nNodes nShards : Nat) : Except Abort Nat :=
  if nNodes ≥ minNodesForShardsLimit then pure (nShards / shardsLimitDenominator)
  else divideAndRoundUp (nShards * minNodesForShardsLimit) (nNodes * shardsLimitDenominator)

/-- The Hagenbach-Bischoff assignment `dhondt` starts from. -/
def initialShards (stake : List Nat) (totalStake nShards maxShards : Nat) : List Nat :=
  stake.map fun s => min (s / (totalStake / (nShards + 1) + 1)) maxShards

/-- The quotient of a node holding `shards` shards. -/
def quotientOf (stake shards : Nat) : Except Abort UQ64_64 :=
  UQ64_64.fromQuotient stake (shards + 1)

/-- The initial queue: every node below the cap, with its quotient and its priority. -/
def initialQueue (nodePriorities stake shards : List Nat) (maxShards : Nat) :
    Except Abort ApportionmentQueue :=
  (List.range stake.length).foldlM (fun quotients index => do
    let some s := shards[index]? | throw .indexOutOfBounds
    if s ≠ maxShards then
      let some st := stake[index]? | throw .indexOutOfBounds
      let some priority := nodePriorities[index]? | throw .indexOutOfBounds
      let quotient ← quotientOf st s
      pure (quotients.insert quotient priority index)
    else pure quotients) ⟨[]⟩

/-- The node goes back into the queue with its new quotient, unless it reached the cap. -/
def requeue (stake : List Nat) (maxShards : Nat) (quotients : ApportionmentQueue)
    (entry : Entry) (next : Nat) : Except Abort ApportionmentQueue :=
  if next ≠ maxShards then do
    let some st := stake[entry.value]? | throw .indexOutOfBounds
    let quotient ← quotientOf st next
    pure (quotients.insert quotient entry.tieBreaker entry.value)
  else pure quotients

/-- The rounds of the loop of `dhondt`: each gives one more shard to the node at the top of
the queue. -/
def dhondtLoop (stake : List Nat) (maxShards : Nat) :
    Nat → List Nat → ApportionmentQueue → Except Abort (List Nat)
  | 0, shards, _ => pure shards
  | rounds + 1, shards, quotients => do
    let (entry, quotients) ← quotients.popMax
    let some current := shards[entry.value]? | throw .indexOutOfBounds
    let next ← u64Add current 1
    let quotients ← requeue stake maxShards quotients entry next
    dhondtLoop stake maxShards rounds (shards.set entry.value next) quotients

/-- `dhondt`. The loop runs while fewer than `n_shards` shards are out; the initial
assignment never gives out more (`sum_initialShards_le`), so it runs
`n_shards - n_shards_distributed` rounds. -/
def dhondt (nodePriorities : List Nat) (nShards : Nat) (stake : List Nat) :
    Except Abort (List Nat) := do
  let totalStake ← stake.foldlM u64Add 0
  let nNodes := stake.length
  unless totalStake > 0 do throw .noStake
  let maxShards ← maxShardsPerNode nNodes nShards
  let shards := initialShards stake totalStake nShards maxShards
  let quotients ← initialQueue nodePriorities stake shards maxShards
  if nNodes = 0 then return []
  let nShardsDistributed ← shards.foldlM u64Add 0
  let shards ← dhondtLoop stake maxShards (nShards - nShardsDistributed) shards quotients
  shards.mapM u16Cast

/-- One entry of the distribution: a node with at least one shard. -/
def addNonZero (distribution : VecMap ObjectID Nat) (entry : ObjectID × Nat) :
    Except Abort (VecMap ObjectID Nat) :=
  if entry.2 > 0 then liftVecMap (distribution.insert entry.1 entry.2) else pure distribution

/-- `apportionment`, on the active set's nodes and stakes. -/
def apportionment (nShards : Nat) (active : List (ObjectID × Nat)) :
    Except Abort (VecMap ObjectID Nat) := do
  let activeIds := active.map Prod.fst
  let stake := active.map Prod.snd
  let nNodes := stake.length
  let priorities := (List.range nNodes).map fun i => nNodes - i
  let shards ← dhondt priorities nShards stake
  unless activeIds.length = shards.length do throw .lengthMismatch
  (activeIds.zip shards).foldlM addNonZero VecMap.empty

/-! ## The distribution gives out every shard -/

/-- The initial assignment gives out at most `n_shards`: each node's share is at most its
stake over the distribution number, and the distribution number exceeds
`total_stake / (n_shards + 1)`. -/
theorem sum_initialShards_le (stake : List Nat) (nShards maxShards : Nat) :
    (initialShards stake stake.sum nShards maxShards).sum ≤ nShards := by
  unfold initialShards
  set d := stake.sum / (nShards + 1) + 1 with hd
  -- the floors of the shares sum to at most the floor of the sum
  have hfloor : ∀ l : List Nat, (l.map fun s => min (s / d) maxShards).sum ≤ l.sum / d := by
    intro l
    induction l with
    | nil => simp
    | cons x l ih =>
      simp only [List.map_cons, List.sum_cons]
      calc min (x / d) maxShards + (l.map fun s => min (s / d) maxShards).sum
          ≤ x / d + l.sum / d := Nat.add_le_add (Nat.min_le_left _ _) ih
        _ ≤ (x + l.sum) / d := Nat.div_add_div_le_add_div
  have hlt : stake.sum / d < nShards + 1 := by
    apply Nat.div_lt_of_lt_mul
    have hmod := Nat.lt_div_mul_add (a := stake.sum) (b := nShards + 1) (by omega)
    rw [hd, Nat.add_mul, Nat.one_mul]
    exact hmod
  have hle := hfloor stake
  omega

/-- Each round of the loop gives out one shard. -/
theorem dhondtLoop_eq_ok (stake : List Nat) (maxShards : Nat) :
    ∀ (rounds : Nat) {shards result : List Nat} {quotients : ApportionmentQueue},
      dhondtLoop stake maxShards rounds shards quotients = .ok result →
        result.sum = shards.sum + rounds ∧ result.length = shards.length
  | 0, shards, result, quotients, h => by
    simp only [dhondtLoop, pure, Except.pure, Except.ok.injEq] at h
    simp [h]
  | rounds + 1, shards, result, quotients, h => by
    simp only [dhondtLoop] at h
    obtain ⟨⟨entry, quotients'⟩, -, h₁⟩ := bind_eq_ok.mp h
    cases hcur : shards[entry.value]? with
    | none =>
      simp [hcur, throw, throwThe, MonadExceptOf.throw] at h₁
    | some current =>
      simp only [hcur] at h₁
      obtain ⟨next, hnext, h₂⟩ := bind_eq_ok.mp h₁
      obtain ⟨-, rfl⟩ := u64Add_eq_ok.mp hnext
      obtain ⟨quotients'', -, h₃⟩ := bind_eq_ok.mp h₂
      obtain ⟨hsum, hlen⟩ := dhondtLoop_eq_ok stake maxShards rounds h₃
      obtain ⟨hi, hget⟩ := List.getElem?_eq_some_iff.mp hcur
      -- the node's count goes up by one
      have hset := sum_map_set id shards entry.value (current + 1) hi
      simp only [List.map_id_fun, id_eq, hget] at hset
      refine ⟨?_, by rw [hlen, List.length_set]⟩
      rw [hsum]
      omega

/-- A computed D'Hondt assignment gives out exactly `n_shards` shards, one count per node. -/
theorem dhondt_eq_ok {nodePriorities stake result : List Nat} {nShards : Nat}
    (h : dhondt nodePriorities nShards stake = .ok result) :
    result.sum = nShards ∧ result.length = stake.length := by
  unfold dhondt at h
  obtain ⟨total, htotal, h₁⟩ := bind_eq_ok.mp h
  have htot : total = stake.sum := by simpa using foldlM_u64Add_eq_ok htotal
  subst htot
  dsimp only at h₁
  rw [ite_throw_bind_eq_ok] at h₁
  obtain ⟨hpos, h₂⟩ := h₁
  obtain ⟨maxShards, -, h₃⟩ := bind_eq_ok.mp h₂
  obtain ⟨quotients, -, h₄⟩ := bind_eq_ok.mp h₃
  have hne : stake.length ≠ 0 := by
    intro h0
    rw [List.length_eq_zero_iff.mp h0] at hpos
    simp at hpos
  simp only [hne, if_false] at h₄
  obtain ⟨distributed, hdist, h₅⟩ := bind_eq_ok.mp h₄
  have hd : distributed = (initialShards stake stake.sum nShards maxShards).sum := by
    simpa using foldlM_u64Add_eq_ok hdist
  obtain ⟨shards, hloop, h₆⟩ := bind_eq_ok.mp h₅
  obtain ⟨rfl, -⟩ := mapM_u16Cast_eq_ok shards h₆
  obtain ⟨hsum, hlen⟩ := dhondtLoop_eq_ok stake maxShards _ hloop
  have hle := sum_initialShards_le stake nShards maxShards
  refine ⟨by rw [hsum, hd]; omega, by rw [hlen]; simp [initialShards]⟩

/-- Adding the nodes with shards: the distribution gains their counts, all positive. -/
theorem foldlM_addNonZero_eq_ok :
    ∀ (l : List (ObjectID × Nat)) {d d' : VecMap ObjectID Nat},
      l.foldlM addNonZero d = .ok d' →
        (d'.contents.map Prod.snd).sum = (d.contents.map Prod.snd).sum + (l.map Prod.snd).sum ∧
          ((∀ e ∈ d.contents, 0 < e.2) → ∀ e ∈ d'.contents, 0 < e.2)
  | [], d, d', h => by
    simp only [List.foldlM_nil, pure, Except.pure, Except.ok.injEq] at h
    subst h
    exact ⟨by simp, id⟩
  | x :: l, d, d', h => by
    rw [List.foldlM_cons] at h
    obtain ⟨d₁, h₁, h₂⟩ := bind_eq_ok.mp h
    obtain ⟨hsum, hpos⟩ := foldlM_addNonZero_eq_ok l h₂
    unfold addNonZero at h₁
    by_cases hx : x.2 > 0
    · rw [if_pos hx, liftVecMap_eq_ok] at h₁
      obtain ⟨-, hc⟩ := VecMap.insert_eq_ok h₁
      refine ⟨?_, fun hd => hpos ?_⟩
      · rw [hsum, hc]
        simp only [List.map_append, List.sum_append, List.map_cons, List.map_nil, List.sum_cons,
          List.sum_nil]
        omega
      · intro e he
        rw [hc] at he
        rcases List.mem_append.mp he with he | he
        · exact hd e he
        · rw [List.mem_singleton.mp he]
          exact hx
    · rw [if_neg hx] at h₁
      simp only [pure, Except.pure, Except.ok.injEq] at h₁
      subst h₁
      refine ⟨?_, hpos⟩
      rw [hsum]
      simp only [List.map_cons, List.sum_cons]
      omega

/-- Adding distinct nodes that the distribution does not have yet succeeds, and every node of
the result was in the distribution or among those added. -/
theorem foldlM_addNonZero_isOk :
    ∀ (l : List (ObjectID × Nat)) {d : VecMap ObjectID Nat}, (l.map Prod.fst).Nodup →
      (∀ k ∈ l.map Prod.fst, d.contains k = false) →
      ∃ d', l.foldlM addNonZero d = .ok d' ∧ ∀ k ∈ d'.keys, k ∈ d.keys ∨ k ∈ l.map Prod.fst
  | [], d, _, _ => ⟨d, rfl, fun _ hk => .inl hk⟩
  | x :: l, d, hnodup, hfresh => by
    rw [List.map_cons, List.nodup_cons] at hnodup
    obtain ⟨hx, hl⟩ := hnodup
    -- the first node goes in when it has shards, and the others are still new
    have hfirst : ∃ d₁, addNonZero d x = .ok d₁ ∧ (∀ k ∈ d₁.keys, k ∈ d.keys ∨ k = x.1) ∧
        ∀ k ∈ l.map Prod.fst, d₁.contains k = false := by
      unfold addNonZero
      split
      case isTrue =>
        obtain ⟨d₁, hins⟩ := VecMap.insert_isOk x.2 (hfresh x.1 List.mem_cons_self)
        refine ⟨d₁, liftVecMap_eq_ok.mpr hins, fun k hk => ?_, fun k hk => ?_⟩
        · rw [VecMap.keys, (VecMap.insert_eq_ok hins).2, List.map_append, List.mem_append] at hk
          rcases hk with hk | hk
          · exact .inl hk
          · exact .inr (List.mem_singleton.mp hk)
        · have hne : k ≠ x.1 := fun h => hx (h ▸ hk)
          rw [← VecMap.get?_eq_none_iff, VecMap.get?_insert hins k, if_neg hne,
            VecMap.get?_eq_none_iff]
          exact hfresh k (List.mem_cons_of_mem _ hk)
      case isFalse =>
        exact ⟨d, rfl, fun _ hk => .inl hk, fun k hk => hfresh k (List.mem_cons_of_mem _ hk)⟩
    obtain ⟨d₁, h₁, hkeys₁, hfresh₁⟩ := hfirst
    obtain ⟨d', h', hkeys'⟩ := foldlM_addNonZero_isOk l hl hfresh₁
    refine ⟨d', by rw [List.foldlM_cons, h₁, ok_bind]; exact h', fun k hk => ?_⟩
    rcases hkeys' k hk with hk | hk
    · rcases hkeys₁ k hk with hk | rfl
      · exact .inl hk
      · exact .inr List.mem_cons_self
    · exact .inr (List.mem_cons_of_mem _ hk)

/-- A computed distribution gives out exactly `n_shards` shards, each node getting one at
least. -/
theorem apportionment_eq_ok {nShards : Nat} {active : List (ObjectID × Nat)}
    {distribution : VecMap ObjectID Nat} (h : apportionment nShards active = .ok distribution) :
    (distribution.contents.map Prod.snd).sum = nShards ∧ ∀ e ∈ distribution.contents, 0 < e.2 := by
  unfold apportionment at h
  obtain ⟨shards, hshards, h₁⟩ := bind_eq_ok.mp h
  obtain ⟨hsum, hlen⟩ := dhondt_eq_ok hshards
  dsimp only at h₁
  rw [ite_throw_bind_eq_ok] at h₁
  obtain ⟨hlen', h₂⟩ := h₁
  obtain ⟨hdsum, hdpos⟩ := foldlM_addNonZero_eq_ok _ h₂
  refine ⟨?_, hdpos (by simp [VecMap.empty])⟩
  rw [hdsum, List.map_snd_zip (by omega)]
  simp [VecMap.empty, hsum]

end Walrus.Staking
