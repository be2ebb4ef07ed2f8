import Mathlib.Logic.Relation
import Mathlib.Data.List.Forall2

/-! # Runs of a state machine

A transition function `step : σ → α → σ` applied to a list of inputs, and the
rules that carry an invariant, or a relation between the first and the last
state, along every run.

Transactions of a smart contract can abort. A partial transition
`step : σ → α → Option σ` is lifted by `commit`: an aborted transaction leaves
the state exactly as it was, which is what the chain does with it. The
reachable states of such a machine are `Reachable`.

Nothing here names the system being verified; the models instantiate these
rules at their own state and input types.
-/

namespace Machine

universe u v

variable {σ : Type u} {α : Type v}

/-- Apply the inputs `xs` one after the other, starting in `s`. -/
def run (step : σ → α → σ) (s : σ) (xs : List α) : σ :=
  xs.foldl step s

@[simp] theorem run_nil (step : σ → α → σ) (s : σ) : run step s [] = s := rfl

@[simp] theorem run_cons (step : σ → α → σ) (s : σ) (x : α) (xs : List α) :
    run step s (x :: xs) = run step (step s x) xs := rfl

/-- Invariant rule: a property kept by every step holds after every run. -/
theorem run_invariant {step : σ → α → σ} {inv : σ → Prop}
    (hstep : ∀ s x, inv s → inv (step s x)) :
    ∀ (xs : List α) (s : σ), inv s → inv (run step s xs)
  | [], _, hs => hs
  | x :: xs, s, hs => run_invariant hstep xs (step s x) (hstep s x hs)

/-- Invariant rule with a side condition on the inputs: only inputs satisfying
`ok` are applied. -/
theorem run_invariant_of_forall {step : σ → α → σ} {inv : σ → Prop} {ok : α → Prop}
    (hstep : ∀ s x, ok x → inv s → inv (step s x)) :
    ∀ (xs : List α) (s : σ), (∀ x ∈ xs, ok x) → inv s → inv (run step s xs)
  | [], _, _, hs => hs
  | x :: xs, s, hok, hs =>
    run_invariant_of_forall hstep xs (step s x)
      (fun y hy => hok y (List.mem_cons_of_mem x hy)) (hstep s x (hok x List.mem_cons_self) hs)

/-- Invariant rule for a loop that reads its inputs in order: an invariant of the inputs
visited so far and the state, kept by each step, holds of all the inputs after the run. -/
theorem run_invariant_visited {step : σ → α → σ} {inv : List α → σ → Prop}
    (hstep : ∀ done x s, inv done s → inv (done ++ [x]) (step s x)) :
    ∀ (xs done : List α) (s : σ), inv done s → inv (done ++ xs) (run step s xs)
  | [], done, _, hs => by rwa [List.append_nil]
  | x :: xs, done, s, hs => by
    have hrest := run_invariant_visited hstep xs (done ++ [x]) (step s x) (hstep done x s hs)
    rwa [List.append_assoc, List.singleton_append] at hrest

/-- The inputs of a run from `s` each meet `ok` in the state they are applied in: a condition
that the environment keeps and that depends on the state it meets. -/
def Admits (step : σ → α → σ) (ok : σ → α → Prop) : σ → List α → Prop
  | _, [] => True
  | s, x :: xs => ok s x ∧ Admits step ok (step s x) xs

/-- Invariant rule for a run whose inputs meet their condition: each step need only keep the
invariant on an input that meets it in the step's pre-state. -/
theorem run_invariant_admits {step : σ → α → σ} {inv : σ → Prop} {ok : σ → α → Prop}
    (hstep : ∀ s x, ok s x → inv s → inv (step s x)) :
    ∀ (xs : List α) (s : σ), Admits step ok s xs → inv s → inv (run step s xs)
  | [], _, _, hs => hs
  | x :: xs, s, hadm, hs => run_invariant_admits hstep xs (step s x) hadm.2 (hstep s x hadm.1 hs)

/-- A relation that each step establishes between its pre- and post-state, and that is
reflexive and transitive, holds between the first and the last state of every run. -/
theorem run_rel {step : σ → α → σ} {r : σ → σ → Prop}
    (hstep : ∀ s x, r s (step s x)) :
    ∀ (xs : List α) (s : σ), Relation.ReflTransGen r s (run step s xs)
  | [], _ => Relation.ReflTransGen.refl
  | x :: xs, s =>
    Relation.ReflTransGen.head (hstep s x) (run_rel hstep xs (step s x))

/-! ## Transactions that may abort -/

/-- Execute a transaction that may abort: `none` leaves the state unchanged. -/
def commit (step : σ → α → Option σ) (s : σ) (x : α) : σ :=
  (step s x).getD s

theorem commit_of_eq_some {step : σ → α → Option σ} {s s' : σ} {x : α}
    (h : step s x = some s') : commit step s x = s' := by
  simp [commit, h]

theorem commit_of_eq_none {step : σ → α → Option σ} {s : σ} {x : α}
    (h : step s x = none) : commit step s x = s := by
  simp [commit, h]

/-- Invariant rule for transactions: only the committed ones need to keep it. -/
theorem commit_invariant {step : σ → α → Option σ} {inv : σ → Prop}
    (hstep : ∀ s x s', inv s → step s x = some s' → inv s') (s : σ) (x : α)
    (hs : inv s) : inv (commit step s x) := by
  cases h : step s x with
  | none => rwa [commit_of_eq_none h]
  | some s' => rw [commit_of_eq_some h]; exact hstep s x s' hs h

/-- A transaction keeps an invariant when each of its commits does. -/
theorem commit_invariant_of {step : σ → α → Option σ} {inv : σ → Prop} {s : σ} {x : α}
    (hstep : ∀ s', step s x = some s' → inv s') (hs : inv s) : inv (commit step s x) := by
  cases h : step s x with
  | none => rwa [commit_of_eq_none h]
  | some s' => rw [commit_of_eq_some h]; exact hstep s' h

/-- The states reachable from `init` by committed transactions. -/
inductive Reachable (init : σ → Prop) (step : σ → α → Option σ) : σ → Prop
  | init {s : σ} : init s → Reachable init step s
  | step {s s' : σ} (x : α) : Reachable init step s → step s x = some s' →
      Reachable init step s'

/-- Inductive invariance for `Reachable`. -/
theorem Reachable.invariant {init : σ → Prop} {step : σ → α → Option σ} {inv : σ → Prop}
    (hinit : ∀ s, init s → inv s)
    (hstep : ∀ s x s', inv s → step s x = some s' → inv s') :
    ∀ {s : σ}, Reachable init step s → inv s
  | _, .init h => hinit _ h
  | _, .step x hr h => hstep _ x _ (Reachable.invariant hinit hstep hr) h

/-- Every state reached by `commit`-ing a list of transactions is reachable. -/
theorem Reachable.run_commit {init : σ → Prop} {step : σ → α → Option σ} :
    ∀ (xs : List α) {s : σ}, Reachable init step s → Reachable init step (run (commit step) s xs)
  | [], _, h => h
  | x :: xs, s, h => by
    rw [run_cons]
    apply Reachable.run_commit xs
    cases hx : step s x with
    | none => rwa [commit_of_eq_none hx]
    | some s' => rw [commit_of_eq_some hx]; exact .step x h hx

/-! ## Runs that stop at the first rejected input

A run of a partial transition function in `Option` (or `Except`) is `List.foldlM`: it stops
at the first input the machine rejects. -/

/-- Invariant rule for accepted runs: a property kept by every accepted step on an input of
the run holds at the end of every accepted run. -/
theorem foldlM_invariant {step : σ → α → Option σ} {inv : σ → Prop} :
    ∀ (xs : List α) {s s' : σ}, (∀ x ∈ xs, ∀ t t', inv t → step t x = some t' → inv t') →
      inv s → xs.foldlM step s = some s' → inv s'
  | [], _, _, _, hs, h => by
    simp only [List.foldlM_nil, Option.pure_def, Option.some.injEq] at h
    exact h ▸ hs
  | x :: xs, s, _, hstep, hs, h => by
    simp only [List.foldlM_cons] at h
    obtain ⟨s₁, h₁, h₂⟩ := Option.bind_eq_some_iff.mp h
    exact foldlM_invariant xs (fun y hy => hstep y (List.mem_cons_of_mem x hy))
      (hstep x List.mem_cons_self s s₁ hs h₁) h₂

/-- Backward rule for accepted runs: a property of the last state that every accepted step
passes back to its pre-state holds of the first state (a bound on a quantity that never
decreases). -/
theorem foldlM_backward {step : σ → α → Option σ} {ok : σ → Prop}
    (hok : ∀ s x s', step s x = some s' → ok s' → ok s) :
    ∀ (xs : List α) {s s' : σ}, xs.foldlM step s = some s' → ok s' → ok s
  | [], _, _, h, hs' => by
    simp only [List.foldlM_nil, Option.pure_def, Option.some.injEq] at h
    exact h ▸ hs'
  | x :: xs, s, _, h, hs' => by
    simp only [List.foldlM_cons] at h
    obtain ⟨s₁, h₁, h₂⟩ := Option.bind_eq_some_iff.mp h
    exact hok s x s₁ h₁ (foldlM_backward hok xs h₂ hs')

/-- Forward simulation of accepted runs. A machine `stepA` that accepts or rejects is
simulated by a machine `stepB` that may fail: when every accepted step of `stepA` into a
state satisfying `ok` is matched by a successful step of `stepB` that keeps `R`, every
accepted run of `stepA` ending in `ok` is matched by a successful run of `stepB`. The side
condition `ok` is one that accepted steps pass back to their pre-state. -/
theorem foldlM_simulation {τ ε : Type*} {stepA : σ → α → Option σ}
    {stepB : τ → α → Except ε τ} {R : σ → τ → Prop} {ok : σ → Prop}
    (hstep : ∀ s t x s', R s t → stepA s x = some s' → ok s' →
      ∃ t', stepB t x = .ok t' ∧ R s' t')
    (hok : ∀ s x s', stepA s x = some s' → ok s' → ok s) :
    ∀ (xs : List α) {s s' : σ} {t : τ}, R s t → xs.foldlM stepA s = some s' → ok s' →
      ∃ t', xs.foldlM stepB t = .ok t' ∧ R s' t'
  | [], _, _, t, hR, h, _ => by
    simp only [List.foldlM_nil, Option.pure_def, Option.some.injEq] at h
    exact ⟨t, rfl, h ▸ hR⟩
  | x :: xs, s, _, t, hR, h, hs' => by
    simp only [List.foldlM_cons] at h ⊢
    obtain ⟨s₁, h₁, h₂⟩ := Option.bind_eq_some_iff.mp h
    -- the bound at the end of the run holds after the first step
    have hok₁ : ok s₁ := foldlM_backward hok xs h₂ hs'
    obtain ⟨t₁, ht₁, hR₁⟩ := hstep s t x s₁ hR h₁ hok₁
    obtain ⟨t', ht', hR'⟩ := foldlM_simulation hstep hok xs hR₁ h₂ hs'
    exact ⟨t', by rw [ht₁]; exact ht', hR'⟩

/-! ## Transactions that abort with a reason

A transaction whose aborts carry a reason is a step into `Except ε σ`; it commits through
`Except.toOption`. A successful bind is taken apart with `bind_eq_ok`, and a failed one with
`bind_eq_error`. -/

theorem ok_bind {ε : Type u} {β γ : Type v} {b : β} {f : β → Except ε γ} :
    (Except.ok b >>= f) = f b := rfl

theorem error_bind {ε : Type u} {β γ : Type v} {e : ε} {f : β → Except ε γ} :
    (Except.error e >>= f) = .error e := rfl

theorem bind_eq_ok {ε : Type u} {β γ : Type v} {x : Except ε β} {f : β → Except ε γ} {c : γ} :
    x >>= f = .ok c ↔ ∃ b, x = .ok b ∧ f b = .ok c := by
  cases x <;> simp [bind, Except.bind]

theorem bind_eq_error {ε : Type u} {β γ : Type v} {x : Except ε β} {f : β → Except ε γ} {e : ε} :
    x >>= f = .error e ↔ x = .error e ∨ ∃ b, x = .ok b ∧ f b = .error e := by
  cases x <;> simp [bind, Except.bind]

/-- A computation fails with `e` only where one of its parts does. -/
theorem bind_ne_error {ε : Type u} {β γ : Type v} {x : Except ε β} {f : β → Except ε γ} {e : ε}
    (hx : x ≠ .error e) (hf : ∀ b, x = .ok b → f b ≠ .error e) : x >>= f ≠ .error e := by
  intro h
  rcases bind_eq_error.mp h with h' | ⟨b, hb, h'⟩
  · exact hx h'
  · exact hf b hb h'

/-- A guard such as Move's `assert!`, as a `do` block leaves it: the guarded rest runs when
the condition holds, and otherwise the transaction aborts whatever would have followed. -/
theorem ite_throw_bind_eq_ok {ε : Type u} {β γ : Type v} {p : Prop} [Decidable p]
    {x : Except ε β} {e : ε} {k : γ → Except ε β} {b : β} :
    (if p then x else throw e >>= k) = .ok b ↔ p ∧ x = .ok b := by
  by_cases hp : p <;> simp [hp, throw, throwThe, MonadExceptOf.throw, bind, Except.bind]

/-- A guard fails with `e` only where the guarded rest does, unless it throws `e` itself. -/
theorem ite_throw_bind_ne_error {ε : Type u} {β γ : Type v} {p : Prop} [Decidable p]
    {x : Except ε β} {e e' : ε} {k : γ → Except ε β} (hx : p → x ≠ .error e) (he : e' ≠ e) :
    (if p then x else throw e' >>= k) ≠ .error e := by
  by_cases hp : p
  · rw [if_pos hp]
    exact hx hp
  · simpa [hp, throw, throwThe, MonadExceptOf.throw, bind, Except.bind] using he

/-- The loop rule for a loop over the entries of `xs` that does not abort: an invariant of
the entries already visited, the entries still to come and the loop's state that holds
before the loop and that each round keeps holds after the last round. -/
theorem foldlM_ok_invariant {ε : Type u} {σ α : Type v} {step : σ → α → Except ε σ}
    {inv : List α → List α → σ → Prop} {xs : List α}
    (hstep : ∀ done x rest s s', done ++ x :: rest = xs → inv done (x :: rest) s →
      step s x = .ok s' → inv (done ++ [x]) rest s')
    {s s' : σ} (hs : inv [] xs s) (h : xs.foldlM step s = .ok s') : inv xs [] s' := by
  -- induction on the entries still to come, the visited ones in front of them
  suffices hloop : ∀ (rest done : List α) (t : σ), done ++ rest = xs → inv done rest t →
      rest.foldlM step t = .ok s' → inv xs [] s' from
    hloop xs [] s (List.nil_append xs) hs h
  intro rest
  induction rest with
  | nil =>
    intro done t hxs ht hrun
    simp only [List.foldlM_nil, pure, Except.pure, Except.ok.injEq] at hrun
    rw [List.append_nil] at hxs
    rw [← hrun, ← hxs]
    exact ht
  | cons x rest ih =>
    intro done t hxs ht hrun
    rw [List.foldlM_cons] at hrun
    obtain ⟨t₁, h₁, h₂⟩ := bind_eq_ok.mp hrun
    have hxs' : (done ++ [x]) ++ rest = xs := by rw [← hxs]; simp
    exact ih (done ++ [x]) t₁ hxs' (hstep done x rest t t₁ hxs ht h₁) h₂

/-- The loop rule for a loop over the entries of `xs` that runs to its end: when each round,
from a state of the invariant of the entries visited so far, succeeds into a state of the
invariant of one more entry, the loop succeeds into a state of the invariant of all entries. -/
theorem foldlM_exists_ok {ε : Type u} {σ α : Type v} {step : σ → α → Except ε σ}
    {inv : List α → σ → Prop} {xs : List α}
    (hstep : ∀ done x rest s, done ++ x :: rest = xs → inv done s →
      ∃ s', step s x = .ok s' ∧ inv (done ++ [x]) s')
    {s : σ} (hs : inv [] s) : ∃ s', xs.foldlM step s = .ok s' ∧ inv xs s' := by
  -- induction on the entries still to come, the visited ones in front of them
  suffices hloop : ∀ (rest done : List α) (t : σ), done ++ rest = xs → inv done t →
      ∃ s', rest.foldlM step t = .ok s' ∧ inv xs s' from
    hloop xs [] s (List.nil_append xs) hs
  intro rest
  induction rest with
  | nil =>
    intro done t hxs ht
    rw [List.append_nil] at hxs
    exact ⟨t, rfl, hxs ▸ ht⟩
  | cons x rest ih =>
    intro done t hxs ht
    obtain ⟨t', hstep', ht'⟩ := hstep done x rest t hxs ht
    have hxs' : (done ++ [x]) ++ rest = xs := by rw [← hxs]; simp
    rw [List.foldlM_cons, hstep', ok_bind]
    exact ih (done ++ [x]) t' hxs' ht'

/-- The loop rule with an invariant of both the entries visited and those still to come. -/
theorem foldlM_exists_ok_split {ε : Type u} {σ α : Type v} {step : σ → α → Except ε σ}
    {inv : List α → List α → σ → Prop} {xs : List α}
    (hstep : ∀ done x rest s, done ++ x :: rest = xs → inv done (x :: rest) s →
      ∃ s', step s x = .ok s' ∧ inv (done ++ [x]) rest s')
    {s : σ} (hs : inv [] xs s) : ∃ s', xs.foldlM step s = .ok s' ∧ inv xs [] s' := by
  -- the entries to come are what follows the visited ones in `xs`
  have h := @foldlM_exists_ok ε σ α step
    (fun done t => ∃ rest, done ++ rest = xs ∧ inv done rest t) xs ?_ s ⟨xs, rfl, hs⟩
  · rcases h with ⟨s', hrun, rest, hrest, hinv⟩
    have hnil : rest = [] := by simpa using hrest
    exact ⟨s', hrun, hnil ▸ hinv⟩
  · rintro done x rest t hxs ⟨rest', hrest', ht⟩
    have hr : rest' = x :: rest := List.append_cancel_left (hrest'.trans hxs.symm)
    rw [hr] at ht
    obtain ⟨t', hstep', ht'⟩ := hstep done x rest t hxs ht
    exact ⟨t', hstep', rest, by rw [← hxs]; simp, ht'⟩

/-- The loop rule for a loop that runs to its end: when each round, from the state that the
entries visited so far determine, succeeds into the state of one more entry, the loop succeeds
into the state of all entries. -/
theorem foldlM_eq_ok_of_step {ε : Type u} {σ α : Type v} {step : σ → α → Except ε σ}
    {F : List α → σ} {xs : List α}
    (hstep : ∀ done x rest, done ++ x :: rest = xs → step (F done) x = .ok (F (done ++ [x]))) :
    xs.foldlM step (F []) = .ok (F xs) := by
  -- induction on the entries still to come, the visited ones in front of them
  suffices hloop : ∀ (rest done : List α), done ++ rest = xs →
      rest.foldlM step (F done) = .ok (F xs) from
    hloop xs [] (List.nil_append xs)
  intro rest
  induction rest with
  | nil =>
    intro done hxs
    rw [List.append_nil] at hxs
    rw [hxs]
    rfl
  | cons x rest ih =>
    intro done hxs
    have hxs' : (done ++ [x]) ++ rest = xs := by rw [← hxs]; simp
    rw [List.foldlM_cons, hstep done x rest hxs]
    exact ih (done ++ [x]) hxs'

/-- An entry of a counting loop `for i in 0..n` is the number of entries before it. -/
theorem eq_length_of_append_cons_eq_range {done rest : List Nat} {x n : Nat}
    (h : done ++ x :: rest = List.range n) : x = done.length := by
  have hlt : done.length < (List.range n).length := by
    rw [← h]
    simp
  have hx : (done ++ x :: rest)[done.length]? = some x := by simp
  rw [h, List.getElem?_range (by simpa using hlt)] at hx
  exact (Option.some.inj hx).symm

/-- The loop rule for a counting loop `for k in 0..n` whose every round succeeds: a state for
each number of rounds done, which round `k` takes to the next. -/
theorem foldlM_range_eq_ok {ε : Type u} {σ : Type} {step : σ → Nat → Except ε σ} {F : Nat → σ}
    {n : Nat} (hstep : ∀ k < n, step (F k) k = .ok (F (k + 1))) :
    (List.range n).foldlM step (F 0) = .ok (F n) := by
  have h := @foldlM_eq_ok_of_step ε σ Nat step (fun done => F done.length) (List.range n) ?_
  · simpa using h
  · intro done x rest hxs
    have hx := eq_length_of_append_cons_eq_range hxs
    have hlt : done.length < n := by
      have hlen := congrArg List.length hxs
      simp only [List.length_append, List.length_cons, List.length_range] at hlen
      omega
    subst hx
    simpa using hstep _ hlt

/-- The loop rule for a counting loop `for k in 0..n` with an invariant of the rounds done:
when round `k` succeeds from every state of the invariant at `k` into one of the invariant at
`k + 1`, the loop succeeds into a state of the invariant at `n`. -/
theorem foldlM_range_invariant {ε : Type u} {σ : Type} {step : σ → Nat → Except ε σ}
    {inv : Nat → σ → Prop} {init : σ} (h0 : inv 0 init) :
    ∀ {n : Nat}, (∀ k < n, ∀ s, inv k s → ∃ s', step s k = .ok s' ∧ inv (k + 1) s') →
      ∃ s, (List.range n).foldlM step init = .ok s ∧ inv n s
  | 0, _ => ⟨init, rfl, h0⟩
  | n + 1, hstep => by
    obtain ⟨s, hs, hinv⟩ := foldlM_range_invariant h0 (n := n) fun k hk => hstep k (by omega)
    obtain ⟨s', hs', hinv'⟩ := hstep n (by omega) s hinv
    refine ⟨s', ?_, hinv'⟩
    rw [List.range_succ, List.foldlM_append, hs, ok_bind, List.foldlM_cons, hs', ok_bind]
    rfl

/-- A counting loop whose first round aborts aborts with it. -/
theorem foldlM_range_eq_error {ε : Type u} {σ : Type} {step : σ → Nat → Except ε σ} {init : σ}
    {e : ε} {n : Nat} (hn : 0 < n) (h : step init 0 = .error e) :
    (List.range n).foldlM step init = .error e := by
  obtain ⟨m, rfl⟩ := Nat.exists_eq_add_of_lt hn
  rw [List.range_succ_eq_map, List.foldlM_cons, h]
  rfl

/-- A counting loop that reaches round `b` in a state where that round aborts aborts with it. -/
theorem foldlM_range_eq_error_of {ε : Type u} {σ : Type} {step : σ → Nat → Except ε σ}
    {init s : σ} {e : ε} {n b : Nat} (hb : b < n)
    (hpre : (List.range b).foldlM step init = .ok s) (h : step s b = .error e) :
    (List.range n).foldlM step init = .error e := by
  obtain ⟨m, rfl⟩ := Nat.exists_eq_add_of_lt hb
  -- the rounds before `b`, then round `b` itself
  rw [Nat.add_assoc, List.range_add, List.foldlM_append, hpre, ok_bind, List.range_succ_eq_map]
  simp only [List.map_cons, Nat.add_zero, List.foldlM_cons, h]
  rfl

/-- A loop that collects the results of its rounds, every round succeeding. -/
theorem mapM_eq_ok {ε : Type u} {α β : Type v} {f : α → Except ε β} {F : α → β} :
    ∀ {xs : List α}, (∀ x ∈ xs, f x = .ok (F x)) → xs.mapM f = .ok (xs.map F)
  | [], _ => rfl
  | x :: xs, h => by
    rw [List.mapM_cons, h x List.mem_cons_self, ok_bind,
      mapM_eq_ok fun y hy => h y (List.mem_cons_of_mem _ hy)]
    rfl

/-- A loop that collects the results of its rounds succeeds when each round does. -/
theorem mapM_isOk {ε : Type u} {α β : Type v} {f : α → Except ε β} :
    ∀ {xs : List α}, (∀ x ∈ xs, ∃ y, f x = .ok y) → ∃ ys, xs.mapM f = .ok ys
  | [], _ => ⟨[], rfl⟩
  | x :: xs, h => by
    obtain ⟨y, hy⟩ := h x List.mem_cons_self
    obtain ⟨ys, hys⟩ := mapM_isOk fun x' hx' => h x' (List.mem_cons_of_mem _ hx')
    refine ⟨y :: ys, ?_⟩
    rw [List.mapM_cons, hy, ok_bind, hys]
    rfl

/-- A loop that collects the results of its rounds succeeds exactly when each round succeeds,
with the results side by side. -/
theorem mapM_eq_ok_iff {ε : Type u} {α β : Type v} {f : α → Except ε β} :
    ∀ {xs : List α} {ys : List β}, xs.mapM f = .ok ys ↔ List.Forall₂ (fun x y => f x = .ok y) xs ys
  | [], ys => by
    cases ys
    · exact iff_of_true rfl .nil
    · exact iff_of_false (fun h => by cases h) (fun h => by cases h)
  | x :: xs, ys => by
    rw [List.mapM_cons, bind_eq_ok]
    constructor
    · rintro ⟨y, hy, hrest⟩
      obtain ⟨ys', hys', hret⟩ := bind_eq_ok.mp hrest
      cases hret
      exact .cons hy (mapM_eq_ok_iff.mp hys')
    · intro h
      cases h with
      | cons hy hrest => exact ⟨_, hy, by rw [mapM_eq_ok_iff.mpr hrest]; rfl⟩

/-- A loop over the indices of a list that collects, at each index, a value of the entry
there. -/
theorem mapM_range_length_eq_ok {ε : Type u} {α β : Type} {f : Nat → Except ε β} {G : α → β}
    (l : List α) (h : ∀ i (hi : i < l.length), f i = .ok (G l[i])) :
    (List.range l.length).mapM f = .ok (l.map G) := by
  refine mapM_eq_ok_iff.mpr (List.forall₂_iff_get.mpr ⟨by simp, fun i h₁ h₂ => ?_⟩)
  rw [List.get_eq_getElem, List.get_eq_getElem, List.getElem_range, List.getElem_map]
  exact h i (by simpa using h₁)

@[simp] theorem mapError_ok {ε ε' β : Type u} {g : ε → ε'} {b : β} :
    (Except.ok b : Except ε β).mapError g = .ok b := rfl

@[simp] theorem mapError_error {ε ε' β : Type u} {g : ε → ε'} {e : ε} :
    (Except.error e : Except ε β).mapError g = .error (g e) := rfl

theorem mapError_eq_ok {ε ε' β : Type u} {g : ε → ε'} {x : Except ε β} {b : β} :
    x.mapError g = .ok b ↔ x = .ok b := by
  cases x <;> simp

/-- A loop over `0..n` that collects its results and whose first round aborts aborts with it. -/
theorem mapM_range_eq_error {ε : Type u} {β : Type} {f : Nat → Except ε β} {e : ε} {n : Nat}
    (hn : 0 < n) (h : f 0 = .error e) : (List.range n).mapM f = .error e := by
  obtain ⟨m, rfl⟩ := Nat.exists_eq_add_of_lt hn
  rw [List.range_succ_eq_map, List.mapM_cons, h]
  rfl

/-- A loop that collects the results of its rounds fails with `e` only where a round does. -/
theorem mapM_ne_error {ε : Type u} {α β : Type v} {f : α → Except ε β} {e : ε}
    (hf : ∀ x, f x ≠ .error e) : ∀ xs : List α, xs.mapM f ≠ .error e
  | [], h => by cases h
  | x :: xs, h => by
    rw [List.mapM_cons] at h
    rcases bind_eq_error.mp h with hx | ⟨y, -, hrest⟩
    · exact hf x hx
    · rcases bind_eq_error.mp hrest with hxs | ⟨ys, -, hret⟩
      · exact mapM_ne_error hf xs hxs
      · cases hret

/-- Two loops whose rounds agree on the entries of `xs` agree. -/
theorem foldlM_congr {ε : Type u} {σ α : Type v} {step step' : σ → α → Except ε σ} :
    ∀ {xs : List α}, (∀ s, ∀ x ∈ xs, step s x = step' s x) → ∀ s,
      xs.foldlM step s = xs.foldlM step' s
  | [], _, _ => rfl
  | x :: xs, h, s => by
    rw [List.foldlM_cons, List.foldlM_cons, h s x List.mem_cons_self]
    congr 1
    funext s'
    exact foldlM_congr (fun s'' y hy => h s'' y (List.mem_cons_of_mem x hy)) s'

/-- A loop fails with `e` only where a round does. -/
theorem foldlM_ne_error {ε : Type u} {σ α : Type v} {step : σ → α → Except ε σ} {e : ε}
    (hstep : ∀ s x, step s x ≠ .error e) : ∀ (xs : List α) (s : σ), xs.foldlM step s ≠ .error e
  | [], _, h => by cases h
  | x :: xs, s, h => by
    rw [List.foldlM_cons] at h
    rcases bind_eq_error.mp h with hx | ⟨s', -, hrest⟩
    · exact hstep s x hx
    · exact foldlM_ne_error hstep xs s' hrest

theorem toOption_eq_some {ε β : Type*} {x : Except ε β} {b : β} :
    x.toOption = some b ↔ x = .ok b := by
  cases x <;> simp [Except.toOption]

/-- The loop rule for a loop whose rounds abort only with `e`: when from a state of the
invariant every round either aborts with `e` or succeeds into a state of the invariant of one
more entry, the loop aborts with `e` or succeeds into a state of the invariant of all entries. -/
theorem foldlM_eq_error_or_exists_ok {ε : Type u} {σ α : Type v} {step : σ → α → Except ε σ}
    {inv : List α → σ → Prop} {xs : List α} {e : ε}
    (hstep : ∀ done x rest s, done ++ x :: rest = xs → inv done s →
      step s x = .error e ∨ ∃ s', step s x = .ok s' ∧ inv (done ++ [x]) s')
    {s : σ} (hs : inv [] s) :
    xs.foldlM step s = .error e ∨ ∃ s', xs.foldlM step s = .ok s' ∧ inv xs s' := by
  -- induction on the entries still to come, the visited ones in front of them
  suffices hloop : ∀ (rest done : List α) (t : σ), done ++ rest = xs → inv done t →
      rest.foldlM step t = .error e ∨ ∃ s', rest.foldlM step t = .ok s' ∧ inv xs s' from
    hloop xs [] s (List.nil_append xs) hs
  intro rest
  induction rest with
  | nil =>
    intro done t hxs ht
    rw [List.append_nil] at hxs
    exact .inr ⟨t, rfl, hxs ▸ ht⟩
  | cons x rest ih =>
    intro done t hxs ht
    have hxs' : (done ++ [x]) ++ rest = xs := by rw [← hxs]; simp
    rcases hstep done x rest t hxs ht with herr | ⟨t', hstep', ht'⟩
    · left
      rw [List.foldlM_cons, herr]
      rfl
    · rw [List.foldlM_cons, hstep', ok_bind]
      exact ih (done ++ [x]) t' hxs' ht'

/-! ## While loops

A `while` loop whose condition and body can abort: the condition is evaluated before every
round, and the loop ends when it is false. The loop terminates because every round lowers a
measure; `whileM_invariant` carries an invariant to the exit, and `whileM_exists_ok` says
that the loop returns when no evaluation of the condition and no round of the body aborts. -/

section While

variable {ε : Type u} {σ : Type v}

-- the two equations of the matches are read only by the termination proof
set_option linter.unusedVariables false in
/-- `while (cond) { body }`, for a loop whose every round lowers `measure`. -/
def whileM (cond : σ → Except ε Bool) (body : σ → Except ε σ) (measure : σ → Nat)
    (hdec : ∀ s s', cond s = .ok true → body s = .ok s' → measure s' < measure s) (s : σ) :
    Except ε σ :=
  match hc : cond s with
  | .error e => .error e
  | .ok false => .ok s
  | .ok true =>
    match hb : body s with
    | .error e => .error e
    | .ok s' => whileM cond body measure hdec s'
termination_by measure s
decreasing_by exact hdec s s' hc hb

variable {cond : σ → Except ε Bool} {body : σ → Except ε σ} {measure : σ → Nat}
  {hdec : ∀ s s', cond s = .ok true → body s = .ok s' → measure s' < measure s}

theorem whileM_of_false {s : σ} (h : cond s = .ok false) :
    whileM cond body measure hdec s = .ok s := by
  rw [whileM]
  split
  next e hc => exact absurd (hc.symm.trans h) (by simp)
  next hc => rfl
  next hc => exact absurd (hc.symm.trans h) (by simp)

theorem whileM_of_true {s s' : σ} (hc : cond s = .ok true) (hb : body s = .ok s') :
    whileM cond body measure hdec s = whileM cond body measure hdec s' := by
  rw [whileM]
  split
  next e hc' => exact absurd (hc'.symm.trans hc) (by simp)
  next hc' => exact absurd (hc'.symm.trans hc) (by simp)
  next hc' =>
    split
    next e hb' => exact absurd (hb'.symm.trans hb) (by simp)
    next s'' hb' => rw [Except.ok.inj (hb'.symm.trans hb)]

/-- The loop rule: an invariant that holds before the loop and that every round keeps holds
when the loop returns, with the condition false. -/
theorem whileM_invariant {inv : σ → Prop}
    (hstep : ∀ s s', inv s → cond s = .ok true → body s = .ok s' → inv s') :
    ∀ {s t : σ}, inv s → whileM cond body measure hdec s = .ok t → inv t ∧ cond t = .ok false := by
  intro s
  -- induction on the measure, which every round lowers
  induction hm : measure s using Nat.strongRecOn generalizing s with
  | ind m ih =>
    intro t hs h
    cases hc : cond s with
    | error e =>
      rw [whileM] at h
      split at h
      next => cases h
      next hc' => exact absurd (hc'.symm.trans hc) (by simp)
      next hc' => exact absurd (hc'.symm.trans hc) (by simp)
    | ok b =>
      cases b with
      | false =>
        rw [whileM_of_false hc] at h
        cases h
        exact ⟨hs, hc⟩
      | true =>
        cases hb : body s with
        | error e =>
          rw [whileM] at h
          split at h
          next e' hc' => exact absurd (hc'.symm.trans hc) (by simp)
          next hc' => exact absurd (hc'.symm.trans hc) (by simp)
          next hc' =>
            split at h
            next => cases h
            next s'' hb' => exact absurd (hb'.symm.trans hb) (by simp)
        | ok s' =>
          rw [whileM_of_true hc hb] at h
          exact ih (measure s') (hm ▸ hdec s s' hc hb) rfl (hstep s s' hs hc hb) h

/-- The loop returns, into a state of the invariant where the condition is false, when under
the invariant the condition never aborts and a round that runs neither aborts nor leaves the
invariant. -/
theorem whileM_exists_ok {inv : σ → Prop} (hcond : ∀ s, inv s → ∃ b, cond s = .ok b)
    (hbody : ∀ s, inv s → cond s = .ok true → ∃ s', body s = .ok s' ∧ inv s') :
    ∀ {s : σ}, inv s → ∃ t, whileM cond body measure hdec s = .ok t ∧ inv t ∧
      cond t = .ok false := by
  intro s
  induction hm : measure s using Nat.strongRecOn generalizing s with
  | ind m ih =>
    intro hs
    obtain ⟨b, hc⟩ := hcond s hs
    cases b with
    | false => exact ⟨s, whileM_of_false hc, hs, hc⟩
    | true =>
      obtain ⟨s', hb, hs'⟩ := hbody s hs hc
      rw [whileM_of_true hc hb]
      exact ih (measure s') (hm ▸ hdec s s' hc hb) rfl hs'

end While

end Machine
