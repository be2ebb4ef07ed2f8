import Walrus.Contracts.StorageAccounting

/-! # Storage accounting is sound

The capacity the ring buffer records as used for an epoch covers every storage object alive
for it. Each live `Storage` holds `storage_size` for each epoch of its period; the *demand*
of an epoch is what the live objects hold for it together. Along every run of the storage
calls:

* the window of the ring buffer is aligned with the epochs from the current one on;
* `used_capacity_size` is the used capacity of the current epoch's entry;
* every live storage object ends within the window;
* for every epoch of the window, the demand is at most the used capacity of its entry.

Reservations charge exactly the epochs of the storage they create; `extend_blob` charges the
epochs it adds; splits and fuses only redistribute sizes over epochs (`Storage.Parts`); and an
epoch change drops the current epoch and appends an epoch no live object reaches yet.
-/

namespace Walrus.System

open Machine

/-! ## What a storage object holds -/

namespace Storage

variable {st a b f : Storage}

/-- The size the storage holds for the epoch `e`. -/
def sizeAt (st : Storage) (e : Nat) : Nat :=
  if st.startEpoch ≤ e ∧ e < st.endEpoch then st.storageSize else 0

/-- A storage over a non-empty period, as `create_storage` makes them. -/
def Valid (st : Storage) : Prop :=
  st.startEpoch < st.endEpoch

/-- `whole` holds, for every epoch, what `a` and `b` hold together, and ends with the later
of the two. -/
structure Parts (whole a b : Storage) : Prop where
  sizeAt : ∀ e, whole.sizeAt e = a.sizeAt e + b.sizeAt e
  endEpoch : whole.endEpoch = max a.endEpoch b.endEpoch

theorem splitByEpoch_parts {splitEpoch : Nat} (h : st.splitByEpoch splitEpoch = .ok (a, b)) :
    st.Parts a b ∧ a.Valid ∧ b.Valid := by
  obtain ⟨hlo, hhi, rfl, rfl⟩ := splitByEpoch_eq_ok.mp h
  refine ⟨⟨fun e => ?_, by simp; omega⟩, hlo, hhi⟩
  -- the epochs before the split go to the first part, the others to the second
  by_cases he : e < splitEpoch
  · have hb : ¬(splitEpoch ≤ e ∧ e < st.endEpoch) := by omega
    simp only [sizeAt, hb, if_false, Nat.add_zero]
    by_cases hs : st.startEpoch ≤ e
    · have h₁ : st.startEpoch ≤ e ∧ e < st.endEpoch := by omega
      rw [if_pos h₁, if_pos ⟨hs, he⟩]
    · have h₁ : ¬(st.startEpoch ≤ e ∧ e < st.endEpoch) := by omega
      have h₂ : ¬(st.startEpoch ≤ e ∧ e < splitEpoch) := by omega
      rw [if_neg h₁, if_neg h₂]
  · have ha : ¬(st.startEpoch ≤ e ∧ e < splitEpoch) := by omega
    simp only [sizeAt, ha, if_false, Nat.zero_add]
    by_cases hs : e < st.endEpoch
    · have h₁ : st.startEpoch ≤ e ∧ e < st.endEpoch := by omega
      have h₂ : splitEpoch ≤ e ∧ e < st.endEpoch := by omega
      rw [if_pos h₁, if_pos h₂]
    · have h₁ : ¬(st.startEpoch ≤ e ∧ e < st.endEpoch) := by omega
      have h₂ : ¬(splitEpoch ≤ e ∧ e < st.endEpoch) := by omega
      rw [if_neg h₁, if_neg h₂]

theorem splitBySize_parts (hst : st.Valid) {splitSize : Nat}
    (h : st.splitBySize splitSize = .ok (a, b)) : st.Parts a b ∧ a.Valid ∧ b.Valid := by
  obtain ⟨hle, rfl, rfl⟩ := splitBySize_eq_ok.mp h
  refine ⟨⟨fun e => ?_, by simp⟩, hst, hst⟩
  simp only [sizeAt]
  split <;> omega

/-- Two storages over adjacent periods, either way round, fuse into one over both. -/
theorem fusePeriods_parts (ha : a.Valid) (hb : b.Valid) (h : a.fusePeriods b = .ok f) :
    f.Parts a b ∧ f.Valid := by
  unfold Valid at ha hb
  obtain ⟨hsize, ⟨hab, rfl⟩ | ⟨-, hba, rfl⟩⟩ := fusePeriods_eq_ok.mp h
  · -- `b` starts where `a` ends
    refine ⟨⟨fun e => ?_, by simp; omega⟩, by simp [Valid]; omega⟩
    simp only [sizeAt]
    split <;> split <;> split <;> omega
  · -- `a` starts where `b` ends
    refine ⟨⟨fun e => ?_, by simp; omega⟩, by simp [Valid]; omega⟩
    simp only [sizeAt]
    split <;> split <;> split <;> omega

theorem fuseAmount_parts (ha : a.Valid) (h : a.fuseAmount b = .ok f) :
    f.Parts a b ∧ f.Valid := by
  obtain ⟨hs, he, -, rfl⟩ := fuseAmount_eq_ok.mp h
  refine ⟨⟨fun e => ?_, by simp [he]⟩, ha⟩
  simp only [sizeAt, hs, he]
  split <;> omega

theorem fuse_parts (ha : a.Valid) (hb : b.Valid) (h : a.fuse b = .ok f) :
    f.Parts a b ∧ f.Valid := by
  unfold fuse at h
  split at h
  · exact fuseAmount_parts ha h
  · exact fusePeriods_parts ha hb h

/-- Moving the end of a storage by `x` epochs adds its size to those epochs. -/
theorem sizeAt_extend (hst : st.Valid) (x e : Nat) :
    ({ st with endEpoch := st.endEpoch + x } : Storage).sizeAt e =
      st.sizeAt e + if st.endEpoch ≤ e ∧ e < st.endEpoch + x then st.storageSize else 0 := by
  simp only [sizeAt, Valid] at hst ⊢
  split <;> split <;> split <;> omega

end Storage

/-! ## The demand of an epoch -/

/-- What the storage objects `storages` hold for the epoch `e` together. -/
def demand (storages : List Storage) (e : Nat) : Nat :=
  (storages.map (·.sizeAt e)).sum

section Demand

variable {l : List Storage} {i : Nat} {st old : Storage} {e : Nat}

theorem demand_nil (e : Nat) : demand [] e = 0 := rfl

theorem demand_concat (l : List Storage) (st : Storage) (e : Nat) :
    demand (l ++ [st]) e = demand l e + st.sizeAt e := by
  simp [demand]

theorem demand_set (h : l[i]? = some old) (st : Storage) (e : Nat) :
    demand (l.set i st) e + old.sizeAt e = demand l e + st.sizeAt e := by
  obtain ⟨hi, rfl⟩ := List.getElem?_eq_some_iff.mp h
  exact sum_map_set _ l i st hi

theorem demand_eraseIdx (h : l[i]? = some old) (e : Nat) :
    demand (l.eraseIdx i) e + old.sizeAt e = demand l e := by
  obtain ⟨hi, rfl⟩ := List.getElem?_eq_some_iff.mp h
  exact sum_map_eraseIdx _ l i hi

/-- No storage ending by `e` holds anything for it. -/
theorem demand_eq_zero (h : ∀ st ∈ l, st.endEpoch ≤ e) : demand l e = 0 := by
  unfold demand
  rw [List.sum_eq_zero]
  intro n hn
  obtain ⟨st, hst, rfl⟩ := List.mem_map.mp hn
  have hend := h st hst
  simp only [Storage.sizeAt]
  rw [if_neg (by omega)]

/-- Replacing a storage by two parts leaves every demand as it was. -/
theorem demand_split {whole a b : Storage} (h : l[i]? = some whole) (hp : whole.Parts a b)
    (e : Nat) : demand (l.set i a ++ [b]) e = demand l e := by
  have hset := demand_set h a e
  rw [demand_concat]
  rw [hp.sizeAt e] at hset
  omega

/-- Fusing two distinct storages into the first leaves every demand as it was. -/
theorem demand_fuse {j : Nat} {a b f : Storage} (hij : i ≠ j) (ha : l[i]? = some a)
    (hb : l[j]? = some b) (hp : f.Parts a b) (e : Nat) :
    demand ((l.set i f).eraseIdx j) e = demand l e := by
  have hb' : (l.set i f)[j]? = some b := by rw [List.getElem?_set_ne hij]; exact hb
  have herase := demand_eraseIdx hb' e
  have hset := demand_set ha f e
  rw [hp.sizeAt e] at hset
  omega

end Demand

/-! ## The invariant -/

namespace StorageSystem

variable {s s' : StorageSystem}

/-- The invariant of every reachable state. -/
structure Inv (s : StorageSystem) : Prop where
  /-- The entry `k` places into the window is the one of the epoch `k` epochs ahead. -/
  window_epoch : s.futureAccounting.window.map FutureAccounting.epoch =
    List.range' s.epoch s.futureAccounting.length
  used_eq : s.UsedEq
  storage_range : ∀ st ∈ s.storages,
    st.Valid ∧ st.endEpoch ≤ s.epoch + s.futureAccounting.length
  covered : ∀ k a, s.futureAccounting.window[k]? = some a →
    demand s.storages (s.epoch + k) ≤ a.usedCapacity

theorem Inv.ringOk (hI : s.Inv) : s.RingOk := by
  have h := congrArg List.length hI.window_epoch
  simpa [RingOk] using h

theorem map_epoch_mapRange (amt lo hi : Nat) (w : List FutureAccounting) :
    (mapRange (·.addUsedCapacity amt) lo hi w).map FutureAccounting.epoch =
      w.map FutureAccounting.epoch := by
  apply List.ext_getElem?
  intro k
  simp only [List.getElem?_map, getElem?_mapRange, Option.map_map]
  cases w[k]? with
  | none => rfl
  | some a =>
    simp only [Option.map_some, Function.comp_apply]
    split <;> rfl

theorem init_inv (maxEpochsAhead : Nat) : (createEmpty maxEpochsAhead).Inv where
  window_epoch := by
    simp only [createEmpty]
    rw [FutureAccountingRingBuffer.window_ringNew]
    simp [FutureAccountingRingBuffer.ringNew, List.range_eq_range', Function.comp_def]
  used_eq := by
    intro a ha
    simp only [createEmpty, FutureAccountingRingBuffer.window_ringNew, List.getElem?_map,
      Option.map_eq_some_iff] at ha
    obtain ⟨_, -, rfl⟩ := ha
    rfl
  storage_range := by simp [createEmpty]
  covered := by
    intro k a _
    simp [createEmpty, demand_nil]

/-- The rule behind every call but the epoch change: after the window positions `lo` to
`hi - 1` are charged `amt`, live storage objects that together hold at most `amt` more for
those epochs, and nothing more for the others, keep the invariant. -/
theorem Inv.charged (hI : s.Inv) {amt lo hi : Nat} (hc : Charged amt lo hi s s')
    {l : List Storage}
    (hrange : ∀ st ∈ l, st.Valid ∧ st.endEpoch ≤ s.epoch + s.futureAccounting.length)
    (hdemand : ∀ k, demand l (s.epoch + k) ≤
      demand s.storages (s.epoch + k) + if lo ≤ k ∧ k < hi then amt else 0) :
    ({ s' with storages := l } : StorageSystem).Inv where
  window_epoch := by
    show s'.futureAccounting.window.map _ = List.range' s'.epoch s'.futureAccounting.length
    rw [hc.window, map_epoch_mapRange, hc.epoch, hc.length]
    exact hI.window_epoch
  used_eq := hc.usedEq hI.used_eq
  storage_range := by
    intro st hst
    show st.Valid ∧ st.endEpoch ≤ s'.epoch + s'.futureAccounting.length
    rw [hc.epoch, hc.length]
    exact hrange st hst
  covered := by
    intro k a ha
    show demand l (s'.epoch + k) ≤ a.usedCapacity
    have ha' : (mapRange (·.addUsedCapacity amt) lo hi s.futureAccounting.window)[k]? = some a := by
      rw [← hc.window]
      exact ha
    rw [getElem?_mapRange, Option.map_eq_some_iff] at ha'
    obtain ⟨a₀, ha₀, rfl⟩ := ha'
    have hcov := hI.covered k a₀ ha₀
    have hk := hdemand k
    rw [hc.epoch]
    -- the entry was charged exactly where the demand may have grown
    split at hk
    · rw [if_pos ‹_›]
      simp only [FutureAccounting.usedCapacity_addUsedCapacity]
      omega
    · rw [if_neg ‹_›]
      omega

/-- Calls that only rearrange the live storage objects. -/
theorem Inv.storages (hI : s.Inv) {l : List Storage}
    (hrange : ∀ st ∈ l, st.Valid ∧ st.endEpoch ≤ s.epoch + s.futureAccounting.length)
    (hdemand : ∀ e, demand l e ≤ demand s.storages e) :
    ({ s with storages := l } : StorageSystem).Inv :=
  hI.charged (Charged.refl 0 0 s) hrange fun k => by
    have := hdemand (s.epoch + k)
    omega

/-- A split replaces a live storage object by its two parts. -/
theorem Inv.split (hI : s.Inv) {i : Nat} {whole a b : Storage} (h : s.storages[i]? = some whole)
    (hp : whole.Valid → whole.Parts a b ∧ a.Valid ∧ b.Valid) :
    ({ s with storages := s.storages.set i a ++ [b] } : StorageSystem).Inv := by
  have hw := hI.storage_range whole (List.mem_of_getElem? h)
  obtain ⟨hparts, ha, hb⟩ := hp hw.1
  have hend := hparts.endEpoch
  have hle_a := le_max_left a.endEpoch b.endEpoch
  have hle_b := le_max_right a.endEpoch b.endEpoch
  apply hI.storages
  · intro st hst
    rcases List.mem_append.mp hst with hset | hnew
    · rcases List.mem_or_eq_of_mem_set hset with hold | rfl
      · exact hI.storage_range st hold
      · exact ⟨ha, by omega⟩
    · rw [List.mem_singleton.mp hnew]
      exact ⟨hb, by omega⟩
  · intro e
    rw [demand_split h hparts]

/-- A fuse replaces two distinct live storage objects by one that holds what they held. -/
theorem Inv.fuse (hI : s.Inv) {i j : Nat} {a b f : Storage} (hij : i ≠ j)
    (ha : s.storages[i]? = some a) (hb : s.storages[j]? = some b)
    (hp : a.Valid → b.Valid → f.Parts a b ∧ f.Valid) :
    ({ s with storages := (s.storages.set i f).eraseIdx j } : StorageSystem).Inv := by
  have hra := hI.storage_range a (List.mem_of_getElem? ha)
  have hrb := hI.storage_range b (List.mem_of_getElem? hb)
  obtain ⟨hparts, hf⟩ := hp hra.1 hrb.1
  have hend := hparts.endEpoch
  have hmax : max a.endEpoch b.endEpoch ≤ s.epoch + s.futureAccounting.length :=
    max_le hra.2 hrb.2
  apply hI.storages
  · intro st hst
    rcases List.mem_or_eq_of_mem_set (List.mem_of_mem_eraseIdx hst) with hold | rfl
    · exact hI.storage_range st hold
    · exact ⟨hf, by omega⟩
  · intro e
    rw [demand_fuse hij ha hb hparts]

/-- `destroy` drops a live storage object. -/
theorem Inv.destroy (hI : s.Inv) {i : Nat} {st : Storage} (h : s.storages[i]? = some st) :
    ({ s with storages := s.storages.eraseIdx i } : StorageSystem).Inv := by
  apply hI.storages
  · intro st hst
    exact hI.storage_range st (List.mem_of_mem_eraseIdx hst)
  · intro e
    have := demand_eraseIdx h e
    omega

/-- A reservation charges the epochs of the storage it creates. -/
theorem Inv.reserve (hI : s.Inv) {amt lo hi : Nat} {check : Bool} {st : Storage}
    (h : s.reserveSpaceWithoutPayment amt lo hi check = .ok (s', st)) :
    ({ s' with storages := s'.storages ++ [st] } : StorageSystem).Inv := by
  obtain ⟨hlohi, hhi, hc, rfl⟩ := reserveSpaceWithoutPayment_eq_ok hI.ringOk h
  rw [hc.storages]
  apply hI.charged hc
  · intro st hst
    rcases List.mem_append.mp hst with hold | hnew
    · exact hI.storage_range st hold
    · rw [List.mem_singleton.mp hnew]
      exact ⟨by simp [Storage.Valid]; omega, by simp; omega⟩
  · intro k
    rw [demand_concat]
    simp only [Storage.sizeAt]
    split <;> split <;> omega

/-- The reservation `certify_event_blob` makes is burnt with its blob: only the window moves. -/
theorem Inv.reserve_burnt (hI : s.Inv) {amt lo hi : Nat} {check : Bool} {st : Storage}
    (h : s.reserveSpaceWithoutPayment amt lo hi check = .ok (s', st)) : s'.Inv := by
  obtain ⟨-, -, hc, -⟩ := reserveSpaceWithoutPayment_eq_ok hI.ringOk h
  have hI' := hI.charged (l := s.storages) hc hI.storage_range fun k => Nat.le_add_right _ _
  rwa [← hc.storages] at hI'

/-- `extend_blob` charges exactly the epochs it adds to the storage. -/
theorem Inv.extend (hI : s.Inv) {i x : Nat} {st st' : Storage} (hst : s.storages[i]? = some st)
    (h : s.extendBlob st x = .ok (s', st')) :
    ({ s' with storages := s.storages.set i st' } : StorageSystem).Inv := by
  obtain ⟨hlive, hbound, hc, rfl⟩ := extendBlob_eq_ok hI.ringOk h
  have hvalid := (hI.storage_range st (List.mem_of_getElem? hst)).1
  apply hI.charged hc
  · intro st₁ hst₁
    rcases List.mem_or_eq_of_mem_set hst₁ with hold | rfl
    · exact hI.storage_range st₁ hold
    · exact ⟨by simp [Storage.Valid] at hvalid ⊢; omega, by simp; omega⟩
  · intro k
    have hset := demand_set hst { st with endEpoch := st.endEpoch + x } (s.epoch + k)
    rw [Storage.sizeAt_extend hvalid] at hset
    -- the epochs added to the storage are the offsets the loop charged
    have hiff : (st.endEpoch ≤ s.epoch + k ∧ s.epoch + k < st.endEpoch + x) ↔
        (st.endEpoch - s.epoch ≤ k ∧ k < st.endEpoch - s.epoch + x) := by omega
    simp only [hiff] at hset
    omega

/-- An epoch change drops the current epoch's entry and appends an empty one for an epoch no
live storage reaches. -/
theorem Inv.advance (hI : s.Inv) {capacity : Nat} (h : s.advanceEpoch capacity = .ok s') :
    s'.Inv := by
  obtain ⟨acc, hacc, hep, hepoch, hlen, hw, -, hU, hst⟩ := advanceEpoch_eq_ok hI.ringOk h
  have hwlen := hI.ringOk
  unfold RingOk at hwlen
  have hpos : 0 < s.futureAccounting.length := by
    rw [← hwlen]
    exact (List.getElem?_eq_some_iff.mp hacc).1
  obtain ⟨n, hn⟩ : ∃ n, s.futureAccounting.length = n + 1 := ⟨_, (Nat.succ_pred_eq_of_pos hpos).symm⟩
  constructor
  · -- the window moves one epoch on
    rw [hw, hepoch, hlen, List.map_append, List.map_tail, hI.window_epoch, hn, hep,
      List.range'_succ, List.tail_cons, List.range'_concat]
    simp only [List.map_cons, List.map_nil]
    congr 2
    omega
  · exact hU
  · intro st hmem
    rw [hst] at hmem
    have hst := hI.storage_range st hmem
    refine ⟨hst.1, ?_⟩
    rw [hepoch, hlen]
    omega
  · intro k a ha
    rw [hst, hepoch]
    have htail : s.futureAccounting.window.tail.length = n := by simp [hwlen, hn]
    rw [hw] at ha
    by_cases hk : k < n
    · -- an entry that stays: it was one place further before
      rw [List.getElem?_append_left (by omega), List.getElem?_tail] at ha
      have := hI.covered (k + 1) a ha
      rwa [show s.epoch + 1 + k = s.epoch + (k + 1) by omega]
    · -- the appended entry: no live storage reaches its epoch
      have hk' : k = n := by
        have := (List.getElem?_eq_some_iff.mp ha).1
        simp [htail] at this
        omega
      subst hk'
      rw [List.getElem?_append_right (by omega), htail, Nat.sub_self] at ha
      simp only [List.getElem?_cons_zero, Option.some.injEq] at ha
      subst ha
      have hzero : demand s.storages (s.epoch + 1 + k) = 0 :=
        demand_eq_zero fun st hmem => by
          have := (hI.storage_range st hmem).2
          omega
      rw [hzero]

/-- Every successful call keeps the invariant. -/
theorem step_inv (hI : s.Inv) {c : StorageCall} (h : s.step c = .ok s') : s'.Inv := by
  cases c with
  | reserveSpace amt epochsAhead =>
    obtain ⟨⟨s₁, st⟩, hr, h⟩ := bind_eq_ok.mp h
    simp only [pure, Except.pure, Except.ok.injEq] at h
    subst h
    exact hI.reserve (reserveSpaceForEpochs_eq_ok (reserveSpace_eq_ok hr))
  | reserveSpaceForEpochs amt startEpoch endEpoch =>
    obtain ⟨⟨s₁, st⟩, hr, h⟩ := bind_eq_ok.mp h
    simp only [pure, Except.pure, Except.ok.injEq] at h
    subst h
    exact hI.reserve (reserveSpaceForEpochs_eq_ok hr)
  | extendBlob i x =>
    obtain ⟨st, hst, h⟩ := bind_eq_ok.mp h
    obtain ⟨⟨s₁, st'⟩, he, h⟩ := bind_eq_ok.mp h
    simp only [pure, Except.pure, Except.ok.injEq] at h
    subst h
    exact hI.extend (getStorage_eq_ok.mp hst) he
  | extendBlobWithResource i j =>
    obtain ⟨a, b, f, hij, ha, hb, hf, rfl⟩ := fuseWith_eq_ok h
    obtain ⟨-, -, hfuse⟩ := extendBlobWithResource_eq_ok hf
    exact hI.fuse hij ha hb fun hva hvb => Storage.fusePeriods_parts hva hvb hfuse
  | splitByEpoch i e =>
    obtain ⟨st, hst, h⟩ := bind_eq_ok.mp h
    obtain ⟨⟨a, b⟩, hsplit, h⟩ := bind_eq_ok.mp h
    simp only [pure, Except.pure, Except.ok.injEq] at h
    subst h
    exact hI.split (getStorage_eq_ok.mp hst) fun _ => Storage.splitByEpoch_parts hsplit
  | splitBySize i n =>
    obtain ⟨st, hst, h⟩ := bind_eq_ok.mp h
    obtain ⟨⟨a, b⟩, hsplit, h⟩ := bind_eq_ok.mp h
    simp only [pure, Except.pure, Except.ok.injEq] at h
    subst h
    exact hI.split (getStorage_eq_ok.mp hst) fun hv => Storage.splitBySize_parts hv hsplit
  | fusePeriods i j =>
    obtain ⟨a, b, f, hij, ha, hb, hf, rfl⟩ := fuseWith_eq_ok h
    exact hI.fuse hij ha hb fun hva hvb => Storage.fusePeriods_parts hva hvb hf
  | fuseAmount i j =>
    obtain ⟨a, b, f, hij, ha, hb, hf, rfl⟩ := fuseWith_eq_ok h
    exact hI.fuse hij ha hb fun hva _ => Storage.fuseAmount_parts hva hf
  | fuse i j =>
    obtain ⟨a, b, f, hij, ha, hb, hf, rfl⟩ := fuseWith_eq_ok h
    exact hI.fuse hij ha hb fun hva hvb => Storage.fuse_parts hva hvb hf
  | destroy i =>
    obtain ⟨st, hst, h⟩ := bind_eq_ok.mp h
    simp only [pure, Except.pure, Except.ok.injEq] at h
    subst h
    exact hI.destroy (getStorage_eq_ok.mp hst)
  | certifyEventBlob n =>
    obtain ⟨⟨s₁, st⟩, hr, h⟩ := bind_eq_ok.mp h
    simp only [pure, Except.pure, Except.ok.injEq] at h
    subst h
    exact hI.reserve_burnt hr
  | advanceEpoch c => exact hI.advance h

/-- Every state a run reaches satisfies the invariant. -/
theorem run_inv (maxEpochsAhead : Nat) (calls : List StorageCall) :
    (run maxEpochsAhead calls).Inv :=
  Machine.run_invariant
    (fun s c hI => commit_invariant (fun _ _ _ hI h => step_inv hI (toOption_eq_some.mp h)) s c hI)
    calls _ (init_inv maxEpochsAhead)

/-! ## The invariant read through `ring_lookup` -/

theorem Inv.ringLookup_epoch (hI : s.Inv) {k : Nat} (hk : k < s.futureAccounting.length) :
    ∃ a, s.futureAccounting.ringLookup k = .ok a ∧ a.epoch = s.epoch + k := by
  have hlen := hI.ringOk
  unfold RingOk at hlen
  have hkw : k < s.futureAccounting.window.length := by omega
  refine ⟨s.futureAccounting.window[k],
    (FutureAccountingRingBuffer.ringLookup_eq_ok hI.ringOk.ringBuffer_length).mpr
      (List.getElem?_eq_getElem hkw), ?_⟩
  have hep : (s.futureAccounting.window.map FutureAccounting.epoch)[k]? =
      (List.range' s.epoch s.futureAccounting.length)[k]? := by
    rw [hI.window_epoch]
  rw [List.getElem?_map, List.getElem?_eq_getElem hkw, List.getElem?_range' hk] at hep
  simpa using hep

theorem Inv.ringLookup_used (hI : s.Inv) {a : FutureAccounting}
    (h : s.futureAccounting.ringLookup 0 = .ok a) : s.usedCapacitySize = a.usedCapacity :=
  hI.used_eq a ((FutureAccountingRingBuffer.ringLookup_eq_ok hI.ringOk.ringBuffer_length).mp h)

theorem Inv.ringLookup_covered (hI : s.Inv) {e : Nat} (he : s.epoch ≤ e)
    (he' : e < s.epoch + s.futureAccounting.length) :
    ∃ a, s.futureAccounting.ringLookup (e - s.epoch) = .ok a ∧
      demand s.storages e ≤ a.usedCapacity := by
  have hlen := hI.ringOk
  unfold RingOk at hlen
  have hkw : e - s.epoch < s.futureAccounting.window.length := by omega
  have hget := List.getElem?_eq_getElem hkw
  refine ⟨_, (FutureAccountingRingBuffer.ringLookup_eq_ok hI.ringOk.ringBuffer_length).mpr hget, ?_⟩
  have hcov := hI.covered _ _ hget
  rwa [Nat.add_sub_cancel' he] at hcov

end StorageSystem

/-- The demand of an epoch is the sum of the sizes of the storage objects covering it. -/
theorem demand_eq_sum_filter (l : List Storage) (e : Nat) :
    demand l e = ((l.filter fun st => st.startEpoch ≤ e ∧ e < st.endEpoch).map
      Storage.storageSize).sum := by
  induction l with
  | nil => rfl
  | cons st l ih =>
    simp only [demand, List.map_cons, List.sum_cons] at ih ⊢
    rw [ih, List.filter_cons]
    by_cases h : st.startEpoch ≤ e ∧ e < st.endEpoch
    · simp [Storage.sizeAt, h]
    · simp [Storage.sizeAt, h]

open StorageSystem in
/-- Storage capacity accounting is sound along every run from `create_empty`, whatever the
calls and their order: the ring buffer's entry `k` epochs ahead is the one of epoch
`epoch + k`; `used_capacity_size` is the used capacity of the current epoch's entry; every
live storage object has a non-empty period ending within the window; and for every epoch of
the window, the sizes of the live storage objects covering it sum to at most the used
capacity of its entry. -/
theorem storage_accounting_sound (maxEpochsAhead : Nat) (calls : List StorageCall) :
    let s := run maxEpochsAhead calls
    (∀ k < s.futureAccounting.maxEpochsAhead,
      ∃ a, s.futureAccounting.ringLookup k = .ok a ∧ a.epoch = s.epoch + k) ∧
    (∀ a, s.futureAccounting.ringLookup 0 = .ok a → s.usedCapacitySize = a.usedCapacity) ∧
    (∀ st ∈ s.storages, st.startEpoch < st.endEpoch ∧
      st.endEpoch ≤ s.epoch + s.futureAccounting.maxEpochsAhead) ∧
    (∀ e, s.epoch ≤ e → e < s.epoch + s.futureAccounting.maxEpochsAhead →
      ∃ a, s.futureAccounting.ringLookup (e - s.epoch) = .ok a ∧
        ((s.storages.filter fun st => st.startEpoch ≤ e ∧ e < st.endEpoch).map
          Storage.storageSize).sum ≤ a.usedCapacity) := by
  intro s
  have hI : s.Inv := run_inv maxEpochsAhead calls
  refine ⟨fun k hk => hI.ringLookup_epoch hk, fun a h => hI.ringLookup_used h,
    fun st hst => hI.storage_range st hst, fun e he he' => ?_⟩
  rw [← demand_eq_sum_filter]
  exact hI.ringLookup_covered he he'

end Walrus.System
