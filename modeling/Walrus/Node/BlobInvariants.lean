import Walrus.Node.BlobSim

/-! # What the blob-info tables guarantee

Two consequences of the simulation of `BlobSim`, for every blob ID and every well-formed
history that registers at most `u32::MAX` objects:

* the aggregate entry, folded by `merge_mergeable` from the operands of the history, passes
  `check_invariants`, i.e. all the `INV`s documented on `ValidBlobInfoV1`
  (`aggregate_invariants_hold`);
* when certifications carry the registered end epoch, as the contracts emit them, the
  aggregate entry over-approximates every per-object entry: an object that is certified
  (registered) at an epoch not before any event of the history makes the aggregate certified
  (registered) there, and its blob status is not `Nonexistent`
  (`aggregate_sound_for_objects`).

The bound on the registrations is the range of the `u32` deletable counters, whose `+= 1`
wraps in the release build. Past it the counter is back at `0`: `check_invariants` fails
(`aggregate_invariants_fail_past_u32_max`), and objects that are registered are missing from
the aggregate (`counter_wrap_breaks_soundness`).
-/

namespace Walrus.BlobInfo

open Machine Lifecycle ValidBlobInfoV1 ChainBlob

/-! ## `check_invariants` of a simulated aggregate -/

/-- Every aggregate that simulates a lifecycle state passes `check_invariants`. -/
theorem AggregateSim.checkInvariants {exact : Bool} {L : Lifecycle} {v : ValidBlobInfoV1}
    (hS : AggregateSim exact L v) : v.checkInvariants = true := by
  obtain ⟨hC, hP, hD, hI⟩ := hS
  simp only [ValidBlobInfoV1.checkInvariants, Bool.and_eq_true]
  refine ⟨⟨⟨?_, ?_⟩, ?_⟩, ?_⟩
  · -- `count_deletable_total >= count_deletable_certified`
    have := L.count_mono liveCertifiedDeletable_imp
    rw [decide_eq_true_eq, ge_iff_le, UInt32.le_iff_toNat_le, hC.total, hC.certified]
    exact this
  · -- `initial_certified_epoch` is set exactly while something certified is counted
    have hiff := hI.isSome_iff
    cases hi : v.initialCertifiedEpoch with
    | none =>
      rw [hi] at hiff
      have hzero : v.countDeletableCertified = 0 := by
        apply UInt32.toNat_inj.mp
        simp only [Option.isSome_none, Bool.false_eq_true, false_iff, not_or] at hiff
        simp only [UInt32.toNat_zero]
        omega
      have hnone : v.permanentCertified = none := by
        cases hp : v.permanentCertified with
        | none => rfl
        | some _ => simp [hp] at hiff
      simp [hzero, hnone]
    | some _ =>
      rw [hi] at hiff
      have := hiff.mp rfl
      simpa [UInt32.lt_iff_toNat_lt] using this
  · -- the permanent infos: the certified one comes with a total one that is larger
    cases hc : v.permanentCertified with
    | none => cases v.permanentTotal <;> rfl
    | some pc =>
      obtain ⟨pt, hpt, hle⟩ := hP.total_of_certified hc
      have hcount : pc.count.get.toNat ≤ pt.count.get.toNat := by
        rw [hP.certified_count pc hc, hP.total_count pt hpt]
        exact hP.count_le
      rw [hpt]
      simp [hle, UInt32.le_iff_toNat_le, hcount]
  · -- the latest seen deletable epochs: the certified one comes with a registered one
    cases hc : v.latestSeenDeletableCertifiedEpoch with
    | none => cases v.latestSeenDeletableRegisteredEpoch <;> rfl
    | some l =>
      obtain ⟨r, hr, hle⟩ := hD.registered_of_certified hc
      rw [hr]
      simp [hle]

/-! ## The aggregate queries over-approximate the objects -/

section Queries

variable {L : Lifecycle} {v : ValidBlobInfoV1} {o : ObjectID} {c : ChainBlob} {e : Nat}

/-- A live object ending after `e` keeps the aggregate registered at `e`. -/
theorem AggregateSim.isRegistered_of_object {exact : Bool} (hS : AggregateSim exact L v)
    (hL : L.Inv) (hc : L.objects o = some c) (hlive : c.deleted = false) (hend : e < c.endEpoch) :
    v.isRegistered e = true := by
  unfold ValidBlobInfoV1.isRegistered
  cases hd : c.deletable with
  | false =>
    obtain ⟨pt, hpt⟩ := isSome_of_object hL hS.permanent.total_isSome hc (p := ChainBlob.permanent)
      (by simp [ChainBlob.permanent, hd])
    have := hS.permanent.total_end pt hpt o c hc hd
    simp [hpt]
    omega
  | true =>
    obtain ⟨r, hr⟩ := isSome_of_object hL hS.latestSeen.registered_isSome hc
      (p := ChainBlob.deletable) hd
    have hle := hS.latestSeen.registered_end r hr o c hc hd
    -- the live object is counted
    have hpos := count_pos_of hL hc (p := liveDeletable) (by simp [liveDeletable, hd, hlive])
    have htot : 0 < v.countDeletableTotal := by
      rw [UInt32.lt_iff_toNat_lt, hS.counts.total]
      simpa using hpos
    simp [hr, htot]
    omega

/-- A live certified object keeps the initial certification epoch set; it is at most `e`
once `e` is not before the clock. -/
theorem AggregateSim.initial_le_of_object {exact : Bool} (hS : AggregateSim exact L v)
    (hL : L.Inv) (hc : L.objects o = some c) (hlive : c.deleted = false) {t : Nat}
    (hce : c.certifiedEpoch = some t) (hclock : L.clock ≤ e) :
    ∃ i, v.initialCertifiedEpoch = some i ∧ i ≤ e := by
  have hcounted : 0 < v.countDeletableCertified.toNat ∨ v.permanentCertified.isSome := by
    cases hd : c.deletable with
    | false =>
      right
      exact hS.permanent.certified_isSome.mpr
        (count_pos_of hL hc (p := certifiedPermanent) (by simp [certifiedPermanent, hd, hce]))
    | true =>
      left
      rw [hS.counts.certified]
      exact count_pos_of hL hc (p := liveCertifiedDeletable)
        (by simp [liveCertifiedDeletable, hd, hce, hlive])
  obtain ⟨i, hi⟩ := Option.isSome_iff_exists.mp (hS.initial.isSome_iff.mpr hcounted)
  exact ⟨i, hi, le_trans (hS.initial.le_clock i hi) hclock⟩

/-- With exact certifications, a live object certified at or before `e` and ending after it
keeps the aggregate certified at `e`, once `e` is not before the clock. -/
theorem AggregateSim.isCertified_of_object (hS : AggregateSim true L v) (hL : L.Inv)
    (hc : L.objects o = some c) (hlive : c.deleted = false) (hend : e < c.endEpoch) {t : Nat}
    (hce : c.certifiedEpoch = some t) (hclock : L.clock ≤ e) : v.isCertified e = true := by
  obtain ⟨i, hi, hie⟩ := hS.initial_le_of_object hL hc hlive hce hclock
  unfold ValidBlobInfoV1.isCertified
  cases hd : c.deletable with
  | false =>
    obtain ⟨p, hp⟩ := isSome_of_object hL hS.permanent.certified_isSome hc
      (p := certifiedPermanent) (by simp [certifiedPermanent, hd, hce])
    have := hS.permanent.certified_end rfl p hp o c hc hd (by simp [hce])
    simp [hi, hie, hp]
    omega
  | true =>
    obtain ⟨l, hl⟩ := isSome_of_object hL hS.latestSeen.certified_isSome hc
      (p := certifiedDeletable) (by simp [certifiedDeletable, hd, hce])
    have hle := hS.latestSeen.certified_end rfl l hl o c hc hd (by simp [hce])
    -- the live certified object is counted
    have hpos := count_pos_of hL hc (p := liveCertifiedDeletable)
      (by simp [liveCertifiedDeletable, hd, hce, hlive])
    have hcert : 0 < v.countDeletableCertified := by
      rw [UInt32.lt_iff_toNat_lt, hS.counts.certified]
      simpa using hpos
    simp [hi, hie, hl, hcert]
    omega

/-- A live object ending after `e` makes the blob status at `e` something other than
`Nonexistent`. -/
theorem AggregateSim.toBlobStatus_ne_nonexistent {exact : Bool} (hS : AggregateSim exact L v)
    (hL : L.Inv) (hc : L.objects o = some c) (hlive : c.deleted = false) (hend : e < c.endEpoch) :
    v.toBlobStatus e ≠ .nonexistent := by
  unfold ValidBlobInfoV1.toBlobStatus
  dsimp only
  -- the two permanent cases of the source report a permanent status
  cases hpc : v.permanentCertified.filter (fun p => decide (p.endEpoch > e)) with
  | some pc => exact fun h => BlobStatus.noConfusion h
  | none =>
    cases hpt : v.permanentTotal.filter (fun p => decide (p.endEpoch > e)) with
    | some pt => exact fun h => BlobStatus.noConfusion h
    | none =>
      dsimp only
      cases hd : c.deletable with
      | false =>
        -- a live permanent object keeps the total permanent info ahead of `e`
        obtain ⟨pt, hp⟩ := isSome_of_object hL hS.permanent.total_isSome hc
          (p := ChainBlob.permanent) (by simp [ChainBlob.permanent, hd])
        have := hS.permanent.total_end pt hp o c hc hd
        rw [hp, Option.filter_some] at hpt
        split at hpt
        · cases hpt
        · rename_i hgt
          simp only [decide_eq_true_eq] at hgt
          omega
      | true =>
        -- a live deletable object keeps the deletable counts reported
        obtain ⟨r, hr⟩ := isSome_of_object hL hS.latestSeen.registered_isSome hc
          (p := ChainBlob.deletable) hd
        have hle := hS.latestSeen.registered_end r hr o c hc hd
        have hpos := count_pos_of hL hc (p := liveDeletable) (by simp [liveDeletable, hd, hlive])
        have htot : v.countDeletableTotal ≠ 0 := by
          intro h0
          have := hS.counts.total
          rw [h0] at this
          simp at this
          omega
        have hahead : (v.latestSeenDeletableRegisteredEpoch.any fun l => decide (l > e)) = true := by
          simp [hr]
          omega
        rw [if_pos]
        · exact fun h => BlobStatus.noConfusion h
        · simp [hahead, htot]

end Queries

/-! ## The invariants of the aggregate entry -/

/-- **The documented invariants of `ValidBlobInfoV1` hold.** Folding `BlobInfo::merge` from
`None` over the operands of a well-formed history that registers at most `u32::MAX` objects
never produces an invalid entry, and every entry it produces passes `check_invariants`. -/
theorem aggregate_invariants_hold (blobId : BlobId) (h : List HistoryItem)
    (hwf : WellFormed blobId h) (hbound : registrations h ≤ u32Max) :
    ∃ ops, h.mapM HistoryItem.operand = .ok ops ∧
      ∀ b ∈ ops.foldl BlobInfoV1.merge none, ∃ v, b = .valid v ∧ v.checkInvariants = true := by
  obtain ⟨L, hr⟩ := Option.isSome_iff_exists.mp hwf
  have hlen : L.ids.length ≤ u32Max := by
    rw [run_ids_length h hr]
    simpa [Lifecycle.empty] using hbound
  obtain ⟨T, hT, hS⟩ := sim_run hr hlen
  obtain ⟨ops, hops, hagg⟩ := BlobTables.run_aggregate h hT
  refine ⟨ops, hops, fun b hb => ?_⟩
  have hA := hS.aggregate
  rw [hagg, show BlobTables.empty.aggregate = none from rfl, Option.mem_def.mp hb] at hA
  cases b with
  | invalid => exact hA.elim
  | valid v => exact ⟨v, rfl, hA.checkInvariants⟩

/-! ### Sample inputs -/

/-- A blob ID for the runs below. -/
def sampleBlobId : BlobId := ⟨Vector.replicate 32 0⟩

/-- An event ID for the runs below. -/
def sampleEventId : EventID := ⟨Vector.replicate 32 0, 0⟩

/-- An object ID whose bytes are the little-endian base-256 digits of `k`. -/
def objectIdOfNat (k : Nat) : ObjectID :=
  ⟨Vector.ofFn fun i : Fin 32 => UInt8.ofNat (k / 256 ^ i.val)⟩

/-- A deletable object registered, certified, marked and deleted. -/
def sampleHistory : List HistoryItem :=
  [.event (.registered ⟨1, sampleBlobId, 5, true, objectIdOfNat 0, sampleEventId⟩),
   .event (.certified ⟨2, sampleBlobId, 5, true, objectIdOfNat 0, false, sampleEventId⟩),
   .metadataStored true,
   .event (.deleted ⟨3, sampleBlobId, 5, objectIdOfNat 0, true, sampleEventId⟩)]

theorem aggregate_invariants_hold_on_sample :
    WellFormed sampleBlobId sampleHistory ∧ registrations sampleHistory ≤ u32Max ∧
      ∃ ops, sampleHistory.mapM HistoryItem.operand = .ok ops ∧
        ∀ b ∈ ops.foldl BlobInfoV1.merge none, ∃ v, b = .valid v ∧ v.checkInvariants = true :=
  ⟨by decide, by decide,
    aggregate_invariants_hold sampleBlobId sampleHistory (by decide) (by decide)⟩

/-! ### Past `u32::MAX` registrations

The deletable counters are `u32`s and `+= 1` wraps in the release build: after one certified
deletable object and `u32::MAX` more registrations, `count_deletable_total` is back at `0`
while `count_deletable_certified` is `1`. -/

/-- A `ValidBlobInfoV1` with fewer deletable objects than certified ones fails
`check_invariants`. -/
theorem checkInvariants_eq_false_of_lt {v : ValidBlobInfoV1}
    (h : v.countDeletableTotal < v.countDeletableCertified) : v.checkInvariants = false := by
  have hnot : ¬ v.countDeletableTotal ≥ v.countDeletableCertified := by
    rw [ge_iff_le, UInt32.le_iff_toNat_le]
    rw [UInt32.lt_iff_toNat_lt] at h
    omega
  simp [checkInvariants, hnot]

/-- `n` registrations of deletable objects add `n` to the deletable counter, modulo `2^32`. -/
theorem foldl_merge_register_deletable {ci : BlobStatusChangeInfo} (hd : ci.deletable = true) :
    ∀ (n : Nat) (v : ValidBlobInfoV1), ∃ w,
      (List.replicate n (.changeStatus .register ci)).foldl BlobInfoV1.merge (some (.valid v)) =
        some (.valid w) ∧
      w.countDeletableTotal = v.countDeletableTotal + UInt32.ofNat n ∧
      w.countDeletableCertified = v.countDeletableCertified
  | 0, v => ⟨v, rfl, by simp, rfl⟩
  | n + 1, v => by
    obtain ⟨w, hw, htot, hcert⟩ := foldl_merge_register_deletable hd n (v.updateStatus .register ci)
    rw [updateStatus_register_deletable v ci hd] at htot hcert
    refine ⟨w, ?_, ?_, hcert⟩
    · rw [List.replicate_succ, List.foldl_cons]
      exact hw
    · rw [htot, UInt32.ofNat_add, UInt32.ofNat_one, UInt32.add_assoc, UInt32.add_comm 1]

/-- Base-256 digits determine a number below a power of 256. -/
theorem mod_pow_eq_of_digits {a b B : Nat} :
    ∀ n, (∀ i < n, a / B ^ i % B = b / B ^ i % B) → a % B ^ n = b % B ^ n
  | 0, _ => by rw [Nat.pow_zero, Nat.mod_one, Nat.mod_one]
  | n + 1, h => by
    rw [Nat.mod_pow_succ, Nat.mod_pow_succ, mod_pow_eq_of_digits n (fun i hi => h i (by omega)),
      h n (by omega)]

theorem objectIdOfNat_injective {a b : Nat} (ha : a < 2 ^ 32) (hb : b < 2 ^ 32)
    (h : objectIdOfNat a = objectIdOfNat b) : a = b := by
  have hdigits : ∀ i < 4, a / 256 ^ i % 256 = b / 256 ^ i % 256 := by
    intro i hi
    have hi' : i < 32 := by omega
    have := congrArg (fun o : ObjectID => (o.bytes[i]).toNat) h
    simpa [objectIdOfNat] using this
  have hmod := mod_pow_eq_of_digits 4 hdigits
  rwa [Nat.mod_eq_of_lt (by omega), Nat.mod_eq_of_lt (by omega)] at hmod

/-- Registrations of fresh objects in one epoch not before the clock are well formed. -/
theorem run_registrations_isSome {blobId : BlobId} {exact : Bool}
    (reg : ObjectID → BlobRegistered) (hb : ∀ o, (reg o).blobId = blobId)
    (ho : ∀ o, (reg o).objectId = o) {t : Nat} (ht : ∀ o, (reg o).epoch = t) :
    ∀ (os : List ObjectID) (L : Lifecycle), os.Nodup → (∀ o ∈ os, L.objects o = none) →
      L.clock ≤ t → (run blobId exact L (os.map fun o => .event (.registered (reg o)))).isSome
  | [], _, _, _, _ => rfl
  | o :: os, L, hnd, hfresh, hclock => by
    rw [List.nodup_cons] at hnd
    have hstep : step blobId exact L (.event (.registered (reg o))) =
        some ((L.add o ⟨(reg o).deletable, (reg o).endEpoch, none, false⟩).tick t) := by
      simp [step, register, hb, ho, ht, hfresh o List.mem_cons_self, hclock]
    rw [List.map_cons, Lifecycle.run_cons, hstep, Option.bind_some]
    refine run_registrations_isSome reg hb ho ht os _ hnd.2 (fun o' ho' => ?_) (le_refl t)
    have hne : o' ≠ o := fun h => hnd.1 (h ▸ ho')
    simp [Function.update_of_ne hne, hfresh o' (List.mem_cons_of_mem o ho')]

/-- The registration event of a deletable object in epoch `0`, ending in epoch `1`. -/
def wrapEvent (o : ObjectID) : BlobRegistered := ⟨0, sampleBlobId, 1, true, o, sampleEventId⟩

/-- Its status change. -/
def wrapInfo : BlobStatusChangeInfo := ⟨sampleBlobId, true, 0, 1, sampleEventId⟩

/-- One deletable object registered and certified, then `u32::MAX` more registered: `2^32`
registrations in all. -/
def wrappingHistory : List HistoryItem :=
  .event (.registered (wrapEvent (objectIdOfNat 0))) ::
    .event (.certified ⟨0, sampleBlobId, 1, true, objectIdOfNat 0, false, sampleEventId⟩) ::
    ((List.range u32Max).map fun k => objectIdOfNat (k + 1)).map
      fun o => .event (.registered (wrapEvent o))

theorem wrappingHistory_wellFormed : WellFormed sampleBlobId wrappingHistory := by
  let c₀ : ChainBlob := ⟨true, 1, none, false⟩
  let L₁ := (Lifecycle.empty.add (objectIdOfNat 0) c₀).tick 0
  let L₂ := (L₁.modify (objectIdOfNat 0) { c₀ with certifiedEpoch := some 0 }).tick 0
  have h₁ : step sampleBlobId false Lifecycle.empty
      (.event (.registered (wrapEvent (objectIdOfNat 0)))) = some L₁ := by
    simp [step, register, wrapEvent, Lifecycle.empty, L₁, c₀]
  have h₂ : step sampleBlobId false L₁
      (.event (.certified ⟨0, sampleBlobId, 1, true, objectIdOfNat 0, false, sampleEventId⟩)) =
        some L₂ := by
    simp [step, certify, certifiedEndOk, L₁, L₂, c₀]
  -- the other objects are distinct from the first and from each other
  have hne : ∀ k < u32Max, objectIdOfNat (k + 1) ≠ objectIdOfNat 0 := by
    intro k hk h
    have := objectIdOfNat_injective (a := k + 1) (b := 0) (by simp [u32Max] at hk; omega)
      (by decide) h
    omega
  have hnd : ((List.range u32Max).map fun k => objectIdOfNat (k + 1)).Nodup := by
    refine List.Nodup.map_on (fun x hx y hy hxy => ?_) List.nodup_range
    rw [List.mem_range] at hx hy
    have := objectIdOfNat_injective (a := x + 1) (b := y + 1) (by simp [u32Max] at hx; omega)
      (by simp [u32Max] at hy; omega) hxy
    omega
  have hfresh : ∀ o ∈ (List.range u32Max).map (fun k => objectIdOfNat (k + 1)),
      L₂.objects o = none := by
    intro o ho
    obtain ⟨k, hk, rfl⟩ := List.mem_map.mp ho
    simp [L₂, L₁, Lifecycle.empty, hne k (List.mem_range.mp hk)]
  unfold WellFormed wrappingHistory
  rw [Lifecycle.run_cons, h₁, Option.bind_some, Lifecycle.run_cons, h₂, Option.bind_some]
  exact run_registrations_isSome wrapEvent (fun _ => rfl) (fun _ => rfl) (fun _ => rfl) _ L₂ hnd
    hfresh (le_refl 0)

theorem wrappingHistory_operands :
    wrappingHistory.mapM HistoryItem.operand =
      .ok (.changeStatus .register wrapInfo :: .changeStatus .certify wrapInfo ::
        List.replicate u32Max (.changeStatus .register wrapInfo)) := by
  have hconst : (HistoryItem.operand ∘ fun o => .event (.registered (wrapEvent o))) =
      fun _ => pure (.changeStatus .register wrapInfo) := rfl
  unfold wrappingHistory
  rw [List.mapM_cons, List.mapM_cons, List.mapM_map, hconst, List.mapM_pure, List.map_const',
    List.length_map, List.length_range]
  rfl

theorem aggregate_invariants_fail_past_u32_max :
    WellFormed sampleBlobId wrappingHistory ∧ registrations wrappingHistory = u32Max + 1 ∧
      ∃ ops, wrappingHistory.mapM HistoryItem.operand = .ok ops ∧
        ∃ v, ops.foldl BlobInfoV1.merge none = some (.valid v) ∧ v.checkInvariants = false := by
  refine ⟨wrappingHistory_wellFormed, ?_, _, wrappingHistory_operands, ?_⟩
  · unfold registrations wrappingHistory
    rw [List.countP_cons, List.countP_cons, List.countP_map]
    simp [Function.comp_def, HistoryItem.isRegistration]
  · -- the entry after the certified object, before the other registrations
    let v₂ : ValidBlobInfoV1 :=
      { countDeletableTotal := 1, countDeletableCertified := 1, initialCertifiedEpoch := some 0,
        latestSeenDeletableRegisteredEpoch := some 1,
        latestSeenDeletableCertifiedEpoch := some 1 }
    have h₂ : BlobInfoV1.merge (BlobInfoV1.merge none (.changeStatus .register wrapInfo))
        (.changeStatus .certify wrapInfo) = some (.valid v₂) := by
      decide
    obtain ⟨w, hw, htot, hcert⟩ := @foldl_merge_register_deletable wrapInfo rfl u32Max v₂
    refine ⟨w, ?_, checkInvariants_eq_false_of_lt ?_⟩
    · rw [List.foldl_cons, List.foldl_cons, h₂]
      exact hw
    · rw [htot, hcert]
      decide

/-! ## The aggregate entry covers every object -/

/-- **The aggregate blob info over-approximates the per-object infos.** Along a well-formed
history with exact certifications that registers at most `u32::MAX` objects, both tables are
updated without error, and at every epoch `e` not before any event of the history, an object
that its per-object entry shows certified (registered) at `e` makes the aggregate entry
certified, with an initial certification epoch at most `e` (registered, with a blob status
other than `Nonexistent`). -/
theorem aggregate_sound_for_objects (blobId : BlobId) (h : List HistoryItem)
    (hwf : WellFormedExact blobId h) (hbound : registrations h ≤ u32Max) (e : Nat)
    (he : ∀ x ∈ h, ∀ t ∈ x.eventEpoch, t ≤ e) :
    ∃ T, BlobTables.run BlobTables.empty h = .ok T ∧ ∀ o p, T.perObject o = some p →
      (p.isCertified e = true → ∃ b, T.aggregate = some b ∧ b.isCertified e = true ∧
        ∃ i, b.initialCertifiedEpoch = some i ∧ i ≤ e) ∧
      (p.isRegistered e = true → ∃ b, T.aggregate = some b ∧ b.isRegistered e = true ∧
        b.toBlobStatus e ≠ .nonexistent) := by
  obtain ⟨L, hr⟩ := Option.isSome_iff_exists.mp hwf
  have hlen : L.ids.length ≤ u32Max := by
    rw [run_ids_length h hr]
    simpa [Lifecycle.empty] using hbound
  have hclock : L.clock ≤ e := run_clock_le hr he (Nat.zero_le e)
  obtain ⟨T, hT, hS⟩ := sim_run hr hlen
  refine ⟨T, hT, fun o p hp => ?_⟩
  -- the object's status on the chain is the one its per-object entry records
  have hc : L.objects o = some p.chain := by
    rw [← hS.perObject o, hp]
    rfl
  obtain ⟨v, hv, hA⟩ := hS.aggregate.valid_of_object hS.inv hc
  refine ⟨fun hcert => ?_, fun hreg => ?_⟩
  · obtain ⟨⟨hend, hlive⟩, t, hce, -⟩ := (PerObjectBlobInfoV1.isCertified_eq_true p).mp hcert
    exact ⟨.valid v, hv, hA.isCertified_of_object hS.inv hc hlive hend hce hclock,
      hA.initial_le_of_object hS.inv hc hlive hce hclock⟩
  · obtain ⟨hend, hlive⟩ := (PerObjectBlobInfoV1.isRegistered_eq_true p).mp hreg
    exact ⟨.valid v, hv, hA.isRegistered_of_object hS.inv hc hlive hend,
      hA.toBlobStatus_ne_nonexistent hS.inv hc hlive hend⟩

/-- A permanent object registered and certified until epoch `10`. -/
def exactSampleHistory : List HistoryItem :=
  [.event (.registered ⟨1, sampleBlobId, 10, false, objectIdOfNat 0, sampleEventId⟩),
   .event (.certified ⟨2, sampleBlobId, 10, false, objectIdOfNat 0, false, sampleEventId⟩)]

theorem aggregate_sound_for_objects_on_sample :
    WellFormedExact sampleBlobId exactSampleHistory ∧
      registrations exactSampleHistory ≤ u32Max ∧
      (∀ x ∈ exactSampleHistory, ∀ t ∈ x.eventEpoch, t ≤ 7) ∧
      ∃ T, BlobTables.run BlobTables.empty exactSampleHistory = .ok T ∧ ∀ o p,
        T.perObject o = some p →
          (p.isCertified 7 = true → ∃ b, T.aggregate = some b ∧ b.isCertified 7 = true ∧
            ∃ i, b.initialCertifiedEpoch = some i ∧ i ≤ 7) ∧
          (p.isRegistered 7 = true → ∃ b, T.aggregate = some b ∧ b.isRegistered 7 = true ∧
            b.toBlobStatus 7 ≠ .nonexistent) :=
  ⟨by decide, by decide, by decide,
    aggregate_sound_for_objects sampleBlobId exactSampleHistory (by decide) (by decide) 7
      (by decide)⟩

/-- Registering fresh deletable objects in bulk: every entry but theirs is kept, the
permanent info is untouched and the deletable counter grows by their number, modulo `2^32`. -/
theorem run_register_fresh_deletable (reg : ObjectID → BlobRegistered)
    (ho : ∀ o, (reg o).objectId = o) {ci : BlobStatusChangeInfo}
    (hci : ∀ o, (⟨(reg o).blobId, (reg o).deletable, (reg o).epoch, (reg o).endEpoch,
      (reg o).eventId⟩ : BlobStatusChangeInfo) = ci) (hd : ci.deletable = true) :
    ∀ (os : List ObjectID) (T : BlobTables) (v : ValidBlobInfoV1), os.Nodup →
      (∀ o ∈ os, T.perObject o = none) → T.aggregate = some (.valid v) →
      ∃ T' w, BlobTables.run T (os.map fun o => .event (.registered (reg o))) = .ok T' ∧
        T'.aggregate = some (.valid w) ∧
        w.countDeletableTotal = v.countDeletableTotal + UInt32.ofNat os.length ∧
        w.permanentTotal = v.permanentTotal ∧ ∀ o ∉ os, T'.perObject o = T.perObject o
  | [], T, v, _, _, hT => ⟨T, v, rfl, hT, by simp, rfl, fun _ _ => rfl⟩
  | o :: os, T, v, hnd, hfresh, hT => by
    rw [List.nodup_cons] at hnd
    have hop : BlobInfoMergeOperand.ofEvent (.registered (reg o)) =
        .ok (.changeStatus .register ci) := by
      rw [← hci o]
      rfl
    have hmerge := hfresh o List.mem_cons_self ▸ PerObjectBlobInfoV1.merge_none_register ci
    let p : PerObjectBlobInfoV1 :=
      ⟨ci.blobId, ci.epoch, none, ci.endEpoch, ci.deletable, ci.statusEvent, false⟩
    let T₁ : BlobTables :=
      ⟨some (.valid (v.updateStatus .register ci)), Function.update T.perObject o (some p)⟩
    have h₁ : T.apply (.event (.registered (reg o))) = .ok T₁ := by
      rw [BlobTables.apply_changeStatus hop (by simp [BlobEvent.objectId?, ho]) hmerge, hT]
      rfl
    have hfresh₁ : ∀ o' ∈ os, T₁.perObject o' = none := by
      intro o' ho'
      have hne : o' ≠ o := fun h => hnd.1 (h ▸ ho')
      simp [T₁, Function.update_of_ne hne, hfresh o' (List.mem_cons_of_mem o ho')]
    obtain ⟨T', w, hrun, hagg, htot, hperm, hkeep⟩ :=
      run_register_fresh_deletable reg ho hci hd os T₁ (v.updateStatus .register ci) hnd.2 hfresh₁
        rfl
    rw [updateStatus_register_deletable v ci hd] at htot hperm
    refine ⟨T', w, ?_, hagg, ?_, hperm, fun o' ho' => ?_⟩
    · rw [List.map_cons, BlobTables.run_cons_of_ok h₁]
      exact hrun
    · rw [htot, List.length_cons, UInt32.ofNat_add, UInt32.ofNat_one, UInt32.add_assoc,
        UInt32.add_comm 1]
    · have hne : o' ≠ o := fun h => ho' (h ▸ List.mem_cons_self)
      rw [hkeep o' (fun h => ho' (List.mem_cons_of_mem o h))]
      exact Function.update_of_ne hne _ _

/-- `2^32` deletable objects registered in epoch `0`, ending in epoch `1`. -/
def manyRegistrationsHistory : List HistoryItem :=
  ((List.range (u32Max + 1)).map objectIdOfNat).map fun o => .event (.registered (wrapEvent o))

/-- After `2^32` registrations the deletable counter is back at `0`: every object is
registered at epoch `0`, but the aggregate entry is not. -/
theorem counter_wrap_breaks_soundness :
    WellFormedExact sampleBlobId manyRegistrationsHistory ∧
      (∀ x ∈ manyRegistrationsHistory, ∀ t ∈ x.eventEpoch, t ≤ 0) ∧
      ∃ T, BlobTables.run BlobTables.empty manyRegistrationsHistory = .ok T ∧
        (∃ p, T.perObject (objectIdOfNat 0) = some p ∧ p.isRegistered 0 = true) ∧
        ∀ b ∈ T.aggregate, b.isRegistered 0 = false := by
  have hlt : ∀ k < u32Max + 1, k < 2 ^ 32 := fun k hk => by simp [u32Max] at hk; omega
  have hnd : ((List.range (u32Max + 1)).map objectIdOfNat).Nodup := by
    refine List.Nodup.map_on (fun x hx y hy hxy => ?_) List.nodup_range
    rw [List.mem_range] at hx hy
    exact objectIdOfNat_injective (hlt x hx) (hlt y hy) hxy
  refine ⟨?_, ?_, ?_⟩
  · exact run_registrations_isSome wrapEvent (fun _ => rfl) (fun _ => rfl) (fun _ => rfl) _
      Lifecycle.empty hnd (fun _ _ => rfl) (le_refl 0)
  · intro x hx t ht
    obtain ⟨o, -, rfl⟩ := List.mem_map.mp hx
    simp only [HistoryItem.eventEpoch, BlobEvent.eventEpoch, wrapEvent, Option.mem_def,
      Option.some.injEq] at ht
    omega
  · -- the first registration creates the aggregate entry; the others only count
    let p₀ : PerObjectBlobInfoV1 := ⟨sampleBlobId, 0, none, 1, true, sampleEventId, false⟩
    let v₁ : ValidBlobInfoV1 :=
      { countDeletableTotal := 1
        latestSeenDeletableRegisteredEpoch := some 1 }
    let T₁ : BlobTables :=
      ⟨some (.valid v₁), Function.update BlobTables.empty.perObject (objectIdOfNat 0) (some p₀)⟩
    have hop : BlobInfoMergeOperand.ofEvent (.registered (wrapEvent (objectIdOfNat 0))) =
        .ok (.changeStatus .register wrapInfo) := rfl
    have h₁ : BlobTables.empty.apply (.event (.registered (wrapEvent (objectIdOfNat 0)))) =
        .ok T₁ := by
      rw [BlobTables.apply_changeStatus hop rfl (PerObjectBlobInfoV1.merge_none_register wrapInfo)]
      rfl
    have hrest : objectIdOfNat 0 ∉ (List.range u32Max).map fun k => objectIdOfNat (k + 1) := by
      intro hm
      obtain ⟨k, hk, hk0⟩ := List.mem_map.mp hm
      have := objectIdOfNat_injective (hlt (k + 1) (by simp at hk; omega)) (by decide) hk0
      omega
    have hnd' : ((List.range u32Max).map fun k => objectIdOfNat (k + 1)).Nodup := by
      have := hnd
      rw [List.range_succ_eq_map, List.map_cons, List.map_map, List.nodup_cons] at this
      exact this.2
    obtain ⟨T, w, hrun, hagg, htot, hperm, hkeep⟩ := @run_register_fresh_deletable wrapEvent
      (fun _ => rfl) wrapInfo (fun _ => rfl) rfl _ T₁ _ hnd'
      (fun o ho => by
        have hne : o ≠ objectIdOfNat 0 := fun h => hrest (h ▸ ho)
        simp [T₁, Function.update_of_ne hne, BlobTables.empty])
      rfl
    refine ⟨T, ?_, ⟨p₀, ?_, rfl⟩, fun b hb => ?_⟩
    · have hsplit : manyRegistrationsHistory =
          .event (.registered (wrapEvent (objectIdOfNat 0))) ::
            ((List.range u32Max).map fun k => objectIdOfNat (k + 1)).map
              fun o => .event (.registered (wrapEvent o)) := by
        simp [manyRegistrationsHistory, List.range_succ_eq_map, Function.comp_def]
      rw [hsplit, BlobTables.run_cons_of_ok h₁]
      exact hrun
    · rw [hkeep _ hrest]
      simp [T₁]
    · rw [hagg, Option.mem_def, Option.some.injEq] at hb
      subst hb
      -- no permanent object, and the counter has wrapped to `0`
      have hzero : w.countDeletableTotal = 0 := by
        rw [htot, List.length_map, List.length_range]
        decide
      simp [BlobInfoV1.isRegistered, ValidBlobInfoV1.isRegistered, hperm, hzero, v₁]

end Walrus.BlobInfo
