import Mathlib.Order.MinMax
import Walrus.Node.BlobHistory

/-! # The blob-info tables simulate the chain

Along a well-formed history the two tables of a storage node track the on-chain objects of
one blob ID (`Sim`):

* the per-object table holds exactly the status of each object (`PerObjectBlobInfoV1.chain`);
* the aggregate `ValidBlobInfoV1` holds the exact number of live deletable, live certified
  deletable, permanent and certified permanent objects and upper bounds of their end epochs;
  its initial certification epoch is set exactly while something certified is counted, and
  is never later than the latest event (`AggregateSim`).

The aggregate relation is split into four parts, each a structure over the fields it reads.
A step that leaves a part's fields alone and moves an object the part does not look at keeps
it by a frame lemma (`*.frame`); every other case of `update_status` is one lemma per part it
changes (`*_register`, `*_certify`, `*_extend`, `*_delete`). `sim_step` assembles them and
`sim_run` carries the simulation along a whole history that registers at most `u32::MAX`
objects: the deletable counters are `u32`s, and the counts are exact only while they do not
wrap.
-/

namespace Walrus.BlobInfo

open Machine Lifecycle ValidBlobInfoV1 PermanentBlobInfoV1

/-! ## Classes of objects -/

namespace ChainBlob

/-- A deletable object that is not deleted. -/
def liveDeletable (c : ChainBlob) : Bool := c.deletable && !c.deleted

/-- A certified deletable object that is not deleted. -/
def liveCertifiedDeletable (c : ChainBlob) : Bool :=
  c.deletable && c.certifiedEpoch.isSome && !c.deleted

/-- A permanent object. -/
def permanent (c : ChainBlob) : Bool := !c.deletable

/-- A certified permanent object. -/
def certifiedPermanent (c : ChainBlob) : Bool := !c.deletable && c.certifiedEpoch.isSome

/-- A certified deletable object, deleted or not. -/
def certifiedDeletable (c : ChainBlob) : Bool := c.deletable && c.certifiedEpoch.isSome

theorem liveCertifiedDeletable_imp (c : ChainBlob) :
    c.liveCertifiedDeletable = true → c.liveDeletable = true := by
  simp_all [liveCertifiedDeletable, liveDeletable]

theorem certifiedPermanent_imp (c : ChainBlob) :
    c.certifiedPermanent = true → c.permanent = true := by
  simp_all [certifiedPermanent, permanent]

theorem certifiedDeletable_imp (c : ChainBlob) :
    c.certifiedDeletable = true → c.deletable = true := by
  simp_all [certifiedDeletable]

end ChainBlob

open ChainBlob

/-! ## The simulation relation -/

/-- The deletable counters count exactly the live (certified) deletable objects. -/
structure CountsExact (L : Lifecycle) (total certified : UInt32) : Prop where
  total : total.toNat = L.count liveDeletable
  certified : certified.toNat = L.count liveCertifiedDeletable

/-- The permanent infos count exactly the (certified) permanent objects, and their end epochs
bound those of the objects; with exact certifications also those of the certified ones. -/
structure PermanentSim (exact : Bool) (L : Lifecycle)
    (total certified : Option PermanentBlobInfoV1) : Prop where
  total_isSome : total.isSome ↔ 0 < L.count permanent
  total_count : ∀ p ∈ total, p.count.get.toNat = L.count permanent
  total_end : ∀ p ∈ total,
    L.AllObjects fun c => c.deletable = false → c.endEpoch ≤ p.endEpoch
  certified_isSome : certified.isSome ↔ 0 < L.count certifiedPermanent
  certified_count : ∀ p ∈ certified, p.count.get.toNat = L.count certifiedPermanent
  certified_end : exact = true → ∀ p ∈ certified,
    L.AllObjects fun c => c.deletable = false → c.certifiedEpoch.isSome → c.endEpoch ≤ p.endEpoch
  certified_le_total : ∀ pc ∈ certified, ∀ pt ∈ total, pc.endEpoch ≤ pt.endEpoch

/-- The latest seen deletable end epochs exist exactly when some deletable object was
registered (certified), and bound their end epochs. -/
structure LatestSeenSim (exact : Bool) (L : Lifecycle) (registered certified : Option Nat) :
    Prop where
  registered_isSome : registered.isSome ↔ 0 < L.count ChainBlob.deletable
  registered_end : ∀ r ∈ registered,
    L.AllObjects fun c => c.deletable = true → c.endEpoch ≤ r
  certified_isSome : certified.isSome ↔ 0 < L.count certifiedDeletable
  certified_end : exact = true → ∀ l ∈ certified,
    L.AllObjects fun c => c.deletable = true → c.certifiedEpoch.isSome → c.endEpoch ≤ l
  certified_le_registered : ∀ l ∈ certified, ∀ r ∈ registered, l ≤ r

/-- The initial certification epoch is set exactly while something certified is counted,
and it is never later than the latest event. -/
structure InitialSim (L : Lifecycle) (initial : Option Nat) (countCertified : UInt32)
    (permanentCertified : Option PermanentBlobInfoV1) : Prop where
  le_clock : ∀ i ∈ initial, i ≤ L.clock
  isSome_iff : initial.isSome ↔ (0 < countCertified.toNat ∨ permanentCertified.isSome)

/-- What the aggregate `ValidBlobInfoV1` knows about the lifecycle state. -/
structure AggregateSim (exact : Bool) (L : Lifecycle) (v : ValidBlobInfoV1) : Prop where
  counts : CountsExact L v.countDeletableTotal v.countDeletableCertified
  permanent : PermanentSim exact L v.permanentTotal v.permanentCertified
  latestSeen : LatestSeenSim exact L v.latestSeenDeletableRegisteredEpoch
    v.latestSeenDeletableCertifiedEpoch
  initial : InitialSim L v.initialCertifiedEpoch v.countDeletableCertified v.permanentCertified

/-- The aggregate entry of a lifecycle state: absent before the first registration, a valid
info simulating the state afterwards, never invalid. -/
def AggregateOf (exact : Bool) (L : Lifecycle) : Option BlobInfoV1 → Prop
  | none => L.ids = []
  | some (.valid v) => AggregateSim exact L v
  | some (.invalid _ _) => False

/-- The part of a per-object entry that the chain also has. -/
def PerObjectBlobInfoV1.chain (p : PerObjectBlobInfoV1) : ChainBlob :=
  ⟨p.deletable, p.endEpoch, p.certifiedEpoch, p.deleted⟩

/-- The simulation between the chain and the node's tables. -/
structure Sim (blobId : BlobId) (exact : Bool) (L : Lifecycle) (T : BlobTables) : Prop where
  inv : L.Inv
  perObject : ∀ o, (T.perObject o).map PerObjectBlobInfoV1.chain = L.objects o
  perObject_blobId : ∀ o p, T.perObject o = some p → p.blobId = blobId
  aggregate : AggregateOf exact L T.aggregate

/-! ## What the parts give -/

section Parts

variable {exact : Bool} {L : Lifecycle}

theorem PermanentSim.count_le {total certified : Option PermanentBlobInfoV1}
    (_ : PermanentSim exact L total certified) :
    L.count certifiedPermanent ≤ L.count permanent :=
  L.count_mono certifiedPermanent_imp

/-- A certified permanent info comes with a total one that ends no earlier. -/
theorem PermanentSim.total_of_certified {total certified : Option PermanentBlobInfoV1}
    (h : PermanentSim exact L total certified) {pc : PermanentBlobInfoV1} (hpc : pc ∈ certified) :
    ∃ pt, total = some pt ∧ pc.endEpoch ≤ pt.endEpoch := by
  have hpos : 0 < L.count certifiedPermanent := h.certified_isSome.mp (by simp_all)
  obtain ⟨pt, hpt⟩ := Option.isSome_iff_exists.mp (h.total_isSome.mpr (by
    have := h.count_le
    omega))
  exact ⟨pt, hpt, h.certified_le_total pc hpc pt hpt⟩

theorem LatestSeenSim.count_le {registered certified : Option Nat}
    (_ : LatestSeenSim exact L registered certified) :
    L.count certifiedDeletable ≤ L.count ChainBlob.deletable :=
  L.count_mono certifiedDeletable_imp

/-- A latest certified end epoch comes with a latest registered one that is no earlier. -/
theorem LatestSeenSim.registered_of_certified {registered certified : Option Nat}
    (h : LatestSeenSim exact L registered certified) {l : Nat} (hl : l ∈ certified) :
    ∃ r, registered = some r ∧ l ≤ r := by
  have hpos : 0 < L.count certifiedDeletable := h.certified_isSome.mp (by simp_all)
  obtain ⟨r, hr⟩ := Option.isSome_iff_exists.mp (h.registered_isSome.mpr (by
    have := h.count_le
    omega))
  exact ⟨r, hr, h.certified_le_registered l hl r hr⟩

theorem LatestSeenSim.le_registered_getD {registered certified : Option Nat}
    (h : LatestSeenSim exact L registered certified) {l : Nat} (hl : l ∈ certified) :
    l ≤ registered.getD 0 := by
  obtain ⟨r, hr, hle⟩ := h.registered_of_certified hl
  rw [hr, Option.getD_some]
  exact hle

theorem LatestSeenSim.getD_le_getD {registered certified : Option Nat}
    (h : LatestSeenSim exact L registered certified) :
    certified.getD 0 ≤ registered.getD 0 := by
  cases hc : certified with
  | none => simp
  | some l => exact h.le_registered_getD hc

theorem LatestSeenSim.getD_le {registered certified : Option Nat}
    (h : LatestSeenSim exact L registered certified) {r : Nat} (hr : r ∈ registered) :
    certified.getD 0 ≤ r := by
  have := h.getD_le_getD
  rw [Option.mem_def.mp hr, Option.getD_some] at this
  exact this

/-- Every deletable object ends no later than the latest registered end epoch. -/
theorem LatestSeenSim.registered_getD {registered certified : Option Nat}
    (h : LatestSeenSim exact L registered certified) (hL : L.Inv) :
    L.AllObjects fun c => c.deletable = true → c.endEpoch ≤ registered.getD 0 := by
  intro o c hc hd
  obtain ⟨r, hr⟩ := isSome_of_object hL h.registered_isSome hc (p := ChainBlob.deletable) hd
  rw [hr, Option.getD_some]
  exact h.registered_end r hr o c hc hd

/-- With exact certifications, every certified deletable object ends no later than the latest
certified end epoch. -/
theorem LatestSeenSim.certified_getD {registered certified : Option Nat}
    (h : LatestSeenSim exact L registered certified) (hL : L.Inv) (hx : exact = true) :
    L.AllObjects fun c =>
      c.deletable = true → c.certifiedEpoch.isSome → c.endEpoch ≤ certified.getD 0 := by
  intro o c hc hd hce
  obtain ⟨l, hl⟩ := isSome_of_object hL h.certified_isSome hc (p := certifiedDeletable)
    (by simp [certifiedDeletable, hd, hce])
  rw [hl, Option.getD_some]
  exact h.certified_end hx l hl o c hc hd hce

end Parts

/-! ## Frame lemmas

A step that moves a deletable object leaves the permanent infos alone, and one that moves a
permanent object leaves the deletable counters and epochs alone. -/

section Frame

variable {exact : Bool} {L L' : Lifecycle} {o : ObjectID} {old : Option ChainBlob}
  {new : ChainBlob}

theorem Lifecycle.Moves.count_eq_of_false (hm : Moves L L' o old new) {p : ChainBlob → Bool}
    (hold : ∀ c ∈ old, p c = false) (hnew : p new = false) : L'.count p = L.count p := by
  have hany : old.any p = false := by
    cases old with
    | none => rfl
    | some c => exact hold c rfl
  exact hm.count_eq (hany.trans hnew.symm)

/-- The deletable counters after a move, given how each changes by the old and new status. -/
theorem CountsExact.move (hm : Moves L L' o old new) {total certified total' certified' : UInt32}
    (h : CountsExact L total certified)
    (htotal : total'.toNat + ind (old.any liveDeletable) =
      total.toNat + ind new.liveDeletable)
    (hcertified : certified'.toNat + ind (old.any liveCertifiedDeletable) =
      certified.toNat + ind new.liveCertifiedDeletable) :
    CountsExact L' total' certified' := by
  have h₁ := hm.count liveDeletable
  have h₂ := hm.count liveCertifiedDeletable
  have := h.total
  have := h.certified
  exact ⟨by omega, by omega⟩

theorem CountsExact.frame (hm : Moves L L' o old new) {total certified : UInt32}
    (h : CountsExact L total certified) (hold : ∀ c ∈ old, c.deletable = false)
    (hnew : new.deletable = false) : CountsExact L' total certified := by
  have h₁ := hm.count_eq_of_false (p := liveDeletable)
    (fun c hc => by simp [liveDeletable, hold c hc]) (by simp [liveDeletable, hnew])
  have h₂ := hm.count_eq_of_false (p := liveCertifiedDeletable)
    (fun c hc => by simp [liveCertifiedDeletable, hold c hc])
    (by simp [liveCertifiedDeletable, hnew])
  exact ⟨h₁ ▸ h.total, h₂ ▸ h.certified⟩

theorem PermanentSim.frame (hm : Moves L L' o old new)
    {total certified : Option PermanentBlobInfoV1} (h : PermanentSim exact L total certified)
    (hold : ∀ c ∈ old, c.deletable = true) (hnew : new.deletable = true) :
    PermanentSim exact L' total certified := by
  have hperm := hm.count_eq_of_false (p := permanent)
    (fun c hc => by simp [permanent, hold c hc]) (by simp [permanent, hnew])
  have hcert := hm.count_eq_of_false (p := certifiedPermanent)
    (fun c hc => by simp [certifiedPermanent, hold c hc]) (by simp [certifiedPermanent, hnew])
  refine ⟨?_, ?_, ?_, ?_, ?_, ?_, h.certified_le_total⟩
  · rw [hperm]
    exact h.total_isSome
  · intro p hp
    rw [hperm]
    exact h.total_count p hp
  · intro p hp
    exact hm.allObjects (h.total_end p hp) (by simp [hnew])
  · rw [hcert]
    exact h.certified_isSome
  · intro p hp
    rw [hcert]
    exact h.certified_count p hp
  · intro hx p hp
    exact hm.allObjects (h.certified_end hx p hp) (by simp [hnew])

theorem LatestSeenSim.frame (hm : Moves L L' o old new) {registered certified : Option Nat}
    (h : LatestSeenSim exact L registered certified) (hold : ∀ c ∈ old, c.deletable = false)
    (hnew : new.deletable = false) : LatestSeenSim exact L' registered certified := by
  have hdel := hm.count_eq_of_false (p := ChainBlob.deletable) hold hnew
  have hcert := hm.count_eq_of_false (p := certifiedDeletable)
    (fun c hc => by simp [certifiedDeletable, hold c hc]) (by simp [certifiedDeletable, hnew])
  refine ⟨?_, ?_, ?_, ?_, h.certified_le_registered⟩
  · rw [hdel]
    exact h.registered_isSome
  · intro r hr
    exact hm.allObjects (h.registered_end r hr) (by simp [hnew])
  · rw [hcert]
    exact h.certified_isSome
  · intro hx l hl
    exact hm.allObjects (h.certified_end hx l hl) (by simp [hnew])

theorem InitialSim.frame (hclock : L.clock ≤ L'.clock) {initial : Option Nat}
    {countCertified : UInt32} {permanentCertified permanentCertified' : Option PermanentBlobInfoV1}
    (h : InitialSim L initial countCertified permanentCertified)
    (hpc : permanentCertified'.isSome = permanentCertified.isSome) :
    InitialSim L' initial countCertified permanentCertified' := by
  refine ⟨fun i hi => le_trans (h.le_clock i hi) hclock, ?_⟩
  rw [hpc]
  exact h.isSome_iff

end Frame

/-! ## The cases of `update_status` -/

section Cases

variable {exact : Bool} {L L' : Lifecycle} {o : ObjectID} {old : Option ChainBlob}
  {c new : ChainBlob}

/-- `+= 1` on a counter that counts the objects of a class that a move enters. -/
theorem Lifecycle.Moves.toNat_add_one (hm : Moves L L' o old new) (hbound : L'.ids.length ≤ u32Max)
    {p : ChainBlob → Bool} (hold : old.any p = false) (hnew : p new = true) {x : UInt32}
    (hx : x.toNat = L.count p) : (x + 1).toNat = x.toNat + 1 := by
  apply UInt32.toNat_add_one_of_lt
  have := hm.count_succ hold hnew
  have := count_le_length L' p
  omega

/-- The saturating `+ 1` on a permanent count of a class that a move enters. -/
theorem Lifecycle.Moves.saturatingAddOne_toNat (hm : Moves L L' o old new)
    (hbound : L'.ids.length ≤ u32Max) {p : ChainBlob → Bool} (hold : old.any p = false)
    (hnew : p new = true) {n : NonZeroU32} (hn : n.get.toNat = L.count p) :
    n.saturatingAddOne.get.toNat = L'.count p := by
  have h₁ := hm.count_succ hold hnew
  have h₂ := count_le_length L' p
  rw [NonZeroU32.saturatingAddOne_toNat_of_lt (by omega)]
  omega

/-! ### Registration -/

theorem latestSeenSim_register (hm : Moves L L' o none new) (hL : L.Inv)
    (hd : new.deletable = true) (hnc : new.certifiedEpoch = none) {registered certified : Option Nat}
    (h : LatestSeenSim exact L registered certified) :
    LatestSeenSim exact L' (maybeIncrease registered new.endEpoch) certified := by
  have hcert := hm.count_eq_of_false (p := certifiedDeletable) (by simp)
    (by simp [certifiedDeletable, hnc])
  refine ⟨?_, ?_, ?_, ?_, ?_⟩
  · simp [hm.count_pos (p := ChainBlob.deletable) hd]
  · intro r hr
    simp only [maybeIncrease_eq, Option.mem_def, Option.some.injEq] at hr
    subst hr
    exact hm.allObjects (fun o c hc hd => le_max_of_le_right (h.registered_getD hL o c hc hd))
      (fun _ => le_max_left _ _)
  · rw [hcert]
    exact h.certified_isSome
  · intro hx l hl
    exact hm.allObjects (h.certified_end hx l hl) (by simp [hnc])
  · intro l hl r hr
    simp only [maybeIncrease_eq, Option.mem_def, Option.some.injEq] at hr
    subst hr
    exact le_max_of_le_right (h.le_registered_getD hl)

theorem permanentSim_register (hm : Moves L L' o none new) (hL : L.Inv)
    (hd : new.deletable = false) (hnc : new.certifiedEpoch = none) {ci : BlobStatusChangeInfo}
    (hend : new.endEpoch = ci.endEpoch) (hbound : L'.ids.length ≤ u32Max)
    {total certified : Option PermanentBlobInfoV1} (h : PermanentSim exact L total certified) :
    PermanentSim exact L' (updateOptional total ci) certified := by
  have hperm := hm.count_succ (p := permanent) rfl (by simp [permanent, hd])
  have hcert := hm.count_eq_of_false (p := certifiedPermanent) (by simp)
    (by simp [certifiedPermanent, hnc])
  refine ⟨?_, ?_, ?_, ?_, ?_, ?_, ?_⟩
  · simp [hperm]
  · intro p hp
    cases ht : total with
    | none =>
      simp only [ht, updateOptional_none, Option.mem_def, Option.some.injEq] at hp
      subst hp
      -- the first permanent object
      have hzero : L.count permanent = 0 := by
        have := h.total_isSome
        simp_all
      rw [newFirst_count_toNat, hperm, hzero]
    | some t =>
      simp only [ht, updateOptional_some, Option.mem_def, Option.some.injEq] at hp
      subst hp
      simp only [update_count, if_true]
      exact hm.saturatingAddOne_toNat hbound rfl (by simp [permanent, hd]) (h.total_count t ht)
  · intro p hp
    cases ht : total with
    | none =>
      simp only [ht, updateOptional_none, Option.mem_def, Option.some.injEq] at hp
      subst hp
      -- no permanent object before this one
      have hzero : L.count permanent = 0 := by
        have := h.total_isSome
        simp_all
      have hnone := allObjects_of_count_eq_zero hL hzero
      refine hm.allObjects (fun o c hc hdel => ?_) (fun _ => by simp [hend])
      have := hnone o c hc
      simp [permanent, hdel] at this
    | some t =>
      simp only [ht, updateOptional_some, Option.mem_def, Option.some.injEq] at hp
      subst hp
      simp only [update_endEpoch]
      exact hm.allObjects (fun o c hc hdel => le_max_of_le_left (h.total_end t ht o c hc hdel))
        (fun _ => by simp [hend])
  · rw [hcert]
    exact h.certified_isSome
  · intro p hp
    rw [hcert]
    exact h.certified_count p hp
  · intro hx p hp
    exact hm.allObjects (h.certified_end hx p hp) (by simp [hnc])
  · intro pc hpc pt hpt
    obtain ⟨t, ht, hle⟩ := h.total_of_certified hpc
    simp only [ht, updateOptional_some, Option.mem_def, Option.some.injEq] at hpt
    subst hpt
    simp only [update_endEpoch]
    omega

/-! ### Certification -/

theorem latestSeenSim_certify (hm : Moves L L' o (some c) new) (hL : L.Inv)
    (hd : c.deletable = true) {t : Nat} (hnew : new = { c with certifiedEpoch := some t })
    {endEpoch : Nat} (hend : endEpoch ≤ c.endEpoch) (hexact : exact = true → endEpoch = c.endEpoch)
    {registered certified : Option Nat} (h : LatestSeenSim exact L registered certified) :
    LatestSeenSim exact L' registered (maybeIncrease certified endEpoch) := by
  subst hnew
  have hdel := hm.count_eq (p := ChainBlob.deletable) rfl
  refine ⟨?_, ?_, ?_, ?_, ?_⟩
  · rw [hdel]
    exact h.registered_isSome
  · intro r hr
    exact hm.allObjects_of_old (h.registered_end r hr) id
  · simp [hm.count_pos (p := certifiedDeletable) (by simp [certifiedDeletable, hd])]
  · intro hx l hl
    simp only [maybeIncrease_eq, Option.mem_def, Option.some.injEq] at hl
    subst hl
    refine hm.allObjects (fun o c hc hd hce => le_max_of_le_right
      (h.certified_getD hL hx o c hc hd hce)) (fun _ _ => ?_)
    rw [← hexact hx]
    exact le_max_left _ _
  · intro l hl r hr
    simp only [maybeIncrease_eq, Option.mem_def, Option.some.injEq] at hl
    subst hl
    have hc := h.registered_end r hr o c hm.old_eq hd
    exact max_le (le_trans hend hc) (h.getD_le hr)

/-- A permanent certification that the chain accepts is accepted by `certify_permanent`. -/
theorem certifyPermanent_of_sim (hm : Moves L L' o (some c) new) (hL : L.Inv)
    (hd : c.deletable = false) (hnc : c.certifiedEpoch = none) {t : Nat}
    (hnew : new = { c with certifiedEpoch := some t }) {ci : BlobStatusChangeInfo}
    (hend : ci.endEpoch ≤ c.endEpoch) {total certified : Option PermanentBlobInfoV1}
    (h : PermanentSim exact L total certified) :
    certifyPermanent total certified ci = some (updateOptional certified ci) := by
  subst hnew
  obtain ⟨pt, hpt⟩ := Option.isSome_iff_exists.mp
    (h.total_isSome.mpr (count_pos_of hL hm.old_eq (p := permanent) (by simp [permanent, hd])))
  -- one more certified permanent object fits under the permanent ones
  have hcert := hm.count_succ (p := certifiedPermanent) (by simp [certifiedPermanent, hnc])
    (by simp [certifiedPermanent, hd])
  have hperm := hm.count_eq (p := permanent) rfl
  have hle := L'.count_mono certifiedPermanent_imp
  rw [hpt]
  apply certifyPermanent_eq_some
  · exact le_trans hend (h.total_end pt hpt o c hm.old_eq hd)
  · intro pc hpc
    rw [h.certified_count pc hpc, h.total_count pt hpt]
    omega

theorem permanentSim_certify (hm : Moves L L' o (some c) new) (hL : L.Inv)
    (hd : c.deletable = false) (hnc : c.certifiedEpoch = none) {t : Nat}
    (hnew : new = { c with certifiedEpoch := some t }) {ci : BlobStatusChangeInfo}
    (hend : ci.endEpoch ≤ c.endEpoch) (hexact : exact = true → ci.endEpoch = c.endEpoch)
    (hbound : L'.ids.length ≤ u32Max) {total certified : Option PermanentBlobInfoV1}
    (h : PermanentSim exact L total certified) :
    PermanentSim exact L' total (updateOptional certified ci) := by
  subst hnew
  have hperm := hm.count_eq (p := permanent) rfl
  have hold : (some c).any certifiedPermanent = false := by simp [certifiedPermanent, hnc]
  have hnew : certifiedPermanent { c with certifiedEpoch := some t } = true := by
    simp [certifiedPermanent, hd]
  have hcert := hm.count_succ hold hnew
  -- with no certified info yet, no permanent object was certified
  have hzero : certified = none → L.count certifiedPermanent = 0 := fun hn => by
    have := h.certified_isSome
    simp_all
  refine ⟨?_, ?_, ?_, ?_, ?_, ?_, ?_⟩
  · rw [hperm]
    exact h.total_isSome
  · intro p hp
    rw [hperm]
    exact h.total_count p hp
  · intro p hp
    exact hm.allObjects_of_old (h.total_end p hp) id
  · simp [hm.count_pos hnew]
  · intro p hp
    cases hc : certified with
    | none =>
      simp only [hc, updateOptional_none, Option.mem_def, Option.some.injEq] at hp
      subst hp
      simp [hcert, hzero hc]
    | some q =>
      simp only [hc, updateOptional_some, Option.mem_def, Option.some.injEq] at hp
      subst hp
      simp only [update_count, if_true]
      exact hm.saturatingAddOne_toNat hbound hold hnew (h.certified_count q hc)
  · intro hx p hp
    have hce : ci.endEpoch = c.endEpoch := hexact hx
    cases hc : certified with
    | none =>
      simp only [hc, updateOptional_none, Option.mem_def, Option.some.injEq] at hp
      subst hp
      have hnone := allObjects_of_count_eq_zero hL (hzero hc)
      refine hm.allObjects (fun o' c' hc' hd' hce' => ?_) (fun _ _ => by simp [hce])
      have := hnone o' c' hc'
      simp [certifiedPermanent, hd', hce'] at this
    | some q =>
      simp only [hc, updateOptional_some, Option.mem_def, Option.some.injEq] at hp
      subst hp
      simp only [update_endEpoch]
      exact hm.allObjects
        (fun o' c' hc' hd' hce' => le_max_of_le_left (h.certified_end hx q hc o' c' hc' hd' hce'))
        (fun _ _ => by simp [hce])
  · intro pc hpc pt hpt
    have hc := h.total_end pt hpt o c hm.old_eq hd
    cases hq : certified with
    | none =>
      simp only [hq, updateOptional_none, Option.mem_def, Option.some.injEq] at hpc
      subst hpc
      simp only [newFirst_endEpoch]
      omega
    | some q =>
      simp only [hq, updateOptional_some, Option.mem_def, Option.some.injEq] at hpc
      subst hpc
      simp only [update_endEpoch]
      exact max_le (h.certified_le_total q hq pt hpt) (le_trans hend hc)

/-- The initial certification epoch after a certification is set, and is at most the clock,
which has moved to the certification epoch. -/
theorem initialSim_certify (hclock : L.clock ≤ L'.clock) {w : ValidBlobInfoV1}
    (hle : ∀ i ∈ w.initialCertifiedEpoch, i ≤ L.clock) {t : Nat} (ht : t = L'.clock)
    (force : Bool) (hpos : 0 < w.countDeletableCertified.toNat ∨ w.permanentCertified.isSome) :
    InitialSim L' (w.updateInitialCertifiedEpoch t force).initialCertifiedEpoch
      w.countDeletableCertified w.permanentCertified := by
  rcases updateInitialCertifiedEpoch_eq w t force with h | ⟨i, hi, -, heq⟩
  · refine ⟨fun i hi => ?_, iff_of_true (by simp [h]) hpos⟩
    rw [h, Option.mem_def, Option.some.injEq] at hi
    omega
  · rw [heq]
    exact ⟨fun i hi => le_trans (hle i hi) hclock, iff_of_true (by simp [hi]) hpos⟩

/-! ### Extension -/

theorem latestSeenSim_extend (hm : Moves L L' o (some c) new) (hL : L.Inv)
    (hd : c.deletable = true) (hce : c.certifiedEpoch.isSome = true) {endEpoch : Nat}
    (hnew : new = { c with endEpoch := endEpoch }) {registered certified : Option Nat}
    (h : LatestSeenSim exact L registered certified) :
    LatestSeenSim exact L' (maybeIncrease registered endEpoch)
      (maybeIncrease certified endEpoch) := by
  subst hnew
  refine ⟨?_, ?_, ?_, ?_, ?_⟩
  · simp [hm.count_pos (p := ChainBlob.deletable) hd]
  · intro r hr
    simp only [maybeIncrease_eq, Option.mem_def, Option.some.injEq] at hr
    subst hr
    exact hm.allObjects (fun o c hc hd => le_max_of_le_right (h.registered_getD hL o c hc hd))
      (fun _ => le_max_left _ _)
  · simp [hm.count_pos (p := certifiedDeletable) (by simp [certifiedDeletable, hd, hce])]
  · intro hx l hl
    simp only [maybeIncrease_eq, Option.mem_def, Option.some.injEq] at hl
    subst hl
    exact hm.allObjects (fun o c hc hd hce => le_max_of_le_right
      (h.certified_getD hL hx o c hc hd hce)) (fun _ _ => le_max_left _ _)
  · intro l hl r hr
    simp only [maybeIncrease_eq, Option.mem_def, Option.some.injEq] at hl hr
    subst hl hr
    exact max_le_max (le_refl _) h.getD_le_getD

theorem permanentSim_extend (hm : Moves L L' o (some c) new)
    {ci : BlobStatusChangeInfo} (hnew : new = { c with endEpoch := ci.endEpoch })
    {total certified : Option PermanentBlobInfoV1} (h : PermanentSim exact L total certified) :
    PermanentSim exact L' (extendPermanent total ci) (extendPermanent certified ci) := by
  subst hnew
  have hperm := hm.count_eq (p := permanent) rfl
  have hcert := hm.count_eq (p := certifiedPermanent) rfl
  refine ⟨?_, ?_, ?_, ?_, ?_, ?_, ?_⟩
  · cases total <;> simpa [hperm] using h.total_isSome
  · intro p hp
    cases ht : total with
    | none => simp [ht] at hp
    | some q =>
      simp only [ht, extendPermanent_some, Option.mem_def, Option.some.injEq] at hp
      subst hp
      simp [hperm, h.total_count q ht]
  · intro p hp
    cases ht : total with
    | none => simp [ht] at hp
    | some q =>
      simp only [ht, extendPermanent_some, Option.mem_def, Option.some.injEq] at hp
      subst hp
      simp only [update_endEpoch]
      exact hm.allObjects (fun o c hc hd => le_max_of_le_left (h.total_end q ht o c hc hd))
        (fun _ => le_max_right _ _)
  · cases certified <;> simpa [hcert] using h.certified_isSome
  · intro p hp
    cases hc : certified with
    | none => simp [hc] at hp
    | some q =>
      simp only [hc, extendPermanent_some, Option.mem_def, Option.some.injEq] at hp
      subst hp
      simp [hcert, h.certified_count q hc]
  · intro hx p hp
    cases hc : certified with
    | none => simp [hc] at hp
    | some q =>
      simp only [hc, extendPermanent_some, Option.mem_def, Option.some.injEq] at hp
      subst hp
      simp only [update_endEpoch]
      exact hm.allObjects (fun o' c' hc' hd' hce' => le_max_of_le_left
        (h.certified_end hx q hc o' c' hc' hd' hce')) (fun _ _ => le_max_right _ _)
  · intro pc hpc pt hpt
    cases hc : certified with
    | none => simp [hc] at hpc
    | some qc =>
      cases ht : total with
      | none => simp [ht] at hpt
      | some qt =>
        simp only [hc, ht, extendPermanent_some, Option.mem_def, Option.some.injEq] at hpc hpt
        subst hpc hpt
        simp only [update_endEpoch]
        exact max_le_max (h.certified_le_total qc hc qt ht) (le_refl _)

/-! ### Deletion -/

theorem latestSeenSim_delete (hm : Moves L L' o (some c) new)
    (hnew : new = { c with deleted := true }) {registered certified : Option Nat}
    (h : LatestSeenSim exact L registered certified) :
    LatestSeenSim exact L' registered certified := by
  subst hnew
  have hdel := hm.count_eq (p := ChainBlob.deletable) rfl
  have hcert := hm.count_eq (p := certifiedDeletable) rfl
  refine ⟨?_, ?_, ?_, ?_, h.certified_le_registered⟩
  · rw [hdel]
    exact h.registered_isSome
  · intro r hr
    exact hm.allObjects_of_old (h.registered_end r hr) id
  · rw [hcert]
    exact h.certified_isSome
  · intro hx l hl
    exact hm.allObjects_of_old (h.certified_end hx l hl) id

/-- After a deletion the initial certification epoch is unset exactly when nothing certified
is counted any more. -/
theorem initialSim_delete (hclock : L.clock ≤ L'.clock) {w : ValidBlobInfoV1}
    {countCertified : UInt32}
    (h : InitialSim L w.initialCertifiedEpoch countCertified w.permanentCertified)
    (hcc : w.countDeletableCertified.toNat ≤ countCertified.toNat) :
    InitialSim L' w.maybeUnsetInitialCertifiedEpoch.initialCertifiedEpoch
      w.countDeletableCertified w.permanentCertified := by
  rw [maybeUnsetInitialCertifiedEpoch_initial]
  split
  · rename_i hz
    refine ⟨by simp, ?_⟩
    simp [hz.1, hz.2]
  · rename_i hz
    -- something certified is still counted, so it was before and the epoch was set
    have hpos : 0 < w.countDeletableCertified.toNat ∨ w.permanentCertified.isSome := by
      by_cases hc : w.countDeletableCertified = 0
      · right
        cases hp : w.permanentCertified with
        | none => exact absurd ⟨hc, hp⟩ hz
        | some _ => rfl
      · left
        have : w.countDeletableCertified.toNat ≠ 0 := fun h0 =>
          hc (UInt32.toNat_inj.mp (by simpa using h0))
        omega
    have hold : 0 < countCertified.toNat ∨ w.permanentCertified.isSome := by
      rcases hpos with hc | hp
      · exact .inl (by omega)
      · exact .inr hp
    exact ⟨fun i hi => le_trans (h.le_clock i hi) hclock,
      iff_of_true (h.isSome_iff.mpr hold) hpos⟩

end Cases

/-! ## The aggregate entry after each kind of step -/

section Aggregate

variable {exact : Bool} {L L' : Lifecycle} {o : ObjectID} {c new : ChainBlob}
  {ci : BlobStatusChangeInfo} {v : ValidBlobInfoV1}

/-- Before any registration, the default blob info simulates the lifecycle. -/
theorem aggregateSim_default (hids : L.ids = []) : AggregateSim exact L {} := by
  have hzero : ∀ p, L.count p = 0 := fun p => by simp [Lifecycle.count, hids]
  exact ⟨⟨by simp [hzero], by simp [hzero]⟩,
    ⟨by simp [hzero], by simp, by simp, by simp [hzero], by simp, by simp, by simp⟩,
    ⟨by simp [hzero], by simp, by simp [hzero], by simp, by simp⟩,
    ⟨by simp, by simp⟩⟩

theorem aggregateSim_register (hm : Moves L L' o none new) (hL : L.Inv)
    (hnew : new = ⟨ci.deletable, ci.endEpoch, none, false⟩) (hbound : L'.ids.length ≤ u32Max)
    (hS : AggregateSim exact L v) : AggregateSim exact L' (v.updateStatus .register ci) := by
  subst hnew
  cases hd : ci.deletable with
  | false =>
    rw [updateStatus_register_permanent v ci hd]
    exact ⟨hS.counts.frame hm (by simp) hd,
      permanentSim_register hm hL hd rfl rfl hbound hS.permanent,
      hS.latestSeen.frame hm (by simp) hd, hS.initial.frame hm.clock rfl⟩
  | true =>
    rw [updateStatus_register_deletable v ci hd]
    have hlive : liveDeletable ⟨ci.deletable, ci.endEpoch, none, false⟩ = true := by
      simp [liveDeletable, hd]
    have htotal := hm.toNat_add_one hbound rfl hlive hS.counts.total
    refine ⟨hS.counts.move hm ?_ ?_, hS.permanent.frame hm (by simp) hd,
      latestSeenSim_register hm hL hd rfl hS.latestSeen, hS.initial.frame hm.clock rfl⟩
    · rw [htotal, hlive]
      rfl
    · simp [liveCertifiedDeletable]

theorem aggregateSim_certify (hm : Moves L L' o (some c) new) (hL : L.Inv)
    (hd : ci.deletable = c.deletable) (hdel : c.deleted = false) (hnc : c.certifiedEpoch = none)
    (hnew : new = { c with certifiedEpoch := some ci.epoch })
    (hend : certifiedEndOk exact ci.endEpoch c.endEpoch = true) (hclock : ci.epoch = L'.clock)
    (hbound : L'.ids.length ≤ u32Max) (hS : AggregateSim exact L v) :
    AggregateSim exact L' (v.updateStatus .certify ci) := by
  have hle := certifiedEndOk_le hend
  have hex := certifiedEndOk_eq hend
  cases hdc : c.deletable with
  | false =>
    have hcp := certifyPermanent_of_sim hm hL hdc hnc hnew hle hS.permanent
    rw [updateStatus_certify_permanent v ci (hd.trans hdc) hcp]
    refine ⟨?_, ?_, ?_, ?_⟩ <;> simp only [updateInitialCertifiedEpoch_counts]
    · exact hS.counts.frame hm (by simp [hdc]) (by simp [hnew, hdc])
    · exact permanentSim_certify hm hL hdc hnc hnew hle hex hbound hS.permanent
    · exact hS.latestSeen.frame hm (by simp [hdc]) (by simp [hnew, hdc])
    · exact initialSim_certify (w := { v with permanentCertified := updateOptional v.permanentCertified ci })
        hm.clock hS.initial.le_clock hclock _ (.inr (by simp))
  | true =>
    subst hnew
    have hold : (some c).any liveCertifiedDeletable = false := by
      simp [liveCertifiedDeletable, hnc]
    have hnew : liveCertifiedDeletable { c with certifiedEpoch := some ci.epoch } = true := by
      simp [liveCertifiedDeletable, hdc, hdel]
    -- a deletable object is certified, so fewer were certified than registered
    have hlt : v.countDeletableCertified < v.countDeletableTotal := by
      have h₁ := hm.count_succ hold hnew
      have h₂ := hm.count_eq (p := liveDeletable) rfl
      have h₃ := L'.count_mono liveCertifiedDeletable_imp
      rw [UInt32.lt_iff_toNat_lt, hS.counts.certified, hS.counts.total]
      omega
    have hcert := hm.toNat_add_one hbound hold hnew hS.counts.certified
    rw [updateStatus_certify_deletable v ci (hd.trans hdc) hlt]
    refine ⟨?_, ?_, ?_, ?_⟩ <;> simp only [updateInitialCertifiedEpoch_counts]
    · refine hS.counts.move hm rfl ?_
      rw [hcert, hold, hnew]
      rfl
    · exact hS.permanent.frame hm (by simp [hdc]) hdc
    · exact latestSeenSim_certify hm hL hdc rfl hle hex hS.latestSeen
    · exact initialSim_certify
        (w := { v with
          countDeletableCertified := v.countDeletableCertified + 1
          latestSeenDeletableCertifiedEpoch :=
            maybeIncrease v.latestSeenDeletableCertifiedEpoch ci.endEpoch })
        hm.clock hS.initial.le_clock hclock _
        (.inl (by show 0 < (v.countDeletableCertified + 1).toNat; omega))

theorem aggregateSim_extend (hm : Moves L L' o (some c) new) (hL : L.Inv)
    (hd : ci.deletable = c.deletable) (hce : c.certifiedEpoch.isSome = true)
    (hnew : new = { c with endEpoch := ci.endEpoch }) (hS : AggregateSim exact L v) :
    AggregateSim exact L' (v.updateStatus .extend ci) := by
  cases hdc : c.deletable with
  | false =>
    rw [updateStatus_extend_permanent v ci (hd.trans hdc)]
    exact ⟨hS.counts.frame hm (by simp [hdc]) (by simp [hnew, hdc]),
      permanentSim_extend hm hnew hS.permanent,
      hS.latestSeen.frame hm (by simp [hdc]) (by simp [hnew, hdc]),
      hS.initial.frame hm.clock (extendPermanent_isSome _ _)⟩
  | true =>
    subst hnew
    rw [updateStatus_extend_deletable v ci (hd.trans hdc)]
    exact ⟨hS.counts.move hm rfl rfl, hS.permanent.frame hm (by simp [hdc]) hdc,
      latestSeenSim_extend hm hL hdc hce rfl hS.latestSeen, hS.initial.frame hm.clock rfl⟩

theorem aggregateSim_delete (hm : Moves L L' o (some c) new) (hL : L.Inv)
    (hd : ci.deletable = true) (hdc : c.deletable = true) (hdel : c.deleted = false)
    {wasCertified : Bool} (hwc : wasCertified = c.certifiedEpoch.isSome)
    (hnew : new = { c with deleted := true }) (hS : AggregateSim exact L v) :
    AggregateSim exact L' (v.updateStatus (.delete wasCertified) ci) := by
  subst hnew hwc
  have hlive := count_pos_of hL hm.old_eq (p := liveDeletable) (by simp [liveDeletable, hdc, hdel])
  rw [updateStatus_delete_deletable v ci hd]
  refine ⟨?_, ?_, ?_, ?_⟩ <;> simp only [maybeUnsetInitialCertifiedEpoch_counts]
  · refine hS.counts.move hm ?_ ?_
    · rw [decrementDeletableCounterOnDeletion_toNat, hS.counts.total]
      simp only [Option.any_some, liveDeletable, hdc, hdel]
      simp
      omega
    · cases hce : c.certifiedEpoch.isSome with
      | false => simp [liveCertifiedDeletable, hce]
      | true =>
        -- the deleted object was counted as certified
        have hpos := count_pos_of hL hm.old_eq (p := liveCertifiedDeletable)
          (by simp [liveCertifiedDeletable, hdc, hdel, hce])
        simp only [if_true, decrementDeletableCounterOnDeletion_toNat, hS.counts.certified,
          Option.any_some, liveCertifiedDeletable, hdc, hdel, hce]
        simp
        omega
  · exact hS.permanent.frame hm (by simp [hdc]) hdc
  · exact latestSeenSim_delete hm rfl hS.latestSeen
  · refine initialSim_delete hm.clock hS.initial ?_
    split <;> simp [decrementDeletableCounterOnDeletion_toNat]

theorem aggregateSim_metadata (hS : AggregateSim exact L v) (m : Bool) :
    AggregateSim exact L { v with isMetadataStored := m } :=
  ⟨hS.counts, hS.permanent, hS.latestSeen, hS.initial⟩

/-- An entry that simulates a state with a registered object is a valid info. -/
theorem AggregateOf.valid_of_object {A : Option BlobInfoV1} (hA : AggregateOf exact L A)
    (hL : L.Inv) (hc : L.objects o = some c) :
    ∃ v, A = some (.valid v) ∧ AggregateSim exact L v := by
  rcases A with _ | (_ | v)
  · have hmem := mem_ids_of_objects hL hc
    simp only [AggregateOf] at hA
    simp [hA] at hmem
  · exact hA.elim
  · exact ⟨v, rfl, hA⟩

end Aggregate

/-! ## One step of both tables -/

section Step

variable {blobId : BlobId} {exact : Bool} {L L' : Lifecycle} {T : BlobTables} {o : ObjectID}
  {old : Option ChainBlob} {c new : ChainBlob}

theorem Sim.perObject_of_object (hS : Sim blobId exact L T) (hc : L.objects o = some c) :
    ∃ p, T.perObject o = some p ∧ p.chain = c ∧ p.blobId = blobId := by
  have h := hS.perObject o
  rw [hc] at h
  obtain ⟨p, hp, hpc⟩ := Option.map_eq_some_iff.mp h
  exact ⟨p, hp, hpc, hS.perObject_blobId o p hp⟩

theorem Sim.perObject_none (hS : Sim blobId exact L T) (hf : L.objects o = none) :
    T.perObject o = none := by
  have h := hS.perObject o
  rw [hf] at h
  exact Option.map_eq_none_iff.mp h

/-- The per-object table after the moved object's entry is replaced by one with its new
status. -/
theorem Sim.perObject_update (hS : Sim blobId exact L T) (hm : Moves L L' o old new)
    {p : PerObjectBlobInfoV1} (hp : p.chain = new) :
    ∀ o', (Function.update T.perObject o (some p) o').map PerObjectBlobInfoV1.chain =
      L'.objects o' := by
  intro o'
  rw [hm.objects]
  by_cases ho : o' = o
  · subst ho
    simp [hp]
  · simp [Function.update_of_ne ho, hS.perObject o']

theorem Sim.perObject_blobId_update (hS : Sim blobId exact L T) {p : PerObjectBlobInfoV1}
    (hp : p.blobId = blobId) :
    ∀ o' q, Function.update T.perObject o (some p) o' = some q → q.blobId = blobId := by
  intro o' q hq
  by_cases ho : o' = o
  · subst ho
    simp only [Function.update_self, Option.some.injEq] at hq
    exact hq ▸ hp
  · rw [Function.update_of_ne ho] at hq
    exact hS.perObject_blobId o' q hq

theorem sim_empty (blobId : BlobId) (exact : Bool) :
    Sim blobId exact Lifecycle.empty BlobTables.empty :=
  ⟨Lifecycle.inv_empty, fun _ => rfl, fun _ _ h => by simp [BlobTables.empty] at h, rfl⟩

theorem sim_metadata (hS : Sim blobId exact L T) (m : Bool) :
    Sim blobId exact L
      { T with aggregate := BlobInfoV1.merge T.aggregate (.markMetadataStored m) } := by
  refine ⟨hS.inv, hS.perObject, hS.perObject_blobId, ?_⟩
  have hA := hS.aggregate
  rcases hT : T.aggregate with _ | (_ | v) <;> rw [hT] at hA
  · exact hA
  · exact hA.elim
  · exact aggregateSim_metadata hA m

theorem sim_register (hS : Sim blobId exact L T) {e : BlobRegistered} (hb : e.blobId = blobId)
    (hf : L.objects e.objectId = none) (ht : L.clock ≤ e.epoch)
    (hbound : ((L.add e.objectId ⟨e.deletable, e.endEpoch, none, false⟩).tick e.epoch).ids.length
      ≤ u32Max) :
    ∃ T', T.apply (.event (.registered e)) = .ok T' ∧
      Sim blobId exact ((L.add e.objectId ⟨e.deletable, e.endEpoch, none, false⟩).tick e.epoch) T' := by
  have hm := (moves_add hS.inv hf (c := ⟨e.deletable, e.endEpoch, none, false⟩)
    (fun _ => rfl)).tick ht
  have hmerge := hS.perObject_none hf ▸
    PerObjectBlobInfoV1.merge_none_register ⟨e.blobId, e.deletable, e.epoch, e.endEpoch, e.eventId⟩
  refine ⟨_, BlobTables.apply_changeStatus rfl rfl hmerge, hm.inv, hS.perObject_update hm rfl,
    hS.perObject_blobId_update hb, ?_⟩
  -- the aggregate entry: created by the first registration, updated by the others
  have hA := hS.aggregate
  rcases hT : T.aggregate with _ | (_ | v) <;> rw [hT] at hA
  · simp only [BlobInfoV1.merge, mergeNew_register]
    exact aggregateSim_register hm hS.inv rfl hbound (aggregateSim_default hA)
  · exact hA.elim
  · exact aggregateSim_register hm hS.inv rfl hbound hA

theorem sim_certify (hS : Sim blobId exact L T) {e : BlobCertified}
    (hc : L.objects e.objectId = some c) (hb : e.blobId = blobId) (hdel : c.deleted = false)
    (hd : e.deletable = c.deletable) (hext : e.isExtension = false)
    (hnc : c.certifiedEpoch = none) (hend : certifiedEndOk exact e.endEpoch c.endEpoch = true)
    (ht : L.clock ≤ e.epoch)
    (hbound : ((L.modify e.objectId { c with certifiedEpoch := some e.epoch }).tick e.epoch).ids.length
      ≤ u32Max) :
    ∃ T', T.apply (.event (.certified e)) = .ok T' ∧
      Sim blobId exact ((L.modify e.objectId { c with certifiedEpoch := some e.epoch }).tick e.epoch)
        T' := by
  have hm := (moves_modify hS.inv hc (d := { c with certifiedEpoch := some e.epoch })
    (fun _ => hdel)).tick ht
  obtain ⟨p, hp, rfl, hpb⟩ := hS.perObject_of_object hc
  obtain ⟨v, hv, hA⟩ := hS.aggregate.valid_of_object hS.inv hc
  have hop : BlobInfoMergeOperand.ofEvent (.certified e) =
      .ok (.changeStatus .certify ⟨e.blobId, e.deletable, e.epoch, e.endEpoch, e.eventId⟩) := by
    simp [BlobInfoMergeOperand.ofEvent, hext]
  have hmerge : PerObjectBlobInfoV1.merge (T.perObject e.objectId)
      ⟨.certify, ⟨e.blobId, e.deletable, e.epoch, e.endEpoch, e.eventId⟩⟩ =
      .ok (some { p with event := e.eventId, certifiedEpoch := some e.epoch }) := by
    rw [hp]
    simp only [PerObjectBlobInfoV1.merge]
    rw [PerObjectBlobInfoV1.mergeWith_certify p
      ⟨e.blobId, e.deletable, e.epoch, e.endEpoch, e.eventId⟩ (hpb.trans hb.symm) hd.symm hdel hnc]
    rfl
  refine ⟨_, BlobTables.apply_changeStatus hop rfl hmerge, hm.inv, hS.perObject_update hm rfl,
    hS.perObject_blobId_update hpb, ?_⟩
  rw [hv]
  exact aggregateSim_certify hm hS.inv hd hdel hnc rfl hend rfl hbound hA

theorem sim_extend (hS : Sim blobId exact L T) {e : BlobCertified}
    (hc : L.objects e.objectId = some c) (hb : e.blobId = blobId) (hdel : c.deleted = false)
    (hd : e.deletable = c.deletable) (hext : e.isExtension = true)
    (hce : c.certifiedEpoch = some e.epoch) :
    ∃ T', T.apply (.event (.certified e)) = .ok T' ∧
      Sim blobId exact (L.modify e.objectId { c with endEpoch := e.endEpoch }) T' := by
  have hm := moves_modify hS.inv hc (d := { c with endEpoch := e.endEpoch }) (fun _ => hdel)
  obtain ⟨p, hp, rfl, hpb⟩ := hS.perObject_of_object hc
  obtain ⟨v, hv, hA⟩ := hS.aggregate.valid_of_object hS.inv hc
  have hsome : p.certifiedEpoch.isSome = true := by
    simp only [PerObjectBlobInfoV1.chain] at hce
    simp [hce]
  have hop : BlobInfoMergeOperand.ofEvent (.certified e) =
      .ok (.changeStatus .extend ⟨e.blobId, e.deletable, e.epoch, e.endEpoch, e.eventId⟩) := by
    simp [BlobInfoMergeOperand.ofEvent, hext]
  have hmerge : PerObjectBlobInfoV1.merge (T.perObject e.objectId)
      ⟨.extend, ⟨e.blobId, e.deletable, e.epoch, e.endEpoch, e.eventId⟩⟩ =
      .ok (some { p with event := e.eventId, endEpoch := e.endEpoch }) := by
    rw [hp]
    simp only [PerObjectBlobInfoV1.merge]
    rw [PerObjectBlobInfoV1.mergeWith_extend p
      ⟨e.blobId, e.deletable, e.epoch, e.endEpoch, e.eventId⟩ (hpb.trans hb.symm) hd.symm hdel hsome]
    rfl
  refine ⟨_, BlobTables.apply_changeStatus hop rfl hmerge, hm.inv, hS.perObject_update hm rfl,
    hS.perObject_blobId_update hpb, ?_⟩
  rw [hv]
  exact aggregateSim_extend hm hS.inv hd hsome rfl hA

theorem sim_delete (hS : Sim blobId exact L T) {e : BlobDeleted}
    (hc : L.objects e.objectId = some c) (hb : e.blobId = blobId) (hdel : c.deleted = false)
    (hdc : c.deletable = true) (hwc : e.wasCertified = c.certifiedEpoch.isSome)
    (ht : L.clock ≤ e.epoch) :
    ∃ T', T.apply (.event (.deleted e)) = .ok T' ∧
      Sim blobId exact ((L.modify e.objectId { c with deleted := true }).tick e.epoch) T' := by
  have hm := (moves_modify hS.inv hc (d := { c with deleted := true })
    (fun h => by simp [hdc] at h)).tick ht
  obtain ⟨p, hp, rfl, hpb⟩ := hS.perObject_of_object hc
  obtain ⟨v, hv, hA⟩ := hS.aggregate.valid_of_object hS.inv hc
  have hmerge : PerObjectBlobInfoV1.merge (T.perObject e.objectId)
      ⟨.delete e.wasCertified, ⟨e.blobId, true, e.epoch, e.endEpoch, e.eventId⟩⟩ =
      .ok (some { p with event := e.eventId, deleted := true }) := by
    rw [hp]
    simp only [PerObjectBlobInfoV1.merge]
    rw [PerObjectBlobInfoV1.mergeWith_delete p
      ⟨e.blobId, true, e.epoch, e.endEpoch, e.eventId⟩ (hpb.trans hb.symm) hdc hdel hwc.symm]
    rfl
  refine ⟨_, BlobTables.apply_changeStatus rfl rfl hmerge, hm.inv, hS.perObject_update hm rfl,
    hS.perObject_blobId_update hpb, ?_⟩
  rw [hv]
  exact aggregateSim_delete hm hS.inv rfl hdc hdel hwc rfl hA

/-- One well-formed step is matched by one successful update of both tables. -/
theorem sim_step {x : HistoryItem} (hS : Sim blobId exact L T)
    (h : step blobId exact L x = some L') (hbound : L'.ids.length ≤ u32Max) :
    ∃ T', T.apply x = .ok T' ∧ Sim blobId exact L' T' := by
  rcases step_cases h with ⟨m, rfl, rfl⟩ | ⟨e, rfl, hb, hf, ht, rfl⟩ |
    ⟨e, c, rfl, hc, hb, hdel, hd, hext, hnc, hend, ht, rfl⟩ |
    ⟨e, c, rfl, hc, hb, hdel, hd, hext, hce, rfl⟩ |
    ⟨e, c, rfl, hc, hb, hdel, hdc, hwc, ht, rfl⟩
  · exact ⟨_, rfl, sim_metadata hS m⟩
  · exact sim_register hS hb hf ht hbound
  · exact sim_certify hS hc hb hdel hd hext hnc hend ht hbound
  · exact sim_extend hS hc hb hdel hd hext hce
  · exact sim_delete hS hc hb hdel hdc hwc ht

/-- **The tables simulate the chain.** Along every well-formed history that registers at most
`u32::MAX` objects, both tables are updated without error and simulate the final lifecycle
state. -/
theorem sim_run {h : List HistoryItem} (hr : run blobId exact Lifecycle.empty h = some L)
    (hbound : L.ids.length ≤ u32Max) :
    ∃ T, BlobTables.run BlobTables.empty h = .ok T ∧ Sim blobId exact L T := by
  have hstep : ∀ (L₁ : Lifecycle) (T₁ : BlobTables) (x : HistoryItem) (L₂ : Lifecycle),
      Sim blobId exact L₁ T₁ → step blobId exact L₁ x = some L₂ → L₂.ids.length ≤ u32Max →
      ∃ T₂, T₁.apply x = .ok T₂ ∧ Sim blobId exact L₂ T₂ :=
    fun _ _ _ _ hS hx hb => sim_step hS hx hb
  have hok : ∀ (L₁ : Lifecycle) (x : HistoryItem) (L₂ : Lifecycle),
      step blobId exact L₁ x = some L₂ → L₂.ids.length ≤ u32Max → L₁.ids.length ≤ u32Max :=
    fun _ _ _ hx hb => le_trans (step_ids_length hx) hb
  exact foldlM_simulation hstep hok h (sim_empty blobId exact) hr hbound

end Step

end Walrus.BlobInfo
