import Walrus.Node.BlobInfo
import Walrus.Machine.Run
import Walrus.Machine.Count

/-! # Blob-info tables over well-formed event histories

The blob-info tables of a storage node are only as good as the event stream that feeds
them. This module fixes one blob ID and describes the streams the chain can produce for it,
as runs of a small *lifecycle* machine that keeps the on-chain status of every `Blob`
object of that blob ID:

* an object is registered once, with a fixed `deletable` flag and an end epoch;
* it is certified at most once, after its registration, with an end epoch not above the
  registered one;
* it is extended only after its certification; an extension event carries the object's
  original certification epoch (as `walrus::blob::emit_certified` emits it);
* it is deleted at most once, only if deletable, and `was_certified` says whether it was;
* the epochs of registrations, first certifications and deletions never decrease.

Metadata marks (`set_metadata_stored`) may come at any point. The node applies each input
to both tables (`BlobTables.apply`, the batch written by `update_blob_info`).

Besides the machine, this module gives its bookkeeping invariant (`Inv`), one inversion lemma
for a step (`step_cases`), the counting rules for registered objects, and `Moves`: the shape
of every step that changes one object, which the simulation proofs of `BlobSim` work with.

The machine has a flag `exact`. Without it a first certification may carry any end epoch up
to the registered one; with it the end epochs are equal, which is what the contracts emit
(`walrus::blob::certify_with_certified_msg` emits the storage's end epoch, and only an
extension moves it).
-/

namespace Walrus.BlobInfo

open Machine

/-! ## The chain side -/

/-- The on-chain status of one `Blob` object. -/
structure ChainBlob where
  deletable : Bool
  endEpoch : Nat
  certifiedEpoch : Option Nat
  deleted : Bool
deriving DecidableEq, Repr

/-- The chain's view of the `Blob` objects of one blob ID: their status, the IDs registered
so far (in order), and the latest epoch of a registration, first certification or deletion. -/
structure Lifecycle where
  objects : ObjectID → Option ChainBlob
  ids : List ObjectID
  clock : Nat

/-- No object registered yet. -/
def Lifecycle.empty : Lifecycle := ⟨fun _ => none, [], 0⟩

/-- An input of the blob-info tables of one blob ID. -/
inductive HistoryItem where
  | event (e : BlobEvent)
  | metadataStored (isMetadataStored : Bool)
deriving DecidableEq, Repr

/-- Whether an input registers an object. -/
def HistoryItem.isRegistration : HistoryItem → Bool
  | .event (.registered _) => true
  | _ => false

/-- `BlobEvent::event_epoch` of an input; a metadata mark has none. -/
def HistoryItem.eventEpoch : HistoryItem → Option Nat
  | .event e => e.eventEpoch
  | .metadataStored _ => none

/-- The number of registration events of a history. -/
def registrations (h : List HistoryItem) : Nat :=
  h.countP HistoryItem.isRegistration

namespace Lifecycle

variable (blobId : BlobId) (exact : Bool)

/-- A new object `o` with status `c`. -/
def add (L : Lifecycle) (o : ObjectID) (c : ChainBlob) : Lifecycle :=
  { L with objects := Function.update L.objects o (some c), ids := L.ids ++ [o] }

/-- Object `o` moves to status `c`. -/
def modify (L : Lifecycle) (o : ObjectID) (c : ChainBlob) : Lifecycle :=
  { L with objects := Function.update L.objects o (some c) }

/-- The latest event epoch moves to `t`. -/
def tick (L : Lifecycle) (t : Nat) : Lifecycle :=
  { L with clock := t }

/-- Registration of a fresh object. -/
def register (L : Lifecycle) (e : BlobRegistered) : Option Lifecycle :=
  if e.blobId = blobId ∧ L.objects e.objectId = none ∧ L.clock ≤ e.epoch then
    some ((L.add e.objectId ⟨e.deletable, e.endEpoch, none, false⟩).tick e.epoch)
  else none

/-- The end epoch of a first certification: not above the registered one, and equal to it
when `exact` (the contract emits the storage's end epoch, which only an extension moves). -/
def certifiedEndOk (certified registered : Nat) : Bool :=
  if exact then certified == registered else certified ≤ registered

/-- First certification, or an extension of a certified object. -/
def certify (L : Lifecycle) (e : BlobCertified) : Option Lifecycle :=
  match L.objects e.objectId with
  | none => none
  | some c =>
    if e.blobId = blobId ∧ c.deleted = false ∧ e.deletable = c.deletable then
      if e.isExtension then
        if c.certifiedEpoch = some e.epoch then
          some (L.modify e.objectId { c with endEpoch := e.endEpoch })
        else none
      else if c.certifiedEpoch = none ∧ certifiedEndOk exact e.endEpoch c.endEpoch ∧
          L.clock ≤ e.epoch then
        some ((L.modify e.objectId { c with certifiedEpoch := some e.epoch }).tick e.epoch)
      else none
    else none

/-- Deletion of a deletable object. -/
def delete (L : Lifecycle) (e : BlobDeleted) : Option Lifecycle :=
  match L.objects e.objectId with
  | none => none
  | some c =>
    if e.blobId = blobId ∧ c.deleted = false ∧ c.deletable = true ∧
        e.wasCertified = c.certifiedEpoch.isSome ∧ L.clock ≤ e.epoch then
      some ((L.modify e.objectId { c with deleted := true }).tick e.epoch)
    else none

/-- One well-formed input; `none` when the input cannot occur at this point. -/
def step (L : Lifecycle) : HistoryItem → Option Lifecycle
  | .metadataStored _ => some L
  | .event (.registered e) => register blobId L e
  | .event (.certified e) => certify blobId exact L e
  | .event (.deleted e) => delete blobId L e
  | .event (.invalidBlobId _ _ _) => none
  | .event (.denyListBlobDeleted _ _ _) => none

/-- The lifecycle state after a history, if the history is well formed. -/
def run (L : Lifecycle) (h : List HistoryItem) : Option Lifecycle :=
  h.foldlM (step blobId exact) L

/-- A history is well formed for `blobId` when the lifecycle machine accepts all of it, with
first certifications at or below the registered end epoch. -/
def WellFormed (h : List HistoryItem) : Prop :=
  (run blobId false empty h).isSome

/-- A well-formed history whose first certifications carry exactly the registered end epoch,
as the contract emits them. -/
def WellFormedExact (h : List HistoryItem) : Prop :=
  (run blobId true empty h).isSome

instance : DecidablePred (WellFormed blobId) :=
  fun h => inferInstanceAs (Decidable ((run blobId false empty h).isSome = true))

instance : DecidablePred (WellFormedExact blobId) :=
  fun h => inferInstanceAs (Decidable ((run blobId true empty h).isSome = true))

/-- How many registered objects satisfy `p`. -/
def count (L : Lifecycle) (p : ChainBlob → Bool) : Nat :=
  L.ids.countP fun o => (L.objects o).any p

end Lifecycle

/-! ## The node side -/

/-- The aggregate operand of an input: `BlobInfoMergeOperand::from` for events,
`MarkMetadataStored` for metadata marks. -/
def HistoryItem.operand : HistoryItem → Except String BlobInfoMergeOperand
  | .event e => BlobInfoMergeOperand.ofEvent e
  | .metadataStored isMetadataStored => .ok (.markMetadataStored isMetadataStored)

/-- The two blob-info tables, restricted to one blob ID and its objects. -/
structure BlobTables where
  aggregate : Option BlobInfoV1
  perObject : ObjectID → Option PerObjectBlobInfoV1

/-- Both tables empty. -/
def BlobTables.empty : BlobTables := ⟨none, fun _ => none⟩

/-- The per-object part of `update_blob_info`: an event with an object ID is merged into
that object's entry; its operand is a status change, or the `expect` panics. -/
def BlobTables.applyPerObject (perObject : ObjectID → Option PerObjectBlobInfoV1)
    (e : BlobEvent) (operand : BlobInfoMergeOperand) :
    Except String (ObjectID → Option PerObjectBlobInfoV1) :=
  match e.objectId? with
  | none => .ok perObject
  | some objectId =>
    match PerObjectBlobInfoMergeOperand.fromBlobInfoMergeOperand operand with
    | none => .error "we know this is a registered, certified, or deleted event"
    | some perObjectOperand =>
      (PerObjectBlobInfoV1.merge (perObject objectId) perObjectOperand).map
        fun info => Function.update perObject objectId info

/-- One input applied to both tables: the batch of `update_blob_info` for an event, the merge
of `set_metadata_stored` for a metadata mark. -/
def BlobTables.apply (t : BlobTables) : HistoryItem → Except String BlobTables
  | .metadataStored isMetadataStored =>
    .ok { t with aggregate := BlobInfoV1.merge t.aggregate (.markMetadataStored isMetadataStored) }
  | .event e => do
    let operand ← BlobInfoMergeOperand.ofEvent e
    let perObject ← applyPerObject t.perObject e operand
    pure { aggregate := BlobInfoV1.merge t.aggregate operand, perObject := perObject }

/-- The tables after a history. -/
def BlobTables.run (t : BlobTables) (h : List HistoryItem) : Except String BlobTables :=
  h.foldlM BlobTables.apply t

/-! ## The lifecycle machine -/

namespace Lifecycle

variable {blobId : BlobId} {exact : Bool}

@[simp] theorem add_objects (L : Lifecycle) (o : ObjectID) (c : ChainBlob) :
    (L.add o c).objects = Function.update L.objects o (some c) := rfl
@[simp] theorem add_ids (L : Lifecycle) (o : ObjectID) (c : ChainBlob) :
    (L.add o c).ids = L.ids ++ [o] := rfl
@[simp] theorem add_clock (L : Lifecycle) (o : ObjectID) (c : ChainBlob) :
    (L.add o c).clock = L.clock := rfl
@[simp] theorem modify_objects (L : Lifecycle) (o : ObjectID) (c : ChainBlob) :
    (L.modify o c).objects = Function.update L.objects o (some c) := rfl
@[simp] theorem modify_ids (L : Lifecycle) (o : ObjectID) (c : ChainBlob) :
    (L.modify o c).ids = L.ids := rfl
@[simp] theorem modify_clock (L : Lifecycle) (o : ObjectID) (c : ChainBlob) :
    (L.modify o c).clock = L.clock := rfl
@[simp] theorem tick_objects (L : Lifecycle) (t : Nat) : (L.tick t).objects = L.objects := rfl
@[simp] theorem tick_ids (L : Lifecycle) (t : Nat) : (L.tick t).ids = L.ids := rfl
@[simp] theorem tick_clock (L : Lifecycle) (t : Nat) : (L.tick t).clock = t := rfl

/-- The bookkeeping invariant of the lifecycle: the registered IDs are exactly the objects
with a status, each once, and permanent objects are never deleted. -/
structure Inv (L : Lifecycle) : Prop where
  nodup : L.ids.Nodup
  isSome_iff : ∀ o, (L.objects o).isSome ↔ o ∈ L.ids
  permanent_live : ∀ o c, L.objects o = some c → c.deletable = false → c.deleted = false

theorem inv_empty : Inv empty :=
  ⟨List.nodup_nil, fun o => by simp [empty], fun o c h => by simp [empty] at h⟩

theorem mem_ids_of_objects {L : Lifecycle} (hL : L.Inv) {o : ObjectID} {c : ChainBlob}
    (h : L.objects o = some c) : o ∈ L.ids :=
  (hL.isSome_iff o).mp (by simp [h])

theorem not_mem_ids_of_objects {L : Lifecycle} (hL : L.Inv) {o : ObjectID}
    (h : L.objects o = none) : o ∉ L.ids := fun hm => by
  have := (hL.isSome_iff o).mpr hm
  simp [h] at this

/-- What a well-formed step can do: one case per kind of input, with every guard. -/
theorem step_cases {L L' : Lifecycle} {x : HistoryItem}
    (h : step blobId exact L x = some L') :
    (∃ m, x = .metadataStored m ∧ L' = L) ∨
    (∃ e, x = .event (.registered e) ∧ e.blobId = blobId ∧ L.objects e.objectId = none ∧
      L.clock ≤ e.epoch ∧ L' = (L.add e.objectId ⟨e.deletable, e.endEpoch, none, false⟩).tick e.epoch) ∨
    (∃ e c, x = .event (.certified e) ∧ L.objects e.objectId = some c ∧ e.blobId = blobId ∧
      c.deleted = false ∧ e.deletable = c.deletable ∧ e.isExtension = false ∧
      c.certifiedEpoch = none ∧ certifiedEndOk exact e.endEpoch c.endEpoch = true ∧
      L.clock ≤ e.epoch ∧
      L' = (L.modify e.objectId { c with certifiedEpoch := some e.epoch }).tick e.epoch) ∨
    (∃ e c, x = .event (.certified e) ∧ L.objects e.objectId = some c ∧ e.blobId = blobId ∧
      c.deleted = false ∧ e.deletable = c.deletable ∧ e.isExtension = true ∧
      c.certifiedEpoch = some e.epoch ∧ L' = L.modify e.objectId { c with endEpoch := e.endEpoch }) ∨
    (∃ e c, x = .event (.deleted e) ∧ L.objects e.objectId = some c ∧ e.blobId = blobId ∧
      c.deleted = false ∧ c.deletable = true ∧ e.wasCertified = c.certifiedEpoch.isSome ∧
      L.clock ≤ e.epoch ∧ L' = (L.modify e.objectId { c with deleted := true }).tick e.epoch) := by
  cases x with
  | metadataStored m =>
    simp only [step, Option.some.injEq] at h
    exact .inl ⟨m, rfl, h.symm⟩
  | event e =>
    cases e with
    | registered e =>
      simp only [step, register] at h
      split at h
      · rename_i hg
        obtain ⟨h1, h2, h3⟩ := hg
        exact .inr (.inl ⟨e, rfl, h1, h2, h3, (Option.some.inj h).symm⟩)
      · cases h
    | certified e =>
      simp only [step, certify] at h
      split at h
      · cases h
      · rename_i c hc
        split at h
        · rename_i hg
          obtain ⟨h1, h2, h3⟩ := hg
          split at h
          · rename_i hext
            split at h
            · rename_i hce
              exact .inr (.inr (.inr (.inl
                ⟨e, c, rfl, hc, h1, h2, h3, hext, hce, (Option.some.inj h).symm⟩)))
            · cases h
          · rename_i hext
            split at h
            · rename_i hg'
              obtain ⟨h4, h5, h6⟩ := hg'
              exact .inr (.inr (.inl ⟨e, c, rfl, hc, h1, h2, h3, by simpa using hext, h4, h5, h6,
                (Option.some.inj h).symm⟩))
            · cases h
        · cases h
    | deleted e =>
      simp only [step, delete] at h
      split at h
      · cases h
      · rename_i c hc
        split at h
        · rename_i hg
          obtain ⟨h1, h2, h3, h4, h5⟩ := hg
          exact .inr (.inr (.inr (.inr ⟨e, c, rfl, hc, h1, h2, h3, h4, h5, (Option.some.inj h).symm⟩)))
        · cases h
    | invalidBlobId => simp [step] at h
    | denyListBlobDeleted => simp [step] at h

theorem certifiedEndOk_le {certified registered : Nat}
    (h : certifiedEndOk exact certified registered = true) : certified ≤ registered := by
  unfold certifiedEndOk at h
  split at h
  · exact le_of_eq (beq_iff_eq.mp h)
  · exact of_decide_eq_true h

theorem certifiedEndOk_eq {certified registered : Nat}
    (h : certifiedEndOk exact certified registered = true) (hx : exact = true) :
    certified = registered := by
  simp only [certifiedEndOk, hx, if_true] at h
  exact beq_iff_eq.mp h

/-! ### Counting registered objects -/

theorem count_tick (L : Lifecycle) (t : Nat) (p : ChainBlob → Bool) :
    (L.tick t).count p = L.count p := rfl

theorem count_add {L : Lifecycle} {o : ObjectID} (hfresh : o ∉ L.ids) (c : ChainBlob)
    (p : ChainBlob → Bool) : (L.add o c).count p = L.count p + ind (p c) := by
  simp only [count, add_ids, add_objects]
  rw [countP_concat, Function.update_self,
    countP_update_of_not_mem (fun x => x.any p) L.objects o (some c) L.ids hfresh]
  rfl

theorem count_modify {L : Lifecycle} (hL : L.Inv) {o : ObjectID} {c : ChainBlob}
    (hc : L.objects o = some c) (c' : ChainBlob) (p : ChainBlob → Bool) :
    (L.modify o c').count p + ind (p c) = L.count p + ind (p c') := by
  have h := countP_update_of_mem (fun x => x.any p) L.objects o (some c') L.ids
    (mem_ids_of_objects hL hc) hL.nodup
  simp only [hc, Option.any_some] at h
  exact h

theorem count_le_length (L : Lifecycle) (p : ChainBlob → Bool) : L.count p ≤ L.ids.length :=
  List.countP_le_length

theorem count_mono (L : Lifecycle) {p q : ChainBlob → Bool} (h : ∀ c, p c = true → q c = true) :
    L.count p ≤ L.count q := by
  apply List.countP_mono_left
  intro o _ hp
  cases ho : L.objects o with
  | none => simp [ho] at hp
  | some c => simp only [ho, Option.any_some] at hp ⊢; exact h c hp

theorem count_pos_of {L : Lifecycle} (hL : L.Inv) {o : ObjectID} {c : ChainBlob}
    (hc : L.objects o = some c) {p : ChainBlob → Bool} (hp : p c = true) : 0 < L.count p :=
  List.countP_pos_iff.mpr ⟨o, mem_ids_of_objects hL hc, by simp [hc, hp]⟩

theorem allObjects_of_count_eq_zero {L : Lifecycle} (hL : L.Inv) {p : ChainBlob → Bool}
    (h : L.count p = 0) : ∀ o c, L.objects o = some c → p c = false := by
  intro o c hc
  by_contra hp
  have := count_pos_of hL hc (Bool.eq_true_of_not_eq_false hp)
  omega

/-- A value that exists exactly while some object of a class does, exists when one does. -/
theorem isSome_of_object {L : Lifecycle} (hL : L.Inv) {α : Type} {x : Option α}
    {p : ChainBlob → Bool} (hiff : x.isSome ↔ 0 < L.count p) {o : ObjectID} {c : ChainBlob}
    (hc : L.objects o = some c) (hp : p c = true) : ∃ r, x = some r :=
  Option.isSome_iff_exists.mp (hiff.mpr (count_pos_of hL hc hp))

/-! ### Properties of all objects -/

/-- Every object with a status satisfies `P`. -/
def AllObjects (L : Lifecycle) (P : ChainBlob → Prop) : Prop :=
  ∀ o c, L.objects o = some c → P c

/-- The frame rule: a property of all objects survives a change of one object to a status
that has it. -/
theorem AllObjects.update {L L' : Lifecycle} {P : ChainBlob → Prop} (h : L.AllObjects P)
    {o : ObjectID} {c : ChainBlob} (hobj : L'.objects = Function.update L.objects o (some c))
    (hc : P c) : L'.AllObjects P := by
  intro o' c' h'
  rw [hobj] at h'
  by_cases ho : o' = o
  · subst ho
    simp only [Function.update_self, Option.some.injEq] at h'
    exact h' ▸ hc
  · rw [Function.update_of_ne ho] at h'
    exact h o' c' h'

/-! ### The invariant is kept -/

theorem Inv.add {L : Lifecycle} (hL : L.Inv) {o : ObjectID} (hfresh : L.objects o = none)
    {c : ChainBlob} (hc : c.deletable = false → c.deleted = false) : (L.add o c).Inv := by
  have hnot := not_mem_ids_of_objects hL hfresh
  refine ⟨?_, ?_, ?_⟩
  · have hne : ∀ a ∈ L.ids, a ≠ o := fun a ha h => hnot (h ▸ ha)
    simpa [List.nodup_append, hL.nodup] using hne
  · intro o'
    by_cases ho : o' = o
    · subst ho; simp
    · simp [hL.isSome_iff o', ho]
  · exact AllObjects.update (P := fun c => c.deletable = false → c.deleted = false)
      (fun o c h => hL.permanent_live o c h) rfl hc

theorem Inv.modify {L : Lifecycle} (hL : L.Inv) {o : ObjectID} {c c' : ChainBlob}
    (hc : L.objects o = some c) (hc' : c'.deletable = false → c'.deleted = false) :
    (L.modify o c').Inv := by
  refine ⟨hL.nodup, ?_, ?_⟩
  · intro o'
    by_cases ho : o' = o
    · subst ho; simp [mem_ids_of_objects hL hc]
    · simp [Function.update_of_ne ho, hL.isSome_iff o']
  · exact AllObjects.update (P := fun c => c.deletable = false → c.deleted = false)
      (fun o c h => hL.permanent_live o c h) rfl hc'

theorem Inv.tick {L : Lifecycle} (hL : L.Inv) (t : Nat) : (L.tick t).Inv :=
  ⟨hL.nodup, hL.isSome_iff, hL.permanent_live⟩

theorem step_inv {L L' : Lifecycle} {x : HistoryItem} (hL : L.Inv)
    (h : step blobId exact L x = some L') : L'.Inv := by
  rcases step_cases h with ⟨m, rfl, rfl⟩ | ⟨e, rfl, -, hf, -, rfl⟩ |
    ⟨e, c, rfl, hc, -, hdel, -, -, -, -, -, rfl⟩ | ⟨e, c, rfl, hc, -, hdel, -, -, -, rfl⟩ |
    ⟨e, c, rfl, hc, -, hdel, hd, -, -, rfl⟩
  · exact hL
  · apply Inv.tick
    exact hL.add hf fun _ => rfl
  · apply Inv.tick
    exact hL.modify hc fun _ => hdel
  · exact hL.modify hc fun _ => hdel
  · apply Inv.tick
    exact hL.modify hc fun h => by simp [hd] at h

/-- Registered IDs are never forgotten: a step only appends. -/
theorem step_ids_length {L L' : Lifecycle} {x : HistoryItem}
    (h : step blobId exact L x = some L') : L.ids.length ≤ L'.ids.length := by
  rcases step_cases h with ⟨m, rfl, rfl⟩ | ⟨e, rfl, -, -, -, rfl⟩ |
    ⟨e, c, rfl, -, -, -, -, -, -, -, -, rfl⟩ | ⟨e, c, rfl, -, -, -, -, -, -, rfl⟩ |
    ⟨e, c, rfl, -, -, -, -, -, -, rfl⟩ <;> simp

/-- The latest event epoch never decreases. -/
theorem step_clock {L L' : Lifecycle} {x : HistoryItem}
    (h : step blobId exact L x = some L') : L.clock ≤ L'.clock := by
  rcases step_cases h with ⟨m, rfl, rfl⟩ | ⟨e, rfl, -, -, hle, rfl⟩ |
    ⟨e, c, rfl, -, -, -, -, -, -, -, hle, rfl⟩ | ⟨e, c, rfl, -, -, -, -, -, -, rfl⟩ |
    ⟨e, c, rfl, -, -, -, -, -, hle, rfl⟩
  · exact le_refl _
  · simpa using hle
  · simpa using hle
  · simp
  · simpa using hle

/-! ### One object changes

Every step but a metadata mark changes the status of one object (or gives a fresh object its
first status) and does not move the clock back. The simulation proofs only need that shape,
so it is stated once as a relation, with its counting and frame rules. -/

/-- `L'` is `L` with object `o` moved from `old` (`none`: not registered yet) to `new`. -/
structure Moves (L L' : Lifecycle) (o : ObjectID) (old : Option ChainBlob) (new : ChainBlob) :
    Prop where
  inv : L'.Inv
  old_eq : L.objects o = old
  objects : L'.objects = Function.update L.objects o (some new)
  count : ∀ p, L'.count p + ind (old.any p) = L.count p + ind (p new)
  clock : L.clock ≤ L'.clock

theorem moves_add {L : Lifecycle} (hL : L.Inv) {o : ObjectID} (hfresh : L.objects o = none)
    {c : ChainBlob} (hc : c.deletable = false → c.deleted = false) :
    Moves L (L.add o c) o none c where
  inv := hL.add hfresh hc
  old_eq := hfresh
  objects := rfl
  count p := by
    rw [count_add (not_mem_ids_of_objects hL hfresh)]
    simp
  clock := le_refl _

theorem moves_modify {L : Lifecycle} (hL : L.Inv) {o : ObjectID} {c : ChainBlob}
    (hc : L.objects o = some c) {d : ChainBlob}
    (hd : d.deletable = false → d.deleted = false) :
    Moves L (L.modify o d) o (some c) d where
  inv := hL.modify hc hd
  old_eq := hc
  objects := rfl
  count p := by
    have h := count_modify hL hc d p
    simpa using h
  clock := le_refl _

section Moves

variable {L L' : Lifecycle} {o : ObjectID} {old : Option ChainBlob} {new : ChainBlob}

theorem Moves.tick (hm : Moves L L' o old new) {t : Nat} (ht : L.clock ≤ t) :
    Moves L (L'.tick t) o old new :=
  ⟨hm.inv.tick t, hm.old_eq, hm.objects, hm.count, ht⟩

theorem Moves.objects_self (hm : Moves L L' o old new) : L'.objects o = some new := by
  rw [hm.objects, Function.update_self]

theorem Moves.allObjects (hm : Moves L L' o old new) {P : ChainBlob → Prop}
    (h : L.AllObjects P) (hnew : P new) : L'.AllObjects P :=
  h.update hm.objects hnew

/-- A count that the old and the new status agree on does not change. -/
theorem Moves.count_eq (hm : Moves L L' o old new) {p : ChainBlob → Bool}
    (h : old.any p = p new) : L'.count p = L.count p := by
  have := hm.count p
  rw [h] at this
  omega

/-- A count that only the new status enters grows by one. -/
theorem Moves.count_succ (hm : Moves L L' o old new) {p : ChainBlob → Bool}
    (hold : old.any p = false) (hnew : p new = true) : L'.count p = L.count p + 1 := by
  have := hm.count p
  rw [hold, hnew] at this
  simpa using this

theorem Moves.count_pos (hm : Moves L L' o old new) {p : ChainBlob → Bool}
    (h : p new = true) : 0 < L'.count p :=
  count_pos_of hm.inv hm.objects_self h

/-- A property of all objects but the moved one carries over from `L`. -/
theorem Moves.allObjects_of_old {c : ChainBlob} (hm : Moves L L' o (some c) new) {P : ChainBlob → Prop}
    (h : L.AllObjects P) (hnew : P c → P new) : L'.AllObjects P :=
  hm.allObjects h (hnew (h o c hm.old_eq))

end Moves

/-! ### Registrations -/

/-- Each step registers at most the one object its input names. -/
theorem step_ids_length_eq {L L' : Lifecycle} {x : HistoryItem}
    (h : step blobId exact L x = some L') :
    L'.ids.length = L.ids.length + ind x.isRegistration := by
  rcases step_cases h with ⟨m, rfl, rfl⟩ | ⟨e, rfl, -, -, -, rfl⟩ |
    ⟨e, c, rfl, -, -, -, -, -, -, -, -, rfl⟩ | ⟨e, c, rfl, -, -, -, -, -, -, rfl⟩ |
    ⟨e, c, rfl, -, -, -, -, -, -, rfl⟩ <;> simp [HistoryItem.isRegistration]

@[simp] theorem run_nil (L : Lifecycle) : run blobId exact L [] = some L := rfl

@[simp] theorem run_cons (L : Lifecycle) (x : HistoryItem) (h : List HistoryItem) :
    run blobId exact L (x :: h) = (step blobId exact L x).bind fun L₁ => run blobId exact L₁ h :=
  rfl

/-- The clock only moves to the epoch of the input's event. -/
theorem step_clock_le {L L' : Lifecycle} {x : HistoryItem}
    (h : step blobId exact L x = some L') {e : Nat} (hx : ∀ t ∈ x.eventEpoch, t ≤ e)
    (hL : L.clock ≤ e) : L'.clock ≤ e := by
  rcases step_cases h with ⟨m, rfl, rfl⟩ | ⟨ev, rfl, -, -, -, rfl⟩ |
    ⟨ev, c, rfl, -, -, -, -, hext, -, -, -, rfl⟩ | ⟨ev, c, rfl, -, -, -, -, -, -, rfl⟩ |
    ⟨ev, c, rfl, -, -, -, -, -, -, rfl⟩
  · exact hL
  · exact hx ev.epoch rfl
  · exact hx ev.epoch (by simp [HistoryItem.eventEpoch, BlobEvent.eventEpoch, hext])
  · exact hL
  · exact hx ev.epoch rfl

/-- After a well-formed history the clock is at most any epoch that no event of the history
exceeds. -/
theorem run_clock_le {h : List HistoryItem} {L L' : Lifecycle}
    (hr : run blobId exact L h = some L') {e : Nat}
    (hh : ∀ x ∈ h, ∀ t ∈ x.eventEpoch, t ≤ e) (hL : L.clock ≤ e) : L'.clock ≤ e := by
  have hstep : ∀ x ∈ h, ∀ L₁ L₂ : Lifecycle, L₁.clock ≤ e →
      step blobId exact L₁ x = some L₂ → L₂.clock ≤ e :=
    fun x hx _ _ ht hs => step_clock_le hs (hh x hx) ht
  exact @foldlM_invariant _ _ (step blobId exact) (fun L => L.clock ≤ e) h L L' hstep hL hr

/-- A well-formed history registers one object per registration event. -/
theorem run_ids_length : ∀ (h : List HistoryItem) {L L' : Lifecycle},
    run blobId exact L h = some L' → L'.ids.length = L.ids.length + registrations h
  | [], L, L', hr => by
    simp only [run_nil, Option.some.injEq] at hr
    simp [hr, registrations]
  | x :: h, L, L', hr => by
    rw [run_cons] at hr
    obtain ⟨L₁, h₁, h₂⟩ := Option.bind_eq_some_iff.mp hr
    rw [run_ids_length h h₂, step_ids_length_eq h₁]
    simp only [registrations, List.countP_cons, ind]
    split <;> omega

end Lifecycle

/-! ## The tables -/

/-- An event with an object ID whose operand is a status change updates the aggregate entry
by `merge` and the object's entry by its per-object merge. -/
theorem BlobTables.apply_changeStatus {T : BlobTables} {e : BlobEvent} {o : ObjectID}
    {ct : BlobStatusChangeType} {ci : BlobStatusChangeInfo} {info : Option PerObjectBlobInfoV1}
    (hop : BlobInfoMergeOperand.ofEvent e = .ok (.changeStatus ct ci))
    (hobj : e.objectId? = some o)
    (hmerge : PerObjectBlobInfoV1.merge (T.perObject o) ⟨ct, ci⟩ = .ok info) :
    T.apply (.event e) =
      .ok ⟨BlobInfoV1.merge T.aggregate (.changeStatus ct ci), Function.update T.perObject o info⟩ := by
  simp [BlobTables.apply, hop, BlobTables.applyPerObject, hobj,
    PerObjectBlobInfoMergeOperand.fromBlobInfoMergeOperand, hmerge, bind, Except.bind, Except.map,
    pure, Except.pure]

/-- Every successful input merges its operand into the aggregate entry. -/
theorem BlobTables.apply_aggregate {T T' : BlobTables} {x : HistoryItem}
    (h : T.apply x = .ok T') :
    ∃ operand, x.operand = .ok operand ∧ T'.aggregate = BlobInfoV1.merge T.aggregate operand := by
  cases x with
  | metadataStored m =>
    simp only [BlobTables.apply, Except.ok.injEq] at h
    exact ⟨_, rfl, by rw [← h]⟩
  | event e =>
    simp only [BlobTables.apply, bind, Except.bind] at h
    cases hop : BlobInfoMergeOperand.ofEvent e with
    | error msg => simp [hop] at h
    | ok operand =>
      cases hp : BlobTables.applyPerObject T.perObject e operand with
      | error msg => simp [hop, hp] at h
      | ok perObject =>
        simp only [hop, hp, pure, Except.pure, Except.ok.injEq] at h
        subst h
        exact ⟨operand, hop, rfl⟩

/-- A run continues from the tables its first input produces. -/
theorem BlobTables.run_cons_of_ok {T T₁ : BlobTables} {x : HistoryItem} {h : List HistoryItem}
    (h₁ : T.apply x = .ok T₁) : BlobTables.run T (x :: h) = BlobTables.run T₁ h := by
  simp only [BlobTables.run, List.foldlM_cons, h₁, bind, Except.bind]

/-- The aggregate entry after a history is the fold of `merge` over the history's operands,
as `merge_mergeable` computes it. -/
theorem BlobTables.run_aggregate : ∀ (h : List HistoryItem) {T T' : BlobTables},
    BlobTables.run T h = .ok T' →
      ∃ ops, h.mapM HistoryItem.operand = .ok ops ∧
        T'.aggregate = ops.foldl BlobInfoV1.merge T.aggregate
  | [], T, T', hr => by
    simp only [BlobTables.run, List.foldlM_nil, pure, Except.pure, Except.ok.injEq] at hr
    exact ⟨[], rfl, by rw [← hr]; rfl⟩
  | x :: h, T, T', hr => by
    cases h₁ : T.apply x with
    | error msg =>
      simp [BlobTables.run, List.foldlM_cons, h₁, bind, Except.bind] at hr
    | ok T₁ =>
      rw [BlobTables.run_cons_of_ok h₁] at hr
      obtain ⟨operand, hop, hagg₁⟩ := BlobTables.apply_aggregate h₁
      obtain ⟨ops, hops, hagg⟩ := BlobTables.run_aggregate h hr
      refine ⟨operand :: ops, ?_, ?_⟩
      · simp [List.mapM_cons, hop, hops, bind, Except.bind, pure, Except.pure]
      · rw [hagg, hagg₁]
        rfl

end Walrus.BlobInfo
