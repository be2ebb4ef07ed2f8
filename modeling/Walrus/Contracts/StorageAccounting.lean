import Walrus.Contracts.Move
import Walrus.Machine.Count
import Walrus.Machine.Ring
import Walrus.Machine.Run

/-! # Storage accounting

`walrus::storage_accounting`, `walrus::storage_resource` and the functions of
`walrus::system_state_inner` that reserve or extend storage. The system keeps, for the
current epoch and each of the next `max_epochs_ahead - 1` epochs, the capacity that has been
sold for that epoch, in a ring buffer that rotates at every epoch change. Storage is sold as
`Storage` objects covering a range of epochs with a size; users split, fuse and destroy them,
and blobs hold them.

The state here is what these calls read and write: the epoch (the committee's), the
capacities, the ring buffer, and the multiset of live `Storage` objects, free or inside a
blob, as a list; calls name a storage object by its position in that list. Registering,
certifying and deleting a blob moves a storage object into or out of the blob without
changing it or the accounting, and is left out; so are the checks on the blob itself (that it
is certified) and the payments, since an abort there only removes runs. The rewards in the
ring buffer are left out as well; no modelled function reads them.
-/

namespace Walrus.System

open Machine

/-- `FutureAccounting`, without its rewards. -/
structure FutureAccounting where
  epoch : Nat
  usedCapacity : Nat
deriving DecidableEq, Repr

/-- `increase_used_capacity`. -/
def FutureAccounting.increaseUsedCapacity (self : FutureAccounting) (amount : Nat) :
    Except Abort FutureAccounting := do
  let usedCapacity ← u64Add self.usedCapacity amount
  return { self with usedCapacity }

/-- `FutureAccountingRingBuffer`. -/
structure FutureAccountingRingBuffer where
  currentIndex : Nat
  length : Nat
  ringBuffer : List FutureAccounting

namespace FutureAccountingRingBuffer

/-- `ring_new`: the entries of epochs `0` to `length - 1`, nothing used. -/
def ringNew (length : Nat) : FutureAccountingRingBuffer :=
  ⟨0, length, (List.range length).map fun epoch => ⟨epoch, 0⟩⟩

/-- `max_epochs_ahead`. -/
def maxEpochsAhead (self : FutureAccountingRingBuffer) : Nat :=
  self.length

/-- The vector index `ring_lookup` and `ring_lookup_mut` compute. -/
def actualIndex (self : FutureAccountingRingBuffer) (epochsInFuture : Nat) : Except Abort Nat := do
  unless epochsInFuture < self.length do throw .tooFarInFuture
  return (epochsInFuture + self.currentIndex) % self.length

/-- `ring_lookup`. -/
def ringLookup (self : FutureAccountingRingBuffer) (epochsInFuture : Nat) :
    Except Abort FutureAccounting := do
  let actualIndex ← self.actualIndex epochsInFuture
  match self.ringBuffer[actualIndex]? with
  | some accounting => return accounting
  | none => throw .indexOutOfBounds

/-- `ring_lookup_mut(epochs_in_future).increase_used_capacity(amount)`: the buffer after the
increase, and the entry's new used capacity. -/
def increaseUsedCapacity (self : FutureAccountingRingBuffer) (epochsInFuture amount : Nat) :
    Except Abort (FutureAccountingRingBuffer × Nat) := do
  let actualIndex ← self.actualIndex epochsInFuture
  match self.ringBuffer[actualIndex]? with
  | some accounting =>
    let accounting ← accounting.increaseUsedCapacity amount
    return ({ self with ringBuffer := self.ringBuffer.set actualIndex accounting },
      accounting.usedCapacity)
  | none => throw .indexOutOfBounds

/-- `ring_pop_expand`: the entry of the current epoch leaves and an empty entry for the epoch
`length` epochs after it takes its slot. -/
def ringPopExpand (self : FutureAccountingRingBuffer) :
    Except Abort (FutureAccounting × FutureAccountingRingBuffer) := do
  let currentIndex := self.currentIndex
  let some current := self.ringBuffer[currentIndex]? | throw .indexOutOfBounds
  let epoch ← u32Add current.epoch self.length
  let some (accounting, ringBuffer) :=
      swapRemove (self.ringBuffer ++ [⟨epoch, 0⟩]) currentIndex
    | throw .indexOutOfBounds
  let nextIndex ← u32Add currentIndex 1
  -- `% self.length` aborts on a zero length
  if self.length = 0 then throw .arithmeticError
  return (accounting, { self with ringBuffer, currentIndex := nextIndex % self.length })

/-- The entries from the current epoch on, in order. -/
def window (self : FutureAccountingRingBuffer) : List FutureAccounting :=
  self.ringBuffer.rotate self.currentIndex

end FutureAccountingRingBuffer

/-- `Storage`: a reservation of `storage_size` bytes for the epochs from `start_epoch`
(inclusive) to `end_epoch` (exclusive). -/
structure Storage where
  startEpoch : Nat
  endEpoch : Nat
  storageSize : Nat
deriving DecidableEq, Repr

namespace Storage

/-- `create_storage`. -/
def createStorage (startEpoch endEpoch storageSize : Nat) : Except Abort Storage := do
  unless startEpoch < endEpoch do throw .invalidEpochRange
  return ⟨startEpoch, endEpoch, storageSize⟩

/-- `extend_end_epoch`. -/
def extendEndEpoch (self : Storage) (extensionEpochs : Nat) : Except Abort Storage := do
  let endEpoch ← u32Add self.endEpoch extensionEpochs
  return { self with endEpoch }

/-- `split_by_epoch`: the storage keeps the epochs before `split_epoch`; the new one covers
the rest. -/
def splitByEpoch (storage : Storage) (splitEpoch : Nat) : Except Abort (Storage × Storage) := do
  unless splitEpoch > storage.startEpoch && splitEpoch < storage.endEpoch do
    throw .invalidEpoch
  return ({ storage with endEpoch := splitEpoch }, { storage with startEpoch := splitEpoch })

/-- `split_by_size`: the storage keeps `split_size`; the new one gets the rest. -/
def splitBySize (storage : Storage) (splitSize : Nat) : Except Abort (Storage × Storage) := do
  unless storage.storageSize ≥ splitSize do throw .incompatibleAmount
  return ({ storage with storageSize := splitSize },
    { storage with storageSize := storage.storageSize - splitSize })

/-- `fuse_periods`: two storages of one size over adjacent periods. -/
def fusePeriods (first second : Storage) : Except Abort Storage := do
  unless first.storageSize = second.storageSize do throw .incompatibleAmount
  if first.endEpoch = second.startEpoch then
    return { first with endEpoch := second.endEpoch }
  unless first.startEpoch = second.endEpoch do throw .incompatibleEpochs
  return { first with startEpoch := second.startEpoch }

/-- `fuse_amount`: two storages over the same period. -/
def fuseAmount (first second : Storage) : Except Abort Storage := do
  unless first.startEpoch = second.startEpoch && first.endEpoch = second.endEpoch do
    throw .incompatibleEpochs
  let storageSize ← u64Add first.storageSize second.storageSize
  return { first with storageSize }

/-- `fuse`. -/
def fuse (first second : Storage) : Except Abort Storage :=
  if first.startEpoch = second.startEpoch then first.fuseAmount second
  else first.fusePeriods second

end Storage

/-- The part of `SystemStateInnerV1` that storage accounting reads and writes, with every
live `Storage` object. -/
structure StorageSystem where
  epoch : Nat
  totalCapacitySize : Nat
  usedCapacitySize : Nat
  futureAccounting : FutureAccountingRingBuffer
  storages : List Storage

namespace StorageSystem

/-- The state `create_empty` starts from. The bound it asserts on `max_epochs_ahead` is left
out: without it there are only more runs. -/
def createEmpty (maxEpochsAhead : Nat) : StorageSystem :=
  ⟨0, 0, 0, .ringNew maxEpochsAhead, []⟩

/-- One round of the loop of `reserve_space_without_payment`: the offset `i` is charged, the
current epoch's used capacity follows its entry, and the capacity is checked if asked. -/
def reserveAt (checkCapacity : Bool) (storageAmount : Nat) (self : StorageSystem) (i : Nat) :
    Except Abort StorageSystem := do
  let (futureAccounting, usedCapacity) ←
    self.futureAccounting.increaseUsedCapacity i storageAmount
  let usedCapacitySize := if i = 0 then usedCapacity else self.usedCapacitySize
  unless !checkCapacity || usedCapacity ≤ self.totalCapacitySize do throw .storageExceeded
  return { self with futureAccounting, usedCapacitySize }

/-- `reserve_space_without_payment`: charge the offsets from `start_epoch_offset` to
`end_epoch_offset` and create the storage. -/
def reserveSpaceWithoutPayment (self : StorageSystem)
    (storageAmount startEpochOffset endEpochOffset : Nat) (checkCapacity : Bool) :
    Except Abort (StorageSystem × Storage) := do
  let periods ← checkedSub endEpochOffset startEpochOffset
  unless periods > 0 do throw .invalidEpochsAhead
  unless endEpochOffset ≤ self.futureAccounting.maxEpochsAhead do throw .invalidEpochsAhead
  unless storageAmount > 0 do throw .invalidResourceSize
  let self ← (List.range' startEpochOffset (endEpochOffset - startEpochOffset)).foldlM
    (reserveAt checkCapacity storageAmount) self
  let startEpoch ← u32Add self.epoch startEpochOffset
  let endEpoch ← u32Add self.epoch endEpochOffset
  let storage ← Storage.createStorage startEpoch endEpoch storageAmount
  return (self, storage)

/-- `reserve_space_for_epochs`; a start in the past is moved to the current epoch. -/
def reserveSpaceForEpochs (self : StorageSystem) (storageAmount startEpoch endEpoch : Nat) :
    Except Abort (StorageSystem × Storage) := do
  let currentEpoch := self.epoch
  let startEpoch := max startEpoch currentEpoch
  let startOffset := startEpoch - currentEpoch
  unless endEpoch > startEpoch do throw .invalidEpochsAhead
  let endOffset := endEpoch - currentEpoch
  unless endOffset ≤ self.futureAccounting.maxEpochsAhead do throw .invalidEpochsAhead
  self.reserveSpaceWithoutPayment storageAmount startOffset endOffset true

/-- `reserve_space`: from the current epoch, for `epochs_ahead` epochs. -/
def reserveSpace (self : StorageSystem) (storageAmount epochsAhead : Nat) :
    Except Abort (StorageSystem × Storage) := do
  unless epochsAhead > 0 do throw .invalidEpochsAhead
  unless epochsAhead ≤ self.futureAccounting.maxEpochsAhead do throw .invalidEpochsAhead
  let startEpoch := self.epoch
  let endEpoch ← u32Add startEpoch epochsAhead
  self.reserveSpaceForEpochs storageAmount startEpoch endEpoch

/-- One round of the loop of `extend_blob`: unlike `reserveAt`, it always checks the
capacity and never writes the current epoch's used capacity. -/
def extendAt (storageSize : Nat) (self : StorageSystem) (i : Nat) : Except Abort StorageSystem := do
  let (futureAccounting, usedCapacity) ←
    self.futureAccounting.increaseUsedCapacity i storageSize
  unless usedCapacity ≤ self.totalCapacitySize do throw .storageExceeded
  return { self with futureAccounting }

/-- `extend_blob` on the blob holding `storage`: charge the epochs after its end and extend
it. -/
def extendBlob (self : StorageSystem) (storage : Storage) (extendedEpochs : Nat) :
    Except Abort (StorageSystem × Storage) := do
  -- `assert_certified_not_expired`, for the storage's part
  unless self.epoch < storage.endEpoch do throw .resourceBounds
  let startOffset ← checkedSub storage.endEpoch self.epoch
  let endOffset ← u32Add startOffset extendedEpochs
  unless extendedEpochs > 0 do throw .invalidEpochsAhead
  unless endOffset ≤ self.futureAccounting.maxEpochsAhead do throw .invalidEpochsAhead
  let self ← (List.range' startOffset (endOffset - startOffset)).foldlM
    (extendAt storage.storageSize) self
  let storage ← storage.extendEndEpoch extendedEpochs
  return (self, storage)

/-- `extend_blob_with_resource` on the blob holding `storage`: the extension must end later
and is fused into it. -/
def extendBlobWithResource (self : StorageSystem) (storage extension : Storage) :
    Except Abort Storage := do
  unless self.epoch < storage.endEpoch do throw .resourceBounds
  unless extension.endEpoch > storage.endEpoch do throw .resourceBounds
  storage.fusePeriods extension

/-- The storage part of `advance_epoch`: the ring buffer rotates, and the used capacity and
the total capacity follow the new current epoch. -/
def advanceEpoch (self : StorageSystem) (capacity : Nat) : Except Abort StorageSystem := do
  let oldEpoch := self.epoch
  let newEpoch ← u32Add oldEpoch 1
  let (accountsOldEpoch, futureAccounting) ← self.futureAccounting.ringPopExpand
  unless accountsOldEpoch.epoch = oldEpoch do throw .invalidAccountingEpoch
  let current ← futureAccounting.ringLookup 0
  let usedCapacitySize := current.usedCapacity
  return { self with
    epoch := newEpoch
    futureAccounting
    usedCapacitySize
    totalCapacitySize := max capacity usedCapacitySize }

/-- The live storage object at position `i`. -/
def getStorage (self : StorageSystem) (i : Nat) : Except Abort Storage :=
  match self.storages[i]? with
  | some storage => .ok storage
  | none => .error .noSuchObject

/-- Two distinct live storage objects. -/
def getTwoStorages (self : StorageSystem) (i j : Nat) : Except Abort (Storage × Storage) := do
  unless i ≠ j do throw .noSuchObject
  let first ← self.getStorage i
  let second ← self.getStorage j
  return (first, second)

end StorageSystem

/-- A call that reserves, extends, splits, fuses or destroys storage, or changes the epoch.
Storage objects are named by their position among the live ones. -/
inductive StorageCall
  | reserveSpace (storageAmount epochsAhead : Nat)
  | reserveSpaceForEpochs (storageAmount startEpoch endEpoch : Nat)
  /-- `extend_blob` on the blob holding the storage `i`. -/
  | extendBlob (i extendedEpochs : Nat)
  /-- `extend_blob_with_resource` on the blob holding the storage `i`, with the storage `j`. -/
  | extendBlobWithResource (i j : Nat)
  | splitByEpoch (i splitEpoch : Nat)
  | splitBySize (i splitSize : Nat)
  | fusePeriods (i j : Nat)
  | fuseAmount (i j : Nat)
  | fuse (i j : Nat)
  /-- `destroy`, and `Blob::burn` of the blob holding the storage `i`. -/
  | destroy (i : Nat)
  /-- The reservation `certify_event_blob` makes for an event blob of this encoded size, for
  all epochs ahead and without a capacity check; the blob is burnt in the same call. -/
  | certifyEventBlob (encodedSize : Nat)
  | advanceEpoch (capacity : Nat)

namespace StorageSystem

/-- Replace the storage `i` by the result of a fuse with the storage `j`, which is consumed. -/
def fuseWith (self : StorageSystem) (f : Storage → Storage → Except Abort Storage) (i j : Nat) :
    Except Abort StorageSystem := do
  let (first, second) ← self.getTwoStorages i j
  let fused ← f first second
  return { self with storages := (self.storages.set i fused).eraseIdx j }

/-- One transaction. -/
def step (self : StorageSystem) : StorageCall → Except Abort StorageSystem
  | .reserveSpace storageAmount epochsAhead => do
    let (self, storage) ← self.reserveSpace storageAmount epochsAhead
    return { self with storages := self.storages ++ [storage] }
  | .reserveSpaceForEpochs storageAmount startEpoch endEpoch => do
    let (self, storage) ← self.reserveSpaceForEpochs storageAmount startEpoch endEpoch
    return { self with storages := self.storages ++ [storage] }
  | .extendBlob i extendedEpochs => do
    let storage ← self.getStorage i
    let (self', storage) ← self.extendBlob storage extendedEpochs
    return { self' with storages := self.storages.set i storage }
  | .extendBlobWithResource i j =>
    self.fuseWith self.extendBlobWithResource i j
  | .splitByEpoch i splitEpoch => do
    let storage ← self.getStorage i
    let (storage, rest) ← storage.splitByEpoch splitEpoch
    return { self with storages := self.storages.set i storage ++ [rest] }
  | .splitBySize i splitSize => do
    let storage ← self.getStorage i
    let (storage, rest) ← storage.splitBySize splitSize
    return { self with storages := self.storages.set i storage ++ [rest] }
  | .fusePeriods i j => self.fuseWith Storage.fusePeriods i j
  | .fuseAmount i j => self.fuseWith Storage.fuseAmount i j
  | .fuse i j => self.fuseWith Storage.fuse i j
  | .destroy i => do
    let _ ← self.getStorage i
    return { self with storages := self.storages.eraseIdx i }
  | .certifyEventBlob encodedSize => do
    let (self, _) ← self.reserveSpaceWithoutPayment encodedSize 0
      self.futureAccounting.maxEpochsAhead false
    return self
  | .advanceEpoch capacity => self.advanceEpoch capacity

/-- The state after a sequence of transactions from `create_empty`; an aborted transaction
changes nothing. -/
def run (maxEpochsAhead : Nat) (calls : List StorageCall) : StorageSystem :=
  Machine.run (commit fun s c => (s.step c).toOption) (createEmpty maxEpochsAhead) calls

end StorageSystem

/-! ## The ring buffer read as its window

The entry `k` epochs ahead sits at index `(k + current_index) % length`; read from the
current index on, the vector is the window of the current and the next epochs
(`Machine.Ring`). Every function of the ring buffer is specified on that window. -/

section Ring

/-- The entry after a successful `increase_used_capacity` of `amount`. -/
def FutureAccounting.addUsedCapacity (self : FutureAccounting) (amount : Nat) : FutureAccounting :=
  { self with usedCapacity := self.usedCapacity + amount }

@[simp] theorem FutureAccounting.epoch_addUsedCapacity (a : FutureAccounting) (amount : Nat) :
    (a.addUsedCapacity amount).epoch = a.epoch := rfl

@[simp] theorem FutureAccounting.usedCapacity_addUsedCapacity (a : FutureAccounting)
    (amount : Nat) : (a.addUsedCapacity amount).usedCapacity = a.usedCapacity + amount := rfl

theorem FutureAccounting.increaseUsedCapacity_eq_ok {a a' : FutureAccounting} {amount : Nat} :
    a.increaseUsedCapacity amount = .ok a' ↔
      a.usedCapacity + amount ≤ u64Max ∧ a' = a.addUsedCapacity amount := by
  simp only [increaseUsedCapacity, bind_eq_ok, u64Add_eq_ok, pure, Except.pure, Except.ok.injEq]
  constructor
  · rintro ⟨c, ⟨hc, rfl⟩, rfl⟩
    exact ⟨hc, rfl⟩
  · rintro ⟨hc, rfl⟩
    exact ⟨_, ⟨hc, rfl⟩, rfl⟩

namespace FutureAccountingRingBuffer

variable {r r' : FutureAccountingRingBuffer}

@[simp] theorem length_window (r : FutureAccountingRingBuffer) :
    r.window.length = r.ringBuffer.length :=
  List.length_rotate _ _

theorem actualIndex_eq_ok {k i : Nat} :
    r.actualIndex k = .ok i ↔ k < r.length ∧ (k + r.currentIndex) % r.length = i := by
  unfold actualIndex
  by_cases hk : k < r.length <;> simp [hk, pure, Except.pure, bind, Except.bind]

/-- The vector entry of the window position `k`. -/
theorem getElem?_ringBuffer {k : Nat} (hlen : r.ringBuffer.length = r.length) (hk : k < r.length) :
    r.ringBuffer[(k + r.currentIndex) % r.length]? = r.window[k]? := by
  unfold window
  rw [List.getElem?_rotate (by omega), hlen]

/-- `ring_lookup` reads the window. -/
theorem ringLookup_eq_ok (hlen : r.ringBuffer.length = r.length) {k : Nat} {a : FutureAccounting} :
    r.ringLookup k = .ok a ↔ r.window[k]? = some a := by
  by_cases hk : k < r.length
  · have hidx : r.actualIndex k = .ok ((k + r.currentIndex) % r.length) :=
      actualIndex_eq_ok.mpr ⟨hk, rfl⟩
    cases hw : r.window[k]? <;>
      simp [ringLookup, hidx, getElem?_ringBuffer hlen hk, hw, bind, Except.bind, pure, Except.pure]
  · have hnone : r.window[k]? = none := by simp [hlen]; omega
    simp [ringLookup, actualIndex, hk, hnone, bind, Except.bind, throw, throwThe,
      MonadExceptOf.throw]

/-- A successful increase charges the window at `k`, and nothing else. -/
theorem increaseUsedCapacity_eq_ok (hlen : r.ringBuffer.length = r.length) {k amount u : Nat}
    (h : r.increaseUsedCapacity k amount = .ok (r', u)) :
    ∃ a, r.window[k]? = some a ∧ u = a.usedCapacity + amount ∧
      r'.window = r.window.modify k (·.addUsedCapacity amount) ∧ r'.length = r.length := by
  unfold increaseUsedCapacity at h
  obtain ⟨i, hi, h⟩ := bind_eq_ok.mp h
  obtain ⟨hk, rfl⟩ := actualIndex_eq_ok.mp hi
  have hkw : k < r.window.length := by simpa [hlen]
  have ha : r.window[k]? = some r.window[k] := List.getElem?_eq_getElem hkw
  rw [getElem?_ringBuffer hlen hk, ha] at h
  obtain ⟨a', ha', h⟩ := bind_eq_ok.mp h
  obtain ⟨-, rfl⟩ := FutureAccounting.increaseUsedCapacity_eq_ok.mp ha'
  simp only [pure, Except.pure, Except.ok.injEq, Prod.mk.injEq] at h
  obtain ⟨rfl, rfl⟩ := h
  refine ⟨_, ha, rfl, ?_, rfl⟩
  -- the vector is written at the index of the window position `k`
  have hrot := rotate_set_mod r.currentIndex ((r.window[k]).addUsedCapacity amount) (hlen ▸ hk)
  rw [hlen] at hrot
  exact hrot.trans (set_eq_modify (fun x : FutureAccounting => x.addUsedCapacity amount) ha)

/-- `ring_pop_expand` returns the first entry of the window, drops it, and appends an empty
entry `length` epochs after it. -/
theorem ringPopExpand_eq_ok (hlen : r.ringBuffer.length = r.length) {acc : FutureAccounting}
    (h : r.ringPopExpand = .ok (acc, r')) :
    r.window[0]? = some acc ∧ r'.window = r.window.tail ++ [⟨acc.epoch + r.length, 0⟩] ∧
      r'.length = r.length ∧ r'.ringBuffer.length = r.length := by
  unfold ringPopExpand at h
  cases hcur : r.ringBuffer[r.currentIndex]? with
  | none =>
    simp [hcur, throw, throwThe, MonadExceptOf.throw] at h
  | some cur =>
    obtain ⟨hci', hcur'⟩ := List.getElem?_eq_some_iff.mp hcur
    have hci : r.currentIndex < r.length := hlen ▸ hci'
    simp only [hcur] at h
    obtain ⟨ep, hep, h⟩ := bind_eq_ok.mp h
    rw [u32Add_eq_ok] at hep
    rw [swapRemove_concat _ hci'] at h
    obtain ⟨nx, hnx, h⟩ := bind_eq_ok.mp h
    rw [u32Add_eq_ok] at hnx
    have hpos : r.length ≠ 0 := by omega
    simp only [hpos, if_false, pure, Except.pure, Except.ok.injEq, Prod.mk.injEq] at h
    obtain ⟨rfl, rfl⟩ := h
    have hhead : r.window[0]? = some r.ringBuffer[r.currentIndex] := by
      rw [← getElem?_ringBuffer hlen (by omega), Nat.zero_add, Nat.mod_eq_of_lt hci]
      exact List.getElem?_eq_getElem hci'
    refine ⟨hhead, ?_, rfl, by simp [hlen]⟩
    have hrot := rotate_set_succ (⟨ep, 0⟩ : FutureAccounting) hci'
    rw [hlen] at hrot
    show (r.ringBuffer.set r.currentIndex ⟨ep, 0⟩).rotate (nx % r.length) = _
    rw [← hnx.2, hrot, ← hep.2, hcur']
    rfl

theorem window_ringNew (length : Nat) :
    (ringNew length).window = (List.range length).map fun epoch => ⟨epoch, 0⟩ := by
  simp [ringNew, window]

end FutureAccountingRingBuffer

end Ring

/-! ## Storage objects -/

namespace Storage

variable {st a b f : Storage}

theorem createStorage_eq_ok {startEpoch endEpoch storageSize : Nat} :
    createStorage startEpoch endEpoch storageSize = .ok st ↔
      startEpoch < endEpoch ∧ st = ⟨startEpoch, endEpoch, storageSize⟩ := by
  unfold createStorage
  dsimp only
  rw [ite_throw_bind_eq_ok]
  simp only [pure, Except.pure, Except.ok.injEq]
  exact and_congr_right fun _ => eq_comm

theorem extendEndEpoch_eq_ok {extensionEpochs : Nat} :
    st.extendEndEpoch extensionEpochs = .ok a ↔
      st.endEpoch + extensionEpochs ≤ u32Max ∧ a = { st with endEpoch := st.endEpoch + extensionEpochs } := by
  simp only [extendEndEpoch, bind_eq_ok, u32Add_eq_ok, pure, Except.pure, Except.ok.injEq]
  constructor
  · rintro ⟨e, ⟨he, rfl⟩, rfl⟩
    exact ⟨he, rfl⟩
  · rintro ⟨he, rfl⟩
    exact ⟨_, ⟨he, rfl⟩, rfl⟩

theorem splitByEpoch_eq_ok {splitEpoch : Nat} :
    st.splitByEpoch splitEpoch = .ok (a, b) ↔
      st.startEpoch < splitEpoch ∧ splitEpoch < st.endEpoch ∧
        a = { st with endEpoch := splitEpoch } ∧ b = { st with startEpoch := splitEpoch } := by
  unfold splitByEpoch
  dsimp only
  rw [ite_throw_bind_eq_ok]
  simp only [gt_iff_lt, Bool.and_eq_true, decide_eq_true_eq, pure, Except.pure, Except.ok.injEq,
    Prod.mk.injEq, and_assoc]
  constructor
  · rintro ⟨h₁, h₂, rfl, rfl⟩
    exact ⟨h₁, h₂, rfl, rfl⟩
  · rintro ⟨h₁, h₂, rfl, rfl⟩
    exact ⟨h₁, h₂, rfl, rfl⟩

theorem splitBySize_eq_ok {splitSize : Nat} :
    st.splitBySize splitSize = .ok (a, b) ↔
      splitSize ≤ st.storageSize ∧ a = { st with storageSize := splitSize } ∧
        b = { st with storageSize := st.storageSize - splitSize } := by
  unfold splitBySize
  dsimp only
  rw [ite_throw_bind_eq_ok]
  simp only [ge_iff_le, pure, Except.pure, Except.ok.injEq, Prod.mk.injEq]
  constructor
  · rintro ⟨h, rfl, rfl⟩
    exact ⟨h, rfl, rfl⟩
  · rintro ⟨h, rfl, rfl⟩
    exact ⟨h, rfl, rfl⟩

/-- `fuse_periods` either appends the second period after the first or puts it before. -/
theorem fusePeriods_eq_ok :
    a.fusePeriods b = .ok f ↔ a.storageSize = b.storageSize ∧
      ((a.endEpoch = b.startEpoch ∧ f = { a with endEpoch := b.endEpoch }) ∨
        (a.endEpoch ≠ b.startEpoch ∧ a.startEpoch = b.endEpoch ∧
          f = { a with startEpoch := b.startEpoch })) := by
  unfold fusePeriods
  dsimp only
  rw [ite_throw_bind_eq_ok]
  by_cases hab : a.endEpoch = b.startEpoch
  · simp [hab, pure, Except.pure, eq_comm]
  · rw [if_neg hab, ite_throw_bind_eq_ok]
    simp [hab, pure, Except.pure, eq_comm]

theorem fuseAmount_eq_ok :
    a.fuseAmount b = .ok f ↔ a.startEpoch = b.startEpoch ∧ a.endEpoch = b.endEpoch ∧
      a.storageSize + b.storageSize ≤ u64Max ∧
        f = { a with storageSize := a.storageSize + b.storageSize } := by
  unfold fuseAmount
  dsimp only
  rw [ite_throw_bind_eq_ok]
  simp only [Bool.and_eq_true, decide_eq_true_eq, bind_eq_ok, u64Add_eq_ok, pure, Except.pure,
    Except.ok.injEq, and_assoc]
  constructor
  · rintro ⟨h₁, h₂, c, hc, rfl, rfl⟩
    exact ⟨h₁, h₂, hc, rfl⟩
  · rintro ⟨h₁, h₂, hc, rfl⟩
    exact ⟨h₁, h₂, _, hc, rfl, rfl⟩

end Storage

/-! ## The storage calls -/

namespace StorageSystem

variable {s s' : StorageSystem}

/-- The used capacity of the current epoch is the one of its ring buffer entry:
`used_capacity_size = ring_lookup(0).used_capacity()`. -/
def UsedEq (s : StorageSystem) : Prop :=
  ∀ a, s.futureAccounting.window[0]? = some a → s.usedCapacitySize = a.usedCapacity

/-- What a loop charging `amt` to the window positions `lo` to `hi - 1` does: the window
moves only there, the other fields stay, and the used capacity of the current epoch keeps
following its entry. -/
structure Charged (amt lo hi : Nat) (s s' : StorageSystem) : Prop where
  window : s'.futureAccounting.window =
    mapRange (·.addUsedCapacity amt) lo hi s.futureAccounting.window
  length : s'.futureAccounting.length = s.futureAccounting.length
  epoch : s'.epoch = s.epoch
  totalCapacitySize : s'.totalCapacitySize = s.totalCapacitySize
  storages : s'.storages = s.storages
  usedEq : s.UsedEq → s'.UsedEq

theorem Charged.refl (amt lo : Nat) (s : StorageSystem) : Charged amt lo lo s s where
  window := (mapRange_self _ _ _).symm
  length := rfl
  epoch := rfl
  totalCapacitySize := rfl
  storages := rfl
  usedEq := id

theorem Charged.trans {amt lo mid hi : Nat} {s₁ s₂ s₃ : StorageSystem}
    (h₁ : Charged amt lo mid s₁ s₂) (h₂ : Charged amt mid hi s₂ s₃) (hlo : lo ≤ mid)
    (hhi : mid ≤ hi) : Charged amt lo hi s₁ s₃ where
  window := by rw [h₂.window, h₁.window, mapRange_mapRange _ hlo hhi]
  length := h₂.length.trans h₁.length
  epoch := h₂.epoch.trans h₁.epoch
  totalCapacitySize := h₂.totalCapacitySize.trans h₁.totalCapacitySize
  storages := h₂.storages.trans h₁.storages
  usedEq := fun h => h₂.usedEq (h₁.usedEq h)

/-- A window that is as long as the buffer claims. -/
def RingOk (s : StorageSystem) : Prop :=
  s.futureAccounting.window.length = s.futureAccounting.length

theorem Charged.ringOk {amt lo hi : Nat} (hc : Charged amt lo hi s s') (h : s.RingOk) :
    s'.RingOk := by
  unfold RingOk
  rw [hc.window, length_mapRange, hc.length]
  exact h

theorem RingOk.ringBuffer_length (h : s.RingOk) :
    s.futureAccounting.ringBuffer.length = s.futureAccounting.length := by
  simpa [RingOk] using h

/-- One round of `reserve_space_without_payment` charges its offset; at offset `0` the
current epoch's used capacity is written with the entry's new value. -/
theorem reserveAt_charged (hlen : s.RingOk) {check : Bool} {amt i : Nat}
    (h : reserveAt check amt s i = .ok s') : Charged amt i (i + 1) s s' := by
  unfold reserveAt at h
  obtain ⟨⟨r', u⟩, hinc, h⟩ := bind_eq_ok.mp h
  obtain ⟨a, ha, rfl, hw, hl⟩ :=
    FutureAccountingRingBuffer.increaseUsedCapacity_eq_ok hlen.ringBuffer_length hinc
  dsimp only at h
  rw [ite_throw_bind_eq_ok] at h
  obtain ⟨-, h⟩ := h
  simp only [pure, Except.pure, Except.ok.injEq] at h
  subst h
  refine ⟨by rw [hw, modify_eq_mapRange], hl, rfl, rfl, rfl, ?_⟩
  intro hU a' ha'
  simp only [hw] at ha'
  by_cases hi : i = 0
  · -- the current epoch's entry was charged, and its new value written
    subst hi
    rw [List.getElem?_modify_eq, ha] at ha'
    cases ha'
    simp
  · rw [List.getElem?_modify_ne _ _ hi] at ha'
    simpa [hi] using hU a' ha'

/-- One round of `extend_blob` charges its offset, which is never the current epoch's. -/
theorem extendAt_charged (hlen : s.RingOk) {amt i : Nat} (hi : 0 < i)
    (h : extendAt amt s i = .ok s') : Charged amt i (i + 1) s s' := by
  unfold extendAt at h
  obtain ⟨⟨r', u⟩, hinc, h⟩ := bind_eq_ok.mp h
  obtain ⟨a, ha, rfl, hw, hl⟩ :=
    FutureAccountingRingBuffer.increaseUsedCapacity_eq_ok hlen.ringBuffer_length hinc
  dsimp only at h
  rw [ite_throw_bind_eq_ok] at h
  obtain ⟨-, h⟩ := h
  simp only [pure, Except.pure, Except.ok.injEq] at h
  subst h
  refine ⟨by rw [hw, modify_eq_mapRange], hl, rfl, rfl, rfl, ?_⟩
  intro hU a' ha'
  simp only [hw] at ha'
  rw [List.getElem?_modify_ne _ _ (Nat.pos_iff_ne_zero.mp hi)] at ha'
  exact hU a' ha'

/-- A loop whose rounds from `b` on each charge their offset charges the whole range. The
induction is on the number of rounds, and `Charged.trans` joins each round to the rest. -/
theorem foldlM_charged {body : StorageSystem → Nat → Except Abort StorageSystem} {amt b : Nat}
    (hbody : ∀ s i s', b ≤ i → s.RingOk → body s i = .ok s' → Charged amt i (i + 1) s s') :
    ∀ (n lo : Nat) {s s' : StorageSystem}, b ≤ lo → s.RingOk →
      (List.range' lo n).foldlM body s = .ok s' → Charged amt lo (lo + n) s s'
  | 0, lo, s, s', _, _, h => by
    simp only [List.range'_zero, List.foldlM_nil, pure, Except.pure, Except.ok.injEq] at h
    subst h
    exact Charged.refl amt lo s
  | n + 1, lo, s, s', hb, hlen, h => by
    rw [List.range'_succ, List.foldlM_cons] at h
    obtain ⟨s₁, h₁, h⟩ := bind_eq_ok.mp h
    have hc₁ := hbody s lo s₁ hb hlen h₁
    have hc₂ := foldlM_charged hbody n (lo + 1) (by omega) (hc₁.ringOk hlen) h
    rw [show lo + (n + 1) = lo + 1 + n by omega]
    exact hc₁.trans hc₂ (by omega) (by omega)

/-- `reserve_space_without_payment` charges the offsets it was given and returns the storage
for exactly those epochs. -/
theorem reserveSpaceWithoutPayment_eq_ok (hlen : s.RingOk) {amt lo hi : Nat} {check : Bool}
    {st : Storage} (h : s.reserveSpaceWithoutPayment amt lo hi check = .ok (s', st)) :
    lo < hi ∧ hi ≤ s.futureAccounting.length ∧ Charged amt lo hi s s' ∧
      st = ⟨s.epoch + lo, s.epoch + hi, amt⟩ := by
  unfold reserveSpaceWithoutPayment at h
  obtain ⟨p, hp, h⟩ := bind_eq_ok.mp h
  obtain ⟨hlohi, rfl⟩ := checkedSub_eq_ok.mp hp
  dsimp only at h
  rw [ite_throw_bind_eq_ok] at h
  obtain ⟨hpos, h⟩ := h
  rw [ite_throw_bind_eq_ok] at h
  obtain ⟨hhi, h⟩ := h
  rw [ite_throw_bind_eq_ok] at h
  obtain ⟨-, h⟩ := h
  obtain ⟨s₁, hloop, h⟩ := bind_eq_ok.mp h
  have hc := foldlM_charged (fun _ _ _ _ hl hb => reserveAt_charged hl hb) (hi - lo) lo
    (Nat.zero_le _) hlen hloop
  rw [show lo + (hi - lo) = hi by omega] at hc
  obtain ⟨e₁, he₁, h⟩ := bind_eq_ok.mp h
  obtain ⟨e₂, he₂, h⟩ := bind_eq_ok.mp h
  obtain ⟨st', hst, h⟩ := bind_eq_ok.mp h
  obtain ⟨-, rfl⟩ := u32Add_eq_ok.mp he₁
  obtain ⟨-, rfl⟩ := u32Add_eq_ok.mp he₂
  obtain ⟨-, rfl⟩ := Storage.createStorage_eq_ok.mp hst
  simp only [pure, Except.pure, Except.ok.injEq, Prod.mk.injEq] at h
  obtain ⟨rfl, rfl⟩ := h
  exact ⟨by omega, hhi, hc, by rw [hc.epoch]⟩

/-- `reserve_space_for_epochs` reserves from the later of the start and the current epoch. -/
theorem reserveSpaceForEpochs_eq_ok {amt startEpoch endEpoch : Nat} {st : Storage}
    (h : s.reserveSpaceForEpochs amt startEpoch endEpoch = .ok (s', st)) :
    s.reserveSpaceWithoutPayment amt (max startEpoch s.epoch - s.epoch) (endEpoch - s.epoch)
      true = .ok (s', st) := by
  unfold reserveSpaceForEpochs at h
  dsimp only at h
  rw [ite_throw_bind_eq_ok] at h
  obtain ⟨-, h⟩ := h
  rw [ite_throw_bind_eq_ok] at h
  exact h.2

theorem reserveSpace_eq_ok {amt epochsAhead : Nat} {st : Storage}
    (h : s.reserveSpace amt epochsAhead = .ok (s', st)) :
    s.reserveSpaceForEpochs amt s.epoch (s.epoch + epochsAhead) = .ok (s', st) := by
  unfold reserveSpace at h
  dsimp only at h
  rw [ite_throw_bind_eq_ok] at h
  obtain ⟨-, h⟩ := h
  rw [ite_throw_bind_eq_ok] at h
  obtain ⟨-, h⟩ := h
  obtain ⟨e, he, h⟩ := bind_eq_ok.mp h
  obtain ⟨-, rfl⟩ := u32Add_eq_ok.mp he
  exact h

/-- `extend_blob` charges the epochs from the storage's end on and moves the end. -/
theorem extendBlob_eq_ok (hlen : s.RingOk) {st st' : Storage} {x : Nat}
    (h : s.extendBlob st x = .ok (s', st')) :
    s.epoch < st.endEpoch ∧ st.endEpoch - s.epoch + x ≤ s.futureAccounting.length ∧
      Charged st.storageSize (st.endEpoch - s.epoch) (st.endEpoch - s.epoch + x) s s' ∧
      st' = { st with endEpoch := st.endEpoch + x } := by
  unfold extendBlob at h
  dsimp only at h
  rw [ite_throw_bind_eq_ok] at h
  obtain ⟨hlive, h⟩ := h
  obtain ⟨lo, hlo, h⟩ := bind_eq_ok.mp h
  obtain ⟨-, rfl⟩ := checkedSub_eq_ok.mp hlo
  obtain ⟨hi, hhi, h⟩ := bind_eq_ok.mp h
  obtain ⟨-, rfl⟩ := u32Add_eq_ok.mp hhi
  rw [ite_throw_bind_eq_ok] at h
  obtain ⟨-, h⟩ := h
  rw [ite_throw_bind_eq_ok] at h
  obtain ⟨hbound, h⟩ := h
  obtain ⟨s₁, hloop, h⟩ := bind_eq_ok.mp h
  -- the offsets start after the current epoch, whose used capacity is not written
  have hc := foldlM_charged (b := 1) (fun _ _ _ hi hl hb => extendAt_charged hl hi hb) _ _
    (by omega) hlen hloop
  rw [show st.endEpoch - s.epoch + (st.endEpoch - s.epoch + x - (st.endEpoch - s.epoch)) =
    st.endEpoch - s.epoch + x by omega] at hc
  obtain ⟨st₁, hst, h⟩ := bind_eq_ok.mp h
  obtain ⟨-, rfl⟩ := Storage.extendEndEpoch_eq_ok.mp hst
  simp only [pure, Except.pure, Except.ok.injEq, Prod.mk.injEq] at h
  obtain ⟨rfl, rfl⟩ := h
  exact ⟨hlive, hbound, hc, rfl⟩

theorem extendBlobWithResource_eq_ok {st ext f : Storage}
    (h : s.extendBlobWithResource st ext = .ok f) :
    s.epoch < st.endEpoch ∧ st.endEpoch < ext.endEpoch ∧ st.fusePeriods ext = .ok f := by
  unfold extendBlobWithResource at h
  dsimp only at h
  rw [ite_throw_bind_eq_ok] at h
  obtain ⟨hlive, h⟩ := h
  rw [ite_throw_bind_eq_ok] at h
  exact ⟨hlive, h⟩

/-- The storage part of `advance_epoch` moves the window one epoch on. -/
theorem advanceEpoch_eq_ok (hlen : s.RingOk) {capacity : Nat}
    (h : s.advanceEpoch capacity = .ok s') :
    ∃ acc, s.futureAccounting.window[0]? = some acc ∧ acc.epoch = s.epoch ∧
      s'.epoch = s.epoch + 1 ∧ s'.futureAccounting.length = s.futureAccounting.length ∧
      s'.futureAccounting.window =
        s.futureAccounting.window.tail ++ [⟨acc.epoch + s.futureAccounting.length, 0⟩] ∧
      s'.RingOk ∧ s'.UsedEq ∧ s'.storages = s.storages := by
  unfold advanceEpoch at h
  obtain ⟨e, he, h⟩ := bind_eq_ok.mp h
  obtain ⟨-, rfl⟩ := u32Add_eq_ok.mp he
  obtain ⟨⟨acc, r'⟩, hpop, h⟩ := bind_eq_ok.mp h
  obtain ⟨hacc, hw, hl, hrb⟩ :=
    FutureAccountingRingBuffer.ringPopExpand_eq_ok hlen.ringBuffer_length hpop
  dsimp only at h
  rw [ite_throw_bind_eq_ok] at h
  obtain ⟨hep, h⟩ := h
  obtain ⟨cur, hcur, h⟩ := bind_eq_ok.mp h
  have hcur' := (FutureAccountingRingBuffer.ringLookup_eq_ok (hrb.trans hl.symm)).mp hcur
  simp only [pure, Except.pure, Except.ok.injEq] at h
  subst h
  refine ⟨acc, hacc, hep, rfl, hl, hw, by simpa [RingOk, hl] using hrb, ?_, rfl⟩
  intro a ha
  rw [hcur'] at ha
  cases ha
  rfl

theorem getStorage_eq_ok {i : Nat} {st : Storage} :
    s.getStorage i = .ok st ↔ s.storages[i]? = some st := by
  unfold getStorage
  cases s.storages[i]? <;> simp

theorem getTwoStorages_eq_ok {i j : Nat} {a b : Storage} :
    s.getTwoStorages i j = .ok (a, b) ↔
      i ≠ j ∧ s.storages[i]? = some a ∧ s.storages[j]? = some b := by
  unfold getTwoStorages
  dsimp only
  rw [ite_throw_bind_eq_ok]
  simp only [bind_eq_ok, getStorage_eq_ok, pure, Except.pure, Except.ok.injEq, Prod.mk.injEq]
  constructor
  · rintro ⟨hij, a', ha, b', hb, rfl, rfl⟩
    exact ⟨hij, ha, hb⟩
  · rintro ⟨hij, ha, hb⟩
    exact ⟨hij, a, ha, b, hb, rfl, rfl⟩

/-- A fuse consumes the second storage into the first. -/
theorem fuseWith_eq_ok {g : Storage → Storage → Except Abort Storage} {i j : Nat}
    (h : s.fuseWith g i j = .ok s') :
    ∃ a b f, i ≠ j ∧ s.storages[i]? = some a ∧ s.storages[j]? = some b ∧ g a b = .ok f ∧
      s' = { s with storages := (s.storages.set i f).eraseIdx j } := by
  unfold fuseWith at h
  obtain ⟨⟨a, b⟩, hab, h⟩ := bind_eq_ok.mp h
  obtain ⟨hij, ha, hb⟩ := getTwoStorages_eq_ok.mp hab
  obtain ⟨f, hf, h⟩ := bind_eq_ok.mp h
  simp only [pure, Except.pure, Except.ok.injEq] at h
  exact ⟨a, b, f, hij, ha, hb, hf, h.symm⟩

end StorageSystem

end Walrus.System
