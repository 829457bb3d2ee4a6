import Mathlib.Tactic.Ring
import Mutiny.AtomicMoveSolo
import Mutiny.ZeroCopy

/-!
# References to the slots of `OgreArrayPoolAllocator`

A reference is the address of a slot. What is done by reference, `dealloc_ref`, `publish_leaked_ref`, the `drop` of an
`OgreUnique` and its `into_ogre_arc`, takes the slot id back from the address, which `offset_from` does for elements of
any size but 0: for those it panics.

The models of the other modules know a reference by the position of its slot, which is what its address amounts to if the
size is not 0 (`idFromRef_getUnchecked`).
-/

namespace Mutiny

/-- `offset_from` of a pointer to elements of `size` bytes; `none` when it panics. -/
def offsetFrom (size self origin : Nat) : Option Int :=
  if size = 0 then none else some (((self : Int) - origin) / size)

/-- The array of the slots: its address and `size_of::<DataType>()`. -/
structure SlotArray where
  address : Nat
  slotSize : Nat

/-- `OgreUnique`, with the address `data_ref` holds. -/
structure SlotArray.OgreUnique where
  dataRef : Nat
deriving DecidableEq

namespace SlotArray
variable {C D : Type → Type} {α β : Type}

def getUnchecked (m : SlotArray) (index : Nat) : Nat := m.address + index * m.slotSize

def idFromRef (m : SlotArray) (slot : Nat) : Option UInt32 :=
  (offsetFrom m.slotSize slot (m.getUnchecked 0)).map UInt32.ofInt

def refFromId (m : SlotArray) (B : Nat) (slotId : UInt32) : Nat := m.getUnchecked (slotId.toNat % B)

section Ops
variable [MoveContainer C] [MoveContainer D]

def allocRef (m : SlotArray) (B : Nat) (st : Store C α) : Store C α × Option (Nat × UInt32) :=
  let (st, slotId) := st.allocRef B
  (st, slotId.map fun slotId => (m.getUnchecked slotId.toNat, slotId))

/-- `dealloc_ref(slot)`, and so `unleak_slot_ref` and `release_leaked_ref` -/
def deallocRef (m : SlotArray) (B : Nat) (st : Store C α) (slot : Nat) : Option (Store C α) :=
  (m.idFromRef slot).map (st.deallocId B)

def publishLeakedRef (m : SlotArray) (B : Nat) (z : ZeroCopy C D α) (slot : Nat) :
    Option (ZeroCopy C D α × Option UInt32) :=
  (m.idFromRef slot).map (z.publishLeakedId B)

namespace OgreUnique

def fromAllocatedRef (dataRef : Nat) : OgreUnique := ⟨dataRef⟩

def drop (u : OgreUnique) (m : SlotArray) (B : Nat) (st : Store C α) : Option (Store C α) := m.deallocRef B st u.dataRef

def intoOgreArc (u : OgreUnique) (m : SlotArray) (st : Store C α) : Option (Store C α × OgreArc) :=
  (m.idFromRef u.dataRef).map st.fromAllocated

end OgreUnique

end Ops

section Refs
variable {m : SlotArray} {B : Nat} {slotId : UInt32}

theorem idFromRef_getUnchecked (h : m.slotSize ≠ 0) (index : Nat) :
    m.idFromRef (m.getUnchecked index) = some (Mutiny.idFromRef index) := by
  have hdist : ((m.getUnchecked index : Nat) : Int) - m.getUnchecked 0 = index * m.slotSize := by
    simp only [getUnchecked]
    push_cast
    ring
  have hoff : offsetFrom m.slotSize (m.getUnchecked index) (m.getUnchecked 0) = some (index : Int) := by
    rw [offsetFrom, if_neg h, hdist, Int.mul_ediv_cancel _ (by exact_mod_cast h)]
  have hcast : UInt32.ofInt (index : Int) = UInt32.ofNat index := by
    apply UInt32.toNat_inj.mp
    simp only [UInt32.ofInt, UInt32.toNat_ofNat']
    omega
  rw [idFromRef, hoff, Option.map_some, hcast]
  rfl

theorem idFromRef_eq_none (h : m.slotSize = 0) (slot : Nat) : m.idFromRef slot = none := by
  rw [idFromRef, offsetFrom, if_pos h]
  rfl

/-- What is made of the id of the reference to a slot is made of the slot's own id. -/
theorem map_idFromRef_iff (f : UInt32 → β) :
    (m.idFromRef (m.getUnchecked slotId.toNat)).map f = some (f slotId) ↔ m.slotSize ≠ 0 := by
  constructor
  · intro hmap h
    rw [idFromRef_eq_none h] at hmap
    cases hmap
  · intro h
    rw [idFromRef_getUnchecked h, idFromRef_toNat]
    rfl

theorem refFromId_of_lt (h : slotId.toNat < B) : m.refFromId B slotId = m.getUnchecked slotId.toNat := by
  rw [refFromId, Nat.mod_eq_of_lt h]

/-- The reference `alloc_ref` returns is that to the slot whose id it returns. -/
theorem eq_of_allocRef [MoveContainer C] {st st' : Store C α} {slot : Nat}
    (h : m.allocRef B st = (st', some (slot, slotId))) : slot = m.getUnchecked slotId.toNat := by
  unfold allocRef at h
  obtain ⟨id, -, hid⟩ := Option.map_eq_some_iff.mp (congrArg Prod.snd h)
  cases hid
  rfl

end Refs

/-- References and ids of the slots identify each other, and what is done by reference is done to the slot that
`alloc_ref` returned, exactly if the slots are not of size 0. -/
theorem refs_identify_slots_iff [MoveContainer C] [MoveContainer D] (m : SlotArray) (B : Nat) :
    (∀ slotId : UInt32, slotId.toNat < B →
      (m.idFromRef (m.refFromId B slotId) = some slotId ↔ m.slotSize ≠ 0)) ∧
    ∀ (st st₁ : Store C α) (slot : Nat) (slotId : UInt32), m.allocRef B st = (st₁, some (slot, slotId)) →
      ∀ (st₂ : Store C α) (z : ZeroCopy C D α),
        (m.deallocRef B st₂ slot = some (st₂.deallocId B slotId) ↔ m.slotSize ≠ 0) ∧
        (m.publishLeakedRef B z slot = some (z.publishLeakedId B slotId) ↔ m.slotSize ≠ 0) ∧
        ((OgreUnique.fromAllocatedRef slot).drop m B st₂ = some (st₂.deallocId B slotId) ↔ m.slotSize ≠ 0) ∧
        ((OgreUnique.fromAllocatedRef slot).intoOgreArc m st₂ = some (st₂.fromAllocated slotId) ↔ m.slotSize ≠ 0) := by
  refine ⟨fun slotId hlt => ?_, fun st st₁ slot slotId hst st₂ z => ?_⟩
  · rw [refFromId_of_lt hlt]
    have hid : (m.idFromRef (m.getUnchecked slotId.toNat)).map id = some slotId ↔ m.slotSize ≠ 0 := map_idFromRef_iff id
    rwa [Option.map_id] at hid
  · obtain rfl := eq_of_allocRef hst
    exact ⟨map_idFromRef_iff (st₂.deallocId B), map_idFromRef_iff (z.publishLeakedId B),
      map_idFromRef_iff (st₂.deallocId B), map_idFromRef_iff st₂.fromAllocated⟩

/-- Two slots of eight bytes -/
theorem refs_identify_slots_u64 :
    (⟨4096, 8⟩ : SlotArray).idFromRef ((⟨4096, 8⟩ : SlotArray).refFromId 2 1) = some 1 ∧
      ∃ st : Store AtomicMove Nat, (⟨4096, 8⟩ : SlotArray).allocRef 2 (.new 2 fun _ => 0) = (st, some (4096, 0)) ∧
        (OgreUnique.fromAllocatedRef 4096).drop ⟨4096, 8⟩ 2 st = some (st.deallocId 2 0) := by
  obtain ⟨hids, hslots⟩ := refs_identify_slots_iff (C := AtomicMove) (D := AtomicMove) (α := Nat) ⟨4096, 8⟩ 2
  have halloc : ((⟨4096, 8⟩ : SlotArray).allocRef 2 (.new 2 fun _ => 0 : Store AtomicMove Nat)).2 = some (4096, 0) := by
    decide +kernel
  refine ⟨(hids 1 (by decide)).mpr (by decide), _, Prod.ext rfl halloc, ?_⟩
  exact (hslots _ _ 4096 0 (Prod.ext rfl halloc) _ (.new 2 fun _ => 0)).2.2.1.mpr (by decide)

/-- With slots of size 0, the id is not found and the `OgreUnique` cannot be dropped. -/
theorem zero_sized_slot :
    (⟨4096, 0⟩ : SlotArray).idFromRef ((⟨4096, 0⟩ : SlotArray).refFromId 1 0) ≠ some 0 ∧
      ∃ st : Store AtomicMove Unit, (⟨4096, 0⟩ : SlotArray).allocRef 1 (.new 1 fun _ => ()) = (st, some (4096, 0)) ∧
        (⟨4096, 0⟩ : SlotArray).deallocRef 1 st 4096 = none ∧
        (OgreUnique.fromAllocatedRef 4096).drop ⟨4096, 0⟩ 1 st = none ∧
        (OgreUnique.fromAllocatedRef 4096).intoOgreArc ⟨4096, 0⟩ st = none ∧
        (⟨4096, 0⟩ : SlotArray).publishLeakedRef 1 (⟨st, .withInitializer fun _ => 0⟩ : ZeroCopy _ AtomicMove _) 4096 =
          none := by
  have halloc : ((⟨4096, 0⟩ : SlotArray).allocRef 1 (.new 1 fun _ => () : Store AtomicMove Unit)).2 = some (4096, 0) := by
    decide +kernel
  exact ⟨by decide, _, Prod.ext rfl halloc, rfl, rfl, rfl, rfl⟩

end SlotArray

end Mutiny
