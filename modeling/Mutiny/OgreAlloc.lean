import Mathlib.Data.List.Count
import Mathlib.Data.List.Perm.Subperm
import Mutiny.StreamsManager

/-!
# `OgreArrayPoolAllocator` and `OgreArc`

The pool has `POOL_SIZE` slots, `B` here, and a free list of slot ids. An `OgreArc` points to a box
with the id of its slot and the number of copies of the `OgreArc`; the last copy to be dropped gives
the slot back and frees the box. Boxes are numbered in the order of their allocation and no number is
used twice. Following a pointer to a box that is gone is undefined behaviour and has no result here.

`Store.Ok` balances the books: a slot is free, reserved by a caller or that of one box, and the count
in a box is the number of `owners` of the box, modulo `2 ^ 32`.
-/

namespace Mutiny
open MoveContainer

structure InnerOgreArc where
  dataId : UInt32
  referencesCount : UInt32
deriving DecidableEq

abbrev OgreArc := Nat

/-- `id_from_ref(slot)`, `slot` being a position in the pool. -/
def idFromRef (slot : Nat) : UInt32 := UInt32.ofNat slot

theorem idFromRef_toNat (slotId : UInt32) : idFromRef slotId.toNat = slotId := UInt32.ofNat_toNat

/-- The allocator and the boxes of the `OgreArc`s made from its slots. -/
structure Store (C : Type → Type) (α : Type) where
  pool : Nat → α
  freeList : C UInt32
  box : Nat → Option InnerOgreArc
  nextBox : Nat

namespace Store
variable {C : Type → Type} {α : Type}

def setBox (st : Store C α) (arc : OgreArc) (inner : Option InnerOgreArc) : Store C α :=
  { st with box := Function.update st.box arc inner }

section Ops
variable [MoveContainer C]

def new (B : Nat) (pool : Nat → α) : Store C α where
  pool := pool
  freeList := (idRange 0 (UInt32.ofNat B)).foldl (fun l slotId => (publishMovable B l slotId).1)
    (withInitializer fun _ => 0)
  box := fun _ => none
  nextBox := 0

def allocRef (B : Nat) (st : Store C α) : Store C α × Option UInt32 :=
  let (freeList, slotId) := consumeMovable B st.freeList
  ({ st with freeList }, slotId)

/-- `dealloc_id(slot_id)`, and `dealloc_ref` of the reference to that slot. -/
def deallocId (B : Nat) (st : Store C α) (slotId : UInt32) : Store C α :=
  { st with freeList := (publishMovable B st.freeList slotId).1 }

/-- Write through the reference that `alloc_ref` returned. -/
def write (st : Store C α) (slotId : UInt32) (setter : α → α) : Store C α :=
  { st with pool := Function.update st.pool slotId.toNat (setter (st.pool slotId.toNat)) }

def refFromId (B : Nat) (st : Store C α) (slotId : UInt32) : α := st.pool (slotId.toNat % B)

/-- `OgreArc::from_allocated(data_id)` -/
def fromAllocated (st : Store C α) (dataId : UInt32) : Store C α × OgreArc :=
  ({ st.setBox st.nextBox (some ⟨dataId, 1⟩) with nextBox := st.nextBox + 1 }, st.nextBox)

/-- `increment_references(count)`; `clone()` is the case `count = 1`. -/
def incrementReferences (st : Store C α) (arc : OgreArc) (count : UInt32) : Option (Store C α) :=
  (st.box arc).map fun inner => st.setBox arc (some ⟨inner.dataId, inner.referencesCount + count⟩)

def deref (B : Nat) (st : Store C α) (arc : OgreArc) : Option α :=
  (st.box arc).map fun inner => st.refFromId B inner.dataId

/-- `drop()` -/
def dropArc (B : Nat) (st : Store C α) (arc : OgreArc) : Option (Store C α) :=
  (st.box arc).map fun inner =>
    if inner.referencesCount ≠ 1 then st.setBox arc (some ⟨inner.dataId, inner.referencesCount - 1⟩)
    else (st.deallocId B inner.dataId).setBox arc none

end Ops

/-! ### What stays in place -/

section Keeps
variable {st st' : Store C α} {arc : OgreArc} {inner : InnerOgreArc}

/-- The slots hold what they held, and the boxes that remain point to the slots they pointed to. -/
def Keeps (st st' : Store C α) : Prop :=
  st'.pool = st.pool ∧ ∀ arc inner', st'.box arc = some inner' →
    ∃ inner, st.box arc = some inner ∧ inner'.dataId = inner.dataId

theorem Keeps.trans {st'' : Store C α} (h : Keeps st st') (h' : Keeps st' st'') : Keeps st st'' := by
  refine ⟨h'.1.trans h.1, fun arc inner₂ hb => ?_⟩
  obtain ⟨inner₁, hb₁, hd₁⟩ := h'.2 arc inner₂ hb
  obtain ⟨inner, hb', hd⟩ := h.2 arc inner₁ hb₁
  exact ⟨inner, hb', hd₁.trans hd⟩

theorem Keeps.setBox (hb : st.box arc = some inner) {o : Option InnerOgreArc}
    (hd : ∀ i, o = some i → i.dataId = inner.dataId) : Keeps st (st.setBox arc o) := by
  refine ⟨rfl, fun a i hi => ?_⟩
  by_cases ha : a = arc
  · subst ha
    have hi' : Function.update st.box a o a = some i := hi
    rw [Function.update_self] at hi'
    exact ⟨inner, hb, hd i hi'⟩
  · exact ⟨i, (Function.update_of_ne ha _ _).symm.trans hi, rfl⟩

theorem keeps_incrementReferences {count : UInt32} (hs : st.incrementReferences arc count = some st') :
    Keeps st st' := by
  obtain ⟨inner, hb, rfl⟩ := Option.map_eq_some_iff.mp hs
  refine .setBox hb ?_
  rintro _ ⟨⟩
  rfl

theorem keeps_dropArc [MoveContainer C] {B : Nat} (hs : st.dropArc B arc = some st') : Keeps st st' := by
  obtain ⟨inner, hb, rfl⟩ := Option.map_eq_some_iff.mp hs
  by_cases h1 : inner.referencesCount = 1
  · rw [if_neg (not_not_intro h1)]
    exact ⟨rfl, (Keeps.setBox hb (o := none) (by rintro _ ⟨⟩)).2⟩
  · rw [if_pos h1]
    refine .setBox hb ?_
    rintro _ ⟨⟩
    rfl

end Keeps

section Ok
variable [LawfulMoveContainer C] {B : Nat} {st st' : Store C α} {reserved : List UInt32} {owners : List OgreArc}
  {arc : OgreArc} {slot : UInt32} {inner : InnerOgreArc}

def Boxed (st : Store C α) (slot : UInt32) : Prop := ∃ arc inner, st.box arc = some inner ∧ inner.dataId = slot

def free (B : Nat) (st : Store C α) : List UInt32 := LawfulMoveContainer.elems B st.freeList

theorem free_new (hB : Ring.PowerOfTwo B) (pool : Nat → α) :
    LawfulMoveContainer.WellFormed B (.new B pool : Store C α).freeList ∧
      (.new B pool : Store C α).free B = idRange 0 (UInt32.ofNat B) := by
  obtain ⟨hwf, hel⟩ := LawfulMoveContainer.foldl_publish (C := C) hB (idRange 0 (UInt32.ofNat B))
    (LawfulMoveContainer.init_wf fun _ => 0) (by
      rw [LawfulMoveContainer.init_elems, length_idRange, List.length_nil, Nat.zero_add]
      exact Nat.sub_le ..)
  rw [LawfulMoveContainer.init_elems, List.nil_append] at hel
  exact ⟨hwf, hel⟩

theorem free_of_allocRef (h : LawfulMoveContainer.WellFormed B st.freeList) (hs : st.allocRef B = (st', some slot)) :
    LawfulMoveContainer.WellFormed B st'.freeList ∧ st.free B = slot :: st'.free B ∧
      st' = { st with freeList := st'.freeList } := by
  unfold Store.allocRef at hs
  rcases LawfulMoveContainer.consume_cases h with ⟨q, x, xs, hq, hel, hwf, hel'⟩ | ⟨hq, -⟩
  · rw [hq] at hs
    simp only [Prod.mk.injEq, Option.some.injEq] at hs
    obtain ⟨rfl, rfl⟩ := hs
    refine ⟨hwf, ?_, rfl⟩
    show LawfulMoveContainer.elems B st.freeList = x :: LawfulMoveContainer.elems B q
    rw [hel, hel']
  · rw [hq] at hs
    cases hs

theorem eq_of_allocRef_none (h : LawfulMoveContainer.WellFormed B st.freeList) (hs : st.allocRef B = (st', none)) :
    st' = st := by
  unfold Store.allocRef at hs
  rcases LawfulMoveContainer.consume_cases h with ⟨q, x, xs, hq, -⟩ | ⟨hq, -⟩
  · rw [hq] at hs; cases hs
  · rw [hq] at hs; cases hs; rfl

/-- The free list has room for a slot it does not have: a full one would have every slot. -/
theorem free_of_deallocId (hB : Ring.PowerOfTwo B) (hwf : LawfulMoveContainer.WellFormed B st.freeList)
    (hnd : (slot :: st.free B).Nodup) (hlt : ∀ y ∈ slot :: st.free B, y < UInt32.ofNat B) :
    LawfulMoveContainer.WellFormed B (st.deallocId B slot).freeList ∧
      (st.deallocId B slot).free B = st.free B ++ [slot] := by
  rcases LawfulMoveContainer.publish_cases hB hwf slot with ⟨q, hq, hwf', hel, -⟩ | ⟨-, hfull⟩
  · unfold Store.deallocId Store.free
    rw [hq]
    exact ⟨hwf', hel⟩
  · have hsub : slot :: st.free B ⊆ idRange 0 (UInt32.ofNat B) := fun y hy =>
      mem_idRange.mpr ⟨by simp [UInt32.le_iff_toNat_le], hlt y hy⟩
    have hle := (List.Nodup.subperm hnd hsub).length_le
    rw [List.length_cons, length_idRange, UInt32.toNat_zero] at hle
    have hfull' : (st.free B).length = (UInt32.ofNat B).toNat := hfull
    omega

/-- The books balance, with `reserved` slots in the hands of callers and one of the `owners` for every
copy of an `OgreArc`. -/
structure Ok (B : Nat) (st : Store C α) (reserved : List UInt32) (owners : List OgreArc) : Prop where
  wf : LawfulMoveContainer.WellFormed B st.freeList
  nodup : (st.free B ++ reserved).Nodup
  lt : ∀ slot ∈ st.free B ++ reserved, slot < UInt32.ofNat B
  unboxed : ∀ slot ∈ st.free B ++ reserved, ¬ st.Boxed slot
  boxed_lt : ∀ slot, st.Boxed slot → slot < UInt32.ofNat B
  place : ∀ slot, slot < UInt32.ofNat B → slot ∈ st.free B ++ reserved ∨ st.Boxed slot
  owned : ∀ arc, (st.box arc).isSome ↔ arc ∈ owners
  counted : ∀ arc inner, st.box arc = some inner → inner.referencesCount = UInt32.ofNat (owners.count arc)
  inj : ∀ arc arc' inner inner', st.box arc = some inner → st.box arc' = some inner' →
    inner.dataId = inner'.dataId → arc = arc'
  fresh : ∀ arc, st.nextBox ≤ arc → st.box arc = none

namespace Ok

theorem new (hB : Ring.PowerOfTwo B) (pool : Nat → α) : Ok B (.new B pool : Store C α) [] [] := by
  obtain ⟨hwf, hel⟩ := Store.free_new (C := C) hB pool
  have hfree : (Store.new B pool : Store C α).free B ++ [] = idRange 0 (UInt32.ofNat B) := by
    rw [List.append_nil]; exact hel
  have hbox : ∀ slot, ¬ (Store.new B pool : Store C α).Boxed slot := by
    rintro slot ⟨arc, inner, h, -⟩
    cases h
  refine ⟨hwf, ?_, fun slot hs => ?_, fun slot _ => hbox slot, fun slot h => absurd h (hbox slot), fun slot h => ?_,
    fun arc => ?_, fun _ _ h => (by cases h), fun _ _ _ _ h => (by cases h), fun _ _ => rfl⟩
  · rw [hfree]; exact nodup_idRange
  · rw [hfree, mem_idRange] at hs; exact hs.2
  · rw [hfree, mem_idRange]; exact .inl ⟨by simp [UInt32.le_iff_toNat_le], h⟩
  · simp [Store.new]

theorem perm {owners' : List OgreArc} (h : Ok B st reserved owners) (hp : owners'.Perm owners) :
    Ok B st reserved owners' :=
  { h with
    owned := fun arc => by rw [h.owned arc, hp.mem_iff]
    counted := fun arc inner hi => by rw [h.counted arc inner hi, hp.count_eq] }

theorem allocRef (h : Ok B st reserved owners) (hs : st.allocRef B = (st', some slot)) :
    Ok B st' (slot :: reserved) owners ∧ ∃ rest, st.free B = slot :: rest ∧ st' = { st with freeList := st'.freeList } := by
  obtain ⟨hwf, hfree, hst⟩ := Store.free_of_allocRef h.wf hs
  have hperm : (st'.free B ++ slot :: reserved).Perm (st.free B ++ reserved) := by
    rw [hfree, List.cons_append]
    exact List.perm_middle
  have hok : Ok B { st with freeList := st'.freeList } (slot :: reserved) owners :=
    ⟨hwf, hperm.nodup_iff.mpr h.nodup, fun y hy => h.lt y (hperm.mem_iff.mp hy),
      fun y hy => h.unboxed y (hperm.mem_iff.mp hy), h.boxed_lt,
      fun y hy => (h.place y hy).imp_left hperm.mem_iff.mpr, h.owned, h.counted, h.inj, h.fresh⟩
  exact ⟨hst.symm ▸ hok, st'.free B, hfree, hst⟩

theorem write (h : Ok B st reserved owners) (slot : UInt32) (setter : α → α) :
    Ok B (st.write slot setter) reserved owners :=
  ⟨h.wf, h.nodup, h.lt, h.unboxed, h.boxed_lt, h.place, h.owned, h.counted, h.inj, h.fresh⟩

theorem free_deallocId (hB : Ring.PowerOfTwo B) (h : Ok B st reserved owners) (hlt : slot < UInt32.ofNat B)
    (hnew : slot ∉ st.free B) : LawfulMoveContainer.WellFormed B (st.deallocId B slot).freeList ∧
      (st.deallocId B slot).free B = st.free B ++ [slot] := by
  refine Store.free_of_deallocId hB h.wf (List.nodup_cons.mpr ⟨hnew, (List.nodup_append.mp h.nodup).1⟩) fun y hy => ?_
  rcases List.mem_cons.mp hy with rfl | hy'
  · exact hlt
  · exact h.lt y (List.mem_append_left _ hy')

theorem deallocId (hB : Ring.PowerOfTwo B) (h : Ok B st reserved owners) (hs : slot ∈ reserved) :
    Ok B (st.deallocId B slot) (reserved.erase slot) owners := by
  have hmem : slot ∈ st.free B ++ reserved := List.mem_append_right _ hs
  have hnew : slot ∉ st.free B := fun hf => (List.nodup_append.mp h.nodup).2.2 slot hf slot hs rfl
  obtain ⟨hwf, hfree⟩ := h.free_deallocId hB (h.lt slot hmem) hnew
  have hperm : ((st.deallocId B slot).free B ++ reserved.erase slot).Perm (st.free B ++ reserved) := by
    rw [hfree, List.append_assoc, List.singleton_append]
    exact (List.perm_cons_erase hs).symm.append_left _
  exact ⟨hwf, hperm.nodup_iff.mpr h.nodup, fun y hy => h.lt y (hperm.mem_iff.mp hy),
    fun y hy => h.unboxed y (hperm.mem_iff.mp hy), h.boxed_lt, fun y hy => (h.place y hy).imp_left hperm.mem_iff.mpr,
    h.owned, h.counted, h.inj, h.fresh⟩

theorem mem_iff_of_count {owners' : List OgreArc} (hc : owners'.count arc = owners.count arc) :
    arc ∈ owners' ↔ arc ∈ owners := by
  rw [← List.count_pos_iff, ← List.count_pos_iff, hc]

theorem setCount {owners' : List OgreArc} {n : UInt32} (h : Ok B st reserved owners) (hb : st.box arc = some inner)
    (hn : n = UInt32.ofNat (owners'.count arc)) (hmem : arc ∈ owners')
    (hother : ∀ a, a ≠ arc → owners'.count a = owners.count a) :
    Ok B (st.setBox arc (some ⟨inner.dataId, n⟩)) reserved owners' := by
  have hbox : ∀ {a i}, (st.setBox arc (some ⟨inner.dataId, n⟩)).box a = some i →
      ∃ i', st.box a = some i' ∧ i'.dataId = i.dataId := by
    intro a i hi
    by_cases ha : a = arc
    · subst ha
      cases (Function.update_self ..).symm.trans hi
      exact ⟨inner, hb, rfl⟩
    · exact ⟨i, (Function.update_of_ne ha _ _).symm.trans hi, rfl⟩
  have hboxed : ∀ slot, (st.setBox arc (some ⟨inner.dataId, n⟩)).Boxed slot ↔ st.Boxed slot := by
    intro slot
    refine ⟨fun ⟨a, i, hi, hs⟩ => ?_, fun ⟨a, i, hi, hs⟩ => ?_⟩
    · obtain ⟨i', hi', hd⟩ := hbox hi
      exact ⟨a, i', hi', hd.trans hs⟩
    · by_cases ha : a = arc
      · subst ha
        cases hb.symm.trans hi
        exact ⟨a, _, Function.update_self .., hs⟩
      · exact ⟨a, i, (Function.update_of_ne ha _ _).trans hi, hs⟩
  refine ⟨h.wf, h.nodup, h.lt, fun slot hs => ?_, fun slot hs => h.boxed_lt slot ((hboxed slot).mp hs),
    fun slot hs => (h.place slot hs).imp_right (hboxed slot).mpr, fun a => ?_, fun a i hi => ?_,
    fun a a' i i' hi hi' hd => ?_, fun a ha => ?_⟩
  · rw [hboxed]; exact h.unboxed slot hs
  · by_cases ha : a = arc
    · subst ha; simp [setBox, hmem]
    · rw [mem_iff_of_count (hother a ha), ← h.owned a]
      simp [setBox, Function.update_of_ne ha]
  · by_cases ha : a = arc
    · subst ha; cases (Function.update_self ..).symm.trans hi; exact hn
    · rw [hother a ha]
      exact h.counted a i ((Function.update_of_ne ha _ _).symm.trans hi)
  · obtain ⟨j, hj, hjd⟩ := hbox hi
    obtain ⟨j', hj', hjd'⟩ := hbox hi'
    exact h.inj a a' j j' hj hj' (by rw [hjd, hjd', hd])
  · have hne : a ≠ arc := by rintro rfl; rw [h.fresh a ha] at hb; cases hb
    exact (Function.update_of_ne hne _ _).trans (h.fresh a ha)

/-- `increment_references(count)` accounts for `count` new copies. -/
theorem incrementReferences {count : UInt32} (h : Ok B st reserved owners) (hs : st.incrementReferences arc count = some st') :
    Ok B st' reserved (List.replicate count.toNat arc ++ owners) := by
  obtain ⟨inner, hb, rfl⟩ := Option.map_eq_some_iff.mp hs
  refine h.setCount hb ?_ (List.mem_append_right _ ((h.owned arc).mp (by rw [hb]; rfl))) fun a ha => ?_
  · rw [h.counted arc inner hb, List.count_append, List.count_replicate_self, UInt32.ofNat_add, UInt32.ofNat_toNat,
      UInt32.add_comm]
  · rw [List.count_append, List.count_replicate, if_neg (by simpa using Ne.symm ha), Nat.zero_add]

theorem fromAllocated (h : Ok B st reserved owners) (hs : slot ∈ reserved) (hf : st.fromAllocated slot = (st', arc)) :
    Ok B st' (reserved.erase slot) (arc :: owners) ∧ arc ∉ owners ∧ st'.box arc = some ⟨slot, 1⟩ := by
  simp only [Store.fromAllocated, Prod.mk.injEq] at hf
  obtain ⟨rfl, rfl⟩ := hf
  have hnone := h.fresh st.nextBox (Nat.le_refl _)
  have hnot : st.nextBox ∉ owners := by rw [← h.owned, hnone]; simp
  have hmem : slot ∈ st.free B ++ reserved := List.mem_append_right _ hs
  have hboxed : ∀ y, Boxed (C := C) (α := α) { st.setBox st.nextBox (some ⟨slot, 1⟩) with nextBox := st.nextBox + 1 } y ↔
      y = slot ∨ st.Boxed y := by
    intro y
    refine ⟨fun ⟨a, i, hi, hy⟩ => ?_, ?_⟩
    · by_cases ha : a = st.nextBox
      · subst ha; cases (Function.update_self ..).symm.trans hi; exact .inl hy.symm
      · exact .inr ⟨a, i, (Function.update_of_ne ha _ _).symm.trans hi, hy⟩
    · rintro (rfl | ⟨a, i, hi, hy⟩)
      · exact ⟨st.nextBox, _, Function.update_self .., rfl⟩
      · have ha : a ≠ st.nextBox := by rintro rfl; rw [hnone] at hi; cases hi
        exact ⟨a, i, (Function.update_of_ne ha _ _).trans hi, hy⟩
  have hperm : (slot :: (st.free B ++ reserved.erase slot)).Perm (st.free B ++ reserved) :=
    List.perm_middle.symm.trans ((List.perm_cons_erase hs).symm.append_left _)
  have hnd := hperm.nodup_iff.mpr h.nodup
  rw [List.nodup_cons] at hnd
  refine ⟨⟨h.wf, hnd.2, fun y hy => h.lt y (hperm.mem_iff.mp (List.mem_cons_of_mem _ hy)), fun y hy => ?_,
    fun y hy => ?_, fun y hy => ?_, fun a => ?_, fun a i hi => ?_, fun a a' i i' hi hi' hd => ?_, fun a ha => ?_⟩, hnot,
    Function.update_self ..⟩
  · rw [hboxed]
    rintro (rfl | hb)
    · exact hnd.1 hy
    · exact h.unboxed y (hperm.mem_iff.mp (List.mem_cons_of_mem _ hy)) hb
  · rcases (hboxed y).mp hy with rfl | hb
    · exact h.lt y hmem
    · exact h.boxed_lt y hb
  · rw [hboxed]
    rcases h.place y hy with hp | hb
    · rcases List.mem_cons.mp (hperm.mem_iff.mpr hp) with rfl | hp'
      · exact .inr (.inl rfl)
      · exact .inl hp'
    · exact .inr (.inr hb)
  · by_cases ha : a = st.nextBox
    · subst ha; simp [setBox]
    · simp [setBox, ha, h.owned]
  · by_cases ha : a = st.nextBox
    · subst ha
      cases (Function.update_self ..).symm.trans hi
      rw [List.count_cons_self, List.count_eq_zero_of_not_mem hnot]
      rfl
    · rw [List.count_cons_of_ne (Ne.symm ha)]
      exact h.counted a i ((Function.update_of_ne ha _ _).symm.trans hi)
  · -- the slot of the new box was nobody else's
    have hold : ∀ {a i}, a ≠ st.nextBox → (st.setBox st.nextBox (some ⟨slot, 1⟩)).box a = some i →
        st.box a = some i ∧ i.dataId ≠ slot := by
      intro a i ha hi
      have hi' := (Function.update_of_ne ha _ _).symm.trans hi
      exact ⟨hi', fun hd => h.unboxed slot hmem ⟨a, i, hi', hd⟩⟩
    by_cases ha : a = st.nextBox <;> by_cases ha' : a' = st.nextBox
    · rw [ha, ha']
    · subst ha
      cases (Function.update_self ..).symm.trans hi
      exact absurd hd.symm (hold ha' hi').2
    · subst ha'
      cases (Function.update_self ..).symm.trans hi'
      exact absurd hd (hold ha hi).2
    · exact h.inj a a' i i' (hold ha hi).1 (hold ha' hi').1 hd
  · have hne : a ≠ st.nextBox := by
      rintro rfl
      exact absurd ha (Nat.not_succ_le_self _)
    exact (Function.update_of_ne hne _ _).trans (h.fresh a (Nat.le_of_succ_le ha))

theorem dropLast (hB : Ring.PowerOfTwo B) (h : Ok B st reserved owners) (hb : st.box arc = some inner)
    (hone : owners.count arc = 1) :
    Ok B ((st.deallocId B inner.dataId).setBox arc none) reserved (owners.erase arc) := by
  have hboxed : st.Boxed inner.dataId := ⟨arc, inner, hb, rfl⟩
  have hlt := h.boxed_lt _ hboxed
  have hnew : inner.dataId ∉ st.free B ++ reserved := fun hm => h.unboxed _ hm hboxed
  obtain ⟨hwf, hfree⟩ := h.free_deallocId hB hlt fun hm => hnew (List.mem_append_left _ hm)
  have hperm : (((st.deallocId B inner.dataId).setBox arc none).free B ++ reserved).Perm
      (inner.dataId :: (st.free B ++ reserved)) := by
    have hfree' : ((st.deallocId B inner.dataId).setBox arc none).free B = st.free B ++ [inner.dataId] := hfree
    rw [hfree', List.append_assoc, List.singleton_append]
    exact List.perm_middle
  have hbox : ∀ {a i}, ((st.deallocId B inner.dataId).setBox arc none).box a = some i ↔ a ≠ arc ∧ st.box a = some i := by
    intro a i
    by_cases ha : a = arc
    · subst ha; simp [setBox]
    · simp [setBox, ha, Store.deallocId]
  have hb' : ∀ slot, ((st.deallocId B inner.dataId).setBox arc none).Boxed slot → st.Boxed slot ∧ slot ≠ inner.dataId := by
    rintro slot ⟨a, i, hi, hs⟩
    obtain ⟨ha, hi'⟩ := hbox.mp hi
    refine ⟨⟨a, i, hi', hs⟩, ?_⟩
    rintro rfl
    exact ha (h.inj a arc i inner hi' hb hs)
  have hcount : ∀ a, a ≠ arc → (owners.erase arc).count a = owners.count a := fun a ha =>
    List.count_erase_of_ne ha
  have hgone : arc ∉ owners.erase arc := by
    rw [← List.count_pos_iff, List.count_erase_self, hone]
    omega
  refine ⟨hwf, hperm.nodup_iff.mpr (List.nodup_cons.mpr ⟨hnew, h.nodup⟩), fun y hy => ?_, fun y hy hyb => ?_,
    fun y hy => h.boxed_lt y (hb' y hy).1, fun y hy => ?_, fun a => ?_, fun a i hi => ?_,
    fun a a' i i' hi hi' hd => ?_, fun a ha => ?_⟩
  · rcases List.mem_cons.mp (hperm.mem_iff.mp hy) with rfl | hy'
    · exact hlt
    · exact h.lt y hy'
  · rcases List.mem_cons.mp (hperm.mem_iff.mp hy) with rfl | hy'
    · exact (hb' _ hyb).2 rfl
    · exact h.unboxed y hy' (hb' y hyb).1
  · rw [hperm.mem_iff]
    rcases h.place y hy with hp | ⟨a, i, hi, hs⟩
    · exact .inl (List.mem_cons_of_mem _ hp)
    · by_cases ha : a = arc
      · subst ha
        cases hb.symm.trans hi
        exact .inl (by rw [hs]; exact List.mem_cons_self)
      · exact .inr ⟨a, i, hbox.mpr ⟨ha, hi⟩, hs⟩
  · by_cases ha : a = arc
    · subst ha; simp [setBox, hgone]
    · rw [mem_iff_of_count (hcount a ha), ← h.owned a]
      simp [setBox, Function.update_of_ne ha, Store.deallocId]
  · obtain ⟨ha, hi'⟩ := hbox.mp hi
    rw [hcount a ha]
    exact h.counted a i hi'
  · exact h.inj a a' i i' (hbox.mp hi).2 (hbox.mp hi').2 hd
  · by_cases haa : a = arc
    · subst haa; exact Function.update_self ..
    · exact (Function.update_of_ne haa _ _).trans (h.fresh a ha)

theorem dropArc (hB : Ring.PowerOfTwo B) (h : Ok B st reserved owners) (hsmall : owners.count arc < 2 ^ 32)
    (hs : st.dropArc B arc = some st') : Ok B st' reserved (owners.erase arc) := by
  obtain ⟨inner, hb, rfl⟩ := Option.map_eq_some_iff.mp hs
  have hmem : arc ∈ owners := (h.owned arc).mp (by rw [hb]; rfl)
  have hpos := List.count_pos_iff.mpr hmem
  have hcount : inner.referencesCount.toNat = owners.count arc := by
    rw [h.counted arc inner hb, Wrap.toNat_ofNat_of_lt hsmall]
  have hone : inner.referencesCount = 1 ↔ owners.count arc = 1 := by
    rw [← UInt32.toNat_inj, hcount, UInt32.toNat_one]
  by_cases h1 : inner.referencesCount = 1
  · simp only [h1, ne_eq, not_true_eq_false, if_false]
    exact h.dropLast hB hb (hone.mp h1)
  · simp only [h1, ne_eq, not_false_eq_true, if_true]
    have hge : 2 ≤ owners.count arc := by
      have := mt hone.mpr h1
      omega
    refine h.setCount hb ?_ ?_ fun a ha => List.count_erase_of_ne ha
    · rw [← UInt32.toNat_inj, List.count_erase_self, Wrap.toNat_ofNat_of_lt (by omega), UInt32.toNat_sub,
        UInt32.toNat_one, hcount]
      omega
    · rw [← List.count_pos_iff, List.count_erase_self]
      omega

end Ok
end Ok
end Store
end Mutiny
