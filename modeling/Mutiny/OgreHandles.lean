import Mathlib.Data.List.Dedup
import Mutiny.FullSyncMove
import Mutiny.Lib.Machine
import Mutiny.OgreAlloc

/-!
# `OgreUnique` and `OgreArc` handles in many threads

Any number of threads make, copy, convert and drop handles over one allocator. `alloc_ref` and
`dealloc_id` are one step each, and so is every `fetch_add` and `fetch_sub` on a `references_count`.
A constructor therefore shows between its `alloc_ref` and the handle it returns, and the `drop` of the
last `OgreArc` between its `fetch_sub`, its `dealloc_id` and the release of the box: `calls` are the
calls found there, each of some thread.

Every successful `alloc_ref` gets a number; `deallocs` lists the numbers of the allocations passed to
`dealloc_id`, and nothing in the code reads either.

A position in the pool stands for a reference to a slot, so that payloads of size 0 are excluded: all
their references are the same one (`refs_identify_slots_iff`).
-/

namespace Mutiny
open MoveContainer

/-- One successful `alloc_ref`: its number and the slot id it returned. -/
structure Alloc where
  number : Nat
  slotId : UInt32
deriving DecidableEq

/-- `OgreUnique`: `data_ref` is a position in the pool; `number` is that of the allocation. -/
structure OgreUnique where
  dataRef : Nat
  number : Nat
deriving DecidableEq

def OgreUnique.alloc (u : OgreUnique) : Alloc := ⟨u.number, idFromRef u.dataRef⟩

/-- `OgreArc::from_allocated_with_clones::<COUNT>(data_id)`: the box all the clones point to. -/
def Store.fromAllocatedWithClones {C : Type → Type} {α : Type} (st : Store C α) (count : Nat) (dataId : UInt32) :
    Store C α × OgreArc :=
  ({ st.setBox st.nextBox (some ⟨dataId, UInt32.ofNat count⟩) with nextBox := st.nextBox + 1 }, st.nextBox)

namespace Handles
variable {C : Type → Type} {α : Type}

/-- What a constructor makes of the slot it allocated. -/
inductive Make
  -- `OgreUnique::new`
  | unique
  -- `OgreArc::new_with_clones::<COUNT>`; `OgreArc::new` and `new_with` have a `COUNT` of one
  | arcs (count : Nat) (pos : 0 < count)
deriving DecidableEq

inductive Call
  -- a constructor whose `alloc_ref` returned a slot
  | filling (make : Make) (a : Alloc)
  -- `OgreArc::drop` whose `fetch_sub` returned 1, about to call `dealloc_id(inner.data_id)`
  | dealloc (arc : OgreArc)
  -- `OgreArc::drop`, about to free the box
  | free (arc : OgreArc)
deriving DecidableEq

end Handles

open Handles in
/-- The allocator with its boxes, the live handles, the raw copies still owed and the calls under way. -/
structure Handles (C : Type → Type) (α : Type) where
  st : Store C α
  uniques : List OgreUnique
  arcs : List OgreArc
  owed : List OgreArc
  calls : List Call
  /-- The allocation each box was made from. -/
  origin : OgreArc → Alloc
  allocs : Nat
  deallocs : List Nat

namespace Handles
variable {C : Type → Type} {α : Type}

inductive Label (α : Type)
  -- `alloc_ref()` of a constructor, which returns `None` if there is no slot
  | alloc (make : Make)
  -- `setter(slot_ref)`, and the handles of the constructor
  | fill (make : Make) (a : Alloc) (setter : α → α)
  | intoOgreArc (u : OgreUnique)
  | clone (arc : OgreArc)
  | incrementReferences (arc : OgreArc) (count : UInt32)
  | rawCopy (arc : OgreArc)
  -- the `fetch_sub` of `OgreArc::drop`
  | drop (arc : OgreArc)
  -- the `dealloc_id` of `OgreArc::drop`
  | dealloc (arc : OgreArc)
  -- the `Box::from_raw` of `OgreArc::drop`
  | free (arc : OgreArc)
  -- `OgreUnique::drop`
  | dropUnique (u : OgreUnique)

/-- `from_allocated_with_clones` of the slot of `a`. -/
def fromAllocatedWithClones (s : Handles C α) (count : Nat) (a : Alloc) : Handles C α :=
  let (st, arc) := s.st.fromAllocatedWithClones count a.slotId
  { s with st, arcs := List.replicate count arc ++ s.arcs, origin := Function.update s.origin arc a }

def make (s : Handles C α) (a : Alloc) : Make → Handles C α
  | .unique => { s with uniques := ⟨a.slotId.toNat, a.number⟩ :: s.uniques }
  | .arcs count _ => s.fromAllocatedWithClones count a

section Step
variable [MoveContainer C]

def init (B : Nat) (pool : Nat → α) : Handles C α :=
  ⟨.new B pool, [], [], [], [], fun _ => ⟨0, 0⟩, 0, []⟩

def step (B : Nat) (s : Handles C α) : Label α → Option (Handles C α)
  | .alloc make =>
    match s.st.allocRef B with
    | (st, some slotId) =>
      some { s with st, calls := .filling make ⟨s.allocs, slotId⟩ :: s.calls, allocs := s.allocs + 1 }
    | (st, none) => some { s with st }
  | .fill make a setter =>
    if .filling make a ∈ s.calls then
      some (Handles.make { s with st := s.st.write a.slotId setter, calls := s.calls.erase (.filling make a) } a make)
    else none
  | .intoOgreArc u =>
    if u ∈ s.uniques then some ({ s with uniques := s.uniques.erase u }.fromAllocatedWithClones 1 u.alloc) else none
  | .clone arc =>
    if arc ∈ s.arcs then (s.st.incrementReferences arc 1).map fun st => { s with st, arcs := arc :: s.arcs }
    else none
  | .incrementReferences arc count =>
    if arc ∈ s.arcs then
      (s.st.incrementReferences arc count).map fun st =>
        { s with st, owed := List.replicate count.toNat arc ++ s.owed }
    else none
  | .rawCopy arc =>
    if arc ∈ s.arcs ∧ arc ∈ s.owed then some { s with arcs := arc :: s.arcs, owed := s.owed.erase arc } else none
  | .drop arc =>
    if arc ∈ s.arcs then
      (s.st.box arc).map fun inner =>
        let references := inner.referencesCount
        { s with st := s.st.setBox arc (some ⟨inner.dataId, references - 1⟩),
                 arcs := s.arcs.erase arc,
                 calls := if references ≠ 1 then s.calls else .dealloc arc :: s.calls }
    else none
  | .dealloc arc =>
    if .dealloc arc ∈ s.calls then
      (s.st.box arc).map fun inner =>
        { s with st := s.st.deallocId B inner.dataId, calls := .free arc :: s.calls.erase (.dealloc arc),
                 deallocs := s.deallocs ++ [(s.origin arc).number] }
    else none
  | .free arc =>
    if .free arc ∈ s.calls then some { s with st := s.st.setBox arc none, calls := s.calls.erase (.free arc) }
    else none
  | .dropUnique u =>
    if u ∈ s.uniques then
      some { s with st := s.st.deallocId B (idFromRef u.dataRef), uniques := s.uniques.erase u,
                    deallocs := s.deallocs ++ [u.number] }
    else none

end Step

/-! ### Books -/

/-- The allocation a call is responsible for. -/
def Call.holds (origin : OgreArc → Alloc) : Call → Option Alloc
  | filling _ a => some a
  | dealloc arc => some (origin arc)
  | free _ => none

/-- One entry for every handle, those still owed included. -/
def owners (s : Handles C α) : List OgreArc := s.arcs ++ s.owed

/-- The allocations in somebody's hands: those of the calls under way, of the `OgreUnique`s, and of the
boxes with handles. -/
def held (s : Handles C α) : List Alloc :=
  s.calls.filterMap (Call.holds s.origin) ++ s.uniques.map OgreUnique.alloc ++ s.owners.dedup.map s.origin

theorem mem_held_of_arc {s : Handles C α} {arc : OgreArc} (ha : arc ∈ s.arcs) : s.origin arc ∈ s.held :=
  List.mem_append_right _ (List.mem_map_of_mem (List.mem_dedup.mpr (List.mem_append_left _ ha)))

theorem mem_held_of_unique {s : Handles C α} {u : OgreUnique} (hu : u ∈ s.uniques) : u.alloc ∈ s.held :=
  List.mem_append_left _ (List.mem_append_right _ (List.mem_map_of_mem hu))

/-- Fewer than `2 ^ 32` handles to each box, counting the ones still owed. -/
def FewHandles (s : Handles C α) : Prop := ∀ arc, s.owners.count arc < 2 ^ 32

/-- The books: an allocation is deallocated or held, and a slot free or held, one or the other and once. -/
structure Ledger [LawfulMoveContainer C] (B : Nat) (st : Store C α) (held : List Alloc) (deallocs : List Nat)
    (allocs : Nat) : Prop where
  wf : LawfulMoveContainer.WellFormed B st.freeList
  slots : (st.free B ++ held.map Alloc.slotId).Nodup
  lt : ∀ slot ∈ st.free B ++ held.map Alloc.slotId, slot < UInt32.ofNat B
  numbers : (deallocs ++ held.map Alloc.number).Perm (List.range allocs)

namespace Ledger
variable [LawfulMoveContainer C] {B : Nat} {st st' : Store C α} {held held' : List Alloc} {deallocs : List Nat}
  {allocs : Nat}

theorem init (hB : Ring.PowerOfTwo B) (pool : Nat → α) : Ledger B (.new B pool : Store C α) [] [] 0 := by
  have h := Store.Ok.new (C := C) hB pool
  exact ⟨h.wf, h.nodup, h.lt, .nil⟩

theorem perm (h : Ledger B st held deallocs allocs) (hp : held'.Perm held) : Ledger B st held' deallocs allocs := by
  have hs : (st.free B ++ held'.map Alloc.slotId).Perm (st.free B ++ held.map Alloc.slotId) :=
    (hp.map _).append_left _
  exact ⟨h.wf, hs.nodup_iff.mpr h.slots, fun y hy => h.lt y (hs.mem_iff.mp hy),
    ((hp.map _).append_left _).trans h.numbers⟩

theorem of_freeList (h : Ledger B st held deallocs allocs) (hf : st'.freeList = st.freeList) :
    Ledger B st' held deallocs allocs := by
  have hfree : st'.free B = st.free B := congrArg (LawfulMoveContainer.elems B) hf
  exact ⟨hf ▸ h.wf, hfree ▸ h.slots, hfree ▸ h.lt, h.numbers⟩

theorem allocRef {slot : UInt32} (h : Ledger B st held deallocs allocs) (hs : st.allocRef B = (st', some slot)) :
    Ledger B st' (⟨allocs, slot⟩ :: held) deallocs (allocs + 1) := by
  obtain ⟨hwf, hfree, -⟩ := Store.free_of_allocRef h.wf hs
  have hp : (st'.free B ++ slot :: held.map Alloc.slotId).Perm (st.free B ++ held.map Alloc.slotId) := by
    rw [hfree, List.cons_append]
    exact List.perm_middle
  refine ⟨hwf, hp.nodup_iff.mpr h.slots, fun y hy => h.lt y (hp.mem_iff.mp hy), ?_⟩
  rw [List.range_succ]
  exact List.perm_middle.trans ((h.numbers.cons allocs).trans (List.perm_append_singleton ..).symm)

theorem deallocId {a : Alloc} (hB : Ring.PowerOfTwo B) (h : Ledger B st (a :: held) deallocs allocs) :
    Ledger B (st.deallocId B a.slotId) held (deallocs ++ [a.number]) allocs := by
  have hp : (a.slotId :: st.free B ++ held.map Alloc.slotId).Perm (st.free B ++ (a :: held).map Alloc.slotId) :=
    List.perm_middle.symm
  have hnd : (a.slotId :: st.free B ++ held.map Alloc.slotId).Nodup := hp.nodup_iff.mpr h.slots
  obtain ⟨hwf, hfree⟩ := Store.free_of_deallocId hB h.wf (List.nodup_append.mp hnd).1
    fun y hy => h.lt y (hp.mem_iff.mp (List.mem_append_left _ hy))
  have hp' : ((st.deallocId B a.slotId).free B ++ held.map Alloc.slotId).Perm
      (st.free B ++ (a :: held).map Alloc.slotId) := by
    rw [hfree, List.append_assoc, List.singleton_append]
    rfl
  refine ⟨hwf, hp'.nodup_iff.mpr h.slots, fun y hy => h.lt y (hp'.mem_iff.mp hy), ?_⟩
  rw [List.append_assoc, List.singleton_append]
  exact h.numbers

end Ledger

/-! ### The invariant -/

/-- The books balance, with the allocations `hand` in the hands of the call taking the step, and the
count in a box is the number of its handles. -/
structure Inv [LawfulMoveContainer C] (B : Nat) (s : Handles C α) (hand : List Alloc) : Prop where
  books : Ledger B s.st (hand ++ s.held) s.deallocs s.allocs
  shared : ∀ arc ∈ s.owners,
    s.st.box arc = some ⟨(s.origin arc).slotId, UInt32.ofNat (s.owners.count arc)⟩
  /-- `drop` saw the last handle go. -/
  dying : ∀ arc, .dealloc arc ∈ s.calls → arc ∉ s.owners ∧ s.st.box arc = some ⟨(s.origin arc).slotId, 0⟩
  gone : ∀ arc, .free arc ∈ s.calls → arc ∉ s.owners ∧ .dealloc arc ∉ s.calls ∧ arc < s.st.nextBox
  fresh : ∀ arc, s.st.nextBox ≤ arc → s.st.box arc = none

theorem dedup_perm {l l' : List OgreArc} (h : ∀ a, a ∈ l ↔ a ∈ l') : l.dedup.Perm l'.dedup :=
  (List.perm_ext_iff_of_nodup l.nodup_dedup l'.nodup_dedup).mpr fun a => by
    rw [List.mem_dedup, List.mem_dedup, h a]

theorem filterMap_holds_perm {origin : OgreArc → Alloc} {calls : List Call} {c : Call} {a : Alloc} (hc : c ∈ calls)
    (ha : c.holds origin = some a) : (calls.filterMap (Call.holds origin)).Perm
      (a :: (calls.erase c).filterMap (Call.holds origin)) := by
  refine ((List.perm_cons_erase hc).filterMap _).trans ?_
  rw [List.filterMap_cons, ha]

namespace Inv
variable [LawfulMoveContainer C] {B : Nat} {s s' : Handles C α} {hand : List Alloc} {arc : OgreArc} {a : Alloc}

theorem init (hB : Ring.PowerOfTwo B) (pool : Nat → α) : Inv B (.init B pool : Handles C α) [] where
  books := .init hB pool
  shared _ h := by cases h
  dying _ h := by cases h
  gone _ h := by cases h
  fresh _ _ := rfl

theorem lt_of_mem (h : Inv B s hand) (ha : arc ∈ s.owners) : arc < s.st.nextBox := by
  by_contra hn
  have hb := h.shared arc ha
  rw [h.fresh arc (Nat.le_of_not_lt hn)] at hb
  cases hb

theorem lt_of_dying (h : Inv B s hand) (ha : .dealloc arc ∈ s.calls) : arc < s.st.nextBox := by
  by_contra hn
  have hb := (h.dying arc ha).2
  rw [h.fresh arc (Nat.le_of_not_lt hn)] at hb
  cases hb

theorem takeCall {c : Call} (h : Inv B s []) (hc : c ∈ s.calls) (ha : c.holds s.origin = some a) :
    Inv B { s with calls := s.calls.erase c } [a] := by
  refine ⟨h.books.perm ?_, h.shared, fun arc hd => h.dying arc (List.mem_of_mem_erase hd), fun arc hf => ?_, h.fresh⟩
  · exact ((filterMap_holds_perm hc ha).symm.append_right _).append_right _
  · obtain ⟨h₁, h₂, h₃⟩ := h.gone arc (List.mem_of_mem_erase hf)
    exact ⟨h₁, fun hd => h₂ (List.mem_of_mem_erase hd), h₃⟩

theorem takeUnique {u : OgreUnique} (h : Inv B s []) (hu : u ∈ s.uniques) :
    Inv B { s with uniques := s.uniques.erase u } [u.alloc] := by
  refine ⟨h.books.perm ?_, h.shared, h.dying, h.gone, h.fresh⟩
  have hp : (s.uniques.map OgreUnique.alloc).Perm (u.alloc :: (s.uniques.erase u).map OgreUnique.alloc) :=
    (List.perm_cons_erase hu).map _
  exact (List.perm_middle.symm.trans (hp.symm.append_left _)).append_right _

theorem fromAllocatedWithClones {count : Nat} (h : Inv B s [a]) (hc : 0 < count) :
    Inv B (s.fromAllocatedWithClones count a) [] := by
  have hnot : s.st.nextBox ∉ s.owners := fun hm => Nat.lt_irrefl _ (h.lt_of_mem hm)
  have howners : (s.fromAllocatedWithClones count a).owners = List.replicate count s.st.nextBox ++ s.owners :=
    List.append_assoc ..
  have hmem : ∀ b, b ∈ (s.fromAllocatedWithClones count a).owners ↔ b ∈ s.st.nextBox :: s.owners := by
    intro b
    rw [howners, List.mem_append, List.mem_replicate, List.mem_cons]
    simp [Nat.ne_of_gt hc]
  have horigin : ∀ b, b ≠ s.st.nextBox → (s.fromAllocatedWithClones count a).origin b = s.origin b :=
    fun b hb => Function.update_of_ne hb _ _
  have hbox : ∀ b, b ≠ s.st.nextBox → (s.fromAllocatedWithClones count a).st.box b = s.st.box b :=
    fun b hb => Function.update_of_ne hb _ _
  refine ⟨?_, fun b hb => ?_, fun b hd => ?_, fun b hf => ?_, fun b hb => ?_⟩
  · refine Ledger.perm (h.books.of_freeList rfl) ?_
    have hcalls : (s.fromAllocatedWithClones count a).calls.filterMap
        (Call.holds (s.fromAllocatedWithClones count a).origin) = s.calls.filterMap (Call.holds s.origin) := by
      refine List.filterMap_congr fun c hcm => ?_
      cases c with
      | dealloc b => exact congrArg some (horigin b (Nat.ne_of_lt (h.lt_of_dying hcm)))
      | filling | free => rfl
    have hboxes : ((s.fromAllocatedWithClones count a).owners.dedup.map
        (s.fromAllocatedWithClones count a).origin).Perm (a :: s.owners.dedup.map s.origin) := by
      refine ((dedup_perm hmem).map _).trans ?_
      rw [List.dedup_cons_of_notMem hnot, List.map_cons]
      have hself : (s.fromAllocatedWithClones count a).origin s.st.nextBox = a := Function.update_self ..
      rw [hself, List.map_congr_left fun b hb => horigin b ?_]
      rintro rfl
      exact hnot (List.mem_dedup.mp hb)
    show (List.filterMap _ _ ++ _ ++ _).Perm _
    rw [hcalls]
    exact (hboxes.append_left _).trans List.perm_middle
  · by_cases hbn : b = s.st.nextBox
    · subst hbn
      have hself : (s.fromAllocatedWithClones count a).origin s.st.nextBox = a := Function.update_self ..
      have hb' : (s.fromAllocatedWithClones count a).st.box s.st.nextBox = some ⟨a.slotId, UInt32.ofNat count⟩ :=
        Function.update_self ..
      rw [hself, hb', howners, List.count_append, List.count_replicate_self, List.count_eq_zero_of_not_mem hnot]
      rfl
    · have hold := (List.mem_cons.mp ((hmem b).mp hb)).resolve_left hbn
      rw [hbox b hbn, horigin b hbn, h.shared b hold, howners, List.count_append, List.count_replicate,
        if_neg (by simpa using Ne.symm hbn), Nat.zero_add]
  · have hlt := h.lt_of_dying hd
    have hne := Nat.ne_of_lt hlt
    obtain ⟨h₁, h₂⟩ := h.dying b hd
    rw [hmem, List.mem_cons, hbox b hne, horigin b hne]
    exact ⟨fun hm => hm.elim hne h₁, h₂⟩
  · obtain ⟨h₁, h₂, h₃⟩ := h.gone b hf
    rw [hmem, List.mem_cons]
    exact ⟨fun hm => hm.elim (Nat.ne_of_lt h₃) h₁, h₂, Nat.lt_succ_of_lt h₃⟩
  · have hlt : s.st.nextBox < b := hb
    rw [hbox b (Nat.ne_of_gt hlt)]
    exact h.fresh b (Nat.le_of_lt hlt)

theorem make {m : Make} (h : Inv B s [a]) : Inv B (s.make a m) [] := by
  cases m with
  | unique =>
    refine ⟨h.books.perm ?_, h.shared, h.dying, h.gone, h.fresh⟩
    have ha : OgreUnique.alloc ⟨a.slotId.toNat, a.number⟩ = a := by
      rw [OgreUnique.alloc, idFromRef_toNat]
    show (s.calls.filterMap _ ++ OgreUnique.alloc ⟨a.slotId.toNat, a.number⟩ :: _ ++ _).Perm _
    rw [ha]
    exact List.perm_middle.append_right _
  | arcs count pos => exact h.fromAllocatedWithClones pos

theorem recount {as os : List OgreArc} {inner : InnerOgreArc} {n : UInt32} (h : Inv B s hand) (harc : arc ∈ s.owners)
    (hb : s.st.box arc = some inner) (hn : n = UInt32.ofNat ((as ++ os).count arc))
    (hmem : ∀ b, b ∈ as ++ os ↔ b ∈ s.owners) (hother : ∀ b, b ≠ arc → (as ++ os).count b = s.owners.count b) :
    Inv B { s with st := s.st.setBox arc (some ⟨inner.dataId, n⟩), arcs := as, owed := os } hand := by
  have hbox : ∀ b, b ≠ arc → (s.st.setBox arc (some ⟨inner.dataId, n⟩)).box b = s.st.box b :=
    fun b hb => Function.update_of_ne hb _ _
  refine ⟨Ledger.perm (h.books.of_freeList rfl) ?_, fun b hbm => ?_, fun b hd => ?_, fun b hf => ?_, fun b hlt => ?_⟩
  · exact (((dedup_perm hmem).map _).append_left _).append_left _
  · by_cases hba : b = arc
    · subst hba
      have hslot : inner.dataId = (s.origin b).slotId := by
        have := h.shared b harc
        rw [hb, Option.some.injEq] at this
        rw [this]
      show Function.update s.st.box b (some ⟨inner.dataId, n⟩) b = _
      rw [Function.update_self, hslot, hn]
      rfl
    · show (s.st.setBox arc (some ⟨inner.dataId, n⟩)).box b = some ⟨_, UInt32.ofNat ((as ++ os).count b)⟩
      rw [hbox b hba, hother b hba]
      exact h.shared b ((hmem b).mp hbm)
  · obtain ⟨h₁, h₂⟩ := h.dying b hd
    have hba : b ≠ arc := by rintro rfl; exact h₁ harc
    exact ⟨fun hm => h₁ ((hmem b).mp hm), (hbox b hba).trans h₂⟩
  · obtain ⟨h₁, h₂⟩ := h.gone b hf
    exact ⟨fun hm => h₁ ((hmem b).mp hm), h₂⟩
  · have hba : b ≠ arc := by
      rintro rfl
      exact Nat.not_lt.mpr hlt (h.lt_of_mem harc)
    exact (hbox b hba).trans (h.fresh b hlt)

theorem incrementReferences {as os : List OgreArc} {count : UInt32} {st : Store C α} (h : Inv B s hand)
    (harc : arc ∈ s.owners) (hs : s.st.incrementReferences arc count = some st)
    (hp : (as ++ os).Perm (List.replicate count.toNat arc ++ s.owners)) :
    Inv B { s with st := st, arcs := as, owed := os } hand := by
  obtain ⟨inner, hb, rfl⟩ := Option.map_eq_some_iff.mp hs
  have hcount : inner.referencesCount = UInt32.ofNat (s.owners.count arc) := by
    have := h.shared arc harc
    rw [hb, Option.some.injEq] at this
    rw [this]
  refine h.recount harc hb ?_ (fun b => ?_) fun b hba => ?_
  · rw [hp.count_eq, List.count_append, List.count_replicate_self, UInt32.ofNat_add, UInt32.ofNat_toNat, hcount,
      UInt32.add_comm]
  · rw [hp.mem_iff, List.mem_append, List.mem_replicate]
    refine ⟨?_, .inr⟩
    rintro (⟨-, rfl⟩ | hb)
    · exact harc
    · exact hb
  · rw [hp.count_eq, List.count_append, List.count_replicate, if_neg (by simpa using Ne.symm hba), Nat.zero_add]

theorem rawCopy (h : Inv B s hand) (ho : arc ∈ s.owed) :
    Inv B { s with arcs := arc :: s.arcs, owed := s.owed.erase arc } hand := by
  have hp : (arc :: s.arcs ++ s.owed.erase arc).Perm s.owners :=
    List.perm_middle.symm.trans ((List.perm_cons_erase ho).symm.append_left _)
  refine ⟨h.books.perm ?_, fun b hb => ?_, fun b hd => ?_, fun b hf => ?_, h.fresh⟩
  · exact ((hp.dedup.map _).append_left _).append_left _
  · have hc : (arc :: s.arcs ++ s.owed.erase arc).count b = s.owners.count b := hp.count_eq b
    show _ = some (InnerOgreArc.mk _ (UInt32.ofNat ((arc :: s.arcs ++ s.owed.erase arc).count b)))
    rw [hc]
    exact h.shared b (hp.mem_iff.mp hb)
  · exact ⟨fun hm => (h.dying b hd).1 (hp.mem_iff.mp hm), (h.dying b hd).2⟩
  · exact ⟨fun hm => (h.gone b hf).1 (hp.mem_iff.mp hm), (h.gone b hf).2⟩

theorem references_iff {inner : InnerOgreArc} (h : Inv B s hand) (hf : s.FewHandles) (harc : arc ∈ s.owners)
    (hb : s.st.box arc = some inner) : inner.dataId = (s.origin arc).slotId ∧
      inner.referencesCount.toNat = s.owners.count arc ∧ (inner.referencesCount = 1 ↔ s.owners.count arc = 1) := by
  have hi := h.shared arc harc
  rw [hb, Option.some.injEq] at hi
  have hn : inner.referencesCount.toNat = s.owners.count arc := by
    rw [hi]
    exact Wrap.toNat_ofNat_of_lt (hf arc)
  refine ⟨by rw [hi], hn, ?_⟩
  rw [← UInt32.toNat_inj, hn, UInt32.toNat_one]

theorem dropShared {inner : InnerOgreArc} (h : Inv B s hand) (hf : s.FewHandles) (harc : arc ∈ s.arcs)
    (hb : s.st.box arc = some inner) (h1 : inner.referencesCount ≠ 1) :
    Inv B { s with st := s.st.setBox arc (some ⟨inner.dataId, inner.referencesCount - 1⟩),
                   arcs := s.arcs.erase arc } hand := by
  have hmem : arc ∈ s.owners := List.mem_append_left _ harc
  obtain ⟨-, hn, hone⟩ := h.references_iff hf hmem hb
  have hpos := List.count_pos_iff.mpr hmem
  have hge : 2 ≤ s.owners.count arc := by
    have := mt hone.mpr h1
    omega
  have herase : s.arcs.erase arc ++ s.owed = s.owners.erase arc := (List.erase_append_left _ harc).symm
  have hlt := hf arc
  refine h.recount hmem hb ?_ (fun b => ?_) fun b hba => ?_
  · rw [herase, ← UInt32.toNat_inj, List.count_erase_self, Wrap.toNat_ofNat_of_lt (by omega), UInt32.toNat_sub,
      UInt32.toNat_one, hn]
    omega
  · rw [herase]
    by_cases hba : b = arc
    · subst hba
      rw [← List.count_pos_iff, List.count_erase_self]
      exact ⟨fun _ => hmem, fun _ => by omega⟩
    · exact List.mem_erase_of_ne hba
  · rw [herase, List.count_erase_of_ne hba]

theorem dropLast {inner : InnerOgreArc} (h : Inv B s hand) (hf : s.FewHandles) (harc : arc ∈ s.arcs)
    (hb : s.st.box arc = some inner) (h1 : inner.referencesCount = 1) :
    Inv B { s with st := s.st.setBox arc (some ⟨inner.dataId, inner.referencesCount - 1⟩),
                   arcs := s.arcs.erase arc, calls := .dealloc arc :: s.calls } hand := by
  have hmem : arc ∈ s.owners := List.mem_append_left _ harc
  obtain ⟨hslot, -, hone⟩ := h.references_iff hf hmem hb
  have hcount := hone.mp h1
  have herase : s.arcs.erase arc ++ s.owed = s.owners.erase arc := (List.erase_append_left _ harc).symm
  have hgone : arc ∉ s.owners.erase arc := by
    rw [← List.count_pos_iff, List.count_erase_self, hcount]
    omega
  have hbox : ∀ b, b ≠ arc → (s.st.setBox arc (some ⟨inner.dataId, inner.referencesCount - 1⟩)).box b = s.st.box b :=
    fun b hb => Function.update_of_ne hb _ _
  refine ⟨Ledger.perm (h.books.of_freeList rfl) ?_, fun b hbm => ?_, fun b hd => ?_, fun b hfr => ?_, fun b hlt => ?_⟩
  · have hd : s.owners.dedup.Perm (arc :: (s.owners.erase arc).dedup) := by
      rw [← List.dedup_cons_of_notMem hgone]
      exact (List.perm_cons_erase hmem).dedup
    show (hand ++ (s.origin arc :: s.calls.filterMap _ ++ _ ++ ((s.arcs.erase arc ++ s.owed).dedup).map _)).Perm _
    rw [herase]
    refine List.Perm.append_left _ ((List.perm_middle (a := s.origin arc)).symm.trans ?_)
    exact ((hd.map s.origin).symm.append_left _)
  · have hbm' : b ∈ s.owners.erase arc := herase ▸ hbm
    have hba : b ≠ arc := by rintro rfl; exact hgone hbm'
    show _ = some (InnerOgreArc.mk _ (UInt32.ofNat ((s.arcs.erase arc ++ s.owed).count b)))
    rw [herase, List.count_erase_of_ne hba]
    exact (hbox b hba).trans (h.shared b (List.mem_of_mem_erase hbm'))
  · show b ∉ s.arcs.erase arc ++ s.owed ∧ _
    rw [herase]
    rcases List.mem_cons.mp hd with heq | hd'
    · cases heq
      refine ⟨hgone, ?_⟩
      show Function.update s.st.box arc _ arc = _
      rw [Function.update_self, hslot, h1]
      rfl
    · obtain ⟨h₁, h₂⟩ := h.dying b hd'
      have hba : b ≠ arc := by rintro rfl; exact h₁ hmem
      exact ⟨fun hm => h₁ (List.mem_of_mem_erase hm), (hbox b hba).trans h₂⟩
  · obtain ⟨h₁, h₂, h₃⟩ := h.gone b ((List.mem_cons.mp hfr).resolve_left (by simp))
    refine ⟨?_, fun hd => ?_, h₃⟩
    · show b ∉ s.arcs.erase arc ++ s.owed
      rw [herase]
      exact fun hm => h₁ (List.mem_of_mem_erase hm)
    · rcases List.mem_cons.mp hd with heq | hd'
      · cases heq; exact h₁ hmem
      · exact h₂ hd'
  · have hba : b ≠ arc := by
      rintro rfl
      exact Nat.not_lt.mpr hlt (h.lt_of_mem hmem)
    exact (hbox b hba).trans (h.fresh b hlt)

theorem deallocId (hB : Ring.PowerOfTwo B) (h : Inv B s [a]) :
    Inv B { s with st := s.st.deallocId B a.slotId, deallocs := s.deallocs ++ [a.number] } [] :=
  ⟨h.books.deallocId hB, h.shared, h.dying, h.gone, h.fresh⟩

theorem dealloc_not_mem_erase (h : Inv B s []) (hc : .dealloc arc ∈ s.calls) :
    .dealloc arc ∉ s.calls.erase (.dealloc arc) := by
  intro hd
  have hslots := (List.nodup_append.mp (h.takeCall hc rfl).books.slots).2.1
  rw [List.singleton_append, List.map_cons, List.nodup_cons] at hslots
  refine hslots.1 (List.mem_map.mpr ⟨s.origin arc, ?_, rfl⟩)
  exact List.mem_append_left _ (List.mem_append_left _ (List.mem_filterMap.mpr ⟨_, hd, rfl⟩))

theorem dealloc {inner : InnerOgreArc} (hB : Ring.PowerOfTwo B) (h : Inv B s []) (hc : .dealloc arc ∈ s.calls)
    (hb : s.st.box arc = some inner) :
    Inv B { s with st := s.st.deallocId B inner.dataId, calls := .free arc :: s.calls.erase (.dealloc arc),
                   deallocs := s.deallocs ++ [(s.origin arc).number] } [] := by
  obtain ⟨hgone, hb'⟩ := h.dying arc hc
  have hlt := h.lt_of_dying hc
  have hslot : inner.dataId = (s.origin arc).slotId := by
    rw [hb, Option.some.injEq] at hb'
    rw [hb']
  have h' := (h.takeCall hc rfl).deallocId hB
  rw [hslot]
  refine ⟨h'.books, h'.shared, fun b hd => ?_, fun b hf => ?_, h'.fresh⟩
  · exact h'.dying b ((List.mem_cons.mp hd).resolve_left (by simp))
  · rcases List.mem_cons.mp hf with heq | hf'
    · cases heq
      refine ⟨hgone, fun hd => ?_, hlt⟩
      exact h.dealloc_not_mem_erase hc ((List.mem_cons.mp hd).resolve_left (by simp))
    · obtain ⟨h₁, h₂, h₃⟩ := h'.gone b hf'
      exact ⟨h₁, fun hd => h₂ ((List.mem_cons.mp hd).resolve_left (by simp)), h₃⟩

theorem free (h : Inv B s []) (hc : .free arc ∈ s.calls) :
    Inv B { s with st := s.st.setBox arc none, calls := s.calls.erase (.free arc) } [] := by
  obtain ⟨hgone, hnd, -⟩ := h.gone arc hc
  have hbox : ∀ b, b ≠ arc → (s.st.setBox arc none).box b = s.st.box b := fun b hb => Function.update_of_ne hb _ _
  refine ⟨Ledger.perm (h.books.of_freeList rfl) ?_, fun b hb => ?_, fun b hd => ?_, fun b hf => ?_, fun b hlt => ?_⟩
  · have hp := (List.perm_cons_erase hc).filterMap (Call.holds s.origin)
    exact (hp.symm.append_right _).append_right _
  · have hba : b ≠ arc := by rintro rfl; exact hgone hb
    exact (hbox b hba).trans (h.shared b hb)
  · have hd' := List.mem_of_mem_erase hd
    have hba : b ≠ arc := by rintro rfl; exact hnd hd'
    exact ⟨(h.dying b hd').1, (hbox b hba).trans (h.dying b hd').2⟩
  · obtain ⟨h₁, h₂, h₃⟩ := h.gone b (List.mem_of_mem_erase hf)
    exact ⟨h₁, fun hd => h₂ (List.mem_of_mem_erase hd), h₃⟩
  · by_cases hba : b = arc
    · subst hba; exact Function.update_self ..
    · exact (hbox b hba).trans (h.fresh b hlt)

theorem step {l : Label α} (hB : Ring.PowerOfTwo B) (h : Inv B s []) (hf : s.FewHandles)
    (hs : s.step B l = some s') : Inv B s' [] := by
  cases l with
  | alloc make =>
    rcases hst : s.st.allocRef B with ⟨st, _ | slot⟩ <;> simp only [Handles.step, hst, Option.some.injEq] at hs
    · obtain rfl := Store.eq_of_allocRef_none h.books.wf hst
      exact hs ▸ h
    · subst hs
      obtain ⟨-, -, hst'⟩ := Store.free_of_allocRef h.books.wf hst
      have hbox := congrArg Store.box hst'
      have hnext := congrArg Store.nextBox hst'
      refine ⟨h.books.allocRef hst, fun b hb => ?_, fun b hd => ?_, fun b hfr => ?_, fun b hlt => ?_⟩
      · exact (congrFun hbox b).trans (h.shared b hb)
      · obtain ⟨h₁, h₂⟩ := h.dying b ((List.mem_cons.mp hd).resolve_left (by simp))
        exact ⟨h₁, (congrFun hbox b).trans h₂⟩
      · obtain ⟨h₁, h₂, h₃⟩ := h.gone b ((List.mem_cons.mp hfr).resolve_left (by simp))
        exact ⟨h₁, fun hd => h₂ ((List.mem_cons.mp hd).resolve_left (by simp)), hnext ▸ h₃⟩
      · exact (congrFun hbox b).trans (h.fresh b (hnext ▸ hlt))
  | fill make a setter =>
    simp only [Handles.step, Option.ite_none_right_eq_some, Option.some.injEq] at hs
    obtain ⟨hc, rfl⟩ := hs
    have h' := h.takeCall hc rfl
    exact Inv.make ⟨h'.books.of_freeList rfl, h'.shared, h'.dying, h'.gone, h'.fresh⟩
  | intoOgreArc u =>
    simp only [Handles.step, Option.ite_none_right_eq_some, Option.some.injEq] at hs
    obtain ⟨hu, rfl⟩ := hs
    exact (h.takeUnique hu).fromAllocatedWithClones Nat.one_pos
  | clone arc =>
    simp only [Handles.step, Option.ite_none_right_eq_some] at hs
    obtain ⟨harc, hs⟩ := hs
    obtain ⟨st, hst, rfl⟩ := Option.map_eq_some_iff.mp hs
    exact h.incrementReferences (List.mem_append_left _ harc) hst (.refl _)
  | incrementReferences arc count =>
    simp only [Handles.step, Option.ite_none_right_eq_some] at hs
    obtain ⟨harc, hs⟩ := hs
    obtain ⟨st, hst, rfl⟩ := Option.map_eq_some_iff.mp hs
    refine h.incrementReferences (List.mem_append_left _ harc) hst ?_
    rw [owners, ← List.append_assoc, ← List.append_assoc]
    exact List.perm_append_comm.append_right _
  | rawCopy arc =>
    simp only [Handles.step, Option.ite_none_right_eq_some, Option.some.injEq] at hs
    obtain ⟨⟨-, ho⟩, rfl⟩ := hs
    exact h.rawCopy ho
  | drop arc =>
    simp only [Handles.step, Option.ite_none_right_eq_some] at hs
    obtain ⟨harc, hs⟩ := hs
    obtain ⟨inner, hb, rfl⟩ := Option.map_eq_some_iff.mp hs
    by_cases h1 : inner.referencesCount = 1
    · simp only [if_neg (not_not_intro h1)]
      exact h.dropLast hf harc hb h1
    · simp only [if_pos h1]
      exact h.dropShared hf harc hb h1
  | dealloc arc =>
    simp only [Handles.step, Option.ite_none_right_eq_some] at hs
    obtain ⟨hc, hs⟩ := hs
    obtain ⟨inner, hb, rfl⟩ := Option.map_eq_some_iff.mp hs
    exact h.dealloc hB hc hb
  | free arc =>
    simp only [Handles.step, Option.ite_none_right_eq_some, Option.some.injEq] at hs
    obtain ⟨hc, rfl⟩ := hs
    exact h.free hc
  | dropUnique u =>
    simp only [Handles.step, Option.ite_none_right_eq_some, Option.some.injEq] at hs
    obtain ⟨hu, rfl⟩ := hs
    exact (h.takeUnique hu).deallocId hB

end Inv

/-! ### Every slot is freed once, after its last handle -/

section Sound
variable [LawfulMoveContainer C] {B : Nat} {s : Handles C α}

/-- What holds of the handles in every reachable state. -/
structure Sound (B : Nat) (s : Handles C α) : Prop where
  /-- The count shared by the handles of a box is their number, plus that of the raw copies still owed. -/
  counted : ∀ arc ∈ s.arcs, ∃ inner, s.st.box arc = some inner ∧
    inner.referencesCount.toNat = s.arcs.count arc + s.owed.count arc
  /-- Every allocation was passed to `dealloc_id` once, or is held once: by a constructor, an `OgreUnique`,
  a box with handles, or the `drop` of its last handle. -/
  once : (s.deallocs ++ s.held.map Alloc.number).Perm (List.range s.allocs)
  /-- No live handle is to a deallocated slot. -/
  live : (∀ arc ∈ s.arcs, (s.origin arc).number ∉ s.deallocs) ∧ ∀ u ∈ s.uniques, u.number ∉ s.deallocs
  /-- The `drop` that goes on to `dealloc_id` is the one that took the count to zero. -/
  last : ∀ arc s', s.step B (.drop arc) = some s' →
    (.dealloc arc ∈ s'.calls ↔ ∃ inner, s'.st.box arc = some inner ∧ inner.referencesCount = 0)
  /-- Nothing else calls `dealloc_id`, except for the `drop` of an `OgreUnique`. -/
  only : ∀ l s', s.step B l = some s' → s'.deallocs = s.deallocs ∨
    (∃ arc, .dealloc arc ∈ s.calls ∧ arc ∉ s.arcs ∧ arc ∉ s.owed ∧ l = .dealloc arc ∧
      s'.deallocs = s.deallocs ++ [(s.origin arc).number]) ∨
    ∃ u ∈ s.uniques, l = .dropUnique u ∧ s'.deallocs = s.deallocs ++ [u.number]
  /-- `alloc_ref` returns the slot of no live handle. -/
  allocNew : ∀ st slot, s.st.allocRef B = (st, some slot) → (∀ u ∈ s.uniques, idFromRef u.dataRef ≠ slot) ∧
    ∀ arc ∈ s.arcs, ∀ inner, s.st.box arc = some inner → inner.dataId ≠ slot

namespace Inv

theorem not_mem_deallocs {a : Alloc} (h : Inv B s []) (ha : a ∈ s.held) : a.number ∉ s.deallocs := by
  intro hd
  have hnd := h.books.numbers.nodup_iff.mpr List.nodup_range
  exact (List.nodup_append.mp hnd).2.2 _ hd _ (List.mem_map_of_mem ha) rfl

theorem slot_ne_of_allocRef {a : Alloc} {st : Store C α} {slot : UInt32} (h : Inv B s []) (ha : a ∈ s.held)
    (hs : s.st.allocRef B = (st, some slot)) : a.slotId ≠ slot := by
  obtain ⟨-, hfree, -⟩ := Store.free_of_allocRef h.books.wf hs
  have hnd := (List.nodup_append.mp h.books.slots).2.2
  exact fun he => hnd slot (by rw [hfree]; exact List.mem_cons_self) a.slotId (List.mem_map_of_mem ha) he.symm

theorem drop_last {arc : OgreArc} {s' : Handles C α} (h : Inv B s []) (hf : s.FewHandles)
    (hs : s.step B (.drop arc) = some s') :
    .dealloc arc ∈ s'.calls ↔ ∃ inner, s'.st.box arc = some inner ∧ inner.referencesCount = 0 := by
  simp only [Handles.step, Option.ite_none_right_eq_some] at hs
  obtain ⟨harc, hs⟩ := hs
  obtain ⟨inner, hb, rfl⟩ := Option.map_eq_some_iff.mp hs
  have hmem : arc ∈ s.owners := List.mem_append_left _ harc
  have hnot : Call.dealloc arc ∉ s.calls := fun hd => (h.dying arc hd).1 hmem
  have hbox : (s.st.setBox arc (some ⟨inner.dataId, inner.referencesCount - 1⟩)).box arc =
      some ⟨inner.dataId, inner.referencesCount - 1⟩ := Function.update_self ..
  simp only [hbox, Option.some.injEq, exists_eq_left']
  by_cases h1 : inner.referencesCount = 1
  · simp [h1]
  · obtain ⟨-, hn, -⟩ := h.references_iff hf hmem hb
    have hpos := List.count_pos_iff.mpr hmem
    refine ⟨fun hd => absurd (by simpa [h1] using hd) hnot, fun h0 => absurd ?_ h1⟩
    rw [← UInt32.toNat_inj] at h0 ⊢
    rw [UInt32.toNat_sub, UInt32.toNat_one, UInt32.toNat_zero] at h0
    have := inner.referencesCount.toNat_lt
    rw [UInt32.toNat_one]
    omega

theorem deallocs_cases {l : Label α} {s' : Handles C α} (h : Inv B s []) (hs : s.step B l = some s') :
    s'.deallocs = s.deallocs ∨
    (∃ arc, .dealloc arc ∈ s.calls ∧ arc ∉ s.arcs ∧ arc ∉ s.owed ∧ l = .dealloc arc ∧
      s'.deallocs = s.deallocs ++ [(s.origin arc).number]) ∨
    ∃ u ∈ s.uniques, l = .dropUnique u ∧ s'.deallocs = s.deallocs ++ [u.number] := by
  cases l with
  | alloc make =>
    rcases hst : s.st.allocRef B with ⟨st, _ | slot⟩ <;> simp only [Handles.step, hst, Option.some.injEq] at hs <;>
      exact .inl (hs ▸ rfl)
  | fill make a setter =>
    simp only [Handles.step, Option.ite_none_right_eq_some, Option.some.injEq] at hs
    obtain ⟨-, rfl⟩ := hs
    cases make <;> exact .inl rfl
  | dealloc arc =>
    simp only [Handles.step, Option.ite_none_right_eq_some] at hs
    obtain ⟨hc, hs⟩ := hs
    obtain ⟨inner, -, rfl⟩ := Option.map_eq_some_iff.mp hs
    obtain ⟨h₁, -⟩ := h.dying arc hc
    exact .inr (.inl ⟨arc, hc, fun hm => h₁ (List.mem_append_left _ hm), fun hm => h₁ (List.mem_append_right _ hm),
      rfl, rfl⟩)
  | dropUnique u =>
    simp only [Handles.step, Option.ite_none_right_eq_some, Option.some.injEq] at hs
    obtain ⟨hu, rfl⟩ := hs
    exact .inr (.inr ⟨u, hu, rfl, rfl⟩)
  | intoOgreArc | rawCopy | free =>
    simp only [Handles.step, Option.ite_none_right_eq_some, Option.some.injEq] at hs
    exact .inl (hs.2 ▸ rfl)
  | clone | incrementReferences | drop =>
    simp only [Handles.step, Option.ite_none_right_eq_some] at hs
    obtain ⟨_, -, rfl⟩ := Option.map_eq_some_iff.mp hs.2
    exact .inl rfl

theorem sound (h : Inv B s []) (hf : s.FewHandles) : Sound B s := by
  refine ⟨fun arc ha => ?_, h.books.numbers, ⟨fun arc ha => h.not_mem_deallocs (mem_held_of_arc ha), fun u hu =>
    h.not_mem_deallocs (mem_held_of_unique hu)⟩, fun arc s' hs => h.drop_last hf hs, fun l s' hs => h.deallocs_cases hs,
    fun st slot hs => ⟨fun u hu => h.slot_ne_of_allocRef (mem_held_of_unique hu) hs, fun arc ha inner hb => ?_⟩⟩
  · have hmem : arc ∈ s.owners := List.mem_append_left _ ha
    have hb := h.shared arc hmem
    refine ⟨_, hb, ?_⟩
    rw [← List.count_append]
    exact (h.references_iff hf hmem hb).2.1
  · rw [(h.references_iff hf (List.mem_append_left _ ha) hb).1]
    exact h.slot_ne_of_allocRef (mem_held_of_arc ha) hs

end Inv

/-- `OgreArc` and `OgreUnique` free their slot exactly once, and only after the last handle. -/
theorem handles_sound (hB : Ring.PowerOfTwo B) {pool : Nat → α}
    (h : Machine.Steps (Handles.step B) (fun _ _ s' => s'.FewHandles) (.init B pool) s) : Sound B s := by
  have hI : Inv B s [] ∧ s.FewHandles := by
    refine h.invariant (I := fun s => Inv B s [] ∧ s.FewHandles) ?_ ⟨.init hB pool, fun _ => by simp [init, owners]⟩
    intro s l s' hi hs hok
    exact ⟨hi.1.step hB hi.2 hs, hok⟩
  exact hI.1.sound hI.2

end Sound

theorem fewHandles_of_length {s : Handles C α} (h : s.owners.length < 2 ^ 32) : s.FewHandles :=
  fun _ => Nat.lt_of_le_of_lt List.count_le_length h

/-- A pool of two slots: an `OgreUnique` becomes an `OgreArc`, which is cloned and raw-copied twice; three
clones of a second one are dropped, the last of them freeing the slot that is then allocated again. -/
theorem handles_sound_reused : ∃ s : Handles FullSyncMove Nat, s.arcs = [0, 0, 0] ∧ s.owed = [0] ∧
    s.deallocs = [1] ∧ s.uniques = [⟨1, 2⟩] ∧ (s.st.box 0).map InnerOgreArc.referencesCount = some 4 ∧ Sound 2 s := by
  have hrun : (Machine.exec (Machine.restrict (Handles.step 2) fun _ _ s' => s'.owners.length < 2 ^ 32)
      (.init 2 fun _ => 0 : Handles FullSyncMove Nat)
      [.alloc .unique, .fill .unique ⟨0, 0⟩ (fun _ => 7), .alloc (.arcs 3 (by decide)), .intoOgreArc ⟨0, 0⟩, .clone 0,
       .fill (.arcs 3 (by decide)) ⟨1, 1⟩ (fun _ => 8), .incrementReferences 0 2, .drop 1, .drop 1, .rawCopy 0, .drop 1,
       .dealloc 1, .alloc .unique, .free 1, .fill .unique ⟨2, 1⟩ (fun _ => 9)]).map
      (fun s => decide (s.arcs = [0, 0, 0] ∧ s.owed = [0] ∧ s.deallocs = [1] ∧ s.uniques = [⟨1, 2⟩] ∧
        (s.st.box 0).map InnerOgreArc.referencesCount = some 4)) = some true := by decide +kernel
  obtain ⟨s, hs, ht⟩ := Option.map_eq_some_iff.mp hrun
  rw [decide_eq_true_iff] at ht
  obtain ⟨h₁, h₂, h₃, h₄, h₅⟩ := ht
  exact ⟨s, h₁, h₂, h₃, h₄, h₅, handles_sound ⟨1, rfl⟩
    ((Machine.Path.of_exec_restrict (fun _ _ _ h => fewHandles_of_length (of_decide_eq_true h)) hs).steps)⟩

end Handles
end Mutiny
