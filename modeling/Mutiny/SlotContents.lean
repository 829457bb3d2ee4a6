import Mutiny.ZeroCopySolo

/-!
# Payloads with a destructor in the slots of `OgreArrayPoolAllocator`

The pool is `ManuallyDrop`: a payload is destroyed by the `drop_in_place` of `dealloc_id` and by nothing else, and its
bytes stay where they are. Values are numbered. `Holds` says which value every slot in use has, of those queued and
those delivered, and that nothing was stored in the others since they were last given back.
-/

namespace Mutiny

/-- The memory of a slot: whose bytes it has, and whether they were written since the slot was last given back. -/
structure Content where
  value : Option Nat
  stored : Bool
deriving DecidableEq

def Content.raw : Content := ⟨none, false⟩

def Content.of (v : Nat) : Content := ⟨some v, true⟩

variable {C D : Type → Type}

/-- `dealloc_id(slot_id)`, and what its `drop_in_place` destroys. -/
def Store.dropId [MoveContainer C] (B : Nat) (st : Store C Content) (slotId : UInt32) : Store C Content × Content :=
  ((st.write slotId fun content => { content with stored := false }).deallocId B slotId, st.pool slotId.toNat)

namespace ZeroCopy

section Ops
variable [MoveContainer C] [MoveContainer D]

/-- `publish_movable(item)`, a `ptr::write` to a leaked slot: the length after, or the item back. -/
def publishValue (B : Nat) (z : ZeroCopy C D Content) (v : Nat) : ZeroCopy C D Content × Option UInt32 × Option Nat :=
  match z.leakSlot B with
  | (z, some slotId) =>
    let (z, lenAfter) := (z.write slotId fun _ => .of v).publishLeakedId B slotId
    (z, lenAfter, none)
  | (z, none) => (z, none, some v)

/-- `release_leaked_id(slot_id)`, and what is destroyed. -/
def releaseLeakedId (B : Nat) (z : ZeroCopy C D Content) (slotId : UInt32) : ZeroCopy C D Content × Content :=
  let (allocator, dropped) := z.allocator.dropId B slotId
  ({ z with allocator }, dropped)

end Ops

variable [LawfulMoveContainer C] [LawfulMoveContainer D] {B : Nat} {z : ZeroCopy C D Content} {pending : List Nat}
  {delivered : List (UInt32 × Nat)} {reserved : List UInt32} {slotId : UInt32} {v : Nat}

def content (z : ZeroCopy C D Content) (slotId : UInt32) : Content := z.allocator.pool slotId.toNat

/-- The values queued, those delivered in their slots, and the slots reserved. -/
structure Holds (B : Nat) (z : ZeroCopy C D Content) (pending : List Nat) (delivered : List (UInt32 × Nat))
    (reserved : List UInt32) : Prop where
  settled : z.Settled B (delivered.map Prod.fst ++ reserved)
  queued : (z.queuedIds B).map z.content = pending.map .of
  delivered : ∀ d ∈ delivered, z.content d.1 = .of d.2
  blank : ∀ slotId ∈ z.allocator.free B ++ reserved, (z.content slotId).stored = false

theorem content_update_of_ne {pool : Nat → Content} {slot : UInt32} (h : slot ≠ slotId) (c : Content) :
    Function.update pool slotId.toNat c slot.toNat = pool slot.toNat :=
  Function.update_of_ne (fun he => h (UInt32.toNat_inj.mp he)) _ _

namespace Holds

theorem new (hB : Ring.PowerOfTwo B) : Holds B (.new B fun _ => .raw : ZeroCopy C D Content) [] [] [] := by
  refine ⟨.new hB _, ?_, nofun, fun _ _ => rfl⟩
  have hqueue : (.new B fun _ => .raw : ZeroCopy C D Content).queuedIds B = [] := LawfulMoveContainer.init_elems _
  rw [hqueue]
  rfl

theorem length_pending (h : Holds B z pending delivered reserved) : (z.queuedIds B).length = pending.length := by
  have := congrArg List.length h.queued
  rwa [List.length_map, List.length_map] at this

theorem mem_delivered {d : UInt32 × Nat} (h : d ∈ delivered) : d.1 ∈ delivered.map Prod.fst ++ reserved :=
  List.mem_append_left _ (List.mem_map_of_mem h)

theorem map_erase (h : Holds B z pending delivered reserved) {d : UInt32 × Nat} (hd : d ∈ delivered) :
    (delivered.erase d).map Prod.fst = (delivered.map Prod.fst).erase d.1 := by
  have hnd := (List.nodup_append.mp (List.nodup_append.mp h.settled.nodup).2.1).1
  clear h
  induction delivered with
  | nil => cases hd
  | cons e rest ih =>
    rw [List.map_cons, List.nodup_cons] at hnd
    by_cases hed : e = d
    · rw [hed, List.erase_cons_head, List.map_cons, List.erase_cons_head]
    · have hrest : d ∈ rest := (List.mem_cons.mp hd).resolve_left (Ne.symm hed)
      have hne : e.1 ≠ d.1 := fun he => hnd.1 (he ▸ List.mem_map_of_mem hrest)
      rw [List.erase_cons_tail (by simpa using hed), List.map_cons, List.map_cons,
        List.erase_cons_tail (by simpa using hne), ih hrest hnd.2]

theorem reserved_ne_delivered (h : Holds B z pending delivered reserved) (hs : slotId ∈ reserved) {d : UInt32 × Nat}
    (hd : d ∈ delivered) : d.1 ≠ slotId :=
  (List.nodup_append.mp (List.nodup_append.mp h.settled.nodup).2.1).2.2 _ (List.mem_map_of_mem hd) _ hs

theorem reserved_ne (h : Holds B z pending delivered reserved) (hs : slotId ∈ reserved) {slot : UInt32}
    (hslot : slot ∈ reserved.erase slotId) : slot ≠ slotId := by
  have hnd := (List.nodup_append.mp (List.nodup_append.mp h.settled.nodup).2.1).2.1
  rw [(List.perm_cons_erase hs).nodup_iff, List.nodup_cons] at hnd
  rintro rfl
  exact hnd.1 hslot

theorem reserve_cases (h : Holds B z pending delivered reserved) :
    (∃ z' slotId, z.leakSlot B = (z', some slotId) ∧ Holds B z' pending delivered (slotId :: reserved) ∧ HasSlot B z) ∨
    (z.leakSlot B = (z, none) ∧ ¬ HasSlot B z) := by
  rcases h.settled.leakSlot_cases with ⟨freeList, slotId, hleak, hsettled, hslot, hfree⟩ | hnone
  · refine .inl ⟨_, slotId, hleak, ⟨hsettled.perm List.perm_middle, h.queued, h.delivered, ?_⟩, hslot⟩
    intro slot hmem
    refine h.blank slot ?_
    rw [hfree, List.cons_append]
    exact List.perm_middle.mem_iff.mp hmem
  · exact .inr hnone

/-- A value is written to a reserved slot and the slot published. -/
theorem send (h : Holds B z pending delivered reserved) (hB : Ring.PowerOfTwo B) (hs : slotId ∈ reserved) (v : Nat) :
    ∃ z' len, (z.write slotId fun _ => .of v).publishLeakedId B slotId = (z', some len) ∧
      Holds B z' (pending ++ [v]) delivered (reserved.erase slotId) := by
  have hmem : slotId ∈ delivered.map Prod.fst ++ reserved := List.mem_append_right _ hs
  obtain ⟨queue, hpublish, hsettled, hel⟩ := (h.settled.write slotId fun _ => .of v).publishLeakedId hB hmem
  have hother : ∀ slot, slot ≠ slotId → (z.write slotId fun _ => .of v).content slot = z.content slot :=
    fun slot hne => content_update_of_ne hne _
  have hself : (z.write slotId fun _ => .of v).content slotId = .of v := Function.update_self ..
  refine ⟨_, _, hpublish, ⟨hsettled.perm ?_, ?_, ?_, ?_⟩⟩
  · have hnot : slotId ∉ delivered.map Prod.fst := by
      rintro hd
      obtain ⟨d, hd, hd'⟩ := List.mem_map.mp hd
      exact h.reserved_ne_delivered hs hd hd'
    rw [List.erase_append_right _ hnot]
  · show (LawfulMoveContainer.elems B queue).map (z.write slotId fun _ => .of v).content = _
    rw [hel, List.map_append, List.map_append, ← h.queued]
    refine congrArg₂ (· ++ ·) (List.map_congr_left fun slot hslot => ?_) (congrArg ([·]) hself)
    exact hother slot (h.settled.held_ne hmem (List.mem_append_right _ hslot))
  · intro d hd
    exact (hother d.1 (h.reserved_ne_delivered hs hd)).trans (h.delivered d hd)
  · intro slot hslot
    rcases List.mem_append.mp hslot with hfree | hres
    · have hne := h.settled.held_ne hmem (List.mem_append_left _ hfree)
      exact (congrArg Content.stored (hother slot hne)).trans (h.blank slot (List.mem_append_left _ hfree))
    · have hne := h.reserved_ne hs hres
      exact (congrArg Content.stored (hother slot hne)).trans
        (h.blank slot (List.mem_append_right _ (List.mem_of_mem_erase hres)))

theorem publishValue_cases (h : Holds B z pending delivered reserved) (hB : Ring.PowerOfTwo B) (v : Nat) :
    (∃ z' len, z.publishValue B v = (z', some len, none) ∧ Holds B z' (pending ++ [v]) delivered reserved ∧ HasSlot B z) ∨
    (z.publishValue B v = (z, none, some v) ∧ ¬ HasSlot B z) := by
  unfold publishValue
  rcases h.reserve_cases with ⟨z', slotId, hleak, hholds, hslot⟩ | ⟨hleak, hslot⟩
  · obtain ⟨z'', len, hsend, hholds'⟩ := hholds.send hB List.mem_cons_self v
    rw [hleak]
    dsimp only
    rw [hsend]
    rw [List.erase_cons_head] at hholds'
    exact .inl ⟨z'', len, rfl, hholds', hslot⟩
  · rw [hleak]
    exact .inr ⟨rfl, hslot⟩

theorem consume_cases (h : Holds B z pending delivered reserved) :
    (∃ z' slotId v rest, z.consumeLeaking B = (z', some slotId) ∧ pending = v :: rest ∧
      Holds B z' rest ((slotId, v) :: delivered) reserved) ∨
    (z.consumeLeaking B = (z, none) ∧ (pending = [] ∨ 2 ^ 31 ≤ pending.length)) := by
  rcases h.settled.consumeLeaking_cases with ⟨queue, slotId, rest, hconsume, hel, hel', hsettled⟩ | ⟨hnone, hlen⟩
  · have hqueued := h.queued
    rw [hel, List.map_cons] at hqueued
    cases hpending : pending with
    | nil =>
      rw [hpending] at hqueued
      cases hqueued
    | cons v values =>
      rw [hpending, List.map_cons, List.cons.injEq] at hqueued
      refine .inl ⟨_, slotId, v, values, hconsume, rfl, ⟨hsettled, ?_, ?_, h.blank⟩⟩
      · exact (congrArg (List.map _) hel').trans hqueued.2
      · intro d hd
        rcases List.mem_cons.mp hd with rfl | hd
        · exact hqueued.1
        · exact h.delivered d hd
  · rw [h.length_pending] at hlen
    refine .inr ⟨hnone, hlen.imp_left fun hnil => ?_⟩
    rw [← List.length_eq_zero_iff, ← h.length_pending, hnil]
    rfl

theorem release (h : Holds B z pending delivered reserved) (hB : Ring.PowerOfTwo B)
    (hmem : slotId ∈ delivered.map Prod.fst ++ reserved) {delivered' : List (UInt32 × Nat)} {reserved' : List UInt32}
    (hperm : (delivered.map Prod.fst ++ reserved).Perm (slotId :: (delivered'.map Prod.fst ++ reserved')))
    (hdelivered : ∀ d ∈ delivered', d ∈ delivered) (hreserved : ∀ slot ∈ reserved', slot ∈ reserved) :
    Holds B (z.releaseLeakedId B slotId).1 pending delivered' reserved' := by
  obtain ⟨hsettled, hfree⟩ :=
    (h.settled.write slotId fun content => { content with stored := false }).deallocId hB hmem
  have hother : ∀ slot, slot ≠ slotId → (z.releaseLeakedId B slotId).1.content slot = z.content slot :=
    fun slot hne => content_update_of_ne hne _
  have hnd := (List.nodup_append.mp h.settled.nodup).2.1
  rw [hperm.nodup_iff, List.nodup_cons] at hnd
  have hne : ∀ slot ∈ delivered'.map Prod.fst ++ reserved', slot ≠ slotId := by
    rintro slot hslot rfl
    exact hnd.1 hslot
  refine ⟨hsettled.perm ?_, ?_, ?_, ?_⟩
  · have := (hperm.erase slotId).symm
    rwa [List.erase_cons_head] at this
  · refine (List.map_congr_left fun slot hslot => ?_).trans h.queued
    exact hother slot (h.settled.held_ne hmem (List.mem_append_right _ hslot))
  · intro d hd
    exact (hother d.1 (hne d.1 (mem_delivered hd))).trans (h.delivered d (hdelivered d hd))
  · intro slot hslot
    rcases List.mem_append.mp hslot with hslot | hslot
    · have hfree' : slot ∈ z.allocator.free B ++ [slotId] := hfree ▸ hslot
      rcases List.mem_append.mp hfree' with hslot | hslot
      · have hne' := h.settled.held_ne hmem (List.mem_append_left _ hslot)
        exact (congrArg Content.stored (hother slot hne')).trans (h.blank slot (List.mem_append_left _ hslot))
      · rw [List.mem_singleton] at hslot
        subst hslot
        have hself : (z.releaseLeakedId B slot).1.content slot = { z.content slot with stored := false } :=
          Function.update_self ..
        rw [hself]
    · have hne' := hne slot (List.mem_append_right _ hslot)
      exact (congrArg Content.stored (hother slot hne')).trans
        (h.blank slot (List.mem_append_right _ (hreserved slot hslot)))

theorem dropDelivered (h : Holds B z pending delivered reserved) (hB : Ring.PowerOfTwo B) {d : UInt32 × Nat}
    (hd : d ∈ delivered) : (z.releaseLeakedId B d.1).2 = .of d.2 ∧
      Holds B (z.releaseLeakedId B d.1).1 pending (delivered.erase d) reserved := by
  refine ⟨h.delivered d hd, h.release hB (mem_delivered hd) ?_ (fun _ => List.mem_of_mem_erase) fun _ => id⟩
  exact ((List.perm_cons_erase hd).map Prod.fst).append_right reserved

/-- A reserved slot is given back unwritten: whatever it has was not stored there by its holder. -/
theorem dropReserved (h : Holds B z pending delivered reserved) (hB : Ring.PowerOfTwo B) (hs : slotId ∈ reserved) :
    (z.releaseLeakedId B slotId).2.stored = false ∧
      Holds B (z.releaseLeakedId B slotId).1 pending delivered (reserved.erase slotId) := by
  refine ⟨h.blank slotId (List.mem_append_right _ hs),
    h.release hB (List.mem_append_right _ hs) ?_ (fun _ => id) fun _ => List.mem_of_mem_erase⟩
  exact ((List.perm_cons_erase hs).append_left _).trans List.perm_middle

end Holds

end ZeroCopy
end Mutiny
