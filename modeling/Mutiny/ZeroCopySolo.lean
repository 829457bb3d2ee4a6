import Mutiny.ZeroCopy

/-!
# The zero-copy queues, one call at a time

`Settled` is what holds between the operations of a single thread: every slot is free, queued or in the hands of a
caller. There is one lemma for each operation, which says all it can do.
-/

namespace Mutiny.ZeroCopy
variable {C D : Type → Type} {α : Type} [LawfulMoveContainer C] [LawfulMoveContainer D] {B : Nat} {z : ZeroCopy C D α}
  {held : List UInt32} {slotId : UInt32}

def queuedIds (B : Nat) (z : ZeroCopy C D α) : List UInt32 := LawfulMoveContainer.elems B z.queue

def elements (B : Nat) (z : ZeroCopy C D α) : List α :=
  (z.queuedIds B).map fun slotId => z.allocator.pool slotId.toNat

def publishMovable (B : Nat) (z : ZeroCopy C D α) (item : α) : ZeroCopy C D α × Option UInt32 × Option α :=
  match z.leakSlot B with
  | (z, some slotId) =>
    let (z, lenAfter) := (z.write slotId fun _ => item).publishLeakedId B slotId
    (z, lenAfter, none)
  | (z, none) => (z, none, some item)

/-- There is a slot to be leaked. A free list of `2 ^ 31` slots takes itself for empty. -/
def HasSlot (B : Nat) (z : ZeroCopy C D α) : Prop := z.allocator.free B ≠ [] ∧ (z.allocator.free B).length < 2 ^ 31

structure Settled (B : Nat) (z : ZeroCopy C D α) (held : List UInt32) : Prop where
  wfFree : LawfulMoveContainer.WellFormed B z.allocator.freeList
  wfQueue : LawfulMoveContainer.WellFormed B z.queue
  places : (z.allocator.free B ++ z.queuedIds B ++ held).Perm (idRange 0 (UInt32.ofNat B))

theorem settled_of_steps (hB : Ring.PowerOfTwo B) {pool : Nat → α} {s : Sys C D α}
    (h : Machine.Steps (Sys.step B) (fun _ _ _ => True) (.init B pool) s) : Settled B s.z (s.calls.map Call.slot) := by
  have hinv : Inv B s := by
    refine h.invariant (I := Inv B) ?_ (.init hB pool)
    intro s l s' hi hs _
    exact hi.step hB hs
  exact ⟨hinv.wfFree, hinv.wfQueue, hinv.places⟩

namespace Settled

theorem new (hB : Ring.PowerOfTwo B) (pool : Nat → α) : Settled B (.new B pool : ZeroCopy C D α) [] :=
  settled_of_steps hB .refl

theorem perm {held' : List UInt32} (h : Settled B z held) (hp : held'.Perm held) : Settled B z held' :=
  ⟨h.wfFree, h.wfQueue, (hp.append_left _).trans h.places⟩

theorem nodup (h : Settled B z held) : (z.allocator.free B ++ z.queuedIds B ++ held).Nodup :=
  h.places.nodup_iff.mpr nodup_idRange

theorem length_eq (h : Settled B z held) :
    (z.allocator.free B).length + (z.queuedIds B).length + held.length = Ring.room B := by
  have hlen := h.places.length_eq
  rwa [List.length_append, List.length_append, length_idRange, UInt32.toNat_zero] at hlen

theorem lt (h : Settled B z held) (hmem : slotId ∈ held) : slotId < UInt32.ofNat B :=
  (mem_idRange.mp (h.places.mem_iff.mp (List.mem_append_right _ hmem))).2

theorem refFromId_eq (h : Settled B z held) (hmem : slotId ∈ held) :
    z.allocator.refFromId B slotId = z.allocator.pool slotId.toNat := by
  have hlt := UInt32.lt_iff_toNat_lt.mp (h.lt hmem)
  rw [UInt32.toNat_ofNat'] at hlt
  rw [Store.refFromId, Nat.mod_eq_of_lt (Nat.lt_of_lt_of_le hlt (Nat.mod_le ..))]

theorem held_ne (h : Settled B z held) (hmem : slotId ∈ held) {slot : UInt32}
    (hslot : slot ∈ z.allocator.free B ++ z.queuedIds B) : slot ≠ slotId :=
  (List.nodup_append.mp h.nodup).2.2 slot hslot slotId hmem

theorem leakSlot_cases (h : Settled B z held) :
    (∃ freeList slotId, z.leakSlot B = ({ z with allocator := { z.allocator with freeList } }, some slotId) ∧
      Settled B { z with allocator := { z.allocator with freeList } } (slotId :: held) ∧ HasSlot B z ∧
      z.allocator.free B = slotId :: LawfulMoveContainer.elems B freeList) ∨
    (z.leakSlot B = (z, none) ∧ ¬ HasSlot B z) := by
  unfold leakSlot Store.allocRef HasSlot
  cases hfree : z.allocator.free B with
  | nil =>
    rw [LawfulMoveContainer.consume_none h.wfFree (.inl hfree)]
    exact .inr ⟨rfl, fun hs => hs.1 rfl⟩
  | cons slotId rest =>
    by_cases hlt : rest.length + 1 < 2 ^ 31
    · obtain ⟨hwf, hel, hsome⟩ := LawfulMoveContainer.consume_some h.wfFree hfree hlt
      generalize MoveContainer.consumeMovable B z.allocator.freeList = r at hwf hel hsome
      obtain ⟨freeList, _⟩ := r
      cases hsome
      refine .inl ⟨freeList, slotId, rfl, ⟨hwf, h.wfQueue, ?_⟩, ⟨List.cons_ne_nil _ _, hlt⟩, ?_⟩
      · refine List.Perm.trans ?_ h.places
        show (LawfulMoveContainer.elems B freeList ++ z.queuedIds B ++ slotId :: held).Perm _
        rw [hfree, hel]
        exact List.perm_middle
      · exact congrArg (slotId :: ·) hel.symm
    · have hle : 2 ^ 31 ≤ (LawfulMoveContainer.elems B z.allocator.freeList).length := by
        have := congrArg List.length hfree
        rw [List.length_cons] at this
        unfold Store.free at this
        omega
      rw [LawfulMoveContainer.consume_none h.wfFree (.inr hle)]
      exact .inr ⟨rfl, fun hs => hlt hs.2⟩

theorem write (h : Settled B z held) (slotId : UInt32) (setter : α → α) : Settled B (z.write slotId setter) held :=
  ⟨h.wfFree, h.wfQueue, h.places⟩

/-- The slot leaves the hands of its holder: the queue has room for its id. -/
theorem publishLeakedId (h : Settled B z held) (hB : Ring.PowerOfTwo B) (hmem : slotId ∈ held) :
    ∃ queue, z.publishLeakedId B slotId =
        ({ z with queue }, some (UInt32.ofNat ((z.queuedIds B).length + 1))) ∧
      Settled B { z with queue } (held.erase slotId) ∧
      LawfulMoveContainer.elems B queue = z.queuedIds B ++ [slotId] := by
  have hroom : (LawfulMoveContainer.elems B z.queue).length < Ring.room B := by
    have hlen := h.length_eq
    have hpos := List.length_pos_of_mem hmem
    unfold queuedIds at hlen
    omega
  obtain ⟨hwf, hel, hret⟩ := LawfulMoveContainer.publish_room (x := slotId) hB h.wfQueue hroom
  refine ⟨(MoveContainer.publishMovable B z.queue slotId).1, ?_, ⟨h.wfFree, hwf, ?_⟩, hel⟩
  · exact Prod.ext rfl (congrArg Prod.fst hret)
  · refine List.Perm.trans ?_ h.places
    show (z.allocator.free B ++ LawfulMoveContainer.elems B _ ++ _).Perm _
    rw [hel, ← List.append_assoc, List.append_assoc (_ ++ _), List.singleton_append]
    exact (List.perm_cons_erase hmem).symm.append_left _

theorem consumeLeaking_cases (h : Settled B z held) :
    (∃ queue slotId rest, z.consumeLeaking B = ({ z with queue }, some slotId) ∧ z.queuedIds B = slotId :: rest ∧
      LawfulMoveContainer.elems B queue = rest ∧ Settled B { z with queue } (slotId :: held)) ∨
    (z.consumeLeaking B = (z, none) ∧ (z.queuedIds B = [] ∨ 2 ^ 31 ≤ (z.queuedIds B).length)) := by
  unfold consumeLeaking
  rcases LawfulMoveContainer.consume_cases h.wfQueue with ⟨queue, slotId, rest, hq, hel, hwf, hel'⟩ | ⟨hq, hnone⟩
  · rw [hq]
    refine .inl ⟨queue, slotId, rest, rfl, hel, hel', ⟨h.wfFree, hwf, ?_⟩⟩
    refine List.Perm.trans ?_ h.places
    show (z.allocator.free B ++ LawfulMoveContainer.elems B queue ++ slotId :: held).Perm (_ ++ z.queuedIds B ++ held)
    rw [hel', show z.queuedIds B = slotId :: rest from hel, List.append_assoc, List.append_assoc]
    exact List.perm_middle.append_left _
  · rw [hq]
    exact .inr ⟨rfl, hnone⟩

theorem deallocId (h : Settled B z held) (hB : Ring.PowerOfTwo B) (hmem : slotId ∈ held) :
    Settled B (z.deallocId B slotId) (held.erase slotId) ∧
      (z.deallocId B slotId).allocator.free B = z.allocator.free B ++ [slotId] := by
  have hnew : slotId ∉ z.allocator.free B := fun hf => h.held_ne hmem (List.mem_append_left _ hf) rfl
  have hnd := (List.nodup_append.mp (List.nodup_append.mp h.nodup).1).1
  obtain ⟨hwf, hfree⟩ := Store.free_of_deallocId hB h.wfFree (List.nodup_cons.mpr ⟨hnew, hnd⟩) (by
    intro slot hslot
    rcases List.mem_cons.mp hslot with rfl | hslot
    · exact h.lt hmem
    · have hall := List.mem_append_left held (List.mem_append_left (z.queuedIds B) hslot)
      exact (mem_idRange.mp (h.places.mem_iff.mp hall)).2)
  refine ⟨⟨hwf, h.wfQueue, ?_⟩, hfree⟩
  refine List.Perm.trans ?_ h.places
  show ((z.allocator.deallocId B slotId).free B ++ z.queuedIds B ++ held.erase slotId).Perm _
  rw [hfree, List.append_assoc, List.append_assoc, List.append_assoc, List.singleton_append]
  refine List.Perm.append_left _ ?_
  exact List.perm_middle.symm.trans ((List.perm_cons_erase hmem).symm.append_left _)

theorem publishMovable_cases (h : Settled B z held) (hB : Ring.PowerOfTwo B) (item : α) :
    (∃ z', z.publishMovable B item = (z', some (UInt32.ofNat ((z.queuedIds B).length + 1)), none) ∧
      Settled B z' held ∧ z'.elements B = z.elements B ++ [item] ∧ HasSlot B z) ∨
    (z.publishMovable B item = (z, none, some item) ∧ ¬ HasSlot B z) := by
  unfold publishMovable
  rcases h.leakSlot_cases with ⟨freeList, slotId, hleak, hsettled, hslot, -⟩ | ⟨hleak, hslot⟩
  · obtain ⟨queue, hpublish, hsettled', hel⟩ :=
      (hsettled.write slotId fun _ => item).publishLeakedId hB List.mem_cons_self
    rw [hleak]
    dsimp only
    rw [hpublish]
    rw [List.erase_cons_head] at hsettled'
    refine .inl ⟨_, rfl, hsettled', ?_, hslot⟩
    unfold elements
    show (LawfulMoveContainer.elems B queue).map _ = _
    rw [hel, List.map_append]
    refine congrArg₂ (· ++ ·) (List.map_congr_left fun slot hmem => ?_) (congrArg ([·]) (Function.update_self ..))
    have hne := hsettled.held_ne List.mem_cons_self (List.mem_append_right _ hmem)
    exact Function.update_of_ne (fun he => hne (UInt32.toNat_inj.mp he)) _ _
  · rw [hleak]
    exact .inr ⟨rfl, hslot⟩

theorem consume_cases (h : Settled B z held) (hB : Ring.PowerOfTwo B) :
    (∃ z' slotId rest, z.consumeLeaking B = (z', some slotId) ∧
      z.elements B = z'.allocator.refFromId B slotId :: rest ∧ (z'.queuedIds B).length = rest.length ∧
      Settled B (z'.deallocId B slotId) held ∧ (z'.deallocId B slotId).elements B = rest) ∨
    (z.consumeLeaking B = (z, none) ∧ (z.queuedIds B = [] ∨ 2 ^ 31 ≤ (z.queuedIds B).length)) := by
  rcases h.consumeLeaking_cases with ⟨queue, slotId, rest, hconsume, hel, hel', hsettled⟩ | hnone
  · obtain ⟨hsettled', -⟩ := hsettled.deallocId hB List.mem_cons_self
    rw [List.erase_cons_head] at hsettled'
    refine .inl ⟨_, slotId, rest.map fun slotId => z.allocator.pool slotId.toNat, hconsume, ?_, ?_, hsettled', ?_⟩
    · rw [hsettled.refFromId_eq List.mem_cons_self, elements, hel]
      rfl
    · rw [List.length_map]
      exact congrArg List.length hel'
    · exact congrArg (List.map fun slotId => z.allocator.pool slotId.toNat) hel'
  · exact .inr hnone

end Settled

end Mutiny.ZeroCopy
