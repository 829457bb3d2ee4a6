import Mutiny.AtomicMoveSolo
import Mutiny.MultiOgreArc

/-!
# Dropping an `ogre_arc::Atomic` Multi channel

The fields are dropped in the order of their declaration, the `allocator` before the `dispatcher_managers`, whose
queues then drop the `OgreArc`s left in them. The last copy of each calls `dealloc_id` on the allocator. The streams
have been dropped by then, as each of them holds the channel, but their queues may hold something. `D` is the queue of
the dispatchers and `C` the free list of the allocator, as in `MultiOgreArc`.
-/

namespace Mutiny.MultiOgreArc
open MoveContainer

/-- The fields of `Atomic` that have something to drop. -/
inductive Field
  | streamsManager
  | allocator
  | dispatcherManagers
deriving DecidableEq

def fields : List Field := [.streamsManager, .allocator, .dispatcherManagers]

/-- A channel being dropped, which of its fields have not been, and the calls of `dealloc_id`: the slot, and whether
the allocator was alive. After a call on a dead allocator the store is what it would be if its memory were still
there. -/
structure Dropping (C D : Type → Type) (α : Type) where
  chan : Chan C D α
  alive : Field → Bool
  deallocs : List (UInt32 × Bool)

/-- `cancel_all_streams()`, without the wake-ups. -/
def cancelAllStreams (sm : StreamsManagerBase) : StreamsManagerBase :=
  sm.usedIds.foldl (fun sm streamId => sm.setKeepRunning streamId false) sm

namespace Dropping
variable {C D : Type → Type} {α : Type}

section Ops
variable [MoveContainer C] [MoveContainer D]

/-- `drop()` of an `OgreArc`. -/
def dropArc (B : Nat) (t : Dropping C D α) (arc : OgreArc) : Option (Dropping C D α) := do
  let inner ← t.chan.store.box arc
  let store ← t.chan.store.dropArc B arc
  let deallocs := if inner.referencesCount ≠ 1 then [] else [(inner.dataId, t.alive .allocator)]
  return { t with chan := { t.chan with store }, deallocs := t.deallocs ++ deallocs }

/-- `drop()` of an `AtomicMove`, the loop with `fuel`. -/
def dropQueue (B : Nat) : Nat → D OgreArc → Dropping C D α → Option (Dropping C D α)
  | 0, _, _ => none
  | fuel + 1, q, t =>
    match consumeMovable B q with
    | (q, some item) => (t.dropArc B item).bind (dropQueue B fuel q)
    | (_, none) => some t

def dropField (B M fuel : Nat) (t : Dropping C D α) (field : Field) : Option (Dropping C D α) :=
  let dropped := match field with
    | .streamsManager => some t
    -- the slots are `ManuallyDrop`
    | .allocator => some t
    | .dispatcherManagers => (idRange 0 (UInt32.ofNat M)).foldlM
        (fun t streamId => dropQueue B fuel (t.chan.dispatchers streamId) t) t
  dropped.map fun t => { t with alive := Function.update t.alive field false }

/-- `drop()`, and then its fields in the given order. -/
def dropChannel (B M fuel : Nat) (order : List Field) (s : Chan C D α) : Option (Dropping C D α) :=
  order.foldlM (dropField B M fuel) ⟨{ s with streams := cancelAllStreams s.streams }, fun _ => true, []⟩

end Ops

section Spec
variable [LawfulMoveContainer C] [LawfulMoveContainer D] {B M fuel : Nat} {s : Chan C D α}

/-- Some `OgreArc` in the dispatcher queues points to the slot. -/
def Pending (B M : Nat) (s : Chan C D α) (slot : UInt32) : Prop :=
  ∃ arc ∈ lanes B M s.dispatchers, ∃ inner, s.store.box arc = some inner ∧ inner.dataId = slot

/-- The allocator was alive whenever it was called, and each pending payload has been destroyed once. -/
structure Safe (B M : Nat) (s : Chan C D α) (t : Dropping C D α) : Prop where
  alive : ∀ d ∈ t.deallocs, d.2 = true
  once : ∀ slot, Pending B M s slot → (t.deallocs.map Prod.fst).count slot = 1

end Spec
end Dropping

/-! ### Dropping copies -/

/-- The slots `slots` were given back, each of them once. -/
structure Freed {C : Type → Type} {α : Type} (st st' : Store C α) (slots : List UInt32) : Prop where
  nodup : slots.Nodup
  boxed_iff : ∀ slot, st.Boxed slot ↔ slot ∈ slots ∨ st'.Boxed slot
  gone : ∀ slot ∈ slots, ¬ st'.Boxed slot

namespace Freed
variable {C : Type → Type} {α : Type} {st st' st'' : Store C α} {slots slots' : List UInt32}

theorem refl (st : Store C α) : Freed st st [] := ⟨List.nodup_nil, by simp, nofun⟩

theorem trans (h : Freed st st' slots) (h' : Freed st' st'' slots') : Freed st st'' (slots ++ slots') := by
  refine ⟨List.nodup_append.mpr ⟨h.nodup, h'.nodup, ?_⟩, ?_, ?_⟩
  · rintro slot hs _ hs' rfl
    exact h.gone slot hs ((h'.boxed_iff slot).mpr (.inl hs'))
  · intro slot
    rw [h.boxed_iff, h'.boxed_iff, List.mem_append, or_assoc]
  · intro slot hs hboxed
    rcases List.mem_append.mp hs with hs | hs
    · exact h.gone slot hs ((h'.boxed_iff slot).mpr (.inr hboxed))
    · exact h'.gone slot hs hboxed

theorem setCount {arc : OgreArc} {inner : InnerOgreArc} (hb : st.box arc = some inner) (n : UInt32) :
    Freed st (st.setBox arc (some ⟨inner.dataId, n⟩)) [] := by
  refine ⟨List.nodup_nil, fun slot => ?_, nofun⟩
  rw [or_iff_right List.not_mem_nil]
  constructor
  · rintro ⟨a, i, hi, hs⟩
    by_cases ha : a = arc
    · subst ha
      cases hb.symm.trans hi
      exact ⟨a, _, Function.update_self .., hs⟩
    · exact ⟨a, i, (Function.update_of_ne ha _ _).trans hi, hs⟩
  · rintro ⟨a, i, hi, hs⟩
    by_cases ha : a = arc
    · subst ha
      cases (Function.update_self ..).symm.trans hi
      exact ⟨a, inner, hb, hs⟩
    · exact ⟨a, i, (Function.update_of_ne ha _ _).symm.trans hi, hs⟩

theorem free {arc : OgreArc} {inner : InnerOgreArc} (hb : st.box arc = some inner)
    (hst : ∀ a, a ≠ arc → st'.box a = st.box a) (hnone : st'.box arc = none)
    (hinj : ∀ a i, st.box a = some i → i.dataId = inner.dataId → a = arc) :
    Freed st st' [inner.dataId] := by
  refine ⟨List.nodup_singleton _, fun slot => ?_, ?_⟩
  · rw [List.mem_singleton]
    constructor
    · rintro ⟨a, i, hi, hs⟩
      by_cases ha : a = arc
      · subst ha
        cases hb.symm.trans hi
        exact .inl hs.symm
      · exact .inr ⟨a, i, (hst a ha).trans hi, hs⟩
    · rintro (rfl | ⟨a, i, hi, hs⟩)
      · exact ⟨arc, inner, hb, rfl⟩
      · have ha : a ≠ arc := by
          rintro rfl
          cases hnone.symm.trans hi
        exact ⟨a, i, (hst a ha).symm.trans hi, hs⟩
  · intro slot hslot
    rw [List.mem_singleton] at hslot
    subst hslot
    rintro ⟨a, i, hi, hs⟩
    have ha : a ≠ arc := by
      rintro rfl
      cases hnone.symm.trans hi
    exact ha (hinj a i ((hst a ha).symm.trans hi) hs)

end Freed

namespace Dropping
variable {C D : Type → Type} {α : Type} {B M fuel : Nat} {t : Dropping C D α} {s : Chan C D α}
  {reserved slots : List UInt32} {store : Store C α} {rest : List OgreArc} {arc : OgreArc} {q : D OgreArc}
open LawfulMoveContainer (elems WellFormed)

def freed (t : Dropping C D α) (store : Store C α) (slots : List UInt32) : Dropping C D α :=
  { t with chan := { t.chan with store }, deallocs := t.deallocs ++ slots.map fun slot => (slot, t.alive .allocator) }

theorem freed_freed (t : Dropping C D α) (st st' : Store C α) (slots slots' : List UInt32) :
    (t.freed st slots).freed st' slots' = t.freed st' (slots ++ slots') := by
  simp [freed]

theorem freed_nil (t : Dropping C D α) : t.freed t.chan.store [] = t := by
  simp [freed]

variable [LawfulMoveContainer C]

theorem dropArc_spec (hB : Ring.PowerOfTwo B) (h : t.chan.store.Ok B reserved (arc :: rest))
    (hsmall : (arc :: rest).count arc < 2 ^ 32) : ∃ store slots, t.dropArc B arc = some (t.freed store slots) ∧
      Freed t.chan.store store slots ∧ store.Ok B reserved rest := by
  obtain ⟨inner, hb⟩ := Option.isSome_iff_exists.mp ((h.owned arc).mpr List.mem_cons_self)
  have hdrop : ∃ store, t.chan.store.dropArc B arc = some store := by
    rw [Store.dropArc, hb]
    exact ⟨_, rfl⟩
  obtain ⟨store, hstore⟩ := hdrop
  have hok := h.dropArc hB hsmall hstore
  rw [List.erase_cons_head] at hok
  rw [dropArc, hb, hstore]
  rw [Store.dropArc, hb, Option.map_some, Option.some.injEq] at hstore
  by_cases hone : inner.referencesCount = 1
  · rw [if_neg (not_not_intro hone)] at hstore
    refine ⟨store, [inner.dataId], ?_, ?_, hok⟩
    · simp [freed, hone]
    · subst hstore
      refine .free hb (fun a ha => Function.update_of_ne ha _ _) (Function.update_self ..) ?_
      intro a i hi hd
      exact h.inj a arc i inner hi hb hd
  · rw [if_pos hone] at hstore
    refine ⟨store, [], ?_, ?_, hok⟩
    · simp [freed, hone]
    · subst hstore
      exact .setCount hb _

variable [LawfulMoveContainer D]

/-- A queue drops its elements one by one; of `2 ^ 31` elements it drops none. -/
theorem dropQueue_spec (hB : Ring.PowerOfTwo B) (hq : WellFormed B q) (hfuel : (elems B q).length < fuel)
    (h : t.chan.store.Ok B reserved (elems B q ++ rest)) (hsmall : ∀ a, (elems B q ++ rest).count a < 2 ^ 32) :
    ∃ store slots left, dropQueue B fuel q t = some (t.freed store slots) ∧ Freed t.chan.store store slots ∧
      store.Ok B reserved (left ++ rest) ∧ left.Sublist (elems B q) ∧ (B < 2 ^ 31 → left = []) := by
  induction fuel generalizing q t with
  | zero => exact absurd hfuel (Nat.not_lt_zero _)
  | succ fuel ih =>
    unfold dropQueue
    rcases LawfulMoveContainer.consume_cases hq with ⟨q', a, xs, hc, hel, hwf, hel'⟩ | ⟨hc, hlen⟩
    · rw [hel, List.cons_append] at h
      rw [hel] at hfuel hsmall
      rw [List.length_cons] at hfuel
      obtain ⟨store, slots, hdrop, hfreed, hok⟩ := dropArc_spec hB h (hsmall a)
      have hsmall' : ∀ b, (elems B q' ++ rest).count b < 2 ^ 32 := by
        intro b
        rw [hel']
        exact Nat.lt_of_le_of_lt (List.Sublist.count_le b (List.sublist_cons_self a _)) (hsmall b)
      obtain ⟨store', slots', left, hrest, hfreed', hok', hsub, hleft⟩ :=
        ih (t := t.freed store slots) hwf (by rw [hel']; omega) (hel' ▸ hok) hsmall'
      refine ⟨store', slots ++ slots', left, ?_, hfreed.trans hfreed', hok', ?_, hleft⟩
      · rw [hc]
        show (t.dropArc B a).bind (dropQueue B fuel q') = _
        rw [hdrop, Option.bind_some, hrest, freed_freed]
      · rw [hel, ← hel']
        exact hsub.cons a
    · rw [hc]
      refine ⟨t.chan.store, [], elems B q, ?_, .refl _, h, List.Sublist.refl _, ?_⟩
      · rw [freed_nil]
      · intro hlt
        have hle := Nat.le_trans (LawfulMoveContainer.length_le hq) hB.room_le_self
        rcases hlen with hnil | hge
        · exact hnil
        · omega

theorem dropQueues_spec (hB : Ring.PowerOfTwo B) (hfuel : B < fuel) (ids : List UInt32)
    (hq : ∀ id, WellFormed B (t.chan.dispatchers id))
    (h : t.chan.store.Ok B reserved ((ids.flatMap fun id => elems B (t.chan.dispatchers id)) ++ rest))
    (hsmall : ∀ a, ((ids.flatMap fun id => elems B (t.chan.dispatchers id)) ++ rest).count a < 2 ^ 32) :
    ∃ store slots left, ids.foldlM (fun t streamId => dropQueue B fuel (t.chan.dispatchers streamId) t) t =
        some (t.freed store slots) ∧ Freed t.chan.store store slots ∧ store.Ok B reserved (left ++ rest) ∧
      (B < 2 ^ 31 → left = []) := by
  induction ids generalizing t rest with
  | nil => exact ⟨t.chan.store, [], [], by rw [freed_nil]; rfl, .refl _, h, fun _ => rfl⟩
  | cons id ids ih =>
    rw [List.flatMap_cons, List.append_assoc] at h hsmall
    have hlen : (elems B (t.chan.dispatchers id)).length < fuel :=
      Nat.lt_of_le_of_lt (Nat.le_trans (LawfulMoveContainer.length_le (hq id)) hB.room_le_self) hfuel
    obtain ⟨store, slots, left, hfirst, hfreed, hok, hsub, hleft⟩ := dropQueue_spec hB (hq id) hlen h hsmall
    have hperm : ((ids.flatMap fun id => elems B (t.chan.dispatchers id)) ++ (left ++ rest)).Perm
        (left ++ ((ids.flatMap fun id => elems B (t.chan.dispatchers id)) ++ rest)) := by
      rw [← List.append_assoc, ← List.append_assoc]
      exact List.perm_append_comm.append_right _
    have hsmall' : ∀ a,
        ((ids.flatMap fun id => elems B (t.chan.dispatchers id)) ++ (left ++ rest)).count a < 2 ^ 32 := by
      intro a
      rw [hperm.count_eq]
      exact Nat.lt_of_le_of_lt (List.Sublist.count_le a (hsub.append_right _)) (hsmall a)
    obtain ⟨store', slots', left', hrest, hfreed', hok', hleft'⟩ :=
      ih (t := t.freed store slots) hq (hok.perm hperm) hsmall'
    refine ⟨store', slots ++ slots', left' ++ left, ?_, hfreed.trans hfreed', ?_, ?_⟩
    · rw [List.foldlM_cons, hfirst]
      show List.foldlM _ (t.freed store slots) ids = _
      rw [hrest, freed_freed]
    · rw [List.append_assoc]
      exact hok'
    · intro hlt
      rw [hleft hlt, hleft' hlt]
      rfl

/-! ### Dropping the channel -/

/-- Everything the `dispatcher_managers` do when they are dropped. -/
theorem dropDispatchers_spec (hB : Ring.PowerOfTwo B) (hfuel : B < fuel) (h : Inv B M s) (hh : s.handles = [])
    (hsmall : ∀ a, s.copies B M a < 2 ^ 32) (hstore : t.chan.store = s.store)
    (hd : t.chan.dispatchers = s.dispatchers) :
    ∃ store slots left, dropField B M fuel t .dispatcherManagers =
        some { t.freed store slots with alive := Function.update t.alive .dispatcherManagers false } ∧
      Freed s.store store slots ∧ store.Ok B s.reserved left ∧ (B < 2 ^ 31 → left = []) := by
  have howners : s.owners B M = lanes B M s.dispatchers ++ [] := congrArg (lanes B M s.dispatchers ++ ·) hh
  have hok := h.store
  rw [howners, ← hd, ← hstore] at hok
  have hcopies : ∀ a, (lanes B M t.chan.dispatchers ++ []).count a < 2 ^ 32 := by
    intro a
    rw [hd, ← howners]
    exact hsmall a
  obtain ⟨store, slots, left, hdrop, hfreed, hok', hleft⟩ :=
    dropQueues_spec hB hfuel (idRange 0 (UInt32.ofNat M)) (hd ▸ h.queue) hok hcopies
  rw [List.append_nil] at hok'
  refine ⟨store, slots, left, ?_, hstore ▸ hfreed, hok', hleft⟩
  unfold dropField
  dsimp only
  rw [hdrop]
  rfl

theorem boxed_iff_pending (h : Inv B M s) (hh : s.handles = []) (slot : UInt32) :
    s.store.Boxed slot ↔ Pending B M s slot := by
  constructor
  · rintro ⟨arc, inner, hb, hs⟩
    have hmem := (h.store.owned arc).mp (by rw [hb]; rfl)
    rw [Chan.owners, hh, List.append_nil] at hmem
    exact ⟨arc, hmem, inner, hb, hs⟩
  · rintro ⟨arc, -, inner, hb, hs⟩
    exact ⟨arc, inner, hb, hs⟩

theorem pending_of_mem (h : Inv B M s) (hmem : arc ∈ lanes B M s.dispatchers) : ∃ slot, Pending B M s slot := by
  obtain ⟨inner, hb⟩ := Option.isSome_iff_exists.mp ((h.store.owned arc).mpr (List.mem_append_left _ hmem))
  exact ⟨inner.dataId, arc, hmem, inner, hb, rfl⟩

theorem safe_iff_of_dead (h : Inv B M s) (hh : s.handles = []) (hfreed : Freed s.store store slots)
    (ht : t.deallocs = slots.map fun slot => (slot, false)) : Safe B M s t ↔ lanes B M s.dispatchers = [] := by
  constructor
  · intro hsafe
    by_contra hne
    obtain ⟨arc, hmem⟩ := List.exists_mem_of_ne_nil _ hne
    obtain ⟨slot, hpending⟩ := pending_of_mem h hmem
    have hone := hsafe.once slot hpending
    have hslot : slot ∈ t.deallocs.map Prod.fst := List.count_pos_iff.mp (by omega)
    obtain ⟨d, hd, -⟩ := List.mem_map.mp hslot
    have halive := hsafe.alive d hd
    rw [ht] at hd
    obtain ⟨slot', -, rfl⟩ := List.mem_map.mp hd
    cases halive
  · intro hnil
    have hnone : ∀ slot, ¬ Pending B M s slot := by
      rintro slot ⟨arc, hmem, -⟩
      rw [hnil] at hmem
      cases hmem
    have hslots : slots = [] := by
      refine List.eq_nil_iff_forall_not_mem.mpr fun slot hslot => hnone slot ?_
      exact (boxed_iff_pending h hh slot).mp ((hfreed.boxed_iff slot).mpr (.inl hslot))
    rw [hslots] at ht
    refine ⟨?_, fun slot hslot => absurd hslot (hnone slot)⟩
    intro d hd
    rw [ht] at hd
    cases hd

/-- All calls are on the live allocator, and the queues dropped all their elements. -/
theorem safe_of_alive (h : Inv B M s) (hh : s.handles = []) (hfreed : Freed s.store store slots)
    (hok : store.Ok B s.reserved []) (ht : t.deallocs = slots.map fun slot => (slot, true)) : Safe B M s t := by
  refine ⟨?_, ?_⟩
  · intro d hd
    rw [ht] at hd
    obtain ⟨slot, -, rfl⟩ := List.mem_map.mp hd
    rfl
  · intro slot hpending
    have hslots : t.deallocs.map Prod.fst = slots := by
      rw [ht, List.map_map]
      exact List.map_id'' (fun _ => rfl) slots
    rw [hslots]
    refine List.count_eq_one_of_mem hfreed.nodup ?_
    rcases (hfreed.boxed_iff slot).mp ((boxed_iff_pending h hh slot).mpr hpending) with hslot | ⟨arc, inner, hb, -⟩
    · exact hslot
    · cases (hok.owned arc).mp (by rw [hb]; rfl)

theorem dropChannel_iff (hB : Ring.PowerOfTwo B) (hfuel : B < fuel) (h : Inv B M s) (hh : s.handles = [])
    (hsmall : ∀ a, s.copies B M a < 2 ^ 32) : ∃ t, dropChannel B M fuel fields s = some t ∧
      (Safe B M s t ↔ lanes B M s.dispatchers = []) := by
  let t : Dropping C D α := ⟨{ s with streams := cancelAllStreams s.streams },
    Function.update (Function.update (fun _ => true) .streamsManager false) .allocator false, []⟩
  obtain ⟨store, slots, left, hdrop, hfreed, -, -⟩ := dropDispatchers_spec (t := t) hB hfuel h hh hsmall rfl rfl
  refine ⟨{ t.freed store slots with alive := Function.update t.alive .dispatcherManagers false }, ?_,
    safe_iff_of_dead h hh hfreed rfl⟩
  show (dropField B M fuel t .dispatcherManagers).bind some = _
  rw [hdrop, Option.bind_some]

/-- It would be in order if the `dispatcher_managers` were declared before the `allocator`. -/
theorem dropChannel_safe (hB : Ring.PowerOfTwo B) (hlt : B < 2 ^ 31) (hfuel : B < fuel) (h : Inv B M s)
    (hh : s.handles = []) (hsmall : ∀ a, s.copies B M a < 2 ^ 32) :
    ∃ t, dropChannel B M fuel [.streamsManager, .dispatcherManagers, .allocator] s = some t ∧ Safe B M s t := by
  let t : Dropping C D α := ⟨{ s with streams := cancelAllStreams s.streams },
    Function.update (fun _ => true) .streamsManager false, []⟩
  obtain ⟨store, slots, left, hdrop, hfreed, hok, hleft⟩ :=
    dropDispatchers_spec (t := t) hB hfuel h hh hsmall rfl rfl
  rw [hleft hlt] at hok
  let t' : Dropping C D α :=
    { t.freed store slots with alive := Function.update t.alive .dispatcherManagers false }
  refine ⟨{ t' with alive := Function.update t'.alive .allocator false }, ?_, safe_of_alive h hh hfreed hok rfl⟩
  show (dropField B M fuel t .dispatcherManagers).bind _ = _
  rw [hdrop]
  rfl

end Dropping

/-! ### Whole runs -/

/-- The calls that copy an `OgreArc` their caller holds. -/
def Label.copiesHandle {α : Type} : Label α → Bool
  | .clone _ => true
  | .sendDerived _ => true
  | _ => false

section Runs
variable {C D : Type → Type} [LawfulMoveContainer C] [LawfulMoveContainer D] {α : Type} {B M : Nat}
  {s s' : Chan C D α} {slot : UInt32}

/-- A new `OgreArc` has as many copies as there are streams, the others keep theirs. -/
theorem copies_sendAllocated {reserved : List UInt32} {setter : α → α} (hB : Ring.PowerOfTwo B)
    (hM : Ring.PowerOfTwo M) (hsync : s.streams.Synced M)
    (hq : ∀ id, LawfulMoveContainer.WellFormed B (s.dispatchers id)) (hst : s.store.Ok B reserved (s.owners B M))
    (hslot : slot ∈ reserved) (hle : ∀ a, s.copies B M a ≤ 2 ^ 31)
    (hs : s.sendAllocated B slot setter = some (.ok s')) (arc : OgreArc) : s'.copies B M arc ≤ 2 ^ 31 := by
  obtain ⟨a, store, d, rfl, hnot, -, -, -, -, -, hperm⟩ := sendAllocated_spec hB hM hsync hq hst hslot hs
  have howners : (lanes B M d ++ s.handles).Perm (List.replicate (s.streams.inUse M).length a ++ s.owners B M) := by
    rw [Chan.owners, ← List.append_assoc]
    exact hperm.append_right _
  show (lanes B M d ++ s.handles).count arc ≤ 2 ^ 31
  rw [howners.count_eq, List.count_append]
  by_cases ha : a = arc
  · subst ha
    rw [List.count_replicate_self, List.count_eq_zero_of_not_mem hnot, Nat.add_zero]
    exact Nat.le_trans hsync.length_le hM.room_le
  · rw [List.count_replicate, beq_false_of_ne ha]
    exact (Nat.zero_add _).trans_le (hle arc)

theorem copies_sendWith {setter : α → α} (h : Inv B M s) (hB : Ring.PowerOfTwo B) (hM : Ring.PowerOfTwo M)
    (hle : ∀ a, s.copies B M a ≤ 2 ^ 31) (hs : s.sendWith B setter = some (.ok s')) (arc : OgreArc) :
    s'.copies B M arc ≤ 2 ^ 31 := by
  unfold Chan.sendWith at hs
  rcases heq : s.store.allocRef B with ⟨store, _ | slot⟩
  · simp only [heq] at hs
    cases hs
    exact hle arc
  · simp only [heq] at hs
    exact copies_sendAllocated (s := { s with store }) hB hM h.streams h.queue (h.store.allocRef heq).1
      List.mem_cons_self hle hs arc

theorem copies_consume {id : UInt32} (h : Inv B M s) (hid : id ∈ s.live) (arc : OgreArc) :
    (s.consume B id).copies B M arc = s.copies B M arc := by
  have hlt := (StreamsManagerBase.mem_inUse.mp (h.live.mem_iff.mp hid)).1
  rcases Chan.consume_cases (h.queue id) with ⟨q, a, -, -, hel, heq⟩ | ⟨-, heq⟩
  · rw [heq]
    exact (List.perm_middle.trans ((lanes_pop hlt hel).append_right _)).count_eq arc
  · rw [heq]

theorem copies_step {l : Label α} (h : Inv B M s) (hB : Ring.PowerOfTwo B) (hM : Ring.PowerOfTwo M)
    (hle : ∀ a, s.copies B M a ≤ 2 ^ 31) (hl : l.copiesHandle = false) (hs : s.step B M l = some s')
    (arc : OgreArc) : s'.copies B M arc ≤ 2 ^ 31 := by
  replace hs := call_of_step hs
  cases l with
  | clone arc => cases hl
  | sendDerived arc => cases hl
  | createStream =>
    simp only [Chan.call] at hs
    rcases heq : s.streams.createStreamId M with _ | ⟨streams, id⟩
    · simp [heq] at hs
    · simp only [heq] at hs
      cases hs
      exact hle arc
  | dropStream id =>
    simp only [Chan.call, Option.ite_none_right_eq_some, Option.some.injEq, Except.ok.injEq] at hs
    obtain ⟨-, rfl⟩ := hs
    exact hle arc
  | send item => exact copies_sendWith h hB hM hle hs arc
  | sendWith setter => exact copies_sendWith h hB hM hle hs arc
  | reserveSlot =>
    simp only [Chan.call] at hs
    rcases heq : s.store.allocRef B with ⟨store, _ | slot⟩ <;> simp only [heq] at hs <;> cases hs <;> exact hle arc
  | writeReserved slot setter =>
    simp only [Chan.call, Option.ite_none_right_eq_some, Option.some.injEq, Except.ok.injEq] at hs
    obtain ⟨-, rfl⟩ := hs
    exact hle arc
  | trySendReserved slot =>
    simp only [Chan.call, Option.ite_none_right_eq_some] at hs
    exact copies_sendAllocated (s := { s with reserved := s.reserved.erase slot }) hB hM h.streams h.queue h.store
      hs.1 hle hs.2 arc
  | tryCancelSlotReserve slot =>
    simp only [Chan.call, Option.ite_none_right_eq_some, Option.some.injEq, Except.ok.injEq] at hs
    obtain ⟨-, rfl⟩ := hs
    exact hle arc
  | consume id =>
    simp only [Chan.call, Option.ite_none_right_eq_some, Option.some.injEq, Except.ok.injEq] at hs
    obtain ⟨hid, rfl⟩ := hs
    rw [copies_consume h hid]
    exact hle arc
  | dropArc a =>
    simp only [Chan.call, Option.ite_none_right_eq_some, Option.map_eq_some_iff, Except.ok.injEq] at hs
    obtain ⟨-, store, -, rfl⟩ := hs
    refine Nat.le_trans (List.Sublist.count_le arc ?_) (hle arc)
    exact (List.Sublist.refl _).append List.erase_sublist

theorem Inv.of_steps_of_noCopy (hB : Ring.PowerOfTwo B) (hM : Ring.PowerOfTwo M) {pool : Nat → α}
    (h : Machine.Steps (Chan.step B M) (fun _ l _ => l.copiesHandle = false) (.init B M pool : Chan C D α) s) :
    Inv B M s ∧ ∀ arc, s.copies B M arc ≤ 2 ^ 31 := by
  have hinit := Inv.init (C := C) (D := D) hB hM pool
  refine h.invariant (I := fun s => Inv B M s ∧ ∀ arc, s.copies B M arc ≤ 2 ^ 31) ?_ ⟨hinit, ?_⟩
  · intro s l s' hi hs hok
    have hsmall : ∀ arc, s.copies B M arc < 2 ^ 32 := fun arc => Nat.lt_of_le_of_lt (hi.2 arc) (by decide)
    exact ⟨hi.1.step hB hM hsmall hs, copies_step hi.1 hB hM hi.2 hok hs⟩
  · intro arc
    rw [copies_init hB hM]
    exact Nat.zero_le _

/-- The allocator is called after it was dropped exactly if the queues still hold something. -/
theorem allocator_outlives_iff (hB : Ring.PowerOfTwo B) (hM : Ring.PowerOfTwo M) {pool : Nat → α} {fuel : Nat}
    (hfuel : B < fuel)
    (h : Machine.Steps (Chan.step B M) (fun _ l _ => l.copiesHandle = false) (.init B M pool : Chan C D α) s)
    (hh : s.handles = []) : ∃ t, Dropping.dropChannel B M fuel fields s = some t ∧
      (Dropping.Safe B M s t ↔ lanes B M s.dispatchers = []) := by
  obtain ⟨hinv, hle⟩ := Inv.of_steps_of_noCopy hB hM h
  exact Dropping.dropChannel_iff hB hfuel hinv hh fun arc => Nat.lt_of_le_of_lt (hle arc) (by decide)

end Runs

/-- An event goes to two streams; both `OgreArc`s are consumed and dropped, and then the streams. -/
theorem allocator_outlives_two : ∃ (s : Chan AtomicMove AtomicMove Nat) (t : Dropping AtomicMove AtomicMove Nat),
    s.store.free 2 = [1, 0] ∧ Dropping.dropChannel 2 2 3 fields s = some t ∧ Dropping.Safe 2 2 s t := by
  have hrun : (Machine.exec (Machine.restrict (Chan.step 2 2) fun _ l _ => !l.copiesHandle)
      (.init 2 2 fun _ => 0 : Chan AtomicMove AtomicMove Nat)
      [.createStream, .createStream, .send 7, .consume 0, .dropArc 0, .consume 1, .dropArc 0, .dropStream 0,
       .dropStream 1]).map (fun s =>
      decide (s.handles = [] ∧ s.store.free 2 = [1, 0] ∧ lanes 2 2 s.dispatchers = [])) = some true := by
    decide +kernel
  obtain ⟨s, hs, ht⟩ := Option.map_eq_some_iff.mp hrun
  rw [decide_eq_true_iff] at ht
  obtain ⟨hh, hfree, hlanes⟩ := ht
  have hsteps := (Machine.Path.of_exec_restrict (fun _ _ _ h => by simpa using h) hs).steps
  obtain ⟨t, hdrop, hsafe⟩ := allocator_outlives_iff ⟨1, rfl⟩ ⟨1, rfl⟩ (Nat.lt_succ_self 2) hsteps hh
  exact ⟨s, t, hfree, hdrop, hsafe.mpr hlanes⟩

/-- Two streams are dropped with an event waiting for them, and then the channel, as nobody holds it any more; the
second of the `OgreArc`s frees the slot. -/
theorem allocator_called_dead : ∃ (s : Chan AtomicMove AtomicMove Nat) (t : Dropping AtomicMove AtomicMove Nat),
    Machine.Steps (Chan.step 2 2) (fun _ l _ => l.copiesHandle = false) (.init 2 2 fun _ => 0) s ∧
    s.live = [] ∧ s.handles = [] ∧
    Dropping.dropChannel 2 2 3 fields s = some t ∧ t.deallocs = [(0, false)] ∧ ¬ Dropping.Safe 2 2 s t := by
  have hrun : (Machine.exec (Machine.restrict (Chan.step 2 2) fun _ l _ => !l.copiesHandle)
      (.init 2 2 fun _ => 0 : Chan AtomicMove AtomicMove Nat)
      [.createStream, .createStream, .send 7, .dropStream 0, .dropStream 1]).map (fun s => decide (s.live = [] ∧
        s.handles = [] ∧ (Dropping.dropChannel 2 2 3 fields s).map (·.deallocs) = some [(0, false)])) =
        some true := by decide +kernel
  obtain ⟨s, hs, ht⟩ := Option.map_eq_some_iff.mp hrun
  rw [decide_eq_true_iff] at ht
  obtain ⟨hlive, hh, hcalls⟩ := ht
  obtain ⟨t, hdrop, hcalls⟩ := Option.map_eq_some_iff.mp hcalls
  have hsteps := (Machine.Path.of_exec_restrict (fun _ _ _ h => by simpa using h) hs).steps
  refine ⟨s, t, hsteps, hlive, hh, hdrop, hcalls, fun hsafe => ?_⟩
  have halive := hsafe.alive (0, false) (by rw [hcalls]; exact List.mem_cons_self)
  cases halive

end Mutiny.MultiOgreArc
