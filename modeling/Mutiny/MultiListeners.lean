import Mutiny.AtomicMoveSolo
import Mutiny.Lib.Broadcast
import Mutiny.MultiOgreArc

/-!
# What the listeners of the Multi channels see

All four channels give a stream the queue of its id, and neither creating nor dropping a stream
empties that queue. A stream created for new events sees exactly the events sent since then if the
queue of its id is empty at that moment (`listener_sees_new`); otherwise it first sees what the former
owner of the id has not consumed (`leftover_run`).
-/

namespace Mutiny
open MoveContainer
open LawfulMoveContainer (elems WellFormed)
open Broadcast (Reply History)

/-- The next stream to be created gets an id whose queue, `pending`, is empty. -/
def StreamsManagerBase.NextEmpty {α : Type} (M : Nat) (sm : StreamsManagerBase) (pending : UInt32 → List α) : Prop :=
  ∀ id rest, sm.vacantStreams.elems M = id :: rest → pending id = []

instance {α : Type} (M : Nat) (sm : StreamsManagerBase) (pending : UInt32 → List α) : Decidable (sm.NextEmpty M pending) :=
  match h : sm.vacantStreams.elems M with
  | [] => .isTrue fun id rest h' => by rw [h] at h'; cases h'
  | id :: rest => decidable_of_iff ((pending id).isEmpty = true) <| by
    rw [List.isEmpty_iff]
    constructor
    · intro hp id' rest' h'
      rw [h] at h'
      cases h'
      exact hp
    · exact fun hp => hp id rest h

namespace MultiArc

/-- `arc::Atomic` and `arc::FullSync`, one call at a time; an `Arc` is the event it points to. -/
structure Chan (D : Type → Type) (α : Type) where
  streams : StreamsManagerBase
  channels : UInt32 → D α
  /-- the streams that callers hold -/
  live : List UInt32

inductive Label (α : Type)
  | createStream
  | dropStream (id : UInt32)
  | send (item : α)
  | consume (id : UInt32)

section Ops
variable {D : Type → Type} [MoveContainer D] {α : Type}

def Chan.init (M : Nat) (buffer : Nat → α) : Chan D α := ⟨.new M, fun _ => withInitializer buffer, []⟩

def Chan.call (B M : Nat) (s : Chan D α) : Label α → Option (Chan D α × Reply UInt32 α)
  | .createStream =>
    (s.streams.createStreamId M).map fun (streams, id) => ({ s with streams, live := id :: s.live }, .joined id)
  | .dropStream id =>
    if id ∈ s.live then
      some ({ s with streams := s.streams.reportStreamDropped M id, live := s.live.erase id }, .done)
    else none
  -- the loop of `send_derived` never ends if one of the queues is full
  | .send item =>
    (publishEach B item s.streams.usedIds s.channels).map fun channels => ({ s with channels }, .sent item)
  | .consume id =>
    if id ∈ s.live then
      match consumeMovable B (s.channels id) with
      | (q, some item) => some ({ s with channels := Function.update s.channels id q }, .consumed id item)
      | (q, none) => some ({ s with channels := Function.update s.channels id q }, .done)
    else none

end Ops

section Lawful
variable {D : Type → Type} [LawfulMoveContainer D] {α : Type} {B M : Nat} {s s' : Chan D α} {l : Label α}
  {r : Reply UInt32 α}

def Chan.pending (B : Nat) (s : Chan D α) (id : UInt32) : List α := elems B (s.channels id)

def Chan.Fresh (B M : Nat) (s : Chan D α) : Label α → Prop
  | .createStream => s.streams.NextEmpty M (s.pending B)
  | _ => True

instance (B M : Nat) (s : Chan D α) : (l : Label α) → Decidable (s.Fresh B M l)
  | .createStream => inferInstanceAs (Decidable (s.streams.NextEmpty M (s.pending B)))
  | .dropStream _ | .send _ | .consume _ => .isTrue trivial

structure Inv (B M : Nat) (s : Chan D α) : Prop where
  streams : s.streams.Synced M
  live : s.live.Perm (s.streams.inUse M)
  queue : ∀ id, WellFormed B (s.channels id)

theorem Inv.init (hM : Ring.PowerOfTwo M) (buffer : Nat → α) : Inv B M (.init M buffer : Chan D α) := by
  refine ⟨.new hM, ?_, fun _ => LawfulMoveContainer.init_wf _⟩
  show ([] : List UInt32).Perm ((StreamsManagerBase.new M).inUse M)
  rw [StreamsManagerBase.inUse_new hM]

theorem call_cases (hB : Ring.PowerOfTwo B) (hM : Ring.PowerOfTwo M) (h : Inv B M s)
    (hc : s.call B M l = some (s', r)) :
    (∃ streams id rest, l = .createStream ∧ s.streams.createStreamId M = some (streams, id) ∧
      s.streams.vacantStreams.elems M = id :: rest ∧ r = .joined id ∧ s' = { s with streams, live := id :: s.live }) ∨
    (∃ id ∈ s.live, l = .dropStream id ∧ r = .done ∧
      s' = { s with streams := s.streams.reportStreamDropped M id, live := s.live.erase id }) ∨
    (∃ item channels, l = .send item ∧ r = .sent item ∧ s' = { s with channels } ∧ (∀ id, WellFormed B (channels id)) ∧
      ∀ id, elems B (channels id) = if id ∈ s.live then elems B (s.channels id) ++ [item] else elems B (s.channels id)) ∨
    (∃ id ∈ s.live, ∃ q item, l = .consume id ∧ r = .consumed id item ∧
      s' = { s with channels := Function.update s.channels id q } ∧ WellFormed B q ∧
      elems B (s.channels id) = item :: elems B q) ∨
    (∃ id ∈ s.live, l = .consume id ∧ r = .done ∧ s' = s) := by
  cases l with
  | createStream =>
    simp only [Chan.call, Option.map_eq_some_iff] at hc
    obtain ⟨⟨streams, id⟩, hcreate, heq⟩ := hc
    cases heq
    obtain ⟨rest, hrest⟩ := h.streams.vacant.head_of_create hcreate
    exact .inl ⟨streams, id, rest, rfl, hcreate, hrest, rfl, rfl⟩
  | dropStream id =>
    simp only [Chan.call, Option.ite_none_right_eq_some, Option.some.injEq] at hc
    obtain ⟨hid, heq⟩ := hc
    cases heq
    exact .inr (.inl ⟨id, hid, rfl, rfl, rfl⟩)
  | send item =>
    simp only [Chan.call, Option.map_eq_some_iff] at hc
    obtain ⟨channels, hpub, heq⟩ := hc
    cases heq
    rw [h.streams.usedIds_eq hM] at hpub
    obtain ⟨hwf, hel⟩ := LawfulMoveContainer.publishEach_spec hB StreamsManagerBase.nodup_inUse h.queue hpub
    refine .inr (.inr (.inl ⟨item, channels, rfl, rfl, rfl, hwf, fun id => ?_⟩))
    rw [hel id]
    simp only [h.live.mem_iff]
  | consume id =>
    simp only [Chan.call, Option.ite_none_right_eq_some] at hc
    obtain ⟨hid, hc⟩ := hc
    rcases LawfulMoveContainer.consume_cases (h.queue id) with ⟨q, item, rest, hq, hel, hwf, rfl⟩ | ⟨hq, -⟩
    · rw [hq] at hc
      cases hc
      exact .inr (.inr (.inr (.inl ⟨id, hid, q, item, rfl, rfl, rfl, hwf, hel⟩)))
    · rw [hq] at hc
      cases hc
      refine .inr (.inr (.inr (.inr ⟨id, hid, rfl, rfl, ?_⟩)))
      rw [Function.update_eq_self]

theorem Inv.call (hB : Ring.PowerOfTwo B) (hM : Ring.PowerOfTwo M) (h : Inv B M s)
    (hc : s.call B M l = some (s', r)) : Inv B M s' := by
  rcases call_cases hB hM h hc with ⟨streams, id, rest, -, hcreate, -, -, rfl⟩ | ⟨id, hid, -, -, rfl⟩ |
    ⟨item, channels, -, -, rfl, hwf, -⟩ | ⟨id, -, q, item, -, -, rfl, hwf, -⟩ | ⟨id, -, -, -, rfl⟩
  · exact ⟨(h.streams.create hM hcreate).1, h.streams.live_create hM h.live hcreate, h.queue⟩
  · exact ⟨(h.streams.drop hM (h.live.mem_iff.mp hid)).1, h.streams.live_drop hM h.live hid, h.queue⟩
  · exact ⟨h.streams, h.live, hwf⟩
  · exact ⟨h.streams, h.live, LawfulMoveContainer.wellFormed_update h.queue hwf⟩
  · exact h

theorem lawful (hB : Ring.PowerOfTwo B) (hM : Ring.PowerOfTwo M) :
    Broadcast.Lawful (Chan.call B M) Chan.live (Chan.pending B) (Inv B M) (Chan.Fresh B M : Chan D α → Label α → Prop) where
  keep h hc := h.call hB hM hc
  joined {s b s' i} h hf hc := by
    rcases call_cases hB hM h hc with ⟨streams, id, rest, rfl, -, hrest, ⟨⟩, rfl⟩ | ⟨_, _, _, h, _⟩ |
      ⟨_, _, _, h, _⟩ | ⟨_, _, _, _, _, h, _⟩ | ⟨_, _, _, h, _⟩
    case inl => exact ⟨hf i rest hrest, fun j hj hne => ⟨List.mem_of_ne_of_mem hne hj, rfl⟩⟩
    all_goals cases h
  sent {s b s' x} h hc := by
    rcases call_cases hB hM h hc with ⟨_, _, _, _, _, _, h, _⟩ | ⟨_, _, _, h, _⟩ |
      ⟨item, channels, -, ⟨⟩, rfl, -, hel⟩ | ⟨_, _, _, _, _, h, _⟩ | ⟨_, _, _, h, _⟩
    case inr.inr.inl => exact fun j hj => ⟨hj, (hel j).trans (if_pos hj)⟩
    all_goals cases h
  consumed {s b s' i x} h hc := by
    rcases call_cases hB hM h hc with ⟨_, _, _, _, _, _, h, _⟩ | ⟨_, _, _, h, _⟩ |
      ⟨_, _, _, h, _⟩ | ⟨id, -, q, item, -, ⟨⟩, rfl, -, hel⟩ | ⟨_, _, _, h, _⟩
    case inr.inr.inr.inl =>
      refine fun j hj => ⟨hj, ?_⟩
      show elems B (s.channels j) = if j = i then x :: elems B (Function.update s.channels i q j)
        else elems B (Function.update s.channels i q j)
      by_cases hji : j = i
      · subst hji; rw [if_pos rfl, Function.update_self, hel]
      · rw [if_neg hji, Function.update_of_ne hji]
    all_goals cases h
  done {s b s'} h hc := by
    rcases call_cases hB hM h hc with ⟨_, _, _, _, _, _, h, _⟩ | ⟨id, -, -, -, rfl⟩ |
      ⟨_, _, _, h, _⟩ | ⟨_, _, _, _, _, h, _⟩ | ⟨_, -, -, -, rfl⟩
    case inr.inl => exact fun j hj => ⟨List.mem_of_mem_erase hj, rfl⟩
    case inr.inr.inr.inr => exact fun j hj => ⟨hj, rfl⟩
    all_goals cases h

end Lawful
end MultiArc

namespace MultiOgreArc

inductive Call (α : Type)
  | createStream
  | dropStream (id : UInt32)
  | send (item : α)
  | consume (id : UInt32)
  | dropArc (arc : OgreArc)

section Ops
variable {C D : Type → Type} [MoveContainer C] [MoveContainer D] {α : Type}

def Call.label : Call α → Label α
  | .createStream => .createStream
  | .dropStream id => .dropStream id
  | .send item => .send item
  | .consume id => .consume id
  | .dropArc arc => .dropArc arc

/-- What the caller learns when the call takes the channel from `s` to `s'`. -/
def Chan.reply (B : Nat) (s s' : Chan C D α) : Call α → Option (Reply UInt32 α)
  | .createStream => s'.live.head?.map .joined
  | .send item => some (if (s.store.allocRef B).2.isSome then .sent item else .done)
  | .consume id =>
    match (consumeMovable B (s.dispatchers id)).2 with
    | some arc => (s.store.deref B arc).map (.consumed id)
    | none => some .done
  | .dropStream _ | .dropArc _ => some .done

def Chan.answer (B M : Nat) (s : Chan C D α) (c : Call α) : Option (Chan C D α × Reply UInt32 α) := do
  let s' ← s.step B M c.label
  let reply ← s.reply B s' c
  some (s', reply)

end Ops

section Lawful
variable {C D : Type → Type} [LawfulMoveContainer C] [LawfulMoveContainer D] {α : Type} {B M : Nat}
  {s s' : Chan C D α} {c : Call α} {r : Reply UInt32 α} {id : UInt32} {arc : OgreArc}

def Chan.pending (B : Nat) (s : Chan C D α) (id : UInt32) : List α :=
  (elems B (s.dispatchers id)).filterMap (s.store.deref B)

def Chan.Fresh (B M : Nat) (s : Chan C D α) : Call α → Prop
  | .createStream => s.streams.NextEmpty M (s.pending B)
  | _ => True

instance (B M : Nat) (s : Chan C D α) : (c : Call α) → Decidable (s.Fresh B M c)
  | .createStream => inferInstanceAs (Decidable (s.streams.NextEmpty M (s.pending B)))
  | .dropStream _ | .send _ | .consume _ | .dropArc _ => .isTrue trivial

theorem Inv.lt_of_live (h : Inv B M s) (hid : id ∈ s.live) : id < UInt32.ofNat M :=
  (StreamsManagerBase.mem_inUse.mp (h.live.mem_iff.mp hid)).1

/-- An `OgreArc` in the queue of a live stream points to a box, and the box to a slot. -/
theorem Inv.box_of_lane (h : Inv B M s) (hid : id ∈ s.live) (harc : arc ∈ elems B (s.dispatchers id)) :
    ∃ inner, s.store.box arc = some inner ∧ inner.dataId.toNat < B := by
  have hsome := (h.store.owned arc).mpr (List.mem_append_left _ (mem_lanes (h.lt_of_live hid) harc))
  obtain ⟨inner, hb⟩ := Option.isSome_iff_exists.mp hsome
  have hlt := UInt32.lt_iff_toNat_lt.mp (h.store.boxed_lt _ ⟨arc, inner, hb, rfl⟩)
  exact ⟨inner, hb, Nat.lt_of_lt_of_le hlt (by rw [UInt32.toNat_ofNat']; exact Nat.mod_le ..)⟩

/-- What is pending does not change as long as the slots and the queue do not. -/
theorem Inv.pending_of_keeps (h' : Inv B M s') (hid : id ∈ s'.live) (hk : s.store.Keeps s'.store)
    (hd : s'.dispatchers id = s.dispatchers id) : s'.pending B id = s.pending B id := by
  unfold Chan.pending
  rw [← hd]
  refine List.filterMap_congr fun arc harc => ?_
  obtain ⟨inner', hb', -⟩ := h'.box_of_lane hid harc
  obtain ⟨inner, hb, hdata⟩ := hk.2 arc inner' hb'
  simp only [Store.deref, hb, hb', Option.map_some, Store.refFromId, hk.1, hdata]

/-- A successful `send` appends the event to what is pending for the live streams. -/
theorem Inv.pending_send {item : α} {store : Store C α} {slot : UInt32} (h : Inv B M s) (hB : Ring.PowerOfTwo B)
    (hM : Ring.PowerOfTwo M) (halloc : s.store.allocRef B = (store, some slot))
    (hs : ({ s with store } : Chan C D α).sendAllocated B slot (fun _ => item) = some (.ok s')) :
    s'.live = s.live ∧ (∀ id ∈ s.live, s'.pending B id = s.pending B id ++ [item]) ∧
    ∃ a ∉ s.owners B M, (s'.owners B M).Perm (List.replicate (s.streams.inUse M).length a ++ s.owners B M) := by
  obtain ⟨hok, rest, hfree, hst⟩ := h.store.allocRef halloc
  have hbox : store.box = s.store.box := by rw [hst]
  have hpool₀ : store.pool = s.store.pool := by rw [hst]
  obtain ⟨a, st, d, rfl, hnot, hwf, hel, hok', hpool, hkeep, hperm⟩ :=
    sendAllocated_spec (M := M) (s := { s with store }) hB hM h.streams h.queue hok List.mem_cons_self hs
  have hslot : slot ∈ s.store.free B ++ s.reserved := by rw [hfree]; exact List.mem_cons_self
  have hslotB : slot.toNat < B := by
    have hlt := UInt32.lt_iff_toNat_lt.mp (h.store.lt slot hslot)
    exact Nat.lt_of_lt_of_le hlt (by rw [UInt32.toNat_ofNat']; exact Nat.mod_le ..)
  rw [List.erase_cons_head] at hok'
  have h' : Inv B M { s with store := st, dispatchers := d } := ⟨h.streams, h.live, hwf, hok'⟩
  refine ⟨rfl, fun id hid => ?_, a, hnot, ?_⟩
  · have hd : elems B (d id) = elems B (s.dispatchers id) ++ [a] := (hel id).trans (if_pos (h.live.mem_iff.mp hid))
    show (elems B (d id)).filterMap (st.deref B) = (elems B (s.dispatchers id)).filterMap (s.store.deref B) ++ [item]
    rw [hd, List.filterMap_append]
    congr 1
    · refine List.filterMap_congr fun arc harc => ?_
      have harc' : arc ∈ elems B (d id) := by rw [hd]; exact List.mem_append_left _ harc
      obtain ⟨inner', hb', -⟩ := h'.box_of_lane hid harc'
      obtain ⟨inner, hb, hltB⟩ := h.box_of_lane hid harc
      -- neither the new box nor the slot it has taken
      have hne : arc ≠ a := by rintro rfl; exact hnot (List.mem_append_left _ (mem_lanes (h.lt_of_live hid) harc))
      obtain ⟨j, hj, hdata⟩ := (hkeep arc inner' hb').resolve_left fun h => hne h.1
      have hj' : s.store.box arc = some j := by rw [← hbox]; exact hj
      cases hb.symm.trans hj'
      have hunboxed := h.store.unboxed slot hslot
      have hne' : inner.dataId.toNat ≠ slot.toNat := by
        intro heq
        exact hunboxed ⟨arc, inner, hb, UInt32.toNat_inj.mp heq⟩
      have hb'' : st.box arc = some inner' := hb'
      simp only [Store.deref, hb, hb'', Option.map_some, Store.refFromId, hpool, hdata, Nat.mod_eq_of_lt hltB,
        Function.update_of_ne hne', hpool₀]
    · have ha : a ∈ elems B (d id) := by rw [hd]; simp
      obtain ⟨inner, hb, -⟩ := h'.box_of_lane hid ha
      have hb' : st.box a = some inner := hb
      have hdata : inner.dataId = slot := by
        rcases hkeep a inner hb with ⟨-, h⟩ | ⟨j, hj, -⟩
        · exact h
        · have hj' : s.store.box a = some j := by rw [← hbox]; exact hj
          exact absurd ((h.store.owned a).mp (by rw [hj']; rfl)) hnot
      simp [Store.deref, hb', Store.refFromId, hpool, hdata, Nat.mod_eq_of_lt hslotB]
  · show (lanes B M d ++ s.handles).Perm (_ ++ (lanes B M s.dispatchers ++ s.handles))
    rw [← List.append_assoc]
    exact hperm.append_right _

/-- Between calls. No `OgreArc` has more copies than there are streams. -/
structure Listening (B M : Nat) (s : Chan C D α) : Prop where
  inv : Inv B M s
  few : ∀ arc, s.copies B M arc ≤ 2 ^ 31

theorem Listening.init (hB : Ring.PowerOfTwo B) (hM : Ring.PowerOfTwo M) (pool : Nat → α) :
    Listening B M (.init B M pool : Chan C D α) := by
  have h := Inv.init (C := C) (D := D) hB hM pool
  refine ⟨h, fun arc => ?_⟩
  have hnot : arc ∉ (Chan.init B M pool : Chan C D α).owners B M := by
    rw [← h.store.owned arc]
    simp [Chan.init, Store.new]
  rw [Chan.copies, List.count_eq_zero_of_not_mem hnot]
  exact Nat.zero_le _

theorem answer_cases (hB : Ring.PowerOfTwo B) (hM : Ring.PowerOfTwo M) (h : Listening B M s)
    (hc : s.answer B M c = some (s', r)) : Listening B M s' ∧
    ((∃ id rest, c = .createStream ∧ s.streams.vacantStreams.elems M = id :: rest ∧ r = .joined id ∧
        s'.live = id :: s.live ∧ ∀ i, s'.pending B i = s.pending B i) ∨
      (∃ item, r = .sent item ∧ s'.live = s.live ∧ ∀ i ∈ s.live, s'.pending B i = s.pending B i ++ [item]) ∨
      (∃ id item, r = .consumed id item ∧ s'.live = s.live ∧
        ∀ i, s.pending B i = if i = id then item :: s'.pending B i else s'.pending B i) ∨
      (r = .done ∧ ∀ i ∈ s'.live, i ∈ s.live ∧ s'.pending B i = s.pending B i)) := by
  simp only [Chan.answer, Option.bind_eq_bind, Option.bind_eq_some_iff, Option.some.injEq, Prod.mk.injEq] at hc
  obtain ⟨s₁, hs, r₁, hr, rfl, rfl⟩ := hc
  have hinv : Inv B M s₁ := h.inv.step hB hM (fun arc => Nat.lt_of_le_of_lt (h.few arc) (by decide)) hs
  replace hs := call_of_step hs
  cases c with
  | createStream =>
    simp only [Call.label, Chan.call] at hs
    rcases heq : s.streams.createStreamId M with _ | ⟨streams, id⟩
    · simp [heq] at hs
    · simp only [heq] at hs
      cases hs
      cases hr
      obtain ⟨rest, hrest⟩ := h.inv.streams.vacant.head_of_create heq
      exact ⟨⟨hinv, h.few⟩, .inl ⟨id, rest, rfl, hrest, rfl, rfl, fun _ => rfl⟩⟩
  | dropStream id =>
    simp only [Call.label, Chan.call, Option.ite_none_right_eq_some, Option.some.injEq, Except.ok.injEq] at hs
    obtain ⟨-, rfl⟩ := hs
    cases hr
    exact ⟨⟨hinv, h.few⟩, .inr (.inr (.inr ⟨rfl, fun i hi => ⟨List.mem_of_mem_erase hi, rfl⟩⟩))⟩
  | send item =>
    simp only [Call.label, Chan.call, Chan.sendWith] at hs
    rcases halloc : s.store.allocRef B with ⟨store, _ | slot⟩
    · rw [Chan.reply, halloc] at hr
      cases hr
      simp only [halloc] at hs
      cases hs
      rw [Store.eq_of_allocRef_none h.inv.store.wf halloc]
      exact ⟨h, .inr (.inr (.inr ⟨rfl, fun i hi => ⟨hi, rfl⟩⟩))⟩
    · rw [Chan.reply, halloc] at hr
      cases hr
      simp only [halloc] at hs
      obtain ⟨hlive, hpend, a, hnot, hperm⟩ := h.inv.pending_send hB hM halloc hs
      refine ⟨⟨hinv, fun arc => ?_⟩, .inr (.inl ⟨item, rfl, hlive, hpend⟩)⟩
      rw [Chan.copies, hperm.count_eq, List.count_append]
      have hle := h.inv.length_inUse_le hM
      have hfew : (s.owners B M).count arc ≤ 2 ^ 31 := h.few arc
      by_cases ha : arc = a
      · subst ha
        rw [List.count_replicate_self, List.count_eq_zero_of_not_mem hnot]
        exact hle
      · rw [List.count_eq_zero_of_not_mem fun hm => ha (List.eq_of_mem_replicate hm), Nat.zero_add]
        exact hfew
  | consume id =>
    simp only [Call.label, Chan.call, Option.ite_none_right_eq_some, Option.some.injEq, Except.ok.injEq] at hs
    obtain ⟨hid, rfl⟩ := hs
    rw [Chan.reply] at hr
    rcases Chan.consume_cases (h.inv.queue id) with ⟨q, a, hq, -, hel, heq⟩ | ⟨hq, heq⟩
    · rw [hq] at hr
      rw [heq] at hinv ⊢
      obtain ⟨item, hitem, rfl⟩ := Option.map_eq_some_iff.mp hr
      have hpop := lanes_pop (B := B) (h.inv.lt_of_live hid) hel
      refine ⟨⟨hinv, fun arc => ?_⟩, .inr (.inr (.inl ⟨id, item, rfl, rfl, fun i => ?_⟩))⟩
      · refine Nat.le_trans (Nat.le_of_eq ?_) (h.few arc)
        exact (List.perm_middle.trans (hpop.append_right s.handles)).count_eq arc
      · show (elems B (s.dispatchers i)).filterMap _ = if i = id then
          item :: (elems B (Function.update s.dispatchers id q i)).filterMap (s.store.deref B)
          else (elems B (Function.update s.dispatchers id q i)).filterMap (s.store.deref B)
        by_cases hi : i = id
        · subst hi; rw [if_pos rfl, Function.update_self, hel, List.filterMap_cons_some hitem]
        · rw [if_neg hi, Function.update_of_ne hi]
    · rw [hq] at hr
      cases hr
      rw [heq]
      exact ⟨h, .inr (.inr (.inr ⟨rfl, fun i hi => ⟨hi, rfl⟩⟩))⟩
  | dropArc arc =>
    simp only [Call.label, Chan.call, Option.ite_none_right_eq_some, Option.map_eq_some_iff, Except.ok.injEq] at hs
    obtain ⟨-, store, hstore, rfl⟩ := hs
    cases hr
    refine ⟨⟨hinv, fun a => Nat.le_trans ?_ (h.few a)⟩, .inr (.inr (.inr ⟨rfl, fun i hi => ⟨hi, ?_⟩⟩))⟩
    · exact List.Sublist.count_le a (List.erase_sublist.append_left _)
    · exact hinv.pending_of_keeps hi (Store.keeps_dropArc hstore) rfl

theorem lawful (hB : Ring.PowerOfTwo B) (hM : Ring.PowerOfTwo M) :
    Broadcast.Lawful (Chan.answer B M) Chan.live (Chan.pending B) (Listening B M)
      (Chan.Fresh B M : Chan C D α → Call α → Prop) where
  keep h hc := (answer_cases hB hM h hc).1
  joined {s b s' i} h hf hc := by
    rcases (answer_cases hB hM h hc).2 with ⟨id, rest, rfl, hrest, ⟨⟩, hlive, hpend⟩ | ⟨_, h, _⟩ | ⟨_, _, h, _⟩ | ⟨h, _⟩
    case inl =>
      refine ⟨(hpend i).trans (hf i rest hrest), fun j hj hne => ⟨?_, hpend j⟩⟩
      rw [hlive] at hj
      exact List.mem_of_ne_of_mem hne hj
    all_goals cases h
  sent {s b s' x} h hc := by
    rcases (answer_cases hB hM h hc).2 with ⟨_, _, _, _, h, _⟩ | ⟨item, ⟨⟩, hlive, hpend⟩ | ⟨_, _, h, _⟩ | ⟨h, _⟩
    case inr.inl =>
      intro j hj
      rw [hlive] at hj
      exact ⟨hj, hpend j hj⟩
    all_goals cases h
  consumed {s b s' i x} h hc := by
    rcases (answer_cases hB hM h hc).2 with ⟨_, _, _, _, h, _⟩ | ⟨_, h, _⟩ | ⟨_, _, ⟨⟩, hlive, hpend⟩ | ⟨h, _⟩
    case inr.inr.inl =>
      intro j hj
      rw [hlive] at hj
      exact ⟨hj, hpend j⟩
    all_goals cases h
  done {s b s'} h hc := by
    rcases (answer_cases hB hM h hc).2 with ⟨_, _, _, _, h, _⟩ | ⟨_, h, _⟩ | ⟨_, _, h, _⟩ | ⟨-, hpend⟩
    case inr.inr.inr => exact hpend
    all_goals cases h

end Lawful
end MultiOgreArc

/-- What a listener has seen is a prefix of what was sent since it was created, in every run in which
streams are created only when the queue of the id they get is empty. -/
theorem listener_sees_new {B M : Nat} {α : Type} (hB : Ring.PowerOfTwo B) (hM : Ring.PowerOfTwo M) :
    (∀ (D : Type → Type) [LawfulMoveContainer D] (buffer : Nat → α) (h : History (MultiArc.Chan D α) UInt32 α),
      Machine.Steps (Broadcast.step (MultiArc.Chan.call B M)) (fun h l _ => h.state.Fresh B M l)
        (Broadcast.start (.init M buffer)) h →
      ∀ id ∈ h.state.live, h.seen id <+: h.sent id) ∧
    ∀ (C D : Type → Type) [LawfulMoveContainer C] [LawfulMoveContainer D] (pool : Nat → α)
      (h : History (MultiOgreArc.Chan C D α) UInt32 α),
      Machine.Steps (Broadcast.step (MultiOgreArc.Chan.answer B M)) (fun h c _ => h.state.Fresh B M c)
        (Broadcast.start (.init B M pool)) h →
      ∀ id ∈ h.state.live, h.seen id <+: h.sent id := by
  refine ⟨fun D _ buffer h hs => ?_, fun C D _ _ pool h hs => ?_⟩
  · exact (MultiArc.lawful hB hM).prefix_of_steps (MultiArc.Inv.init hM buffer) rfl hs
  · exact (MultiOgreArc.lawful hB hM).prefix_of_steps (MultiOgreArc.Listening.init hB hM pool) rfl hs

/-- The only stream consumes all there is and is dropped; the next one sees the first of two events. -/
theorem listener_sees_new_drained :
    (∃ h : History (MultiArc.Chan AtomicMove Nat) UInt32 Nat,
      0 ∈ h.state.live ∧ h.seen 0 = [8] ∧ h.sent 0 = [8, 9] ∧ h.seen 0 <+: h.sent 0) ∧
    ∃ h : History (MultiOgreArc.Chan FullSyncMove FullSyncMove Nat) UInt32 Nat,
      0 ∈ h.state.live ∧ h.seen 0 = [8] ∧ h.sent 0 = [8, 9] ∧ h.seen 0 <+: h.sent 0 := by
  constructor
  · have hrun : (Machine.exec (Machine.restrict (Broadcast.step (MultiArc.Chan.call 4 1))
        fun h l _ => decide (h.state.Fresh 4 1 l)) (Broadcast.start (.init 1 fun _ => 0 : MultiArc.Chan AtomicMove Nat))
        [.createStream, .send 7, .consume 0, .dropStream 0, .createStream, .send 8, .consume 0, .send 9]).map
          (fun h => decide (0 ∈ h.state.live ∧ h.seen 0 = [8] ∧ h.sent 0 = [8, 9])) = some true := by decide +kernel
    obtain ⟨h, hs, ht⟩ := Option.map_eq_some_iff.mp hrun
    rw [decide_eq_true_iff] at ht
    refine ⟨h, ht.1, ht.2.1, ht.2.2, ?_⟩
    exact (listener_sees_new ⟨2, rfl⟩ ⟨0, rfl⟩).1 AtomicMove (fun _ => 0) h
      (Machine.Path.of_exec_restrict (fun _ _ _ hf => of_decide_eq_true hf) hs).steps 0 ht.1
  · have hrun : (Machine.exec (Machine.restrict (Broadcast.step (MultiOgreArc.Chan.answer 4 1))
        fun h c _ => decide (h.state.Fresh 4 1 c))
        (Broadcast.start (.init 4 1 fun _ => 0 : MultiOgreArc.Chan FullSyncMove FullSyncMove Nat))
        [.createStream, .send 7, .consume 0, .dropArc 0, .dropStream 0, .createStream, .send 8, .consume 0, .send 9]).map
          (fun h => decide (0 ∈ h.state.live ∧ h.seen 0 = [8] ∧ h.sent 0 = [8, 9])) = some true := by decide +kernel
    obtain ⟨h, hs, ht⟩ := Option.map_eq_some_iff.mp hrun
    rw [decide_eq_true_iff] at ht
    refine ⟨h, ht.1, ht.2.1, ht.2.2, ?_⟩
    exact (listener_sees_new ⟨2, rfl⟩ ⟨0, rfl⟩).2 FullSyncMove FullSyncMove (fun _ => 0) h
      (Machine.Path.of_exec_restrict (fun _ _ _ hf => of_decide_eq_true hf) hs).steps 0 ht.1

/-- A run after which listener 0 has seen more than was sent to it. -/
theorem not_prefix_of_exec {σ β : Type} {call : σ → β → Option (σ × Reply UInt32 Nat)} {live : σ → List UInt32} {s : σ}
    {l : List β} (hrun : (Machine.exec (Broadcast.step call) (Broadcast.start s) l).map
      (fun h => decide (0 ∈ live h.state ∧ ¬ h.seen 0 <+: h.sent 0)) = some true) :
    ∃ h, Machine.Steps (Broadcast.step call) (fun _ _ _ => True) (Broadcast.start s) h ∧
      0 ∈ live h.state ∧ ¬ h.seen 0 <+: h.sent 0 := by
  obtain ⟨h, hs, ht⟩ := Option.map_eq_some_iff.mp hrun
  rw [decide_eq_true_iff] at ht
  exact ⟨h, (Machine.Path.of_exec hs).steps, ht⟩

/-- The only stream is dropped before it consumes an event; the next one sees that event. -/
theorem leftover_run :
    (∃ h, Machine.Steps (Broadcast.step (MultiArc.Chan.call 4 1)) (fun _ _ _ => True)
        (Broadcast.start (.init 1 fun _ => 0 : MultiArc.Chan AtomicMove Nat)) h ∧
      0 ∈ h.state.live ∧ ¬ h.seen 0 <+: h.sent 0) ∧
    (∃ h, Machine.Steps (Broadcast.step (MultiArc.Chan.call 4 1)) (fun _ _ _ => True)
        (Broadcast.start (.init 1 fun _ => 0 : MultiArc.Chan FullSyncMove Nat)) h ∧
      0 ∈ h.state.live ∧ ¬ h.seen 0 <+: h.sent 0) ∧
    (∃ h, Machine.Steps (Broadcast.step (MultiOgreArc.Chan.answer 4 1)) (fun _ _ _ => True)
        (Broadcast.start (.init 4 1 fun _ => 0 : MultiOgreArc.Chan AtomicMove AtomicMove Nat)) h ∧
      0 ∈ h.state.live ∧ ¬ h.seen 0 <+: h.sent 0) ∧
    ∃ h, Machine.Steps (Broadcast.step (MultiOgreArc.Chan.answer 4 1)) (fun _ _ _ => True)
        (Broadcast.start (.init 4 1 fun _ => 0 : MultiOgreArc.Chan FullSyncMove FullSyncMove Nat)) h ∧
      0 ∈ h.state.live ∧ ¬ h.seen 0 <+: h.sent 0 := by
  refine ⟨?_, ?_, ?_, ?_⟩
  · exact not_prefix_of_exec (l := [.createStream, .send 7, .dropStream 0, .createStream, .consume 0]) (by decide +kernel)
  · exact not_prefix_of_exec (l := [.createStream, .send 7, .dropStream 0, .createStream, .consume 0]) (by decide +kernel)
  · exact not_prefix_of_exec (l := [.createStream, .send 7, .dropStream 0, .createStream, .consume 0]) (by decide +kernel)
  · exact not_prefix_of_exec (l := [.createStream, .send 7, .dropStream 0, .createStream, .consume 0]) (by decide +kernel)

end Mutiny
