import Mutiny.Lib.Machine
import Mutiny.OgreAlloc
import Mutiny.SyncedStreams

/-!
# The `ogre_arc` Multi channels, one call at a time

`ogre_arc::Atomic` and `ogre_arc::FullSync` differ in the queue type `D` of their dispatchers only (and
in when they wake a stream, which is left out here); `C` is the container of the allocator's free list.
Around the channel stand its callers, with the streams, the reserved slots and the `OgreArc`s they hold.

The reference counts are `u32`s: they are right as long as there are fewer than `2 ^ 32` copies of each
`OgreArc` (`slots_conserved`, `miscounted_run`).
-/

namespace Mutiny.MultiOgreArc
open MoveContainer

inductive Panic
  -- `create_stream_id`: all ids are in use
  | maxStreams
  -- `send_derived`: `"BUG! This should never happen! .."`
  | bug
deriving DecidableEq

structure Chan (C D : Type → Type) (α : Type) where
  streams : StreamsManagerBase
  store : Store C α
  dispatchers : UInt32 → D OgreArc
  /-- the streams that callers hold -/
  live : List UInt32
  /-- the slots that callers have reserved and neither sent nor cancelled -/
  reserved : List UInt32
  /-- the `OgreArc`s that callers hold -/
  handles : List OgreArc

inductive Label (α : Type)
  | createStream
  | dropStream (id : UInt32)
  | send (item : α)
  | sendWith (setter : α → α)
  | sendDerived (arc : OgreArc)
  | reserveSlot
  -- the caller writes to a slot it has reserved
  | writeReserved (slot : UInt32) (setter : α → α)
  | trySendReserved (slot : UInt32)
  | tryCancelSlotReserve (slot : UInt32)
  | consume (id : UInt32)
  | clone (arc : OgreArc)
  | dropArc (arc : OgreArc)

section Ops
variable {C D : Type → Type} [MoveContainer C] [MoveContainer D] {α : Type}

/-- The loop of `send_derived` over the entries of `used_streams()`. -/
def publishAll (B : Nat) (arc : OgreArc) (entries : List UInt32) (d : UInt32 → D OgreArc) :
    Except Panic (UInt32 → D OgreArc) :=
  match publishEach B arc (entries.filter (· ≠ u32Max)) d with
  | some d => .ok d
  | none => .error .bug

namespace Chan

def init (B M : Nat) (pool : Nat → α) : Chan C D α :=
  ⟨.new M, .new B pool, fun _ => withInitializer fun _ => 0, [], [], []⟩

/-- `send_derived(arc)`. There is no result if it follows a dangling pointer or reads beyond
`used_streams()`. -/
def sendDerived (B : Nat) (s : Chan C D α) (arc : OgreArc) : Option (Except Panic (Chan C D α)) := do
  let count := s.streams.runningStreamsCount
  let store ← s.store.incrementReferences arc count
  if count.toNat ≤ s.streams.usedStreams.length then
    some ((publishAll B arc (s.streams.usedStreams.take count.toNat) s.dispatchers).map fun dispatchers =>
      { s with store, dispatchers })
  else none

/-- Wrap the allocated slot in an `OgreArc`, write to it, send the `OgreArc` and drop it. -/
def sendAllocated (B : Nat) (s : Chan C D α) (slot : UInt32) (setter : α → α) : Option (Except Panic (Chan C D α)) :=
  let (store, arc) := s.store.fromAllocated slot
  match ({ s with store := store.write slot setter } : Chan C D α).sendDerived B arc with
  | some (.ok s) => (s.store.dropArc B arc).map fun store => .ok { s with store }
  | r => r

/-- `send_with(setter)`; without a free slot it changes nothing and returns `Transient`. -/
def sendWith (B : Nat) (s : Chan C D α) (setter : α → α) : Option (Except Panic (Chan C D α)) :=
  match s.store.allocRef B with
  | (store, some slot) => ({ s with store } : Chan C D α).sendAllocated B slot setter
  | (store, none) => some (.ok { s with store })

def consume (B : Nat) (s : Chan C D α) (id : UInt32) : Chan C D α :=
  match consumeMovable B (s.dispatchers id) with
  | (q, some arc) => { s with dispatchers := Function.update s.dispatchers id q, handles := arc :: s.handles }
  | (q, none) => { s with dispatchers := Function.update s.dispatchers id q }

/-- What a call comes to. Callers use only what they hold. -/
def call (B M : Nat) (s : Chan C D α) : Label α → Option (Except Panic (Chan C D α))
  | .createStream =>
    match s.streams.createStreamId M with
    | some (streams, id) => some (.ok { s with streams, live := id :: s.live })
    | none => some (.error .maxStreams)
  | .dropStream id =>
    if id ∈ s.live then
      some (.ok { s with streams := s.streams.reportStreamDropped M id, live := s.live.erase id })
    else none
  | .send item => s.sendWith B fun _ => item
  | .sendWith setter => s.sendWith B setter
  | .sendDerived arc => if arc ∈ s.handles then s.sendDerived B arc else none
  | .reserveSlot =>
    match s.store.allocRef B with
    | (store, some slot) => some (.ok { s with store, reserved := slot :: s.reserved })
    | (store, none) => some (.ok { s with store })
  | .writeReserved slot setter =>
    if slot ∈ s.reserved then some (.ok { s with store := s.store.write slot setter }) else none
  | .trySendReserved slot =>
    if slot ∈ s.reserved then
      ({ s with reserved := s.reserved.erase slot } : Chan C D α).sendAllocated B slot id
    else none
  | .tryCancelSlotReserve slot =>
    if slot ∈ s.reserved then
      some (.ok { s with store := s.store.deallocId B slot, reserved := s.reserved.erase slot })
    else none
  | .consume id => if id ∈ s.live then some (.ok (s.consume B id)) else none
  | .clone arc =>
    if arc ∈ s.handles then
      (s.store.incrementReferences arc 1).map fun store => .ok { s with store, handles := arc :: s.handles }
    else none
  | .dropArc arc =>
    if arc ∈ s.handles then
      (s.store.dropArc B arc).map fun store => .ok { s with store, handles := s.handles.erase arc }
    else none

def step (B M : Nat) (s : Chan C D α) (l : Label α) : Option (Chan C D α) :=
  match s.call B M l with
  | some (.ok s') => some s'
  | _ => none

end Chan
end Ops

section Lanes
variable {D : Type → Type} [LawfulMoveContainer D] {B M : Nat} {d d' : UInt32 → D OgreArc} {id : UInt32}
  {arc : OgreArc} {q : D OgreArc}
open LawfulMoveContainer (elems WellFormed)

/-- What sits in the dispatcher queues, those of vacant ids included. -/
def lanes (B M : Nat) (d : UInt32 → D OgreArc) : List OgreArc :=
  (idRange 0 (UInt32.ofNat M)).flatMap fun id => elems B (d id)

theorem mem_lanes (hid : id < UInt32.ofNat M) (ha : arc ∈ elems B (d id)) : arc ∈ lanes B M d :=
  List.mem_flatMap.mpr ⟨id, mem_idRange.mpr ⟨by simp [UInt32.le_iff_toNat_le], hid⟩, ha⟩

theorem lanes_perm (hid : id < UInt32.ofNat M) (q : D OgreArc) : (lanes B M (Function.update d id q)).Perm
    (elems B q ++ ((idRange 0 (UInt32.ofNat M)).erase id).flatMap fun i => elems B (d i)) := by
  have hmem : id ∈ idRange 0 (UInt32.ofNat M) := mem_idRange.mpr ⟨by simp [UInt32.le_iff_toNat_le], hid⟩
  refine ((List.perm_cons_erase hmem).flatMap_right _).trans ?_
  have hrest : ∀ i ∈ (idRange 0 (UInt32.ofNat M)).erase id, elems B (Function.update d id q i) = elems B (d i) := by
    intro i hi
    have hne : i ≠ id := by rintro rfl; exact nodup_idRange.not_mem_erase hi
    rw [Function.update_of_ne hne]
  rw [List.flatMap_cons, Function.update_self, List.flatMap_congr hrest]

theorem lanes_pop (hid : id < UInt32.ofNat M) (hq : elems B (d id) = arc :: elems B q) :
    (arc :: lanes B M (Function.update d id q)).Perm (lanes B M d) := by
  have h := lanes_perm (B := B) (d := d) hid (d id)
  rw [Function.update_eq_self, hq] at h
  exact ((lanes_perm hid q).cons arc).trans h.symm

theorem lanes_push_one (hid : id < UInt32.ofNat M) (hq : elems B q = elems B (d id) ++ [arc]) :
    (lanes B M (Function.update d id q)).Perm (arc :: lanes B M d) := by
  have h := lanes_perm (B := B) (d := d) hid (d id)
  rw [Function.update_eq_self] at h
  refine (lanes_perm hid q).trans (List.Perm.trans ?_ (h.symm.cons arc))
  rw [hq, List.append_assoc, List.singleton_append]
  exact List.perm_middle

theorem lanes_init : (lanes B M fun _ => (withInitializer fun _ => 0 : D OgreArc)) = [] := by
  unfold lanes
  rw [List.flatMap_eq_nil_iff]
  exact fun _ _ => LawfulMoveContainer.init_elems _

theorem flatMap_push_perm {ι : Type} (x : OgreArc) (l : List ι) (f : ι → List OgreArc) (p : ι → Bool) :
    (l.flatMap fun i => if p i then f i ++ [x] else f i).Perm (List.replicate (l.countP p) x ++ l.flatMap f) := by
  induction l with
  | nil => exact .refl _
  | cons i l ih =>
    rw [List.flatMap_cons, List.flatMap_cons]
    have hrest : (f i ++ l.flatMap fun i => if p i then f i ++ [x] else f i).Perm
        (List.replicate (l.countP p) x ++ (f i ++ l.flatMap f)) := by
      refine (ih.append_left (f i)).trans ?_
      rw [← List.append_assoc, ← List.append_assoc]
      exact List.perm_append_comm.append_right _
    by_cases hi : p i = true
    · simp only [hi, if_true, List.countP_cons_of_pos hi, List.replicate_succ, List.append_assoc, List.singleton_append]
      exact List.perm_middle.trans (.cons x hrest)
    · simp only [hi, Bool.false_eq_true, if_false, List.countP_cons_of_neg hi]
      exact hrest

theorem lanes_push {ids : List UInt32} (hnd : ids.Nodup) (hids : ∀ id ∈ ids, id < UInt32.ofNat M)
    (hel : ∀ id, elems B (d' id) = if id ∈ ids then elems B (d id) ++ [arc] else elems B (d id)) :
    (lanes B M d').Perm (List.replicate ids.length arc ++ lanes B M d) := by
  have hcount : (idRange 0 (UInt32.ofNat M)).countP (fun id => decide (id ∈ ids)) = ids.length := by
    rw [List.countP_eq_length_filter]
    refine ((List.perm_ext_iff_of_nodup (nodup_idRange.filter _) hnd).mpr fun id => ?_).length_eq
    rw [List.mem_filter, mem_idRange, decide_eq_true_iff]
    exact ⟨fun h => h.2, fun h => ⟨⟨by simp [UInt32.le_iff_toNat_le], hids id h⟩, h⟩⟩
  have hpush := flatMap_push_perm arc (idRange 0 (UInt32.ofNat M)) (fun id => elems B (d id))
    fun id => decide (id ∈ ids)
  rw [hcount] at hpush
  refine List.Perm.trans (.of_eq ?_) hpush
  unfold lanes
  exact List.flatMap_congr fun id _ => by simp [hel id]

end Lanes

section SendConsume
variable {C D : Type → Type} [LawfulMoveContainer D] {α : Type} {B M : Nat} {s s' : Chan C D α} {arc : OgreArc}

theorem filter_inUse {sm : StreamsManagerBase} (hM : Ring.PowerOfTwo M) :
    (sm.inUse M).filter (· ≠ u32Max) = sm.inUse M :=
  List.filter_eq_self.mpr fun _ hid => decide_eq_true (StreamsManagerBase.ne_u32Max_of_mem_inUse hM hid)

/-- `send_derived` counts a new copy for every stream in use and gives each of them one. -/
theorem sendDerived_cases {r : Except Panic (Chan C D α)} (hM : Ring.PowerOfTwo M) (hsync : s.streams.Synced M)
    (hs : s.sendDerived B arc = some r) : ∃ store,
      s.store.incrementReferences arc (UInt32.ofNat (s.streams.inUse M).length) = some store ∧
      r = (publishAll B arc (s.streams.inUse M) s.dispatchers).map fun dispatchers => { s with store, dispatchers } := by
  obtain ⟨-, htake, -⟩ := hsync.take_count hM
  simp only [Chan.sendDerived, Option.bind_eq_bind, Option.bind_eq_some_iff, Option.ite_none_right_eq_some,
    Option.some.injEq] at hs
  obtain ⟨store, hstore, -, rfl⟩ := hs
  rw [StreamsManagerBase.runningStreamsCount, hsync.count] at hstore
  exact ⟨store, hstore, by rw [htake]⟩

theorem sendDerived_spec (hB : Ring.PowerOfTwo B) (hM : Ring.PowerOfTwo M) (hsync : s.streams.Synced M)
    (hq : ∀ id, LawfulMoveContainer.WellFormed B (s.dispatchers id)) (hs : s.sendDerived B arc = some (.ok s')) :
    ∃ store d, s.store.incrementReferences arc (UInt32.ofNat (s.streams.inUse M).length) = some store ∧
      s' = { s with store, dispatchers := d } ∧ (∀ id, LawfulMoveContainer.WellFormed B (d id)) ∧
      (∀ id, LawfulMoveContainer.elems B (d id) = if id ∈ s.streams.inUse M then
        LawfulMoveContainer.elems B (s.dispatchers id) ++ [arc] else LawfulMoveContainer.elems B (s.dispatchers id)) ∧
      (lanes B M d).Perm (List.replicate (s.streams.inUse M).length arc ++ lanes B M s.dispatchers) := by
  obtain ⟨store, hstore, hr⟩ := sendDerived_cases hM hsync hs
  rw [publishAll, filter_inUse hM] at hr
  cases hd : publishEach B arc (s.streams.inUse M) s.dispatchers with
  | none => rw [hd] at hr; cases hr
  | some d =>
    rw [hd] at hr
    cases hr
    have hnd : (s.streams.inUse M).Nodup := StreamsManagerBase.nodup_inUse
    obtain ⟨h₁, h₂⟩ := LawfulMoveContainer.publishEach_spec hB hnd hq hd
    exact ⟨store, d, hstore, rfl, h₁, h₂, lanes_push hnd (fun id hid => (StreamsManagerBase.mem_inUse.mp hid).1) h₂⟩

theorem Chan.consume_cases {id : UInt32} (hq : LawfulMoveContainer.WellFormed B (s.dispatchers id)) :
    (∃ q a, consumeMovable B (s.dispatchers id) = (q, some a) ∧ LawfulMoveContainer.WellFormed B q ∧
      LawfulMoveContainer.elems B (s.dispatchers id) = a :: LawfulMoveContainer.elems B q ∧
      s.consume B id = { s with dispatchers := Function.update s.dispatchers id q, handles := a :: s.handles }) ∨
    ((consumeMovable B (s.dispatchers id)).2 = none ∧ s.consume B id = s) := by
  unfold Chan.consume
  rcases LawfulMoveContainer.consume_cases hq with ⟨q, a, rest, heq, hel, hwf, rfl⟩ | ⟨heq, -⟩
  · exact .inl ⟨q, a, heq, hwf, hel, by rw [heq]⟩
  · refine .inr ⟨by rw [heq], ?_⟩
    rw [heq]
    simp only [Function.update_eq_self]

end SendConsume

section Inv
variable {C D : Type → Type} [LawfulMoveContainer C] [LawfulMoveContainer D] {α : Type} {B M : Nat}
  {s s' : Chan C D α} {arc : OgreArc} {slot : UInt32}

namespace Chan

def owners (B M : Nat) (s : Chan C D α) : List OgreArc := lanes B M s.dispatchers ++ s.handles

/-- The number of copies of `arc` in the dispatcher queues and in the hands of callers. -/
def copies (B M : Nat) (s : Chan C D α) (arc : OgreArc) : Nat := (s.owners B M).count arc

end Chan

structure Inv (B M : Nat) (s : Chan C D α) : Prop where
  streams : s.streams.Synced M
  live : s.live.Perm (s.streams.inUse M)
  queue : ∀ id, LawfulMoveContainer.WellFormed B (s.dispatchers id)
  store : s.store.Ok B s.reserved (s.owners B M)

theorem Inv.init (hB : Ring.PowerOfTwo B) (hM : Ring.PowerOfTwo M) (pool : Nat → α) :
    Inv B M (.init B M pool : Chan C D α) := by
  have hsync := StreamsManagerBase.Synced.new hM
  refine ⟨hsync, ?_, fun _ => LawfulMoveContainer.init_wf _, ?_⟩
  · show ([] : List UInt32).Perm ((StreamsManagerBase.new M).inUse M)
    rw [StreamsManagerBase.inUse_new hM]
  · have howners : (Chan.init B M pool : Chan C D α).owners B M = [] := by
      unfold Chan.owners Chan.init
      rw [lanes_init]
      rfl
    rw [howners]
    exact .new hB pool

theorem copies_init (hB : Ring.PowerOfTwo B) (hM : Ring.PowerOfTwo M) (pool : Nat → α) (arc : OgreArc) :
    (.init B M pool : Chan C D α).copies B M arc = 0 := by
  have hnot : arc ∉ (Chan.init B M pool : Chan C D α).owners B M := by
    rw [← (Inv.init hB hM pool).store.owned arc]
    simp [Chan.init, Store.new]
  exact List.count_eq_zero_of_not_mem hnot

theorem Inv.length_inUse_le (h : Inv B M s) (hM : Ring.PowerOfTwo M) : (s.streams.inUse M).length ≤ 2 ^ 31 :=
  Nat.le_trans h.streams.length_le hM.room_le

theorem Inv.sendDerived (h : Inv B M s) (hB : Ring.PowerOfTwo B) (hM : Ring.PowerOfTwo M)
    (hs : s.sendDerived B arc = some (.ok s')) : Inv B M s' := by
  obtain ⟨store, d, hstore, rfl, hwf, -, hperm⟩ := sendDerived_spec hB hM h.streams h.queue hs
  refine ⟨h.streams, h.live, hwf, (h.store.incrementReferences hstore).perm ?_⟩
  rw [Wrap.toNat_ofNat_of_lt (by have := h.length_inUse_le hM; omega)]
  show (lanes B M d ++ s.handles).Perm _
  rw [Chan.owners, ← List.append_assoc]
  exact hperm.append_right _

/-- A slot that was just allocated, or reserved before, is sent: every stream in use gets a copy of a new
`OgreArc`, which points to the slot. -/
theorem sendAllocated_spec {reserved : List UInt32} {setter : α → α} (hB : Ring.PowerOfTwo B)
    (hM : Ring.PowerOfTwo M) (hsync : s.streams.Synced M)
    (hq : ∀ id, LawfulMoveContainer.WellFormed B (s.dispatchers id)) (hst : s.store.Ok B reserved (s.owners B M))
    (hslot : slot ∈ reserved) (hs : s.sendAllocated B slot setter = some (.ok s')) :
    ∃ a store d, s' = { s with store, dispatchers := d } ∧ a ∉ s.owners B M ∧
      (∀ id, LawfulMoveContainer.WellFormed B (d id)) ∧
      (∀ id, LawfulMoveContainer.elems B (d id) = if id ∈ s.streams.inUse M then
        LawfulMoveContainer.elems B (s.dispatchers id) ++ [a] else LawfulMoveContainer.elems B (s.dispatchers id)) ∧
      store.Ok B (reserved.erase slot) (lanes B M d ++ s.handles) ∧
      store.pool = Function.update s.store.pool slot.toNat (setter (s.store.pool slot.toNat)) ∧
      (∀ b i, store.box b = some i → (b = a ∧ i.dataId = slot) ∨ ∃ j, s.store.box b = some j ∧ i.dataId = j.dataId) ∧
      (lanes B M d).Perm (List.replicate (s.streams.inUse M).length a ++ lanes B M s.dispatchers) := by
  have hle : (s.streams.inUse M).length ≤ 2 ^ 31 := Nat.le_trans hsync.length_le hM.room_le
  have hn : (UInt32.ofNat (s.streams.inUse M).length).toNat = (s.streams.inUse M).length :=
    Wrap.toNat_ofNat_of_lt (by omega)
  rcases hf : s.store.fromAllocated slot with ⟨st, a⟩
  obtain ⟨hok, hnot, hbox⟩ := hst.fromAllocated hslot hf
  simp only [Chan.sendAllocated, hf] at hs
  rcases hsd : ({ s with store := st.write slot setter } : Chan C D α).sendDerived B a with _ | _ | s₁
  · simp [hsd] at hs
  · simp [hsd] at hs
  · simp only [hsd] at hs
    obtain ⟨store, d, hstore, rfl, hwf, hel, hperm⟩ :=
      sendDerived_spec (M := M) (s := { s with store := st.write slot setter }) hB hM hsync hq hsd
    obtain ⟨st₃, hdrop, hst₃⟩ := Option.map_eq_some_iff.mp hs
    cases hst₃
    have hinc := (hok.write slot setter).incrementReferences hstore
    have hcount : (List.replicate (UInt32.ofNat (s.streams.inUse M).length).toNat a ++
        a :: s.owners B M).count a < 2 ^ 32 := by
      rw [List.count_append, List.count_replicate_self, List.count_cons_self, List.count_eq_zero_of_not_mem hnot, hn]
      omega
    have hkeeps := (Store.keeps_incrementReferences hstore).trans (Store.keeps_dropArc hdrop)
    refine ⟨a, st₃, d, rfl, hnot, hwf, hel, (hinc.dropArc hB hcount hdrop).perm ?_, hkeeps.1.trans ?_, ?_,
      hperm⟩
    · -- the copy that is dropped is the local one
      have hrot : (List.replicate (UInt32.ofNat (s.streams.inUse M).length).toNat a ++ a :: s.owners B M).Perm
          (a :: (List.replicate (s.streams.inUse M).length a ++ s.owners B M)) := by
        rw [hn]
        exact List.perm_middle
      refine List.Perm.trans ?_ (hrot.erase a).symm
      rw [List.erase_cons_head, Chan.owners, ← List.append_assoc]
      exact hperm.append_right _
    · simp only [Store.fromAllocated, Prod.mk.injEq] at hf
      rw [← hf.1]
      rfl
    · intro b i hi
      obtain ⟨j, hj, hd⟩ := hkeeps.2 b i hi
      have hj' : st.box b = some j := hj
      simp only [Store.fromAllocated, Prod.mk.injEq] at hf
      obtain ⟨rfl, rfl⟩ := hf
      by_cases hba : b = s.store.nextBox
      · subst hba
        cases hbox.symm.trans hj'
        exact .inl ⟨rfl, hd⟩
      · exact .inr ⟨j, (Function.update_of_ne hba _ _).symm.trans hj', hd⟩

theorem Inv.sendAllocated {reserved : List UInt32} {setter : α → α} (h : Inv B M { s with reserved })
    (hB : Ring.PowerOfTwo B) (hM : Ring.PowerOfTwo M) (hslot : slot ∈ reserved) (hres : s.reserved = reserved.erase slot)
    (hs : s.sendAllocated B slot setter = some (.ok s')) : Inv B M s' := by
  obtain ⟨a, store, d, rfl, -, hwf, -, hok, -⟩ :=
    sendAllocated_spec (M := M) (s := s) hB hM h.streams h.queue h.store hslot hs
  rw [← hres] at hok
  exact ⟨h.streams, h.live, hwf, hok⟩

theorem Inv.sendWith {setter : α → α} (h : Inv B M s) (hB : Ring.PowerOfTwo B) (hM : Ring.PowerOfTwo M)
    (hs : s.sendWith B setter = some (.ok s')) : Inv B M s' := by
  unfold Chan.sendWith at hs
  rcases heq : s.store.allocRef B with ⟨store, _ | slot⟩
  · simp only [heq] at hs
    cases hs
    rw [Store.eq_of_allocRef_none h.store.wf heq]
    exact h
  · simp only [heq] at hs
    obtain ⟨hok, -⟩ := h.store.allocRef heq
    have h' : Inv B M { s with store, reserved := slot :: s.reserved } := ⟨h.streams, h.live, h.queue, hok⟩
    exact Inv.sendAllocated (s := { s with store }) h' hB hM List.mem_cons_self (List.erase_cons_head ..).symm hs

theorem Inv.consume {id : UInt32} (h : Inv B M s) (hid : id ∈ s.live) : Inv B M (s.consume B id) := by
  have hlt := (StreamsManagerBase.mem_inUse.mp (h.live.mem_iff.mp hid)).1
  rcases Chan.consume_cases (h.queue id) with ⟨q, a, -, hwf, hel, heq⟩ | ⟨-, heq⟩
  · rw [heq]
    refine ⟨h.streams, h.live, LawfulMoveContainer.wellFormed_update h.queue hwf, h.store.perm ?_⟩
    -- the element moves from its queue to the caller
    exact List.perm_middle.trans ((lanes_pop hlt hel).append_right _)
  · rw [heq]
    exact h

theorem call_of_step {l : Label α} (hs : s.step B M l = some s') : s.call B M l = some (.ok s') := by
  unfold Chan.step at hs
  rcases heq : s.call B M l with _ | _ | s₁
  · simp [heq] at hs
  · simp [heq] at hs
  · simp only [heq] at hs
    cases hs
    rfl

theorem Inv.step {l : Label α} (h : Inv B M s) (hB : Ring.PowerOfTwo B) (hM : Ring.PowerOfTwo M)
    (hsmall : ∀ arc, s.copies B M arc < 2 ^ 32) (hs : s.step B M l = some s') : Inv B M s' := by
  replace hs := call_of_step hs
  cases l with
  | createStream =>
    simp only [Chan.call] at hs
    rcases heq : s.streams.createStreamId M with _ | ⟨streams, id⟩
    · simp [heq] at hs
    · simp only [heq] at hs
      cases hs
      exact ⟨(h.streams.create hM heq).1, h.streams.live_create hM h.live heq, h.queue, h.store⟩
  | dropStream id =>
    simp only [Chan.call, Option.ite_none_right_eq_some, Option.some.injEq, Except.ok.injEq] at hs
    obtain ⟨hid, rfl⟩ := hs
    exact ⟨(h.streams.drop hM (h.live.mem_iff.mp hid)).1, h.streams.live_drop hM h.live hid, h.queue, h.store⟩
  | send item => exact h.sendWith hB hM hs
  | sendWith setter => exact h.sendWith hB hM hs
  | sendDerived arc =>
    simp only [Chan.call, Option.ite_none_right_eq_some] at hs
    exact h.sendDerived hB hM hs.2
  | reserveSlot =>
    simp only [Chan.call] at hs
    rcases heq : s.store.allocRef B with ⟨store, _ | slot⟩
    · simp only [heq] at hs
      cases hs
      rw [Store.eq_of_allocRef_none h.store.wf heq]
      exact h
    · simp only [heq] at hs
      cases hs
      exact ⟨h.streams, h.live, h.queue, (h.store.allocRef heq).1⟩
  | writeReserved slot setter =>
    simp only [Chan.call, Option.ite_none_right_eq_some, Option.some.injEq, Except.ok.injEq] at hs
    obtain ⟨-, rfl⟩ := hs
    exact ⟨h.streams, h.live, h.queue, h.store.write slot setter⟩
  | trySendReserved slot =>
    simp only [Chan.call, Option.ite_none_right_eq_some] at hs
    exact Inv.sendAllocated (s := { s with reserved := s.reserved.erase slot }) h hB hM hs.1 rfl hs.2
  | tryCancelSlotReserve slot =>
    simp only [Chan.call, Option.ite_none_right_eq_some, Option.some.injEq, Except.ok.injEq] at hs
    obtain ⟨hslot, rfl⟩ := hs
    exact ⟨h.streams, h.live, h.queue, h.store.deallocId hB hslot⟩
  | consume id =>
    simp only [Chan.call, Option.ite_none_right_eq_some, Option.some.injEq, Except.ok.injEq] at hs
    obtain ⟨hid, rfl⟩ := hs
    exact h.consume hid
  | clone arc =>
    simp only [Chan.call, Option.ite_none_right_eq_some, Option.map_eq_some_iff, Except.ok.injEq] at hs
    obtain ⟨-, store, hstore, rfl⟩ := hs
    exact ⟨h.streams, h.live, h.queue, (h.store.incrementReferences hstore).perm List.perm_middle⟩
  | dropArc arc =>
    simp only [Chan.call, Option.ite_none_right_eq_some, Option.map_eq_some_iff, Except.ok.injEq] at hs
    obtain ⟨harc, store, hstore, rfl⟩ := hs
    refine ⟨h.streams, h.live, h.queue, (h.store.dropArc hB (hsmall arc) hstore).perm ?_⟩
    have hcons : (s.owners B M).Perm (arc :: (lanes B M s.dispatchers ++ s.handles.erase arc)) :=
      ((List.perm_cons_erase harc).append_left _).trans List.perm_middle
    have herase := hcons.erase arc
    rw [List.erase_cons_head] at herase
    exact herase.symm

/-! ### Conservation -/

/-- Every slot is accounted for. -/
structure Conserved (B M : Nat) (s : Chan C D α) : Prop where
  /-- an allocated slot that is not reserved has one box, which counts its copies -/
  counted : ∀ slot : UInt32, slot.toNat < B → slot ∉ s.store.free B → slot ∉ s.reserved →
    ∃ arc inner, s.store.box arc = some inner ∧ inner.dataId = slot ∧
      (∀ arc' inner', s.store.box arc' = some inner' → inner'.dataId = slot → arc' = arc) ∧
      inner.referencesCount.toNat = s.copies B M arc ∧ 1 ≤ inner.referencesCount.toNat
  free_nodup : (s.store.free B).Nodup
  /-- the free slots are those that are neither reserved nor referenced -/
  free : ∀ slot : UInt32, slot ∈ s.store.free B ↔ slot.toNat < B ∧ slot ∉ s.reserved ∧
    ∀ arc ∈ s.owners B M, ∀ inner, s.store.box arc = some inner → inner.dataId ≠ slot

theorem Inv.conserved (h : Inv B M s) (hB : B < 2 ^ 32) (hsmall : ∀ arc, s.copies B M arc < 2 ^ 32) :
    Conserved B M s := by
  have hlt : ∀ slot : UInt32, slot < UInt32.ofNat B ↔ slot.toNat < B := by
    intro slot
    rw [UInt32.lt_iff_toNat_lt, Wrap.toNat_ofNat_of_lt hB]
  obtain ⟨hnd, -, hdisj⟩ := List.nodup_append.mp h.store.nodup
  refine ⟨fun slot hs hf hr => ?_, hnd, fun slot => ⟨fun hf => ?_, fun ⟨hs, hr, hun⟩ => ?_⟩⟩
  · rcases h.store.place slot ((hlt slot).mpr hs) with hp | ⟨arc, inner, hb, hd⟩
    · rcases List.mem_append.mp hp with hp | hp
      · exact absurd hp hf
      · exact absurd hp hr
    · have hcount : inner.referencesCount.toNat = s.copies B M arc := by
        rw [h.store.counted arc inner hb]
        exact Wrap.toNat_ofNat_of_lt (hsmall arc)
      refine ⟨arc, inner, hb, hd, fun arc' inner' hb' hd' => ?_, hcount, ?_⟩
      · exact h.store.inj arc' arc inner' inner hb' hb (hd'.trans hd.symm)
      · rw [hcount]
        exact List.count_pos_iff.mpr ((h.store.owned arc).mp (by rw [hb]; rfl))
  · have hmem : slot ∈ s.store.free B ++ s.reserved := List.mem_append_left _ hf
    refine ⟨(hlt slot).mp (h.store.lt slot hmem), fun hr => hdisj slot hf slot hr rfl, fun arc _ inner hb hd => ?_⟩
    exact h.store.unboxed slot hmem ⟨arc, inner, hb, hd⟩
  · rcases h.store.place slot ((hlt slot).mpr hs) with hp | ⟨arc, inner, hb, hd⟩
    · exact (List.mem_append.mp hp).resolve_right hr
    · exact absurd hd (hun arc ((h.store.owned arc).mp (by rw [hb]; rfl)) inner hb)

/-- There are fewer than `2 ^ 32` copies of every `OgreArc` after the call. -/
def Chan.Small (B M : Nat) (_ : Chan C D α) (_ : Label α) (s' : Chan C D α) : Prop :=
  ∀ arc, s'.copies B M arc < 2 ^ 32

theorem Inv.of_steps (hB : Ring.PowerOfTwo B) (hM : Ring.PowerOfTwo M) {pool : Nat → α}
    (h : Machine.Steps (Chan.step B M) (Chan.Small B M) (.init B M pool : Chan C D α) s) :
    Inv B M s ∧ ∀ arc, s.copies B M arc < 2 ^ 32 := by
  have hinit := Inv.init (C := C) (D := D) hB hM pool
  refine h.invariant (I := fun s => Inv B M s ∧ ∀ arc, s.copies B M arc < 2 ^ 32)
    (fun _ _ _ hi hs hok => ⟨hi.1.step hB hM hi.2 hs, hok⟩) ⟨hinit, fun arc => ?_⟩
  rw [copies_init hB hM]
  decide

/-- Slots and references are conserved as long as no `OgreArc` has `2 ^ 32` copies. -/
theorem slots_conserved (hB : Ring.PowerOfTwo B) (hlt : B < 2 ^ 32) (hM : Ring.PowerOfTwo M) {pool : Nat → α}
    (h : Machine.Steps (Chan.step B M) (Chan.Small B M) (.init B M pool : Chan C D α) s) : Conserved B M s := by
  obtain ⟨hinv, hsmall⟩ := Inv.of_steps hB hM h
  exact hinv.conserved hlt hsmall

end Inv

/-! ### Concrete runs -/

section Runs
variable {C D : Type → Type} [LawfulMoveContainer D] {α : Type} {B M : Nat}

theorem small_of_length {s s' : Chan C D α} {l : Label α} (h : (s'.owners B M).length < 2 ^ 32) : s.Small B M l s' :=
  fun _ => Nat.lt_of_le_of_lt List.count_le_length h

/-- Two streams; an event is sent, consumed by both, cloned by one of them and sent again; a slot is
reserved and another one is sent and dropped with its stream. -/
theorem slots_conserved_resent : ∃ s : Chan FullSyncMove FullSyncMove Nat, s.handles = [0, 0, 0] ∧ s.reserved = [1] ∧
    s.store.free 4 = [3] ∧ s.copies 4 2 0 = 4 ∧ Conserved 4 2 s := by
  have hrun : (Machine.exec (Machine.restrict (Chan.step 4 2) fun _ _ s' => (s'.owners 4 2).length < 2 ^ 32)
      (.init 4 2 fun _ => 0 : Chan FullSyncMove FullSyncMove Nat)
      [.createStream, .createStream, .send 7, .consume 0, .consume 1, .clone 0, .reserveSlot, .send 8, .dropStream 1,
       .sendDerived 0]).map (fun s => decide (s.handles = [0, 0, 0] ∧ s.reserved = [1] ∧ s.store.free 4 = [3] ∧
         s.copies 4 2 0 = 4)) = some true := by decide +kernel
  obtain ⟨s, hs, ht⟩ := Option.map_eq_some_iff.mp hrun
  rw [decide_eq_true_iff] at ht
  obtain ⟨h₁, h₂, h₃, h₄⟩ := ht
  have hsteps : Machine.Steps (Chan.step 4 2) (Chan.Small 4 2) (.init 4 2 fun _ => 0) s :=
    (Machine.Path.of_exec_restrict (fun _ _ _ h => h) hs).steps.mono fun _ _ _ hl =>
      small_of_length (of_decide_eq_true hl)
  exact ⟨s, h₁, h₂, h₃, h₄, slots_conserved ⟨2, rfl⟩ (by decide) ⟨1, rfl⟩ hsteps⟩

theorem clone_run [LawfulMoveContainer C] {s : Chan C D α} {n : Nat} (hbox : s.store.box 0 = some ⟨0, UInt32.ofNat (n + 1)⟩)
    (hh : 0 ∈ s.handles) : ∃ s', s.step B M (.clone 0) = some s' ∧
      s'.store.box 0 = some ⟨0, UInt32.ofNat (n + 1 + 1)⟩ ∧ 0 ∈ s'.handles ∧ s'.reserved = s.reserved ∧
      s'.store.free B = s.store.free B := by
  refine ⟨{ s with store := s.store.setBox 0 (some ⟨0, UInt32.ofNat (n + 1) + 1⟩), handles := 0 :: s.handles }, ?_, ?_,
    List.mem_cons_self, rfl, rfl⟩
  · simp [Chan.step, Chan.call, hh, Store.incrementReferences, hbox]
  · show Function.update s.store.box 0 (some ⟨0, UInt32.ofNat (n + 1) + 1⟩) 0 = _
    rw [Function.update_self, Wrap.ofNat_succ (n + 1)]

/-- A delivered `OgreArc` is cloned `2 ^ 32 - 1` times: its count is 0. And the free list of a pool of
`2 ^ 32` slots is empty. -/
theorem miscounted_run : (∃ s : Chan FullSyncMove FullSyncMove Nat,
      Machine.Steps (Chan.step 4 1) (fun _ _ _ => True) (.init 4 1 fun _ => 0) s ∧ ¬ Conserved 4 1 s) ∧
    ¬ Conserved (2 ^ 32) 1 (.init (2 ^ 32) 1 fun _ => 0 : Chan FullSyncMove FullSyncMove Nat) := by
  constructor
  · have hclones : ∀ n, ∃ s : Chan FullSyncMove FullSyncMove Nat,
        Machine.Steps (Chan.step 4 1) (fun _ _ _ => True) (.init 4 1 fun _ => 0) s ∧
        s.store.box 0 = some ⟨0, UInt32.ofNat (n + 1)⟩ ∧ 0 ∈ s.handles ∧ s.reserved = [] ∧ 0 ∉ s.store.free 4 := by
      intro n
      induction n with
      | zero =>
        have hrun : (Machine.exec (Chan.step 4 1) (.init 4 1 fun _ => 0 : Chan FullSyncMove FullSyncMove Nat)
            [.createStream, .send 7, .consume 0]).map (fun s => decide (s.store.box 0 = some ⟨0, 1⟩ ∧ 0 ∈ s.handles ∧
              s.reserved = [] ∧ 0 ∉ s.store.free 4)) = some true := by decide +kernel
        obtain ⟨s, hs, ht⟩ := Option.map_eq_some_iff.mp hrun
        rw [decide_eq_true_iff] at ht
        exact ⟨s, (Machine.Path.of_exec hs).steps, ht⟩
      | succ n ih =>
        obtain ⟨s, hsteps, hbox, hh, hr, hf⟩ := ih
        obtain ⟨s', hs', hbox', hh', hr', hf'⟩ := clone_run (B := 4) (M := 1) hbox hh
        exact ⟨s', hsteps.tail ⟨_, hs', trivial⟩, hbox', hh', hr'.trans hr, by rw [hf']; exact hf⟩
    obtain ⟨s, hsteps, hbox, -, hr, hf⟩ := hclones (2 ^ 32 - 1)
    refine ⟨s, hsteps, fun hc => ?_⟩
    obtain ⟨arc, inner, hb, -, huniq, -, hpos⟩ := hc.counted 0 (by decide) hf (by rw [hr]; simp)
    obtain rfl := huniq 0 _ hbox rfl
    cases hbox.symm.trans hb
    revert hpos
    decide
  · intro hc
    have hinv := Inv.init (C := FullSyncMove) (D := FullSyncMove) (B := 2 ^ 32) (M := 1) ⟨32, rfl⟩ ⟨0, rfl⟩ fun _ => 0
    have hmem := (hc.free 0).mpr ⟨by decide, List.not_mem_nil, fun arc _ inner hb => by cases hb⟩
    have hlt := hinv.store.lt 0 (List.mem_append_left _ hmem)
    revert hlt
    decide

end Runs
end Mutiny.MultiOgreArc
