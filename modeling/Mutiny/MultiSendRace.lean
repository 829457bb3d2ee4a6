import Mutiny.MultiPanic
import Mutiny.StreamRegistry

/-!
# Sends on the `ogre_arc` Multi channels while streams come and go

One sender runs `send` step by step: it allocates a slot, loads `running_streams_count`, adds that many
references, takes a snapshot of `used_streams` and publishes to that many of its entries. Creations and
drops of streams interleave with it; they change the counter and the list at different moments.

If the list has as many ids as the sender has counted when it takes its snapshot, then every stream that
is there during the whole send gets one copy, and every reference has its copy (`send_delivers`).
Otherwise a live stream may be left out, or a slot is never freed (`unmatched_run`).
-/

namespace Mutiny.MultiSendRace
open MoveContainer
open LawfulMoveContainer (elems WellFormed)
open MultiOgreArc (lanes mem_lanes lanes_init lanes_pop lanes_push_one length_le_room)

inductive Sender
  | idle
  -- about to load `running_streams_count`
  | loadCount (arc : OgreArc)
  -- about to call `increment_references`
  | increment (arc : OgreArc) (count : UInt32)
  -- about to read `used_streams`
  | snapshot (arc : OgreArc) (count : UInt32)
  -- with the entries still to visit; after the last one the local `OgreArc` is dropped
  | publishing (arc : OgreArc) (entries : List UInt32)
  -- `"BUG! This should never happen! .."`
  | panicked
deriving DecidableEq

structure Chan (C D : Type → Type) (τ α : Type) where
  streams : Streams τ
  store : Store C α
  dispatchers : UInt32 → D OgreArc
  /-- the `OgreArc`s that consumers hold -/
  handles : List OgreArc
  sender : Sender
  /-- the streams that have been live since the last send began -/
  since : UInt32 → Bool
  /-- how often the last send has published to a stream -/
  delivered : UInt32 → Nat

inductive Label (τ α : Type)
  | streams (l : Streams.Label τ)
  | send (item : α)
  -- the next step of the send
  | sender
  | consume (j : UInt32)
  | dropArc (arc : OgreArc)

section Ops
variable {C D : Type → Type} [MoveContainer C] [MoveContainer D] {τ α : Type}

namespace Chan

def init (B M : Nat) (pool : Nat → α) : Chan C D τ α :=
  ⟨.new M, .new B pool, fun _ => withInitializer fun _ => 0, [], .idle, fun _ => false, fun _ => 0⟩

/-- `OgreArc::new()` and the write of the item; without a free slot `send` returns `Transient`. -/
def send (B : Nat) (s : Chan C D τ α) (item : α) : Chan C D τ α :=
  match s.store.allocRef B with
  | (store, some slot) =>
    let (store, arc) := store.fromAllocated slot
    { s with
      store := store.write slot fun _ => item
      sender := .loadCount arc
      since := fun j => (s.streams.rt.task j).isSome
      delivered := fun _ => 0 }
  | (store, none) => { s with store }

/-- One entry of the loop of `send_derived`. -/
def publish (B : Nat) (s : Chan C D τ α) (arc : OgreArc) (id : UInt32) (entries : List UInt32) : Chan C D τ α :=
  if id = u32Max then { s with sender := .publishing arc entries }
  else match publishMovable B (s.dispatchers id) arc with
    | (q, some _, _) =>
      { s with
        dispatchers := Function.update s.dispatchers id q
        sender := .publishing arc entries
        delivered := Function.update s.delivered id (s.delivered id + 1) }
    | (_, none, _) => { s with sender := .panicked }

/-- The next step of the send; none if it would read beyond `used_streams` or follow a dangling pointer. -/
def sendStep (B : Nat) (s : Chan C D τ α) : Option (Chan C D τ α) :=
  match s.sender with
  | .idle | .panicked => none
  | .loadCount arc => some { s with sender := .increment arc s.streams.rt.streams.runningStreamsCount }
  | .increment arc count =>
    (s.store.incrementReferences arc count).map fun store => { s with store, sender := .snapshot arc count }
  | .snapshot arc count =>
    if count.toNat ≤ s.streams.rt.streams.usedStreams.length then
      some { s with sender := .publishing arc (s.streams.rt.streams.usedStreams.take count.toNat) }
    else none
  | .publishing arc (id :: entries) => some (s.publish B arc id entries)
  | .publishing arc [] => (s.store.dropArc B arc).map fun store => { s with store, sender := .idle }

def consume (B : Nat) (s : Chan C D τ α) (j : UInt32) : Chan C D τ α :=
  match consumeMovable B (s.dispatchers j) with
  | (q, some arc) => { s with dispatchers := Function.update s.dispatchers j q, handles := arc :: s.handles }
  | (q, none) => { s with dispatchers := Function.update s.dispatchers j q }

def step [DecidableEq τ] (B M : Nat) (s : Chan C D τ α) : Label τ α → Option (Chan C D τ α)
  | .streams l =>
    (s.streams.step M l).map fun streams =>
      { s with streams, since := fun j => s.since j && (streams.rt.task j).isSome }
  | .send item => if s.sender = .idle then some (s.send B item) else none
  | .sender => s.sendStep B
  | .consume j => if (s.streams.rt.task j).isSome then some (s.consume B j) else none
  | .dropArc arc =>
    if arc ∈ s.handles then
      (s.store.dropArc B arc).map fun store => { s with store, handles := s.handles.erase arc }
    else none

/-- When the sender takes its snapshot, the list has as many ids as it has counted. -/
def Matching (s : Chan C D τ α) : Label τ α → Prop
  | .sender => ∀ arc count, s.sender = .snapshot arc count → count.toNat = s.streams.rt.streams.usedIds.length
  | _ => True

end Chan
end Ops

/-- The references that the sender accounts for: its own, and those of the copies still to be published. -/
def Sender.own : Sender → List OgreArc
  | .idle | .panicked => []
  | .loadCount arc | .increment arc _ => [arc]
  | .snapshot arc count => List.replicate (count.toNat + 1) arc
  | .publishing arc entries => List.replicate (entries.length + 1) arc

section SenderOk
variable {C D : Type → Type} [LawfulMoveContainer D] {τ α : Type} {B M : Nat} {s : Chan C D τ α}

/-- The copies in the dispatcher queues and in the hands of consumers. -/
def Chan.copies (B M : Nat) (s : Chan C D τ α) : List OgreArc := lanes B M s.dispatchers ++ s.handles

def Chan.owners (B M : Nat) (s : Chan C D τ α) : List OgreArc := s.sender.own ++ s.copies B M

/-- What the sender has done and has still to do. -/
def Chan.SenderOk (B M : Nat) (s : Chan C D τ α) : Prop :=
  match s.sender with
  | .idle => ∀ j, s.since j = true → s.delivered j = 1
  | .loadCount arc | .increment arc _ | .snapshot arc _ => arc ∉ s.copies B M ∧ ∀ j, s.delivered j = 0
  | .publishing arc entries => entries.Nodup ∧
    (∀ id ∈ entries, id < UInt32.ofNat M ∧ arc ∉ elems B (s.dispatchers id)) ∧
    ∀ j, s.since j = true → s.delivered j = if j ∈ entries then 0 else 1
  | .panicked => False

theorem Chan.SenderOk.of_copies {d : UInt32 → D OgreArc} {handles : List OgreArc} {store : Store C α}
    (h : s.SenderOk B M) (hd : ∀ id a, a ∈ elems B (d id) → a ∈ elems B (s.dispatchers id))
    (hc : ∀ a ∈ lanes B M d ++ handles, a ∈ s.copies B M) :
    Chan.SenderOk B M { s with dispatchers := d, handles, store } := by
  unfold Chan.SenderOk at h ⊢
  cases hsnd : s.sender with
  | idle =>
    simp only [hsnd] at h ⊢
    exact h
  | panicked => simp only [hsnd] at h
  | publishing arc entries =>
    simp only [hsnd] at h ⊢
    exact ⟨h.1, fun id hid => ⟨(h.2.1 id hid).1, fun ha => (h.2.1 id hid).2 (hd id arc ha)⟩, h.2.2⟩
  | loadCount arc | increment arc count | snapshot arc count =>
    simp only [hsnd] at h ⊢
    exact ⟨fun ha => h.1 (hc arc ha), h.2⟩

end SenderOk

section Inv
variable {C D : Type → Type} [LawfulMoveContainer C] [LawfulMoveContainer D] {τ α : Type} {B M : Nat}
  {s s' : Chan C D τ α} {arc : OgreArc}

structure Inv (B M : Nat) (s : Chan C D τ α) : Prop where
  streams : s.streams.Ok M
  listed : s.streams.Listed M
  live : ∀ j, s.since j = true → (s.streams.rt.task j).isSome
  queue : ∀ id, WellFormed B (s.dispatchers id)
  distinct : ∀ id, (elems B (s.dispatchers id)).Nodup
  store : s.store.Ok B [] (s.owners B M)
  /-- before the snapshot, the count may be anything -/
  few : ∀ arc, (∀ count, s.sender ≠ .snapshot arc count) → (s.owners B M).count arc < 2 ^ 32
  sender : s.SenderOk B M

theorem Inv.init (hB : Ring.PowerOfTwo B) (hM : Ring.PowerOfTwo M) (pool : Nat → α) :
    Inv B M (.init B M pool : Chan C D τ α) := by
  have hnil : (Chan.init B M pool : Chan C D τ α).owners B M = [] := by
    show [] ++ (lanes B M (fun _ => withInitializer fun _ => 0) ++ []) = []
    rw [lanes_init]
    rfl
  refine ⟨.new hM, .new M, fun j hj => (by cases hj), fun _ => LawfulMoveContainer.init_wf _, fun _ => ?_, ?_, ?_,
    fun j hj => (by cases hj)⟩
  · show (elems B (withInitializer fun _ => 0 : D OgreArc)).Nodup
    rw [LawfulMoveContainer.init_elems]
    exact List.nodup_nil
  · rw [hnil]; exact .new hB pool
  · intro arc _
    rw [hnil, List.count_nil]
    decide

/-! ### Streams and consumers -/

theorem Inv.streamsStep [DecidableEq τ] {l : Streams.Label τ} {streams : Streams τ} (h : Inv B M s) (hM : Ring.PowerOfTwo M)
    (hs : s.streams.step M l = some streams) :
    Inv B M { s with streams, since := fun j => s.since j && (streams.rt.task j).isSome } := by
  have hsub : ∀ j, (s.since j && (streams.rt.task j).isSome) = true → s.since j = true := fun j hj =>
    (Bool.and_eq_true_iff.mp hj).1
  refine ⟨h.streams.step hM hs, h.listed.step hM h.streams hs, fun j hj => (Bool.and_eq_true_iff.mp hj).2, h.queue,
    h.distinct, h.store, h.few, ?_⟩
  have hsender := h.sender
  unfold Chan.SenderOk at hsender ⊢
  cases hsnd : s.sender with
  | idle =>
    simp only [hsnd] at hsender ⊢
    exact fun j hj => hsender j (hsub j hj)
  | publishing arc entries =>
    simp only [hsnd] at hsender ⊢
    exact ⟨hsender.1, hsender.2.1, fun j hj => hsender.2.2 j (hsub j hj)⟩
  | loadCount arc | increment arc count | snapshot arc count =>
    simp only [hsnd] at hsender ⊢
    exact hsender
  | panicked => simp only [hsnd] at hsender

theorem Inv.consume {j : UInt32} (h : Inv B M s) (hj : (s.streams.rt.task j).isSome) : Inv B M (s.consume B j) := by
  have hlt := h.streams.rt.lt j hj
  unfold Chan.consume
  rcases LawfulMoveContainer.consume_cases (h.queue j) with ⟨q, a, rest, hq, hel, hwf, rfl⟩ | ⟨hq, -⟩
  · rw [hq]
    have hperm : (lanes B M (Function.update s.dispatchers j q) ++ a :: s.handles).Perm (s.copies B M) :=
      List.perm_middle.trans ((lanes_pop hlt hel).append_right _)
    have hown : (s.sender.own ++ (lanes B M (Function.update s.dispatchers j q) ++ a :: s.handles)).Perm (s.owners B M) :=
      hperm.append_left _
    have hsub : ∀ id, (elems B (Function.update s.dispatchers j q id)).Sublist (elems B (s.dispatchers id)) := by
      intro id
      by_cases hid : id = j
      · subst hid
        rw [Function.update_self, hel]
        exact List.sublist_cons_self _ _
      · rw [Function.update_of_ne hid]
    refine ⟨h.streams, h.listed, h.live, LawfulMoveContainer.wellFormed_update h.queue hwf,
      fun id => (h.distinct id).sublist (hsub id), h.store.perm hown, fun arc harc => ?_,
      h.sender.of_copies (fun id a ha => (hsub id).subset ha) fun a ha => hperm.mem_iff.mp ha⟩
    exact Nat.lt_of_le_of_lt (Nat.le_of_eq (hown.count_eq arc)) (h.few arc harc)
  · rw [hq]
    simp only [Function.update_eq_self]
    exact h

theorem Inv.dropArc {store : Store C α} (h : Inv B M s) (hB : Ring.PowerOfTwo B) (harc : arc ∈ s.handles)
    (hs : s.store.dropArc B arc = some store) : Inv B M { s with store, handles := s.handles.erase arc } := by
  have hcopy : arc ∈ s.copies B M := List.mem_append_right _ harc
  have hne : ∀ count, s.sender ≠ .snapshot arc count := by
    intro count hsnd
    have := h.sender
    simp only [Chan.SenderOk, hsnd] at this
    exact this.1 hcopy
  have hcons : (s.owners B M).Perm (arc :: (s.sender.own ++ (lanes B M s.dispatchers ++ s.handles.erase arc))) := by
    have hrot : (s.copies B M).Perm (arc :: (lanes B M s.dispatchers ++ s.handles.erase arc)) :=
      ((List.perm_cons_erase harc).append_left _).trans List.perm_middle
    exact (hrot.append_left _).trans List.perm_middle
  have herase := hcons.erase arc
  rw [List.erase_cons_head] at herase
  refine ⟨h.streams, h.listed, h.live, h.queue, h.distinct, (h.store.dropArc hB (h.few arc hne) hs).perm herase.symm,
    fun a ha => Nat.lt_of_le_of_lt ?_ (h.few a ha), h.sender.of_copies (fun _ _ ha => ha) fun a ha => ?_⟩
  · refine List.Sublist.count_le a (List.Sublist.append_left (List.Sublist.append_left ?_ _) _)
    exact List.erase_sublist
  · rcases List.mem_append.mp ha with ha | ha
    · exact List.mem_append_left _ ha
    · exact List.mem_append_right _ (List.mem_of_mem_erase ha)

/-! ### The sender -/

theorem Inv.send (h : Inv B M s) (hidle : s.sender = .idle) (item : α) : Inv B M (s.send B item) := by
  have hown : s.owners B M = s.copies B M := by rw [Chan.owners, hidle]; rfl
  have hstore := h.store
  rw [hown] at hstore
  unfold Chan.send
  rcases halloc : s.store.allocRef B with ⟨store, _ | slot⟩
  · rw [Store.eq_of_allocRef_none hstore.wf halloc]
    exact h
  · obtain ⟨hok, -⟩ := hstore.allocRef halloc
    dsimp only
    rcases hf : store.fromAllocated slot with ⟨st, a⟩
    obtain ⟨hok', hnot, -⟩ := hok.fromAllocated List.mem_cons_self hf
    rw [List.erase_cons_head] at hok'
    refine ⟨h.streams, h.listed, fun j hj => hj, h.queue, h.distinct, hok'.write slot (fun _ => item), fun arc _ => ?_,
      hnot, fun _ => rfl⟩
    show (a :: s.copies B M).count arc < 2 ^ 32
    by_cases ha : arc = a
    · subst ha
      rw [List.count_cons_self, List.count_eq_zero_of_not_mem hnot]
      decide
    · rw [List.count_cons_of_ne (Ne.symm ha), ← hown]
      exact h.few arc fun count hc => by rw [hidle] at hc; cases hc

theorem Inv.increment {count : UInt32} {store : Store C α} (h : Inv B M s) (hsnd : s.sender = .increment arc count)
    (hs : s.store.incrementReferences arc count = some store) :
    Inv B M { s with store, sender := .snapshot arc count } := by
  have hsender := h.sender
  simp only [Chan.SenderOk, hsnd] at hsender
  have hown : s.owners B M = [arc] ++ s.copies B M := by rw [Chan.owners, hsnd]; rfl
  have heq : List.replicate count.toNat arc ++ s.owners B M = List.replicate (count.toNat + 1) arc ++ s.copies B M := by
    rw [hown, List.replicate_succ', List.append_assoc]
  refine ⟨h.streams, h.listed, h.live, h.queue, h.distinct, ?_, fun a ha => ?_, hsender⟩
  · have hok := h.store.incrementReferences hs
    rw [heq] at hok
    exact hok
  · have hne : a ≠ arc := by rintro rfl; exact ha count rfl
    show (List.replicate (count.toNat + 1) arc ++ s.copies B M).count a < 2 ^ 32
    rw [← heq, List.count_append, List.count_eq_zero_of_not_mem fun hm => hne (List.eq_of_mem_replicate hm), Nat.zero_add]
    exact h.few a fun c hc => by rw [hsnd] at hc; cases hc

theorem Inv.snapshot {count : UInt32} (h : Inv B M s) (hM : Ring.PowerOfTwo M) (hsnd : s.sender = .snapshot arc count)
    (hmatch : count.toNat = s.streams.rt.streams.usedIds.length) :
    Inv B M { s with sender := .publishing arc (s.streams.rt.streams.usedStreams.take count.toNat) } := by
  obtain ⟨k, hk⟩ := h.listed.rest
  have htake : s.streams.rt.streams.usedStreams.take count.toNat = s.streams.rt.streams.usedIds := by
    rw [hk, hmatch, List.take_left]
  have hsender := h.sender
  simp only [Chan.SenderOk, hsnd] at hsender
  obtain ⟨hnot, hzero⟩ := hsender
  have hown : s.owners B M = List.replicate (s.streams.rt.streams.usedIds.length + 1) arc ++ s.copies B M := by
    rw [Chan.owners, hsnd, ← hmatch]; rfl
  have hlen : s.streams.rt.streams.usedIds.length ≤ 2 ^ 31 := by
    have hsub : s.streams.rt.streams.usedIds ⊆ idRange 0 (UInt32.ofNat M) := fun x hx =>
      mem_idRange.mpr ⟨by simp [UInt32.le_iff_toNat_le], h.listed.lt x hx⟩
    have hle := (h.listed.nodup.subperm hsub).length_le
    rw [length_idRange] at hle
    have hroom : (UInt32.ofNat M).toNat ≤ 2 ^ 31 := hM.room_le
    omega
  rw [htake]
  refine ⟨h.streams, h.listed, h.live, h.queue, h.distinct, ?_, fun a _ => ?_, h.listed.nodup, fun id hid => ?_,
    fun j hj => ?_⟩
  · have hok := h.store
    rw [hown] at hok
    exact hok
  · show (List.replicate (s.streams.rt.streams.usedIds.length + 1) arc ++ s.copies B M).count a < 2 ^ 32
    by_cases ha : a = arc
    · subst ha
      rw [List.count_append, List.count_replicate_self, List.count_eq_zero_of_not_mem hnot]
      omega
    · rw [← hown]
      refine h.few a fun c hc => ?_
      rw [hsnd] at hc
      cases hc
      exact ha rfl
  · exact ⟨h.listed.lt id hid, fun ha => hnot (List.mem_append_left _ (mem_lanes (h.listed.lt id hid) ha))⟩
  · rw [if_pos (h.listed.live j (h.live j hj))]
    exact hzero j

theorem Inv.publish {id : UInt32} {entries : List UInt32} (h : Inv B M s) (hB : Ring.PowerOfTwo B) (hM : Ring.PowerOfTwo M)
    (hsnd : s.sender = .publishing arc (id :: entries)) : Inv B M (s.publish B arc id entries) := by
  have hsender := h.sender
  simp only [Chan.SenderOk, hsnd] at hsender
  obtain ⟨hnd, hent, hdel⟩ := hsender
  rw [List.nodup_cons] at hnd
  obtain ⟨hlt, hnot⟩ := hent id List.mem_cons_self
  have hown : s.owners B M = List.replicate (entries.length + 1 + 1) arc ++ s.copies B M := by
    rw [Chan.owners, hsnd]; rfl
  have hmax : id ≠ u32Max := by
    have hroom : (UInt32.ofNat M).toNat ≤ 2 ^ 31 := hM.room_le
    have hlt' := UInt32.lt_iff_toNat_lt.mp hlt
    rintro rfl
    rw [show u32Max.toNat = 2 ^ 32 - 1 from rfl] at hlt'
    omega
  unfold Chan.publish
  rw [if_neg hmax]
  rcases LawfulMoveContainer.publish_cases hB (h.queue id) arc with ⟨q, hq, hwf, hel, -⟩ | ⟨-, hfull⟩
  · rw [hq]
    -- one of the copies still to be published is in its queue now
    have hperm : (List.replicate (entries.length + 1) arc ++
        (lanes B M (Function.update s.dispatchers id q) ++ s.handles)).Perm (s.owners B M) := by
      rw [hown, List.replicate_succ' (n := entries.length + 1), List.append_assoc]
      exact ((lanes_push_one hlt hel).append_right _).append_left _
    have hother : ∀ i, i ≠ id → Function.update s.dispatchers id q i = s.dispatchers i := fun i hi =>
      Function.update_of_ne hi _ _
    refine ⟨h.streams, h.listed, h.live, LawfulMoveContainer.wellFormed_update h.queue hwf, fun i => ?_,
      h.store.perm hperm, fun a _ => ?_, hnd.2, fun i hi => ?_, fun j hj => ?_⟩
    · show (elems B (Function.update s.dispatchers id q i)).Nodup
      by_cases hi : i = id
      · subst hi
        rw [Function.update_self, hel, List.nodup_append_comm, List.singleton_append, List.nodup_cons]
        exact ⟨hnot, h.distinct i⟩
      · rw [hother i hi]
        exact h.distinct i
    · refine Nat.lt_of_le_of_lt (Nat.le_of_eq (hperm.count_eq a)) (h.few a fun c hc => ?_)
      rw [hsnd] at hc
      cases hc
    · have hne : i ≠ id := by rintro rfl; exact hnd.1 hi
      obtain ⟨hlti, hnoti⟩ := hent i (List.mem_cons_of_mem _ hi)
      refine ⟨hlti, ?_⟩
      show arc ∉ elems B (Function.update s.dispatchers id q i)
      rw [hother i hne]
      exact hnoti
    · show Function.update s.delivered id (s.delivered id + 1) j = if j ∈ entries then 0 else 1
      have hold := hdel j hj
      by_cases hji : j = id
      · subst hji
        rw [if_pos List.mem_cons_self] at hold
        rw [Function.update_self, hold, if_neg hnd.1]
      · rw [Function.update_of_ne hji, hold]
        simp [hji]
  · -- the elements of the queue and the new one are distinct, and each has a slot
    have hle := length_le_room h.store (List.nodup_cons.mpr ⟨hnot, h.distinct id⟩) fun a ha => ?_
    · rw [List.length_cons] at hle
      omega
    · rcases List.mem_cons.mp ha with rfl | ha'
      · rw [hown]
        exact List.mem_append_left _ (List.mem_replicate.mpr ⟨by omega, rfl⟩)
      · exact List.mem_append_right _ (List.mem_append_left _ (mem_lanes hlt ha'))

theorem Inv.finish {store : Store C α} (h : Inv B M s) (hB : Ring.PowerOfTwo B) (hsnd : s.sender = .publishing arc [])
    (hs : s.store.dropArc B arc = some store) : Inv B M { s with store, sender := .idle } := by
  have hsender := h.sender
  simp only [Chan.SenderOk, hsnd] at hsender
  have hown : s.owners B M = arc :: s.copies B M := by rw [Chan.owners, hsnd]; rfl
  have hne : ∀ a count, s.sender ≠ .snapshot a count := by
    intro a count hc
    rw [hsnd] at hc
    cases hc
  have hok := h.store.dropArc hB (h.few arc (hne arc)) hs
  rw [hown, List.erase_cons_head] at hok
  refine ⟨h.streams, h.listed, h.live, h.queue, h.distinct, hok, fun a _ => ?_, fun j hj => ?_⟩
  · refine Nat.lt_of_le_of_lt ?_ (h.few a (hne a))
    rw [hown]
    exact List.Sublist.count_le a (List.sublist_cons_self _ _)
  · exact (hsender.2.2 j hj).trans (if_neg List.not_mem_nil)

theorem Inv.sendStep (h : Inv B M s) (hB : Ring.PowerOfTwo B) (hM : Ring.PowerOfTwo M)
    (hmatch : s.Matching (.sender : Label τ α)) (hs : s.sendStep B = some s') : Inv B M s' := by
  cases hsnd : s.sender with
  | idle => simp [Chan.sendStep, hsnd] at hs
  | panicked => simp [Chan.sendStep, hsnd] at hs
  | loadCount arc =>
    simp only [Chan.sendStep, hsnd, Option.some.injEq] at hs
    subst hs
    have hsender := h.sender
    simp only [Chan.SenderOk, hsnd] at hsender
    have hown : s.owners B M = [arc] ++ s.copies B M := by rw [Chan.owners, hsnd]; rfl
    refine ⟨h.streams, h.listed, h.live, h.queue, h.distinct, ?_, fun a _ => ?_, hsender⟩
    · have hok := h.store
      rw [hown] at hok
      exact hok
    · have hfew := h.few a fun c hc => (by rw [hsnd] at hc; cases hc)
      rw [hown] at hfew
      exact hfew
  | increment arc count =>
    simp only [Chan.sendStep, hsnd, Option.map_eq_some_iff] at hs
    obtain ⟨store, hstore, rfl⟩ := hs
    exact h.increment hsnd hstore
  | snapshot arc count =>
    simp only [Chan.sendStep, hsnd, Option.ite_none_right_eq_some, Option.some.injEq] at hs
    obtain ⟨-, rfl⟩ := hs
    exact h.snapshot hM hsnd (hmatch arc count hsnd)
  | publishing arc entries =>
    cases entries with
    | nil =>
      simp only [Chan.sendStep, hsnd, Option.map_eq_some_iff] at hs
      obtain ⟨store, hstore, rfl⟩ := hs
      exact h.finish hB hsnd hstore
    | cons id entries =>
      simp only [Chan.sendStep, hsnd, Option.some.injEq] at hs
      subst hs
      exact h.publish hB hM hsnd

theorem Inv.step [DecidableEq τ] {l : Label τ α} (h : Inv B M s) (hB : Ring.PowerOfTwo B) (hM : Ring.PowerOfTwo M)
    (hmatch : s.Matching l) (hs : s.step B M l = some s') : Inv B M s' := by
  cases l with
  | streams l =>
    obtain ⟨streams, hstep, rfl⟩ := Option.map_eq_some_iff.mp hs
    exact h.streamsStep hM hstep
  | send item =>
    simp only [Chan.step, Option.ite_none_right_eq_some, Option.some.injEq] at hs
    obtain ⟨hidle, rfl⟩ := hs
    exact h.send hidle item
  | sender => exact h.sendStep hB hM hmatch hs
  | consume j =>
    simp only [Chan.step, Option.ite_none_right_eq_some, Option.some.injEq] at hs
    obtain ⟨hj, rfl⟩ := hs
    exact h.consume hj
  | dropArc arc =>
    simp only [Chan.step, Option.ite_none_right_eq_some, Option.map_eq_some_iff] at hs
    obtain ⟨harc, store, hstore, rfl⟩ := hs
    exact h.dropArc hB harc hstore

/-- What a finished send leaves behind. -/
structure Delivered (B M : Nat) (s : Chan C D τ α) : Prop where
  once : ∀ j, s.since j = true → s.delivered j = 1
  counted : ∀ arc inner, s.store.box arc = some inner → inner.referencesCount.toNat = (s.copies B M).count arc
  /-- what has no copies is freed -/
  freed : ∀ arc, (s.store.box arc).isSome ↔ arc ∈ s.copies B M

theorem Inv.delivered (h : Inv B M s) (hidle : s.sender = .idle) : Delivered B M s := by
  have hown : s.owners B M = s.copies B M := by rw [Chan.owners, hidle]; rfl
  have hsender := h.sender
  simp only [Chan.SenderOk, hidle] at hsender
  refine ⟨hsender, fun arc inner hb => ?_, fun arc => ?_⟩
  · have hfew := h.few arc fun c hc => (by rw [hidle] at hc; cases hc)
    rw [h.store.counted arc inner hb, Wrap.toNat_ofNat_of_lt hfew, hown]
  · rw [h.store.owned, hown]

end Inv

section Runs
variable {C D : Type → Type} [LawfulMoveContainer C] [LawfulMoveContainer D] {τ α : Type} [DecidableEq τ] {B M : Nat}
  {s : Chan C D τ α}

/-- No event is lost and no slot leaks in a run in which, at every snapshot, the list has as many ids as
the sender has counted. -/
theorem send_delivers (hB : Ring.PowerOfTwo B) (hM : Ring.PowerOfTwo M) {pool : Nat → α}
    (h : Machine.Steps (Chan.step B M) (fun s l _ => s.Matching l) (.init B M pool) s) :
    s.sender ≠ .panicked ∧ (s.sender = .idle → Delivered B M s) := by
  have hinv : Inv B M s := by
    refine h.invariant ?_ (.init hB hM pool)
    intro s l s' hi hs hmatch
    exact hi.step hB hM hmatch hs
  refine ⟨fun hp => ?_, hinv.delivered⟩
  have hsender := hinv.sender
  simp only [Chan.SenderOk, hp] at hsender

end Runs

instance {C D : Type → Type} {τ α : Type} (s : Chan C D τ α) : (l : Label τ α) → Decidable (s.Matching l)
  | .sender =>
    match h : s.sender with
    | .snapshot arc count => decidable_of_iff (count.toNat = s.streams.rt.streams.usedIds.length) <| by
      constructor
      · intro hc arc' count' h'
        rw [h] at h'
        cases h'
        exact hc
      · exact fun hc => hc arc count h
    | .idle | .loadCount _ | .increment _ _ | .publishing _ _ | .panicked => .isTrue fun _ _ h' => by rw [h] at h'; cases h'
  | .streams _ | .send _ | .consume _ | .dropArc _ => .isTrue trivial

/-- The steps of `create_stream_id` and of `report_stream_dropped`, taken by the only thread. -/
def createSteps : List (Label Unit Nat) := .streams (.create ()) :: List.replicate 4 (.streams (.manage ()))

def dropSteps (j : UInt32) : List (Label Unit Nat) := .streams (.drop () j) :: List.replicate 5 (.streams (.manage ()))

/-- A stream is created before the count is loaded, and another one after the snapshot. -/
theorem send_delivers_created : ∃ s : Chan FullSyncMove FullSyncMove Unit Nat, s.sender = .idle ∧ s.since 0 = true ∧
    s.copies 4 4 = [0, 0] ∧ s.sender ≠ .panicked ∧ (s.sender = .idle → Delivered 4 4 s) := by
  have hrun : (Machine.exec (Machine.restrict (Chan.step 4 4) fun s l _ => decide (s.Matching l))
      (.init 4 4 fun _ => 0 : Chan FullSyncMove FullSyncMove Unit Nat)
      (createSteps ++ .send 7 :: createSteps ++ [.sender, .sender, .sender] ++ createSteps ++
        [.sender, .sender, .sender, .consume 0])).map
      (fun s => decide (s.sender = .idle ∧ s.since 0 = true ∧ s.copies 4 4 = [0, 0])) = some true := by decide +kernel
  obtain ⟨s, hs, ht⟩ := Option.map_eq_some_iff.mp hrun
  rw [decide_eq_true_iff] at ht
  have hsteps := (Machine.Path.of_exec_restrict (fun _ _ _ hm => of_decide_eq_true hm) hs).steps
  exact ⟨s, ht.1, ht.2.1, ht.2.2, send_delivers ⟨2, rfl⟩ ⟨2, rfl⟩ hsteps⟩

theorem finished_of_exec {D : Type → Type} [LawfulMoveContainer D] {p : Chan D D Unit Nat → Prop} [DecidablePred p]
    {l : List (Label Unit Nat)} (hrun : (Machine.exec (Chan.step 4 4) (.init 4 4 fun _ => 0 : Chan D D Unit Nat) l).map
      (fun s => decide (s.sender = .idle ∧ p s)) = some true) :
    ∃ s : Chan D D Unit Nat, Machine.Steps (Chan.step 4 4) (fun _ _ _ => True) (.init 4 4 fun _ => 0) s ∧
      s.sender = .idle ∧ p s := by
  obtain ⟨s, hs, ht⟩ := Option.map_eq_some_iff.mp hrun
  rw [decide_eq_true_iff] at ht
  exact ⟨s, (Machine.Path.of_exec hs).steps, ht⟩

/-- Stream 0 is being dropped and already uncounted: the send leaves out stream 1. And a stream is being
created and already counted: the send leaves a reference without a copy. -/
theorem unmatched_run :
    (∃ s : Chan AtomicMove AtomicMove Unit Nat,
      Machine.Steps (Chan.step 4 4) (fun _ _ _ => True) (.init 4 4 fun _ => 0) s ∧ s.sender = .idle ∧
      s.since 1 = true ∧ s.delivered 1 = 0) ∧
    (∃ s : Chan AtomicMove AtomicMove Unit Nat,
      Machine.Steps (Chan.step 4 4) (fun _ _ _ => True) (.init 4 4 fun _ => 0) s ∧ s.sender = .idle ∧
      s.store.box 0 = some ⟨0, 1⟩ ∧ s.copies 4 4 = []) ∧
    (∃ s : Chan FullSyncMove FullSyncMove Unit Nat,
      Machine.Steps (Chan.step 4 4) (fun _ _ _ => True) (.init 4 4 fun _ => 0) s ∧ s.sender = .idle ∧
      s.since 1 = true ∧ s.delivered 1 = 0) ∧
    ∃ s : Chan FullSyncMove FullSyncMove Unit Nat,
      Machine.Steps (Chan.step 4 4) (fun _ _ _ => True) (.init 4 4 fun _ => 0) s ∧ s.sender = .idle ∧
      s.store.box 0 = some ⟨0, 1⟩ ∧ s.copies 4 4 = [] := by
  refine ⟨?_, ?_, ?_, ?_⟩
  · exact finished_of_exec (l := createSteps ++ createSteps ++ (dropSteps 0).take 4 ++ .send 7 :: List.replicate 5 .sender)
      (by decide +kernel)
  · exact finished_of_exec (l := createSteps.take 2 ++ .send 7 :: List.replicate 5 .sender) (by decide +kernel)
  · exact finished_of_exec (l := createSteps ++ createSteps ++ (dropSteps 0).take 4 ++ .send 7 :: List.replicate 5 .sender)
      (by decide +kernel)
  · exact finished_of_exec (l := createSteps.take 2 ++ .send 7 :: List.replicate 5 .sender) (by decide +kernel)

end Mutiny.MultiSendRace
