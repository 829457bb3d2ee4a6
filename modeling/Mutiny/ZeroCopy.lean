import Mutiny.AtomicMove
import Mutiny.FullSyncMove
import Mutiny.Lib.Machine
import Mutiny.OgreAlloc

/-!
# The zero-copy queues

`AtomicZeroCopy` and `FullSyncZeroCopy` keep the payloads in the slots of an allocator and queue the slot
ids. They differ in the queue of ids only, `D` here; `C` is the free list of the allocator. Both have
`BUFFER_SIZE` slots.

Every operation on one of the two queues and every access to a slot is one step. `calls` are the calls
found between two of their steps, each of some thread, and the slots in the hands of callers.
-/

namespace Mutiny
open MoveContainer AtomicMove

/-- `AtomicZeroCopy<SlotType, OgreAllocatorType, BUFFER_SIZE>`, resp. `FullSyncZeroCopy<..>`. -/
structure ZeroCopy (C D : Type → Type) (α : Type) where
  allocator : Store C α
  queue : D UInt32

namespace ZeroCopy
variable {C D : Type → Type} {α : Type}

section Ops
variable [MoveContainer C] [MoveContainer D]

def new (B : Nat) (pool : Nat → α) : ZeroCopy C D α := ⟨.new B pool, withInitializer fun _ => 0⟩

/-- `leak_slot()`; the reference returned is the one to the slot. -/
def leakSlot (B : Nat) (z : ZeroCopy C D α) : ZeroCopy C D α × Option UInt32 :=
  let (allocator, slotId) := z.allocator.allocRef B
  ({ z with allocator }, slotId)

def publishLeakedId (B : Nat) (z : ZeroCopy C D α) (slotId : UInt32) : ZeroCopy C D α × Option UInt32 :=
  let (queue, lenAfter, _) := publishMovable B z.queue slotId
  ({ z with queue }, lenAfter)

/-- `unleak_slot_id(slot_id)` and `release_leaked_id(slot_id)` -/
def deallocId (B : Nat) (z : ZeroCopy C D α) (slotId : UInt32) : ZeroCopy C D α :=
  { z with allocator := z.allocator.deallocId B slotId }

def consumeLeaking (B : Nat) (z : ZeroCopy C D α) : ZeroCopy C D α × Option UInt32 :=
  let (queue, slotId) := consumeMovable B z.queue
  ({ z with queue }, slotId)

end Ops

/-- Write through the reference to a leaked slot. -/
def write (z : ZeroCopy C D α) (slotId : UInt32) (setter : α → α) : ZeroCopy C D α :=
  { z with allocator := z.allocator.write slotId setter }

/-! ### The channels over them -/

/-- What `send`, `send_with` and `send_with_async` come to. -/
inductive Sent (β : Type)
  -- `RetryResult::Ok`; the streams are woken according to `len_after`
  | ok (lenAfter : UInt32)
  -- `RetryResult::Transient`
  | transient (input : β)
  | panic (message : String)

/-- The two channels, under their module names. -/
inductive Channel
  | atomic
  | fullSync

def Channel.name : Channel → String
  | atomic => "atomic"
  | fullSync => "full_sync"

/-- The `match` on what `publish_movable` or `publish` returned. -/
def ofPublish {β : Type} (message : String) : Option UInt32 × Option β → Sent β
  | (some lenAfter, _) => .ok lenAfter
  | (none, some input) => .transient input
  | (none, none) => .panic message

/-- `send(item)`, from what `publish_movable` returned. -/
def send {β : Type} (c : Channel) : Option UInt32 × Option β → Sent β :=
  ofPublish ("reactive-mutiny: uni zero-copy " ++ c.name ++ "::send() BUG! None `some_item`")

/-- `send_with(setter)`, from what `publish` returned. -/
def sendWith {β : Type} (c : Channel) : Option UInt32 × Option β → Sent β :=
  ofPublish ("reactive-mutiny: uni zero-copy " ++ c.name ++ "::send_with() BUG! None `some_setter`")

/-- `send_with_async(setter)`, from what `publish_leaked_ref` returned. -/
def sendWithAsync {β : Type} (c : Channel) : Option UInt32 → Sent β
  | some lenAfter => .ok lenAfter
  | none => .panic ("reactive-mutiny: uni zero-copy " ++ c.name ++
      "::send_with_async() BUG! could not publish a previously leaked slot")

theorem ofPublish_ne_panic {β : Type} {message : String} {r : Option UInt32 × Option β} (h : r ≠ (none, none))
    (m : String) : ofPublish message r ≠ .panic m := by
  obtain ⟨_ | l, _ | x⟩ := r
  · exact absurd rfl h
  all_goals exact fun he => by cases he

theorem sendWithAsync_ne_panic {β : Type} {c : Channel} {r : Option UInt32} (h : r ≠ none) (m : String) :
    (sendWithAsync c r : Sent β) ≠ .panic m := by
  cases r with
  | none => exact absurd rfl h
  | some l => exact fun he => by cases he

/-! ### Many threads -/

/-- A call under way, or a slot in the hands of a caller. A consumer carries the number of the element it
took, counting from zero. -/
inductive Call (α : Type)
  -- `publish` and `publish_movable`, about to fill the slot
  | fill (p : Payload α) (slotId : UInt32)
  -- `publish` and `publish_movable`, about to `publish_leaked_id(slot_id)`; `stored` was put into the slot
  | publishId (slotId : UInt32) (stored : α)
  -- `leak_slot` returned; `stored` is what the caller has put into the slot so far
  | leaked (slotId : UInt32) (stored : α)
  -- `consume`, about to call `queue.available_elements_count()`
  | count (slotId : UInt32) (n : Nat)
  -- `consume`, about to call `getter_fn(slot_ref)`
  | get (slotId : UInt32) (n lenAfter : Nat)
  -- `consume`, about to `release_leaked_id(slot_id)`
  | release (slotId : UInt32) (n lenAfter : Nat) (item : α)
  -- `consume_leaking` returned
  | borrowed (slotId : UInt32) (n : Nat)

namespace Call

def slot : Call α → UInt32
  | fill _ slotId | publishId slotId _ | leaked slotId _ | count slotId _ | get slotId _ _ | release slotId _ _ _
  | borrowed slotId _ => slotId

def byProducer : Call α → Bool
  | fill _ _ | publishId _ _ | leaked _ _ => true
  | _ => false

end Call

inductive Returned (α : Type)
  -- `publish` and `publish_movable`
  | publish (result : Option UInt32 × Option (Payload α))
  -- `publish_leaked_id` and `publish_leaked_ref`
  | publishLeaked (result : Option UInt32)
  -- `consume`, of the `n`-th element; the length was reported
  | consume (n lenAfter : Nat) (item : α)
  -- a read through the reference of `consume_leaking`
  | read (n : Nat) (item : α)

/-- The queue, its calls and its history: what was stored for each publication, in order, how many
elements have been taken, and what the calls returned. -/
structure Sys (C D : Type → Type) (α : Type) where
  z : ZeroCopy C D α
  calls : List (Call α)
  published : List α
  takes : Nat
  returned : List (Returned α)

/-- `spurious` makes a consume, of the free list or of the queue of ids, report empty. A leaked slot is
resolved by its id or, if `byRef`, by its reference. -/
inductive Label (α : Type)
  | publish (p : Payload α) (spurious : Bool)
  | leakSlot (spurious : Bool)
  | consume (spurious : Bool)
  | consumeLeaking (spurious : Bool)
  -- the next step of the `i`-th call
  | run (i : Nat)
  | write (i : Nat) (setter : α → α)
  | publishLeaked (i : Nat) (byRef : Bool)
  | unleakSlot (i : Nat) (byRef : Bool)
  | read (i : Nat)
  | releaseLeaked (i : Nat) (byRef : Bool)

/-- The slot id a leaked slot is resolved by: its own, or that of its reference. -/
def resolve (byRef : Bool) (slotId : UInt32) : UInt32 := if byRef then idFromRef slotId.toNat else slotId

theorem resolve_eq (byRef : Bool) (slotId : UInt32) : resolve byRef slotId = slotId := by
  cases byRef with
  | false => rfl
  | true => exact idFromRef_toNat slotId

namespace Sys
variable [LawfulMoveContainer C] [LawfulMoveContainer D]

def init (B : Nat) (pool : Nat → α) : Sys C D α := ⟨.new B pool, [], [], 0, []⟩

def leakSlot (B : Nat) (s : Sys C D α) (spurious : Bool) : ZeroCopy C D α × Option UInt32 :=
  if spurious then (s.z, none) else s.z.leakSlot B

def consumeLeaking (B : Nat) (s : Sys C D α) (spurious : Bool) : ZeroCopy C D α × Option UInt32 :=
  if spurious then (s.z, none) else s.z.consumeLeaking B

def goOn (s : Sys C D α) (i : Nat) (c : Call α) : Sys C D α := { s with calls := c :: s.calls.eraseIdx i }

/-- `publish_leaked_id` by the `i`-th call, which put `stored` into the slot and is over. -/
def publishId (B : Nat) (s : Sys C D α) (i : Nat) (slotId : UInt32) (stored : α)
    (ret : Option UInt32 → Returned α) : Sys C D α :=
  let (z, lenAfter) := s.z.publishLeakedId B slotId
  { s with z, calls := s.calls.eraseIdx i,
           published := if lenAfter.isSome then s.published ++ [stored] else s.published,
           returned := ret lenAfter :: s.returned }

/-- `dealloc_id` by the `i`-th call, which is over. -/
def deallocId (B : Nat) (s : Sys C D α) (i : Nat) (slotId : UInt32) : Sys C D α :=
  { s with z := s.z.deallocId B slotId, calls := s.calls.eraseIdx i }

def step (B : Nat) (s : Sys C D α) : Label α → Option (Sys C D α)
  | .publish p spurious =>
    match s.leakSlot B spurious with
    | (z, some slotId) => some { s with z, calls := .fill p slotId :: s.calls }
    | (z, none) => some { s with z, returned := .publish (none, some p) :: s.returned }
  | .leakSlot spurious =>
    match s.leakSlot B spurious with
    | (z, some slotId) => some { s with z, calls := .leaked slotId (z.allocator.pool slotId.toNat) :: s.calls }
    | (z, none) => some { s with z }
  | .consume spurious =>
    match s.consumeLeaking B spurious with
    | (z, some slotId) => some { s with z, calls := .count slotId s.takes :: s.calls, takes := s.takes + 1 }
    | (z, none) => some { s with z }
  | .consumeLeaking spurious =>
    match s.consumeLeaking B spurious with
    | (z, some slotId) => some { s with z, calls := .borrowed slotId s.takes :: s.calls, takes := s.takes + 1 }
    | (z, none) => some { s with z }
  | .run i =>
    match s.calls[i]? with
    | some (.fill p slotId) =>
      let stored := p.store (s.z.allocator.pool slotId.toNat)
      some ({ s with z := s.z.write slotId p.store }.goOn i (.publishId slotId stored))
    | some (.publishId slotId stored) => some (s.publishId B i slotId stored fun lenAfter => .publish (lenAfter, none))
    | some (.count slotId n) => some (s.goOn i (.get slotId n (LawfulMoveContainer.elems B s.z.queue).length))
    | some (.get slotId n lenAfter) =>
      some (s.goOn i (.release slotId n lenAfter (s.z.allocator.refFromId B slotId)))
    | some (.release slotId n lenAfter item) =>
      some { s.deallocId B i slotId with returned := .consume n lenAfter item :: s.returned }
    | _ => none
  | .write i setter =>
    match s.calls[i]? with
    | some (.leaked slotId stored) =>
      some ({ s with z := s.z.write slotId setter }.goOn i (.leaked slotId (setter stored)))
    | _ => none
  | .publishLeaked i byRef =>
    match s.calls[i]? with
    | some (.leaked slotId stored) => some (s.publishId B i (resolve byRef slotId) stored .publishLeaked)
    | _ => none
  | .unleakSlot i byRef =>
    match s.calls[i]? with
    | some (.leaked slotId _) => some (s.deallocId B i (resolve byRef slotId))
    | _ => none
  | .read i =>
    match s.calls[i]? with
    | some (.borrowed slotId n) =>
      some { s with returned := .read n (s.z.allocator.refFromId B slotId) :: s.returned }
    | _ => none
  | .releaseLeaked i byRef =>
    match s.calls[i]? with
    | some (.borrowed slotId _) => some (s.deallocId B i (resolve byRef slotId))
    | _ => none

def free (B : Nat) (s : Sys C D α) : List UInt32 := s.z.allocator.free B

def queued (B : Nat) (s : Sys C D α) : List UInt32 := LawfulMoveContainer.elems B s.z.queue

def byProducers (s : Sys C D α) : List UInt32 := (s.calls.filter Call.byProducer).map Call.slot

def byConsumers (s : Sys C D α) : List UInt32 := (s.calls.filter fun c => !c.byProducer).map Call.slot

end Sys

/-! ### The invariant -/

/-- The slot of a call holds what the call takes it to hold. -/
def Call.Ok (pool : Nat → α) (published : List α) : Call α → Prop
  | .fill _ _ => True
  | .publishId slotId stored | .leaked slotId stored => pool slotId.toNat = stored
  | .count slotId n | .get slotId n _ | .borrowed slotId n => published[n]? = some (pool slotId.toNat)
  | .release _ n _ item => published[n]? = some item

theorem getElem?_append_singleton {published : List α} {n : Nat} {w : α} (h : published[n]? = some w) (v : α) :
    (published ++ [v])[n]? = some w := by
  rw [List.getElem?_append_left (List.getElem?_eq_some_iff.mp h).1, h]

theorem Call.Ok.append {pool : Nat → α} {published : List α} {c : Call α} (h : c.Ok pool published) (v : α) :
    c.Ok pool (published ++ [v]) := by
  cases c with
  | fill | publishId | leaked => exact h
  | count | get | release | borrowed => exact getElem?_append_singleton h v

theorem Call.Ok.write {pool : Nat → α} {published : List α} {c : Call α} {slot : UInt32} (h : c.Ok pool published)
    (hne : c.slot ≠ slot) (v : α) : c.Ok (Function.update pool slot.toNat v) published := by
  have hpool : Function.update pool slot.toNat v c.slot.toNat = pool c.slot.toNat :=
    Function.update_of_ne (fun he => hne (UInt32.toNat_inj.mp he)) _ _
  cases c with
  | fill | release => exact h
  | publishId | leaked => exact hpool.trans h
  | count | get | borrowed => exact h.trans (congrArg some hpool.symm)

/-- No publication was refused, and what was read is what was stored for that element. -/
def Returned.Ok (published : List α) : Returned α → Prop
  | .publish result => result ≠ (none, none)
  | .publishLeaked result => result ≠ none
  | .consume n _ item | .read n item => published[n]? = some item

theorem Returned.Ok.append {published : List α} {r : Returned α} (h : r.Ok published) (v : α) :
    r.Ok (published ++ [v]) := by
  cases r with
  | publish | publishLeaked => exact h
  | consume | read => exact getElem?_append_singleton h v

theorem calls_perm {calls : List (Call α)} {i : Nat} {c : Call α} (hi : calls[i]? = some c) :
    calls.Perm (c :: calls.eraseIdx i) := by
  obtain ⟨hlt, rfl⟩ := List.getElem?_eq_some_iff.mp hi
  exact (List.getElem_cons_eraseIdx_perm hlt).symm

section Inv
variable [LawfulMoveContainer C] [LawfulMoveContainer D] {B : Nat} {s s' : Sys C D α} {i : Nat} {c c' : Call α}

structure Inv (B : Nat) (s : Sys C D α) : Prop where
  wfFree : LawfulMoveContainer.WellFormed B s.z.allocator.freeList
  wfQueue : LawfulMoveContainer.WellFormed B s.z.queue
  /-- Every slot is in one place. -/
  places : (s.free B ++ s.queued B ++ s.calls.map Call.slot).Perm (idRange 0 (UInt32.ofNat B))
  le : s.takes ≤ s.published.length
  elems : (s.queued B).map (fun slotId => s.z.allocator.pool slotId.toNat) = s.published.drop s.takes
  calls : ∀ c ∈ s.calls, c.Ok s.z.allocator.pool s.published
  returned : ∀ r ∈ s.returned, r.Ok s.published

namespace Inv

theorem init (hB : Ring.PowerOfTwo B) (pool : Nat → α) : Inv B (.init B pool : Sys C D α) := by
  obtain ⟨hwf, hel⟩ := Store.free_new (C := C) hB pool
  have hqueue : (Sys.init B pool : Sys C D α).queued B = [] := LawfulMoveContainer.init_elems _
  have hfree : (Sys.init B pool : Sys C D α).free B = idRange 0 (UInt32.ofNat B) := hel
  refine ⟨hwf, LawfulMoveContainer.init_wf _, ?_, Nat.le_refl 0, ?_, fun _ h => (by cases h), fun _ h => (by cases h)⟩
  · rw [hqueue, hfree, List.append_nil]
    simp [Sys.init]
  · rw [hqueue]
    rfl

theorem nodup (h : Inv B s) : (s.free B ++ s.queued B ++ s.calls.map Call.slot).Nodup :=
  h.places.nodup_iff.mpr nodup_idRange

/-- The slot of a call is within the pool: `ref_from_id` is the slot itself. -/
theorem refFromId_eq (h : Inv B s) (hc : c ∈ s.calls) :
    s.z.allocator.refFromId B c.slot = s.z.allocator.pool c.slot.toNat := by
  have hm := h.places.mem_iff.mp (List.mem_append_right _ (List.mem_map_of_mem hc))
  have hlt : c.slot.toNat < B := by
    have := (mem_idRange.mp hm).2
    rw [UInt32.lt_iff_toNat_lt] at this
    exact Nat.lt_of_lt_of_le this (by rw [UInt32.toNat_ofNat']; exact Nat.mod_le ..)
  rw [Store.refFromId, Nat.mod_eq_of_lt hlt]

/-- The slot of a call is not in the queue and not that of another call. -/
theorem slot_ne (h : Inv B s) (hi : s.calls[i]? = some c) :
    (∀ slot ∈ s.queued B, slot ≠ c.slot) ∧ ∀ c' ∈ s.calls.eraseIdx i, c'.slot ≠ c.slot := by
  have hp := (calls_perm hi).map Call.slot
  have hnd := (hp.append_left (s.free B ++ s.queued B)).nodup_iff.mp h.nodup
  obtain ⟨-, h₁, h₂⟩ := List.nodup_append.mp hnd
  rw [List.map_cons, List.nodup_cons] at h₁
  refine ⟨fun slot hs he => ?_, fun c' hc' he => h₁.1 ?_⟩
  · exact h₂ slot (List.mem_append_right _ hs) c.slot List.mem_cons_self he
  · exact List.mem_map.mpr ⟨c', hc', he⟩

theorem goOn (h : Inv B s) (hi : s.calls[i]? = some c) (hslot : c'.slot = c.slot)
    (hok : c'.Ok s.z.allocator.pool s.published) : Inv B (s.goOn i c') := by
  refine ⟨h.wfFree, h.wfQueue, ?_, h.le, h.elems, fun d hd => ?_, h.returned⟩
  · refine List.Perm.trans (List.Perm.append_left _ ?_) h.places
    show (c'.slot :: (s.calls.eraseIdx i).map Call.slot).Perm _
    rw [hslot]
    exact ((calls_perm hi).map Call.slot).symm
  · rcases List.mem_cons.mp hd with rfl | hd'
    · exact hok
    · exact h.calls d (List.mem_of_mem_eraseIdx hd')

theorem write {setter : α → α} (h : Inv B s) (hi : s.calls[i]? = some c) (hslot : c'.slot = c.slot)
    (hok : c'.Ok (s.z.write c.slot setter).allocator.pool s.published) :
    Inv B ({ s with z := s.z.write c.slot setter }.goOn i c') := by
  obtain ⟨hq, hother⟩ := h.slot_ne hi
  have h' : Inv B (s.goOn i (.fill (.setter setter) c'.slot)) := h.goOn hi hslot trivial
  refine ⟨h.wfFree, h.wfQueue, ?_, h.le, ?_, fun d hd => ?_, h.returned⟩
  · exact h'.places
  · refine Eq.trans (List.map_congr_left fun slot hs => ?_) h.elems
    exact Function.update_of_ne (fun he => hq slot hs (UInt32.toNat_inj.mp he)) _ _
  · rcases List.mem_cons.mp hd with rfl | hd'
    · exact hok
    · exact (h.calls d (List.mem_of_mem_eraseIdx hd')).write (hother d hd') _

theorem leakSlot {spurious : Bool} {z : ZeroCopy C D α} {slotId : UInt32} (h : Inv B s)
    (hs : s.leakSlot B spurious = (z, some slotId)) (hc : c.slot = slotId)
    (hok : c.Ok z.allocator.pool s.published) : Inv B { s with z := z, calls := c :: s.calls } := by
  unfold Sys.leakSlot at hs
  split at hs
  · cases hs
  rcases LawfulMoveContainer.consume_cases h.wfFree with ⟨q, x, xs, hq, hel, hwf, hel'⟩ | ⟨hq, -⟩
  · simp only [ZeroCopy.leakSlot, Store.allocRef, hq, Prod.mk.injEq, Option.some.injEq] at hs
    obtain ⟨rfl, rfl⟩ := hs
    refine ⟨hwf, h.wfQueue, ?_, h.le, h.elems, fun d hd => ?_, h.returned⟩
    · refine List.Perm.trans ?_ h.places
      have hfree : s.free B = x :: xs := hel
      show (LawfulMoveContainer.elems B q ++ _ ++ c.slot :: _).Perm _
      rw [hfree, hel', hc, List.cons_append, List.cons_append]
      exact List.perm_middle
    · rcases List.mem_cons.mp hd with rfl | hd'
      · exact hok
      · exact h.calls d hd'
  · simp only [ZeroCopy.leakSlot, Store.allocRef, hq, Prod.mk.injEq, reduceCtorEq, and_false] at hs

theorem leakSlot_none {spurious : Bool} {z : ZeroCopy C D α} (h : Inv B s)
    (hs : s.leakSlot B spurious = (z, none)) : z = s.z := by
  unfold Sys.leakSlot at hs
  split at hs
  · cases hs; rfl
  rcases LawfulMoveContainer.consume_cases h.wfFree with ⟨q, x, xs, hq, -⟩ | ⟨hq, -⟩
  · simp [ZeroCopy.leakSlot, Store.allocRef, hq] at hs
  · simp only [ZeroCopy.leakSlot, Store.allocRef, hq, Prod.mk.injEq, and_true] at hs
    exact hs.symm

theorem consumeLeaking {spurious : Bool} {z : ZeroCopy C D α} {slotId : UInt32} (h : Inv B s)
    (hs : s.consumeLeaking B spurious = (z, some slotId)) (hc : c = .count slotId s.takes ∨ c = .borrowed slotId s.takes) :
    Inv B { s with z := z, calls := c :: s.calls, takes := s.takes + 1 } := by
  unfold Sys.consumeLeaking at hs
  split at hs
  · cases hs
  rcases LawfulMoveContainer.consume_cases h.wfQueue with ⟨q, x, xs, hq, hel, hwf, hel'⟩ | ⟨hq, -⟩
  · simp only [ZeroCopy.consumeLeaking, hq, Prod.mk.injEq, Option.some.injEq] at hs
    obtain ⟨rfl, rfl⟩ := hs
    have hqueued : s.queued B = x :: xs := hel
    have helems := h.elems
    rw [hqueued, List.map_cons] at helems
    have hget : s.published[s.takes]? = some (s.z.allocator.pool x.toNat) := by
      rw [← List.head?_drop, ← helems]
      rfl
    have hslot : c.slot = x := by rcases hc with rfl | rfl <;> rfl
    refine ⟨h.wfFree, hwf, ?_, (List.getElem?_eq_some_iff.mp hget).1, ?_, fun d hd => ?_, h.returned⟩
    · refine List.Perm.trans ?_ h.places
      show (_ ++ LawfulMoveContainer.elems B q ++ c.slot :: _).Perm _
      rw [hqueued, hel', hslot, List.append_assoc, List.append_assoc, List.cons_append]
      exact List.perm_middle.append_left _
    · show (LawfulMoveContainer.elems B q).map _ = s.published.drop (s.takes + 1)
      rw [hel', ← List.tail_drop, ← helems]
      rfl
    · rcases List.mem_cons.mp hd with rfl | hd'
      · rcases hc with rfl | rfl <;> exact hget
      · exact h.calls d hd'
  · simp only [ZeroCopy.consumeLeaking, hq, Prod.mk.injEq, reduceCtorEq, and_false] at hs

theorem consumeLeaking_none {spurious : Bool} {z : ZeroCopy C D α} (h : Inv B s)
    (hs : s.consumeLeaking B spurious = (z, none)) : z = s.z := by
  unfold Sys.consumeLeaking at hs
  split at hs
  · cases hs; rfl
  rcases LawfulMoveContainer.consume_cases h.wfQueue with ⟨q, x, xs, hq, -⟩ | ⟨hq, -⟩
  · simp [ZeroCopy.consumeLeaking, hq] at hs
  · simp only [ZeroCopy.consumeLeaking, hq, Prod.mk.injEq, and_true] at hs
    exact hs.symm

/-- While a slot is leaked there is room for its id, in either of the two queues. -/
theorem room (h : Inv B s) (hi : s.calls[i]? = some c) :
    (s.free B).length + (s.queued B).length < Ring.room B := by
  have hlen := h.places.length_eq
  have hpos : 0 < s.calls.length := Nat.lt_of_le_of_lt (Nat.zero_le i) (List.getElem?_eq_some_iff.mp hi).1
  rw [List.length_append, List.length_append, List.length_map, length_idRange, UInt32.toNat_zero, Nat.sub_zero] at hlen
  show _ < (UInt32.ofNat B).toNat
  omega

theorem publishId {stored : α} {ret : Option UInt32 → Returned α} (hB : Ring.PowerOfTwo B) (h : Inv B s)
    (hi : s.calls[i]? = some c) (hstored : s.z.allocator.pool c.slot.toNat = stored)
    (hret : ∀ l published, (ret (some l)).Ok published) : Inv B (s.publishId B i c.slot stored ret) := by
  have hroom := h.room hi
  rcases LawfulMoveContainer.publish_cases hB h.wfQueue c.slot with ⟨q, hq, hwf, hel, -⟩ | ⟨-, hfull⟩
  · have hs : s.publishId B i c.slot stored ret = { s with
        z := { s.z with queue := q }, calls := s.calls.eraseIdx i, published := s.published ++ [stored],
        returned := ret (some (UInt32.ofNat ((s.queued B).length + 1))) :: s.returned } := by
      unfold Sys.publishId ZeroCopy.publishLeakedId
      rw [hq]
      rfl
    rw [hs]
    refine ⟨h.wfFree, hwf, ?_, ?_, ?_, fun d hd => ?_, fun r hr => ?_⟩
    · refine List.Perm.trans ?_ h.places
      show (_ ++ LawfulMoveContainer.elems B q ++ _).Perm _
      rw [hel, List.append_assoc, List.append_assoc, List.singleton_append, List.append_assoc]
      exact (((calls_perm hi).map Call.slot).symm.append_left _).append_left _
    · exact Nat.le_trans h.le (by simp)
    · show (LawfulMoveContainer.elems B q).map _ = (s.published ++ [stored]).drop s.takes
      rw [hel, List.map_append, List.drop_append_of_le_length h.le, ← h.elems, List.map_singleton, hstored]
      rfl
    · exact (h.calls d (List.mem_of_mem_eraseIdx hd)).append stored
    · rcases List.mem_cons.mp hr with rfl | hr'
      · exact hret _ _
      · exact (h.returned r hr').append stored
  · have hfull' : (s.queued B).length = Ring.room B := hfull
    omega

theorem deallocId (hB : Ring.PowerOfTwo B) (h : Inv B s) (hi : s.calls[i]? = some c) :
    Inv B (s.deallocId B i c.slot) := by
  have hroom := h.room hi
  rcases LawfulMoveContainer.publish_cases hB h.wfFree c.slot with ⟨q, hq, hwf, hel, -⟩ | ⟨-, hfull⟩
  · have hs : s.deallocId B i c.slot = { s with
        z := { s.z with allocator := { s.z.allocator with freeList := q } }, calls := s.calls.eraseIdx i } := by
      unfold Sys.deallocId ZeroCopy.deallocId Store.deallocId
      rw [hq]
    rw [hs]
    refine ⟨hwf, h.wfQueue, ?_, h.le, h.elems, fun d hd => h.calls d (List.mem_of_mem_eraseIdx hd), h.returned⟩
    refine List.Perm.trans ?_ h.places
    show (LawfulMoveContainer.elems B q ++ _ ++ _).Perm _
    rw [hel, List.append_assoc, List.append_assoc, List.append_assoc]
    refine List.Perm.append_left _ ?_
    rw [List.singleton_append]
    exact List.perm_middle.symm.trans (((calls_perm hi).map Call.slot).symm.append_left _)
  · have hfull' : (s.free B).length = Ring.room B := hfull
    omega

theorem answer {r : Returned α} (h : Inv B s) (hr : r.Ok s.published) :
    Inv B { s with returned := r :: s.returned } := by
  refine ⟨h.wfFree, h.wfQueue, h.places, h.le, h.elems, h.calls, fun r' hr' => ?_⟩
  rcases List.mem_cons.mp hr' with rfl | hr'
  · exact hr
  · exact h.returned r' hr'

theorem run (hB : Ring.PowerOfTwo B) (h : Inv B s) (hs : s.step B (.run i) = some s') : Inv B s' := by
  rcases hi : s.calls[i]? with _ | c
  · simp only [Sys.step, hi, reduceCtorEq] at hs
  have hok := h.calls c (List.mem_of_getElem? hi)
  have href := h.refFromId_eq (List.mem_of_getElem? hi)
  cases c with
  | fill p slotId =>
    simp only [Sys.step, hi, Option.some.injEq] at hs
    subst hs
    exact h.write hi rfl (Function.update_self ..)
  | publishId slotId stored =>
    simp only [Sys.step, hi, Option.some.injEq] at hs
    subst hs
    exact h.publishId hB hi hok fun l published he => by cases he
  | count slotId n =>
    simp only [Sys.step, hi, Option.some.injEq] at hs
    subst hs
    exact h.goOn hi rfl hok
  | get slotId n lenAfter =>
    simp only [Sys.step, hi, Option.some.injEq] at hs
    subst hs
    exact h.goOn hi rfl (Eq.trans hok (congrArg some href.symm))
  | release slotId n lenAfter item =>
    simp only [Sys.step, hi, Option.some.injEq] at hs
    subst hs
    exact (h.deallocId hB hi).answer hok
  | leaked | borrowed => simp only [Sys.step, hi, reduceCtorEq] at hs

theorem step {l : Label α} (hB : Ring.PowerOfTwo B) (h : Inv B s) (hs : s.step B l = some s') : Inv B s' := by
  cases l with
  | publish p spurious =>
    rcases hz : s.leakSlot B spurious with ⟨z, _ | slotId⟩ <;> simp only [Sys.step, hz, Option.some.injEq] at hs <;>
      subst hs
    · obtain rfl := h.leakSlot_none hz
      exact h.answer fun he => by cases he
    · exact h.leakSlot hz rfl trivial
  | leakSlot spurious =>
    rcases hz : s.leakSlot B spurious with ⟨z, _ | slotId⟩ <;> simp only [Sys.step, hz, Option.some.injEq] at hs <;>
      subst hs
    · obtain rfl := h.leakSlot_none hz
      exact h
    · exact h.leakSlot hz rfl rfl
  | consume spurious =>
    rcases hz : s.consumeLeaking B spurious with ⟨z, _ | slotId⟩ <;>
      simp only [Sys.step, hz, Option.some.injEq] at hs <;> subst hs
    · obtain rfl := h.consumeLeaking_none hz
      exact h
    · exact h.consumeLeaking hz (.inl rfl)
  | consumeLeaking spurious =>
    rcases hz : s.consumeLeaking B spurious with ⟨z, _ | slotId⟩ <;>
      simp only [Sys.step, hz, Option.some.injEq] at hs <;> subst hs
    · obtain rfl := h.consumeLeaking_none hz
      exact h
    · exact h.consumeLeaking hz (.inr rfl)
  | run i => exact h.run hB hs
  | write i setter =>
    rcases hi : s.calls[i]? with _ | c
    · simp only [Sys.step, hi, reduceCtorEq] at hs
    cases c with
    | leaked slotId stored =>
      simp only [Sys.step, hi, Option.some.injEq] at hs
      subst hs
      refine h.write hi rfl ((Function.update_self ..).trans ?_)
      exact congrArg setter (h.calls _ (List.mem_of_getElem? hi))
    | _ => simp only [Sys.step, hi, reduceCtorEq] at hs
  | publishLeaked i byRef =>
    rcases hi : s.calls[i]? with _ | c
    · simp only [Sys.step, hi, reduceCtorEq] at hs
    cases c with
    | leaked slotId stored =>
      simp only [Sys.step, hi, resolve_eq, Option.some.injEq] at hs
      subst hs
      exact h.publishId hB hi (h.calls _ (List.mem_of_getElem? hi)) fun l published he => by cases he
    | _ => simp only [Sys.step, hi, reduceCtorEq] at hs
  | unleakSlot i byRef =>
    rcases hi : s.calls[i]? with _ | c
    · simp only [Sys.step, hi, reduceCtorEq] at hs
    cases c with
    | leaked slotId stored =>
      simp only [Sys.step, hi, resolve_eq, Option.some.injEq] at hs
      subst hs
      exact h.deallocId hB hi
    | _ => simp only [Sys.step, hi, reduceCtorEq] at hs
  | read i =>
    rcases hi : s.calls[i]? with _ | c
    · simp only [Sys.step, hi, reduceCtorEq] at hs
    cases c with
    | borrowed slotId n =>
      simp only [Sys.step, hi, Option.some.injEq] at hs
      subst hs
      have hm := List.mem_of_getElem? hi
      exact h.answer (Eq.trans (h.calls _ hm) (congrArg some (h.refFromId_eq hm).symm))
    | _ => simp only [Sys.step, hi, reduceCtorEq] at hs
  | releaseLeaked i byRef =>
    rcases hi : s.calls[i]? with _ | c
    · simp only [Sys.step, hi, reduceCtorEq] at hs
    cases c with
    | borrowed slotId n =>
      simp only [Sys.step, hi, resolve_eq, Option.some.injEq] at hs
      subst hs
      exact h.deallocId hB hi
    | _ => simp only [Sys.step, hi, reduceCtorEq] at hs

end Inv

/-! ### No element is swallowed -/

/-- What holds in every reachable state. -/
structure Sound (B : Nat) (s : Sys C D α) : Prop where
  /-- the free ids, the ids in the queue and those leaked by producers and consumers are `0..BUFFER_SIZE` -/
  places : ((s.free B ++ s.queued B ++ s.byProducers ++ s.byConsumers).map UInt32.toNat).Perm (List.range B)
  /-- `publish_leaked_id` and `publish_leaked_ref` never return `None` -/
  publishLeaked : ∀ r, .publishLeaked r ∈ s.returned → r ≠ none ∧
    ∀ c m, (sendWithAsync c r : Sent (Payload α)) ≠ .panic m
  /-- `publish` and `publish_movable` never return `(None, None)` -/
  publish : ∀ r, .publish r ∈ s.returned → r ≠ (none, none) ∧ ∀ c m, send c r ≠ .panic m ∧ sendWith c r ≠ .panic m
  /-- what is read of the `n`-th element is what its producer stored -/
  consume : ∀ n lenAfter item, .consume n lenAfter item ∈ s.returned → s.published[n]? = some item
  read : ∀ n item, .read n item ∈ s.returned → s.published[n]? = some item
  /-- every element published has been taken, or is in the queue with its payload -/
  elems : s.takes ≤ s.published.length ∧
    (s.queued B).map (fun slotId => s.z.allocator.pool slotId.toNat) = s.published.drop s.takes

theorem Inv.sound (h : Inv B s) (hB : B < 2 ^ 32) : Sound B s := by
  have hcalls : (s.byProducers ++ s.byConsumers).Perm (s.calls.map Call.slot) := by
    rw [Sys.byProducers, Sys.byConsumers, ← List.map_append]
    exact (List.filter_append_perm _ _).map _
  refine ⟨?_, fun r hr => ?_, fun r hr => ?_, fun n lenAfter item hr => h.returned _ hr, fun n item hr => h.returned _ hr,
    h.le, h.elems⟩
  · rw [← map_toNat_idRange hB, List.append_assoc]
    exact ((hcalls.append_left _).trans h.places).map _
  · have hne : r ≠ none := h.returned _ hr
    exact ⟨hne, fun c m => sendWithAsync_ne_panic hne m⟩
  · have hne : r ≠ (none, none) := h.returned _ hr
    exact ⟨hne, fun c m => ⟨ofPublish_ne_panic hne m, ofPublish_ne_panic hne m⟩⟩

/-- The zero-copy queues never swallow an element. -/
theorem zeroCopy_sound (hB : Ring.PowerOfTwo B) (hlt : B < 2 ^ 32) {pool : Nat → α}
    (h : Machine.Steps (Sys.step B) (fun _ _ _ => True) (.init B pool) s) : Sound B s := by
  refine Inv.sound ?_ hlt
  refine h.invariant (I := Inv B) ?_ (.init hB pool)
  intro s l s' hi hs _
  exact hi.step hB hs

end Inv

/-- Two slots: an item is published and consumed, its slot leaked again, written twice and published by its
reference, while another publication finds no slot and a consumer still holds the other one. -/
theorem zeroCopy_sound_reused : ∃ s : Sys FullSyncMove FullSyncMove Nat, s.published = [7, 8, 10] ∧ s.takes = 2 ∧
    s.byConsumers = [1] ∧ s.queued 2 = [0] ∧ s.returned.length = 6 ∧ Sound 2 s := by
  have hrun : (Machine.exec (Sys.step 2) (.init 2 fun _ => 0 : Sys FullSyncMove FullSyncMove Nat)
      [.publish (.movable 7) false, .run 0, .publish (.setter (fun _ => 8)) false, .run 1, .run 0, .run 0,
       .publish (.movable 5) false, .consume false, .run 0, .run 0, .run 0, .leakSlot false, .write 0 (fun _ => 9),
       .consumeLeaking false, .write 1 (fun v => v + 1), .read 1, .publishLeaked 0 true]).map
      (fun s => decide (s.published = [7, 8, 10] ∧ s.takes = 2 ∧ s.byConsumers = [1] ∧ s.queued 2 = [0] ∧
        s.returned.length = 6)) = some true := by decide +kernel
  obtain ⟨s, hs, ht⟩ := Option.map_eq_some_iff.mp hrun
  rw [decide_eq_true_iff] at ht
  obtain ⟨h₁, h₂, h₃, h₄, h₅⟩ := ht
  exact ⟨s, h₁, h₂, h₃, h₄, h₅, zeroCopy_sound ⟨1, rfl⟩ (by decide) (Machine.Path.of_exec hs).steps⟩

/-- The free list of `2 ^ 32` slots is filled from `0..POOL_SIZE as u32`, which is empty. -/
theorem unfilled_pool : ∃ s : Sys FullSyncMove FullSyncMove Nat,
    Machine.Steps (Sys.step (2 ^ 32)) (fun _ _ _ => True) (.init (2 ^ 32) fun _ => 0) s ∧ ¬ Sound (2 ^ 32) s := by
  refine ⟨_, .refl, fun h => ?_⟩
  have hlen := h.places.length_eq
  have hfree : (Sys.init (2 ^ 32) fun _ => 0 : Sys FullSyncMove FullSyncMove Nat).free (2 ^ 32) =
      idRange 0 (UInt32.ofNat (2 ^ 32)) := (Store.free_new ⟨32, rfl⟩ _).2
  have hqueue : (Sys.init (2 ^ 32) fun _ => 0 : Sys FullSyncMove FullSyncMove Nat).queued (2 ^ 32) = [] :=
    LawfulMoveContainer.init_elems _
  have h₁ : (Sys.init (2 ^ 32) fun _ => 0 : Sys FullSyncMove FullSyncMove Nat).byProducers = [] := rfl
  have h₂ : (Sys.init (2 ^ 32) fun _ => 0 : Sys FullSyncMove FullSyncMove Nat).byConsumers = [] := rfl
  rw [hfree, hqueue, h₁, h₂, List.length_map, List.append_nil, List.append_nil, List.append_nil, length_idRange,
    List.length_range, UInt32.toNat_ofNat'] at hlen
  omega

end ZeroCopy
end Mutiny
