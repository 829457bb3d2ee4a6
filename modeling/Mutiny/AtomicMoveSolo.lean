import Mutiny.AtomicMove
import Mutiny.FullSyncMove
import Mutiny.Lib.Machine

/-!
# `AtomicMove`, one call at a time

A call of `publish_movable` or `consume_movable` that no other thread interferes with. `publishMovable`
and `consumeMovable` are the two functions as they stand in the source, with their loops run once:
alone, the compare-exchange after a failed test succeeds at once. `publish_alone` and `consume_alone`
say that this is what the atomic operations of the call add up to.

Between two calls `enqueuer_tail = tail` and `dequeuer_head = head`, and the rest of the state is that
of a `FullSyncMove`, as which the queue then behaves.
-/

namespace Mutiny.AtomicMove
variable {α τ : Type} {B : Nat} {q : AtomicMove α}

def publishMovable (B : Nat) (q : AtomicMove α) (item : α) : AtomicMove α × Option UInt32 × Option α :=
  let slotId := q.enqueuerTail
  let lenBefore := slotId - q.head
  if lenBefore < UInt32.ofNat B then
    ({ q with enqueuerTail := slotId + 1, buffer := Function.update q.buffer (slotIndex B slotId) item,
              tail := slotId + 1 }, FullSyncMove.nonZeroU32 (lenBefore + 1), none)
  else ({ q with enqueuerTail := slotId }, none, some item)

/-- `publish(setter_fn, || false, report_len_after_enqueueing_fn)`: the length reported, if any. -/
def publish (B : Nat) (q : AtomicMove α) (setterFn : α → α) : AtomicMove α × Option UInt32 :=
  let slotId := q.enqueuerTail
  let lenBefore := slotId - q.head
  if lenBefore < UInt32.ofNat B then
    let stored := setterFn (q.buffer (slotIndex B slotId))
    ({ q with enqueuerTail := slotId + 1, buffer := Function.update q.buffer (slotIndex B slotId) stored,
              tail := slotId + 1 }, some (lenBefore + 1))
  else ({ q with enqueuerTail := slotId }, none)

def consumeMovable (B : Nat) (q : AtomicMove α) : AtomicMove α × Option α :=
  let slotId := q.dequeuerHead
  let lenBefore := (q.tail - slotId).toInt32
  if 0 < lenBefore then
    ({ q with dequeuerHead := slotId + 1, head := slotId + 1 }, some (q.buffer (slotIndex B slotId)))
  else ({ q with dequeuerHead := slotId }, none)

def availableElementsCount (q : AtomicMove α) : UInt32 := q.tail - q.head

def peekRemaining (B : Nat) (q : AtomicMove α) : List α :=
  let headIndex := slotIndex B q.head
  let tailIndex := slotIndex B q.tail
  if q.head = q.tail then []
  else if headIndex < tailIndex then (List.range (tailIndex - headIndex)).map fun i => q.buffer (headIndex + i)
  else ((List.range (B - headIndex)).map fun i => q.buffer (headIndex + i)) ++ (List.range tailIndex).map q.buffer

def Quiet (q : AtomicMove α) : Prop := q.enqueuerTail = q.tail ∧ q.dequeuerHead = q.head

/-! ### The atomic operations of an undisturbed call -/

/-- Where a thread stands that called `publish_movable`, by what the call returned. -/
def Op.ofPublish (lenBefore : UInt32) : Option α → Op α
  | some item => .refused (.movable item)
  | none => .published lenBefore

/-- Where a thread stands that called `consume_movable`, by what the call returned. -/
def Op.ofConsume : Option α → Op α
  | some item => .taken item
  | none => .empty

section Alone
variable [DecidableEq τ] {s : Sys τ α} {t : τ}

theorem publish_alone (ht : (s.op t).atRest = true) (hq : s.q.Quiet) (item : α) :
    (Machine.exec (Sys.step B) s (.publish t (.movable item) :: List.replicate 4 (.run t false false))).map
      (fun s' => (s'.q, s'.op t)) =
    some ((s.q.publishMovable B item).1,
      .ofPublish (s.q.enqueuerTail - s.q.head) (s.q.publishMovable B item).2.2) := by
  have hcas : s.q.tail = s.q.enqueuerTail := hq.1.symm
  by_cases hlen : s.q.enqueuerTail - s.q.head < UInt32.ofNat B
  · simp only [List.replicate, Machine.exec_cons, Sys.step, Sys.call, ht, if_true, Option.bind_some, Sys.run, Sys.setOp,
      Function.update_self, hlen, hcas, and_self, Payload.store, publishMovable, Op.ofPublish]
    simp [Machine.exec]
  · simp only [List.replicate, Machine.exec_cons, Sys.step, Sys.call, ht, if_true, Option.bind_some, Sys.run, Sys.setOp,
      Function.update_self, hlen, if_false, and_self, Payload.reportFull, publishMovable, Op.ofPublish]
    simp [Machine.exec]

theorem publish_setter_alone (ht : (s.op t).atRest = true) (hq : s.q.Quiet) (setterFn : α → α) :
    (Machine.exec (Sys.step B) s (.publish t (.setter setterFn) :: List.replicate 4 (.run t false false))).map
      (fun s' => (s'.q, s'.op t)) =
    some ((s.q.publish B setterFn).1,
      match (s.q.publish B setterFn).2 with
      | some _ => .published (s.q.enqueuerTail - s.q.head)
      | none => .refused (.setter setterFn)) := by
  have hcas : s.q.tail = s.q.enqueuerTail := hq.1.symm
  by_cases hlen : s.q.enqueuerTail - s.q.head < UInt32.ofNat B
  · simp only [List.replicate, Machine.exec_cons, Sys.step, Sys.call, ht, if_true, Option.bind_some, Sys.run, Sys.setOp,
      Function.update_self, hlen, hcas, and_self, Payload.store, publish]
    simp [Machine.exec]
  · simp only [List.replicate, Machine.exec_cons, Sys.step, Sys.call, ht, if_true, Option.bind_some, Sys.run, Sys.setOp,
      Function.update_self, hlen, if_false, and_self, Payload.reportFull, publish]
    simp [Machine.exec]

theorem consume_alone (ht : (s.op t).atRest = true) (hq : s.q.Quiet) :
    ∃ k, (Machine.exec (Sys.step B) s (.consume t :: List.replicate k (.run t false false))).map
      (fun s' => (s'.q, s'.op t)) = some ((s.q.consumeMovable B).1, .ofConsume (s.q.consumeMovable B).2) := by
  have hcas : s.q.head = s.q.dequeuerHead := hq.2.symm
  by_cases hlen : 0 < (s.q.tail - s.q.dequeuerHead).toInt32
  · refine ⟨4, ?_⟩
    simp only [List.replicate, Machine.exec_cons, Sys.step, Sys.call, ht, if_true, Option.bind_some, Sys.run, Sys.setOp,
      Function.update_self, hlen, hcas, and_self, consumeMovable, Op.ofConsume]
    simp [Machine.exec]
  · refine ⟨3, ?_⟩
    simp only [List.replicate, Machine.exec_cons, Sys.step, Sys.call, ht, if_true, Option.bind_some, Sys.run, Sys.setOp,
      Function.update_self, hlen, if_false, and_self, consumeMovable, Op.ofConsume]
    simp [Machine.exec]

end Alone

/-! ### As a `FullSyncMove` -/

/-- The queue without its reservation counters. -/
def sync (q : AtomicMove α) : FullSyncMove α := ⟨q.head, q.tail, q.buffer⟩

/-- The quiet queue with given counters and buffer. -/
def ofSync (q : FullSyncMove α) : AtomicMove α := ⟨q.head, q.tail, q.buffer, q.head, q.tail⟩

theorem Quiet.eq_ofSync (h : q.Quiet) : q = ofSync q.sync := by
  obtain ⟨h₁, h₂⟩ := h
  cases q
  simp_all [ofSync, sync]

theorem publishMovable_ofSync (q : FullSyncMove α) (item : α) : (ofSync q).publishMovable B item =
    (ofSync (q.publishMovable B item).1, (q.publishMovable B item).2) := by
  unfold publishMovable FullSyncMove.publishMovable FullSyncMove.leakSlot
  by_cases h : q.tail - q.head < UInt32.ofNat B
  · simp [ofSync, h, FullSyncMove.publishLeaked, slotIndex]
  · simp [ofSync, h]

theorem publish_ofSync (q : FullSyncMove α) (setterFn : α → α) : (ofSync q).publish B setterFn =
    (ofSync (q.publish B setterFn).1, (q.publish B setterFn).2) := by
  unfold publish FullSyncMove.publish FullSyncMove.leakSlot
  by_cases h : q.tail - q.head < UInt32.ofNat B
  · simp [ofSync, h, FullSyncMove.publishLeaked, slotIndex]
  · simp [ofSync, h]

theorem consumeMovable_ofSync (q : FullSyncMove α) : (ofSync q).consumeMovable B =
    (ofSync (q.consumeMovable B).1, (q.consumeMovable B).2) := by
  unfold consumeMovable FullSyncMove.consumeMovable FullSyncMove.availableElementsCount
  by_cases h : 0 < (q.tail - q.head).toInt32
  · simp only [ofSync, h, if_true, slotIndex]
  · simp only [ofSync, h, if_false]

theorem Quiet.publishMovable (h : q.Quiet) (item : α) : (q.publishMovable B item).1.Quiet ∧
    (q.publishMovable B item).1.sync = (q.sync.publishMovable B item).1 ∧
    (q.publishMovable B item).2 = (q.sync.publishMovable B item).2 := by
  rw [h.eq_ofSync, publishMovable_ofSync]
  exact ⟨⟨rfl, rfl⟩, rfl, rfl⟩

theorem Quiet.consumeMovable (h : q.Quiet) : (q.consumeMovable B).1.Quiet ∧
    (q.consumeMovable B).1.sync = (q.sync.consumeMovable B).1 ∧
    (q.consumeMovable B).2 = (q.sync.consumeMovable B).2 := by
  rw [h.eq_ofSync, consumeMovable_ofSync]
  exact ⟨⟨rfl, rfl⟩, rfl, rfl⟩

instance : LawfulMoveContainer AtomicMove where
  withInitializer := withInitializer
  publishMovable B q := q.publishMovable B
  consumeMovable B q := q.consumeMovable B
  WellFormed B q := q.Quiet ∧ q.sync.WellFormed B
  elems B q := q.sync.elems B
  init_wf buffer := ⟨⟨rfl, rfl⟩, LawfulMoveContainer.init_wf (C := FullSyncMove) buffer⟩
  init_elems buffer := LawfulMoveContainer.init_elems (C := FullSyncMove) buffer
  length_le h := LawfulMoveContainer.length_le (C := FullSyncMove) h.2
  publish_room hB h hlt := by
    obtain ⟨h₁, h₂, h₃⟩ := h.1.publishMovable (B := _) _
    rw [h₂, h₃]
    obtain ⟨h₄, h₅⟩ := LawfulMoveContainer.publish_room (C := FullSyncMove) hB h.2 hlt
    exact ⟨⟨h₁, h₄⟩, h₅⟩
  publish_full h hlt := by
    rw [h.1.eq_ofSync, publishMovable_ofSync, FullSyncMove.publishMovable_full]
    rwa [FullSyncMove.length_elems] at hlt
  consume_some h hq hlt := by
    obtain ⟨h₁, h₂, h₃⟩ := h.1.consumeMovable
    rw [h₂, h₃]
    obtain ⟨h₄, h₅⟩ := FullSyncMove.consumeMovable_some h.2 hq hlt
    exact ⟨⟨h₁, h₄⟩, h₅⟩
  consume_none h hq := by
    rw [h.1.eq_ofSync, consumeMovable_ofSync, FullSyncMove.consumeMovable_none hq]

end Mutiny.AtomicMove
