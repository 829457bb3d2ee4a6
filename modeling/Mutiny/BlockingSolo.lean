import Mutiny.AtomicMoveSolo
import Mutiny.BlockingTimeout
import Mutiny.Lib.Plain
import Mutiny.ZeroCopySolo

/-!
# The blocking queue, one call at a time

The four operations of `BlockingQueue` while no other thread acts; what they do is what the steps of their thread do
(`Timed.perform_run`). `report_empty` and `report_full` lock a guard that nobody will unlock: they wait forever, or return
`false` after the timeout.

`dequeue` opens `full_guard` when it took an element of a full queue. `try_dequeue` compares the length it has left with
itself less one, and so it never does. From `2 ^ 31` slots on the allocator of the base queue has none to give: a free
list of that length takes itself for empty.
-/

namespace Mutiny
namespace BlockingQueue
open Plain (Outcome)

/-- `AtomicZeroCopy<SlotType, OgreArrayPoolAllocator<SlotType, AtomicMove<u32, BUFFER_SIZE>, BUFFER_SIZE>, BUFFER_SIZE>` -/
abbrev BaseQueue (α : Type) := ZeroCopy AtomicMove AtomicMove α

/-- The queue and its guards between two calls. -/
structure Contents (β : Type) where
  baseQueue : β
  fullGuard : Bool
  emptyGuard : Bool
deriving DecidableEq

/-- `size as i32 - 1` -/
def lessOne (checks : Bool) (size : Nat) : Option Int32 :=
  if checks = true ∧ Int32.ofNat size = Int32.minValue then none else some (Int32.ofNat size - 1)

namespace Contents

section Guards
variable {β γ : Type}

def map (f : β → γ) (q : Contents β) : Contents γ := ⟨f q.baseQueue, q.fullGuard, q.emptyGuard⟩

/-- A call that waits forever goes on `spinning`. -/
def reportEmpty (lockTimeoutMillis : Nat) (q : Contents β) : Outcome (Contents β) :=
  if lockTimeoutMillis = 0 then .spinning else .returned { q with emptyGuard := true }

def reportFull (lockTimeoutMillis : Nat) (q : Contents β) : Outcome (Contents β) :=
  if lockTimeoutMillis = 0 then .spinning else .returned { q with fullGuard := true }

def reportNoLongerEmpty (q : Contents β) : Contents β :=
  if q.emptyGuard then { q with emptyGuard := false } else q

def reportNoLongerFull (q : Contents β) : Contents β :=
  if q.fullGuard then { q with fullGuard := false } else q

/-- `report_len_after_dequeueing_fn(len)`; the two operations differ in the `size`. -/
def reportLen (checks : Bool) (size : Nat) (q : Contents β) (len : Int32) : Outcome (Contents β) :=
  match lessOne checks size with
  | none => .panicked
  | some full => .returned (if len = full then q.reportNoLongerFull else q)

end Guards

variable {α : Type}

def new (B : Nat) (pool : Nat → α) : Contents (BaseQueue α) := ⟨.new B pool, true, true⟩

/-- `base_queue.max_size()` or `base_queue.available_elements_count()` -/
def size (B : Nat) (blocking : Bool) (q : Contents (BaseQueue α)) : Nat :=
  if blocking then B else q.baseQueue.queue.availableElementsCount.toNat

/-- `base_queue.consume(|slot| *slot, report_empty_fn, report_len_after_dequeueing_fn)` -/
def consume (B : Nat) (q : Contents (BaseQueue α))
    (reportEmptyFn : Contents (BaseQueue α) → Outcome (Contents (BaseQueue α)))
    (reportLenAfterDequeueingFn : Contents (BaseQueue α) → Int32 → Outcome (Contents (BaseQueue α))) :
    Outcome (Contents (BaseQueue α) × Option α) :=
  match q.baseQueue.consumeLeaking B with
  | (z, some slotId) =>
    let lenAfterDequeueing := Int32.ofNat z.queue.availableElementsCount.toNat
    let retVal := z.allocator.refFromId B slotId
    (reportLenAfterDequeueingFn { q with baseQueue := z.deallocId B slotId } lenAfterDequeueing).map (·, some retVal)
  | (z, none) => (reportEmptyFn { q with baseQueue := z }).map (·, none)

/-- `enqueue` and `try_enqueue` differ in what they do when the element is refused. -/
def publish (B : Nat) (q : Contents (BaseQueue α)) (element : α)
    (refused : Contents (BaseQueue α) → Outcome (Contents (BaseQueue α))) : Outcome (Contents (BaseQueue α) × Option α) :=
  match q.baseQueue.publishMovable B element with
  | (z, some lenAfter, _) =>
    let q := { q with baseQueue := z }
    .returned (if lenAfter = 1 then q.reportNoLongerEmpty else q, none)
  | (z, none, someElement) => (refused { q with baseQueue := z }).map (·, someElement)

def enqueue (B lockTimeoutMillis : Nat) (q : Contents (BaseQueue α)) (element : α) :
    Outcome (Contents (BaseQueue α) × Option α) :=
  q.publish B element (reportFull lockTimeoutMillis)

def tryEnqueue (B : Nat) (q : Contents (BaseQueue α)) (element : α) : Outcome (Contents (BaseQueue α) × Option α) :=
  q.publish B element fun q => .returned { q with fullGuard := true }

/-- The length is compared with `max_size()`. -/
def dequeue (checks : Bool) (B lockTimeoutMillis : Nat) (q : Contents (BaseQueue α)) :
    Outcome (Contents (BaseQueue α) × Option α) :=
  q.consume B (reportEmpty lockTimeoutMillis) fun q => q.reportLen checks (q.size B true)

/-- The length is compared with `available_elements_count()`. -/
def tryDequeue (checks : Bool) (B : Nat) (q : Contents (BaseQueue α)) : Outcome (Contents (BaseQueue α) × Option α) :=
  q.consume B (fun q => .returned { q with emptyGuard := true }) fun q => q.reportLen checks (q.size B false)

end Contents

inductive Request (α : Type)
  | enqueue (element : α)
  | tryEnqueue (element : α)
  | dequeue
  | tryDequeue

namespace Contents
variable {α : Type}

def perform (checks : Bool) (B lockTimeoutMillis : Nat) (q : Contents (BaseQueue α)) :
    Request α → Outcome (Contents (BaseQueue α) × Option α)
  | .enqueue element => q.enqueue B lockTimeoutMillis element
  | .tryEnqueue element => q.tryEnqueue B element
  | .dequeue => q.dequeue checks B lockTimeoutMillis
  | .tryDequeue => q.tryDequeue checks B

def step (checks : Bool) (B lockTimeoutMillis : Nat) (q : Contents (BaseQueue α)) (r : Request α) :
    Option (Contents (BaseQueue α)) :=
  match q.perform checks B lockTimeoutMillis r with
  | .returned (q, _) => some q
  | _ => none

def view (B : Nat) (q : Contents (BaseQueue α)) : Contents (List α) := q.map (·.elements B)

/-- The blocking operations and the others do the same on a queue that is not empty, resp. not full. -/
structure Agree (checks : Bool) (B lockTimeoutMillis : Nat) (q : Contents (BaseQueue α)) : Prop where
  dequeue : q.baseQueue.elements B ≠ [] → q.dequeue checks B lockTimeoutMillis = q.tryDequeue checks B
  enqueue : (q.baseQueue.elements B).length < B →
    ∀ element, q.enqueue B lockTimeoutMillis element = q.tryEnqueue B element

end Contents

/-! ### The lengths compared -/

section Lengths
variable {checks : Bool} {n B : Nat}

theorem ofNat_eq_sub_one (n B : Nat) : Int32.ofNat n = Int32.ofNat B - 1 ↔ (n + 1) % 2 ^ 32 = B % 2 ^ 32 := by
  rw [← Int32.toBitVec_inj, Int32.toBitVec_sub, ← BitVec.toNat_inj]
  simp
  omega

theorem ofNat_eq_minValue (n : Nat) : Int32.ofNat n = Int32.minValue ↔ n % 2 ^ 32 = 2 ^ 31 := by
  rw [← Int32.toBitVec_inj, ← BitVec.toNat_inj]
  simp

theorem lessOne_of_lt (hn : n < 2 ^ 31) : lessOne checks n = some (Int32.ofNat n - 1) := by
  refine if_neg fun h => ?_
  have := (ofNat_eq_minValue n).1 h.2
  omega

end Lengths

/-! ### The base queue -/

section Base
variable {α : Type} {B : Nat} {z : BaseQueue α}

/-- Every slot is free or queued, and from `2 ^ 31` slots on none was ever queued. -/
structure Ok (B : Nat) (z : BaseQueue α) : Prop where
  settled : z.Settled B []
  empty_of_le : 2 ^ 31 ≤ B → z.elements B = []

theorem length_elements (B : Nat) (z : BaseQueue α) : (z.elements B).length = (z.queuedIds B).length := List.length_map _

theorem toNat_availableElementsCount (B : Nat) (z : BaseQueue α) :
    z.queue.availableElementsCount.toNat = (z.queuedIds B).length :=
  (FullSyncMove.length_elems (B := B) (q := z.queue.sync)).symm

theorem ok_new (hB : Ring.PowerOfTwo B) (pool : Nat → α) : Ok B (.new B pool) := by
  refine ⟨.new hB pool, fun _ => ?_⟩
  have hqueue : (.new B pool : BaseQueue α).queuedIds B = [] := LawfulMoveContainer.init_elems _
  rw [ZeroCopy.elements, hqueue]
  rfl

namespace Ok

theorem room_eq (hlt : B < 2 ^ 31) : Ring.room B = B := Wrap.toNat_ofNat_of_lt (by omega)

theorem length_le (h : Ok B z) : (z.elements B).length ≤ B := by
  by_cases hlt : B < 2 ^ 31
  · have hlen := h.settled.length_eq
    rw [length_elements]
    rw [room_eq hlt, List.length_nil] at hlen
    omega
  · rw [h.empty_of_le (by omega)]
    exact Nat.zero_le _

theorem length_lt (h : Ok B z) : (z.elements B).length < 2 ^ 31 := by
  by_cases hlt : B < 2 ^ 31
  · exact Nat.lt_of_le_of_lt h.length_le hlt
  · rw [h.empty_of_le (by omega)]
    exact Nat.two_pow_pos 31

theorem hasSlot_iff (h : Ok B z) (hB : Ring.PowerOfTwo B) :
    z.HasSlot B ↔ B < 2 ^ 31 ∧ (z.elements B).length < B := by
  have hlen := h.settled.length_eq
  rw [List.length_nil, Nat.add_zero, ← length_elements] at hlen
  unfold ZeroCopy.HasSlot
  rw [← List.length_pos_iff]
  by_cases hlt : B < 2 ^ 31
  · rw [room_eq hlt] at hlen
    omega
  · rw [h.empty_of_le (by omega), List.length_nil] at hlen
    rcases hB.room_cases with ⟨hroom, -, -⟩ | hroom <;> omega

theorem publish_cases (h : Ok B z) (hB : Ring.PowerOfTwo B) (item : α) :
    (∃ z', z.publishMovable B item = (z', some (UInt32.ofNat ((z.elements B).length + 1)), none) ∧ Ok B z' ∧
      z'.elements B = z.elements B ++ [item] ∧ B < 2 ^ 31 ∧ (z.elements B).length < B) ∨
    (z.publishMovable B item = (z, none, some item) ∧ ¬ (B < 2 ^ 31 ∧ (z.elements B).length < B)) := by
  rcases h.settled.publishMovable_cases hB item with ⟨z', hpub, hsettled, hel, hslot⟩ | ⟨hpub, hslot⟩
  · have hlt := (h.hasSlot_iff hB).mp hslot
    rw [← length_elements] at hpub
    exact .inl ⟨z', hpub, ⟨hsettled, fun hle => absurd hlt.1 (by omega)⟩, hel, hlt⟩
  · exact .inr ⟨hpub, fun hlt => hslot ((h.hasSlot_iff hB).mpr hlt)⟩

theorem consume_cases (h : Ok B z) (hB : Ring.PowerOfTwo B) :
    (∃ z' slotId rest, z.consumeLeaking B = (z', some slotId) ∧
      z.elements B = z'.allocator.refFromId B slotId :: rest ∧ z'.queue.availableElementsCount.toNat = rest.length ∧
      Ok B (z'.deallocId B slotId) ∧ (z'.deallocId B slotId).elements B = rest ∧ B < 2 ^ 31) ∨
    (z.consumeLeaking B = (z, none) ∧ z.elements B = []) := by
  have hlt := h.length_lt
  rcases h.settled.consume_cases hB with ⟨z', slotId, rest, hconsume, hel, hlen, hsettled, hel'⟩ | ⟨hnone, hempty⟩
  · have hB' : B < 2 ^ 31 := by
      by_contra hle
      rw [h.empty_of_le (by omega)] at hel
      cases hel
    refine .inl ⟨z', slotId, rest, hconsume, hel, ?_, ⟨hsettled, fun hle => absurd hB' (by omega)⟩, hel', hB'⟩
    rw [toNat_availableElementsCount B, hlen]
  · rw [← length_elements] at hempty
    refine .inr ⟨hnone, ?_⟩
    rcases hempty with hempty | hle
    · rw [ZeroCopy.elements, hempty]
      rfl
    · omega

end Ok
end Base

namespace Contents
variable {α : Type} {checks : Bool} {B lockTimeoutMillis : Nat} {q q' : Contents (BaseQueue α)}

theorem reportNoLongerFull_eq_self_iff {β : Type} {q : Contents β} : q.reportNoLongerFull = q ↔ q.fullGuard = false := by
  unfold reportNoLongerFull
  cases hg : q.fullGuard with
  | false => simp
  | true =>
    simp only [if_true, Bool.true_eq_false, iff_false]
    intro he
    have := congrArg Contents.fullGuard he
    rw [hg] at this
    cases this

theorem publish_cases (h : Ok B q.baseQueue) (hB : Ring.PowerOfTwo B) (element : α) :
    (∃ z, (∀ refused, q.publish B element refused =
        .returned (if (q.baseQueue.elements B).length + 1 = 1 then reportNoLongerEmpty { q with baseQueue := z }
          else { q with baseQueue := z }, none)) ∧
      Ok B z ∧ z.elements B = q.baseQueue.elements B ++ [element] ∧ B < 2 ^ 31 ∧ (q.baseQueue.elements B).length < B) ∨
    ((∀ refused, q.publish B element refused = (refused q).map (·, some element)) ∧
      ¬ (B < 2 ^ 31 ∧ (q.baseQueue.elements B).length < B)) := by
  unfold publish
  rcases h.publish_cases hB element with ⟨z, hpub, hok, hel, hlt⟩ | ⟨hpub, hfull⟩
  · have hone : UInt32.ofNat ((q.baseQueue.elements B).length + 1) = 1 ↔ (q.baseQueue.elements B).length + 1 = 1 := by
      rw [← UInt32.toNat_inj, Wrap.toNat_ofNat_of_lt (by omega)]
      rfl
    refine .inl ⟨z, fun refused => ?_, hok, hel, hlt⟩
    rw [hpub]
    simp only [hone]
  · refine .inr ⟨fun refused => ?_, hfull⟩
    rw [hpub]

theorem consume_cases (h : Ok B q.baseQueue) (hB : Ring.PowerOfTwo B) :
    (∃ z item rest, (∀ f g, q.consume B f g =
        (g { q with baseQueue := z } (Int32.ofNat rest.length)).map (·, some item)) ∧
      q.baseQueue.elements B = item :: rest ∧ z.queue.availableElementsCount.toNat = rest.length ∧ Ok B z ∧
      z.elements B = rest ∧ B < 2 ^ 31) ∨
    ((∀ f g, q.consume B f g = (f q).map (·, none)) ∧ q.baseQueue.elements B = []) := by
  unfold consume
  rcases h.consume_cases hB with ⟨z, slotId, rest, hconsume, hel, hlen, hok, hel', hlt⟩ | ⟨hnone, hempty⟩
  · refine .inl ⟨z.deallocId B slotId, z.allocator.refFromId B slotId, rest, fun f g => ?_, hel, hlen, hok, hel', hlt⟩
    rw [hconsume]
    simp only [hlen]
  · refine .inr ⟨fun f g => ?_, hempty⟩
    rw [hnone]

theorem tryDequeue_eq {z : BaseQueue α} {item : α} {rest : List α}
    (hconsume : ∀ f g, q.consume B f g = (g { q with baseQueue := z } (Int32.ofNat rest.length)).map (·, some item))
    (hlen : z.queue.availableElementsCount.toNat = rest.length) (hrest : rest.length < 2 ^ 31) :
    q.tryDequeue checks B = .returned ({ q with baseQueue := z }, some item) := by
  have hne : ¬ Int32.ofNat rest.length = Int32.ofNat rest.length - 1 := by
    rw [ofNat_eq_sub_one]
    omega
  simp only [tryDequeue, hconsume, size, hlen, Bool.false_eq_true, if_false, reportLen, lessOne_of_lt hrest, if_neg hne]
  rfl

theorem dequeue_eq {z : BaseQueue α} {item : α} {rest : List α}
    (hconsume : ∀ f g, q.consume B f g = (g { q with baseQueue := z } (Int32.ofNat rest.length)).map (·, some item))
    (hrest : rest.length < B) (hB : B < 2 ^ 31) :
    q.dequeue checks B lockTimeoutMillis = .returned
      (if rest.length + 1 = B then reportNoLongerFull { q with baseQueue := z } else { q with baseQueue := z },
        some item) := by
  have hiff : Int32.ofNat rest.length = Int32.ofNat B - 1 ↔ rest.length + 1 = B := by
    rw [ofNat_eq_sub_one]
    omega
  simp only [dequeue, hconsume, size, if_true, reportLen, lessOne_of_lt hB, hiff]
  rfl

theorem dequeue_agree_iff (h : Ok B q.baseQueue) (hB : Ring.PowerOfTwo B) :
    (q.baseQueue.elements B ≠ [] → q.dequeue checks B lockTimeoutMillis = q.tryDequeue checks B) ↔
      ¬ ((q.baseQueue.elements B).length = B ∧ q.fullGuard = true) := by
  rcases consume_cases h hB with ⟨z, item, rest, hconsume, hel, hlen, -, -, hlt⟩ | ⟨-, hempty⟩
  · have hle := h.length_le
    rw [hel, List.length_cons] at hle ⊢
    rw [tryDequeue_eq hconsume hlen (by omega), dequeue_eq hconsume (by omega) hlt]
    by_cases hfull : rest.length + 1 = B
    · simp only [hfull, ne_eq, reduceCtorEq, not_false_eq_true, forall_const, if_true, Outcome.returned.injEq,
        Prod.mk.injEq, and_true, true_and, reportNoLongerFull_eq_self_iff, Bool.not_eq_true]
    · simp [hfull]
  · have := hB.pos
    simp [hempty, Nat.ne_of_lt this]

theorem enqueue_agree_iff (h : Ok B q.baseQueue) (hB : Ring.PowerOfTwo B) :
    ((q.baseQueue.elements B).length < B → ∀ element, q.enqueue B lockTimeoutMillis element = q.tryEnqueue B element) ↔
      B < 2 ^ 31 ∨ lockTimeoutMillis ≠ 0 := by
  unfold enqueue tryEnqueue
  by_cases hlt : B < 2 ^ 31
  · refine iff_of_true (fun hroom element => ?_) (.inl hlt)
    rcases publish_cases h hB element with ⟨z, hpub, -⟩ | ⟨-, hfull⟩
    · rw [hpub, hpub]
    · exact absurd ⟨hlt, hroom⟩ hfull
  · have hroom : (q.baseQueue.elements B).length < B := by
      rw [h.empty_of_le (by omega)]
      exact hB.pos
    have hrefused : ∀ element refused, q.publish B element refused = (refused q).map (·, some element) := by
      intro element
      rcases publish_cases h hB element with ⟨-, -, -, -, hlt', -⟩ | ⟨hpub, -⟩
      · exact absurd hlt' hlt
      · exact hpub
    simp only [hroom, forall_const, hrefused, hlt, false_or, reportFull]
    by_cases ht : lockTimeoutMillis = 0
    · simp only [ht, if_true, ne_eq, not_true_eq_false, iff_false]
      intro hall
      cases hall (q.baseQueue.allocator.pool 0)
    · simp [ht]

theorem agree_iff (h : Ok B q.baseQueue) (hB : Ring.PowerOfTwo B) : q.Agree checks B lockTimeoutMillis ↔
    ¬ ((q.baseQueue.elements B).length = B ∧ q.fullGuard = true) ∧ (B < 2 ^ 31 ∨ lockTimeoutMillis ≠ 0) := by
  rw [← dequeue_agree_iff h hB, ← enqueue_agree_iff h hB]
  exact ⟨fun ha => ⟨ha.dequeue, ha.enqueue⟩, fun ha => ⟨ha.1, ha.2⟩⟩

/-! ### Runs of calls -/

section Runs
variable {β : Type} {q q' : Contents β}

@[simp] theorem reportNoLongerEmpty_baseQueue : q.reportNoLongerEmpty.baseQueue = q.baseQueue := by
  unfold reportNoLongerEmpty
  split <;> rfl

@[simp] theorem reportNoLongerFull_baseQueue : q.reportNoLongerFull.baseQueue = q.baseQueue := by
  unfold reportNoLongerFull
  split <;> rfl

theorem reportEmpty_baseQueue (h : q.reportEmpty lockTimeoutMillis = .returned q') : q'.baseQueue = q.baseQueue := by
  unfold reportEmpty at h
  split at h
  · cases h
  · cases h
    rfl

theorem reportFull_baseQueue (h : q.reportFull lockTimeoutMillis = .returned q') : q'.baseQueue = q.baseQueue := by
  unfold reportFull at h
  split at h
  · cases h
  · cases h
    rfl

theorem reportLen_baseQueue {size : Nat} {len : Int32} (h : q.reportLen checks size len = .returned q') :
    q'.baseQueue = q.baseQueue := by
  unfold reportLen at h
  split at h
  · cases h
  · cases h
    split <;> simp

end Runs

theorem ok_publish {refused : Contents (BaseQueue α) → Outcome (Contents (BaseQueue α))} {element : α}
    {answer : Option α} (h : Ok B q.baseQueue) (hB : Ring.PowerOfTwo B)
    (hr : ∀ q q', refused q = .returned q' → q'.baseQueue = q.baseQueue)
    (hs : q.publish B element refused = .returned (q', answer)) : Ok B q'.baseQueue := by
  rcases publish_cases h hB element with ⟨z, hpub, hok, -⟩ | ⟨hpub, -⟩
  · rw [hpub] at hs
    cases hs
    split <;> simpa using hok
  · rw [hpub] at hs
    obtain ⟨r, ho, he⟩ := Plain.Outcome.of_map_eq hs
    cases he
    rwa [hr _ _ ho]

theorem ok_consume {f : Contents (BaseQueue α) → Outcome (Contents (BaseQueue α))}
    {g : Contents (BaseQueue α) → Int32 → Outcome (Contents (BaseQueue α))} {item : Option α} (h : Ok B q.baseQueue)
    (hB : Ring.PowerOfTwo B) (hf : ∀ q q', f q = .returned q' → q'.baseQueue = q.baseQueue)
    (hg : ∀ q q' len, g q len = .returned q' → q'.baseQueue = q.baseQueue)
    (hs : q.consume B f g = .returned (q', item)) : Ok B q'.baseQueue := by
  rcases consume_cases h hB with ⟨z, x, rest, hconsume, -, -, hok, -⟩ | ⟨hconsume, -⟩
  · rw [hconsume] at hs
    obtain ⟨r, ho, he⟩ := Plain.Outcome.of_map_eq hs
    cases he
    rw [hg _ _ _ ho]
    exact hok
  · rw [hconsume] at hs
    obtain ⟨r, ho, he⟩ := Plain.Outcome.of_map_eq hs
    cases he
    rwa [hf _ _ ho]

theorem ok_step {r : Request α} (h : Ok B q.baseQueue) (hB : Ring.PowerOfTwo B)
    (hs : q.step checks B lockTimeoutMillis r = some q') : Ok B q'.baseQueue := by
  cases hp : q.perform checks B lockTimeoutMillis r with
  | panicked | spinning => simp [step, hp] at hs
  | returned ret =>
    obtain rfl : ret.1 = q' := by simpa [step, hp] using hs
    cases r with
    | enqueue element =>
      rw [perform, enqueue] at hp
      exact ok_publish h hB (fun _ _ => reportFull_baseQueue) hp
    | tryEnqueue element =>
      rw [perform, tryEnqueue] at hp
      refine ok_publish h hB (fun q q' hr => ?_) hp
      cases hr
      rfl
    | dequeue =>
      rw [perform, dequeue] at hp
      exact ok_consume h hB (fun _ _ => reportEmpty_baseQueue) (fun _ _ _ => reportLen_baseQueue) hp
    | tryDequeue =>
      rw [perform, tryDequeue] at hp
      refine ok_consume h hB (fun q q' hf => ?_) (fun _ _ _ => reportLen_baseQueue) hp
      cases hf
      rfl

theorem ok_exec {calls : List (Request α)} (h : Ok B q.baseQueue) (hB : Ring.PowerOfTwo B)
    (hs : Machine.exec (step checks B lockTimeoutMillis) q calls = some q') : Ok B q'.baseQueue :=
  (Machine.Path.of_exec hs).steps.invariant (I := fun q => Ok B q.baseQueue) (fun _ _ _ h hs _ => ok_step h hB hs) h

/-- After any sequence of calls, `dequeue` and `try_dequeue` agree on a non-empty queue unless it is full and its guard
locked; and `enqueue` and `try_enqueue` agree on a queue that is not full unless it never has room and the wait no end. -/
theorem blocking_agree_iff (hB : Ring.PowerOfTwo B) {pool : Nat → α} {calls : List (Request α)}
    (hq : Machine.exec (step checks B lockTimeoutMillis) (new B pool) calls = some q) :
    q.Agree checks B lockTimeoutMillis ↔
      ¬ ((q.baseQueue.elements B).length = B ∧ q.fullGuard = true) ∧ (B < 2 ^ 31 ∨ lockTimeoutMillis ≠ 0) :=
  agree_iff (ok_exec (ok_new hB pool) hB hq) hB

theorem blocking_agree_two : ∃ q : Contents (BaseQueue Nat), Machine.exec (step true 2 100) (new 2 fun _ => 0)
    [.dequeue, .tryEnqueue 5, .enqueue 6, .dequeue] = some q ∧ q.view 2 = ⟨[6], false, false⟩ ∧ q.Agree true 2 100 := by
  have hq : (Machine.exec (step true 2 100) (new 2 fun _ => 0 : Contents (BaseQueue Nat))
      [.dequeue, .tryEnqueue 5, .enqueue 6, .dequeue]).map (view 2) = some ⟨[6], false, false⟩ := by decide +kernel
  obtain ⟨q, hq, hv⟩ := Option.map_eq_some_iff.mp hq
  refine ⟨q, hq, hv, (blocking_agree_iff ⟨1, rfl⟩ hq).2 ⟨fun h => ?_, .inr (by decide)⟩⟩
  have hfull : q.fullGuard = false := congrArg Contents.fullGuard hv
  rw [hfull] at h
  cases h.2

/-- With one slot that is taken, `dequeue` opens the guard that a producer waits for and `try_dequeue` leaves it locked. -/
theorem tryDequeue_keeps_guard : ∃ q : Contents (BaseQueue Nat),
    Machine.exec (step false 1 0) (new 1 fun _ => 0) [.enqueue 7] = some q ∧ q.view 1 = ⟨[7], true, false⟩ ∧
    (q.dequeue false 1 0).map (fun r => (r.1.view 1, r.2)) = .returned (⟨[], false, false⟩, some 7) ∧
    (q.tryDequeue false 1).map (fun r => (r.1.view 1, r.2)) = .returned (⟨[], true, false⟩, some 7) ∧
    ¬ q.Agree false 1 0 := by
  have hrun : (Machine.exec (step false 1 0) (new 1 fun _ => 0 : Contents (BaseQueue Nat)) [.enqueue 7]).map (fun q =>
      decide (q.view 1 = ⟨[7], true, false⟩ ∧
        (q.dequeue false 1 0).map (fun r => (r.1.view 1, r.2)) = .returned (⟨[], false, false⟩, some 7) ∧
        (q.tryDequeue false 1).map (fun r => (r.1.view 1, r.2)) = .returned (⟨[], true, false⟩, some 7))) =
      some true := by decide +kernel
  obtain ⟨q, hq, ht⟩ := Option.map_eq_some_iff.mp hrun
  rw [decide_eq_true_iff] at ht
  obtain ⟨hv, hd, htd⟩ := ht
  refine ⟨q, hq, hv, hd, htd, fun ha => ?_⟩
  have hel : q.baseQueue.elements 1 = [7] := congrArg Contents.baseQueue hv
  rw [ha.dequeue (by simp [hel]), htd] at hd
  cases hd

end Contents

/-! ### The steps of a call -/

namespace Request
variable {τ α : Type}

def label (t : τ) : Request α → Label τ α
  | enqueue element => .enqueue t element
  | tryEnqueue element => .tryEnqueue t element
  | dequeue => .dequeue t
  | tryDequeue => .tryDequeue t

/-- Where a thread stands that has returned. -/
def returned (item : Option α) : Request α → Op α
  | enqueue _ | tryEnqueue _ => .enqueued item
  | dequeue | tryDequeue => .dequeued item

end Request

namespace Contents
variable {β γ : Type}

theorem map_reportNoLongerEmpty (f : β → γ) (q : Contents β) :
    q.reportNoLongerEmpty.map f = (q.map f).reportNoLongerEmpty := by
  unfold reportNoLongerEmpty
  rw [apply_ite (map f)]
  rfl

theorem map_reportNoLongerFull (f : β → γ) (q : Contents β) :
    q.reportNoLongerFull.map f = (q.map f).reportNoLongerFull := by
  unfold reportNoLongerFull
  rw [apply_ite (map f)]
  rfl

end Contents

namespace Timed
variable {τ α : Type} [DecidableEq τ] {B lockTimeoutMillis : Nat} {s : Timed τ α} {t : τ} {q : Contents (List α)}

def contents (s : Timed τ α) : Contents (List α) := ⟨s.queue.baseQueue, s.queue.fullGuard, s.queue.emptyGuard⟩

/-- The thread goes on alone until it returns. -/
def RunsTo (B lockTimeoutMillis : Nat) (s : Timed τ α) (t : τ) (q : Contents (List α)) (o : Op α) : Prop :=
  ∃ labels : List (Label τ α), (∀ l ∈ labels, l = .untimed (.run t) ∨ l = .timeOut t) ∧
    (Machine.exec (step B lockTimeoutMillis) s labels).map (fun s => (s.contents, s.queue.op t)) = some (q, o)

theorem RunsTo.here {o : Op α} (hq : s.contents = q) (ho : s.queue.op t = o) : RunsTo B lockTimeoutMillis s t q o :=
  ⟨[], by simp, by simp [Machine.exec, hq, ho]⟩

theorem RunsTo.run {o : Op α} (queue : BlockingQueue τ α) (hrun : s.queue.run B t = some queue)
    (h : ∀ call, RunsTo B lockTimeoutMillis ⟨queue, call⟩ t q o) : RunsTo B lockTimeoutMillis s t q o := by
  obtain ⟨labels, hl, he⟩ := h (s.calls (.run t))
  refine ⟨.untimed (.run t) :: labels, ?_, ?_⟩
  · intro l hmem
    rcases List.mem_cons.mp hmem with rfl | hmem
    · exact .inl rfl
    · exact hl l hmem
  · have hstep : s.step B lockTimeoutMillis (.untimed (.run t)) = some ⟨queue, s.calls (.run t)⟩ := by
      show (s.queue.run B t).map _ = _
      rw [hrun]
      rfl
    rw [Machine.exec_cons, hstep]
    exact he

theorem RunsTo.timeOut {o : Op α} (hne : lockTimeoutMillis ≠ 0)
    (ho : (s.queue.op t = .emptyLock ∧ o = .dequeued none) ∨
      ∃ element, s.queue.op t = .fullLock element ∧ o = .enqueued (some element)) :
    RunsTo B lockTimeoutMillis s t s.contents o := by
  refine ⟨[.timeOut t], by simp, ?_⟩
  rcases ho with ⟨ho, rfl⟩ | ⟨element, ho, rfl⟩ <;>
    simp [Machine.exec, step, hne, ho, giveUp, contents, setOp]

theorem RunsTo.emptyCheck (ho : s.queue.op t = .emptyCheck) :
    RunsTo B lockTimeoutMillis s t s.contents.reportNoLongerEmpty (.enqueued none) := by
  by_cases hg : s.queue.emptyGuard = true
  · refine .run (s.queue.setOp t .emptyUnlock) (by simp [BlockingQueue.run, ho, hg]) fun call => ?_
    refine .run ({ s.queue with emptyGuard := false }.setOp t (.enqueued none)) ?_ fun call => .here ?_ ?_
    · simp [BlockingQueue.run, setOp]
    · simp [contents, Contents.reportNoLongerEmpty, hg, setOp]
    · simp [setOp]
  · refine .run (s.queue.setOp t (.enqueued none)) (by simp [BlockingQueue.run, ho, hg]) fun call => .here ?_ ?_
    · simp [contents, Contents.reportNoLongerEmpty, hg, setOp]
    · simp [setOp]

theorem RunsTo.fullCheck {item : α} (ho : s.queue.op t = .fullCheck item) :
    RunsTo B lockTimeoutMillis s t s.contents.reportNoLongerFull (.dequeued (some item)) := by
  by_cases hg : s.queue.fullGuard = true
  · refine .run (s.queue.setOp t (.fullUnlock item)) (by simp [BlockingQueue.run, ho, hg]) fun call => ?_
    refine .run ({ s.queue with fullGuard := false }.setOp t (.dequeued (some item))) ?_ fun call => .here ?_ ?_
    · simp [BlockingQueue.run, setOp]
    · simp [contents, Contents.reportNoLongerFull, hg, setOp]
    · simp [setOp]
  · refine .run (s.queue.setOp t (.dequeued (some item))) (by simp [BlockingQueue.run, ho, hg]) fun call =>
      .here ?_ ?_
    · simp [contents, Contents.reportNoLongerFull, hg, setOp]
    · simp [setOp]

theorem RunsTo.published {element : α} (hlt : s.queue.baseQueue.length < B)
    (ho : s.queue.op t = .publish element ∨ s.queue.op t = .tryPublish element)
    (hq : q = { s.contents with baseQueue := s.queue.baseQueue ++ [element] }) :
    RunsTo B lockTimeoutMillis s t (if s.queue.baseQueue.length + 1 = 1 then q.reportNoLongerEmpty else q)
      (.enqueued none) := by
  subst hq
  have hrun : ∀ refused, s.queue.publishMovable B t element refused =
      { s.queue with baseQueue := s.queue.baseQueue ++ [element] }.setOp t
        (if s.queue.baseQueue.length + 1 = 1 then .emptyCheck else .enqueued none) := by
    intro refused
    simp only [publishMovable, if_pos hlt]
  refine .run ({ s.queue with baseQueue := s.queue.baseQueue ++ [element] }.setOp t
    (if s.queue.baseQueue.length + 1 = 1 then .emptyCheck else .enqueued none)) ?_ fun call => ?_
  · rcases ho with ho | ho <;> simp only [BlockingQueue.run, ho, hrun]
  · split
    · exact .emptyCheck (by simp [setOp])
    · exact .here rfl (by simp [setOp])

theorem RunsTo.consumed (blocking : Bool) {item : α} {rest : List α} (hq : s.queue.baseQueue = item :: rest)
    (ho : s.queue.op t = .consume blocking)
    (hr : ({ s.contents with baseQueue := rest } : Contents (List α)).reportLen false (if blocking then B else rest.length)
      (Int32.ofNat rest.length) = .returned q) : RunsTo B lockTimeoutMillis s t q (.dequeued (some item)) := by
  generalize hsize : (if blocking then B else rest.length) = size at hr
  let queue : BlockingQueue τ α := { s.queue with baseQueue := rest }
  refine .run (queue.setOp t (.count blocking item rest.length)) ?_ fun call => ?_
  · simp [BlockingQueue.run, ho, hq, queue]
  refine .run (queue.setOp t (.report blocking item (Int32.ofNat rest.length))) ?_ fun call => ?_
  · simp [BlockingQueue.run, setOp, queue]
  refine .run (queue.setOp t
    (if Int32.ofNat rest.length = Int32.ofNat size - 1 then .fullCheck item else .dequeued (some item))) ?_ fun call => ?_
  · simp [BlockingQueue.run, setOp, queue, hsize]
  · simp only [Contents.reportLen, lessOne, Bool.false_eq_true, false_and, if_false, Outcome.returned.injEq] at hr
    subst hr
    split
    · exact .fullCheck (by simp [setOp])
    · exact .here rfl (by simp [setOp])

omit [DecidableEq τ] in
theorem contents_eq {q : Contents (BaseQueue α)} (h : s.contents = q.view B) :
    s.queue.baseQueue = q.baseQueue.elements B ∧ s.queue.fullGuard = q.fullGuard ∧ s.queue.emptyGuard = q.emptyGuard :=
  ⟨congrArg Contents.baseQueue h, congrArg Contents.fullGuard h, congrArg Contents.emptyGuard h⟩

/-- The element is taken by `publish_movable` of `enqueue` or `try_enqueue`. -/
theorem RunsTo.accepted {q : Contents (BaseQueue α)} {z : BaseQueue α} {element : α} (h : s.contents = q.view B)
    (ho : s.queue.op t = .publish element ∨ s.queue.op t = .tryPublish element)
    (hel : z.elements B = q.baseQueue.elements B ++ [element]) (hlt : (q.baseQueue.elements B).length < B) :
    RunsTo B lockTimeoutMillis s t
      ((if (q.baseQueue.elements B).length + 1 = 1 then Contents.reportNoLongerEmpty { q with baseQueue := z }
        else { q with baseQueue := z } : Contents (BaseQueue α)).view B) (.enqueued none) := by
  obtain ⟨hbase, hfull, hempty⟩ := contents_eq h
  rw [← hbase] at hlt hel ⊢
  rw [apply_ite (Contents.view B), Contents.view, Contents.view, Contents.map_reportNoLongerEmpty]
  refine .published hlt ho ?_
  simp only [Contents.map, contents, hel, hfull, hempty]

/-- `enqueue` finds no room and gives up waiting for it. -/
theorem RunsTo.refused {element : α} (hne : lockTimeoutMillis ≠ 0) (ho : s.queue.op t = .publish element)
    (hroom : ¬ s.queue.baseQueue.length < B) :
    RunsTo B lockTimeoutMillis s t ⟨s.queue.baseQueue, true, s.queue.emptyGuard⟩ (.enqueued (some element)) := by
  refine .run (s.queue.setOp t (.fullTry element)) ?_ fun call => ?_
  · simp [BlockingQueue.run, publishMovable, ho, hroom]
  refine .run ({ s.queue with fullGuard := true }.setOp t (.fullLock element)) ?_ fun call => ?_
  · simp [BlockingQueue.run, setOp]
  exact .timeOut hne (.inr ⟨element, by simp [setOp], rfl⟩)

theorem RunsTo.tryRefused {element : α} (ho : s.queue.op t = .tryPublish element)
    (hroom : ¬ s.queue.baseQueue.length < B) :
    RunsTo B lockTimeoutMillis s t ⟨s.queue.baseQueue, true, s.queue.emptyGuard⟩ (.enqueued (some element)) := by
  refine .run (s.queue.setOp t (.tryFull element)) ?_ fun call => ?_
  · simp [BlockingQueue.run, publishMovable, ho, hroom]
  refine .run ({ s.queue with fullGuard := true }.setOp t (.enqueued (some element))) ?_ fun call => ?_
  · simp [BlockingQueue.run, setOp]
  exact .here rfl (by simp [setOp])

/-- `dequeue` finds no element and gives up waiting for one. -/
theorem RunsTo.foundEmpty (hne : lockTimeoutMillis ≠ 0) (ho : s.queue.op t = .consume true)
    (hnil : s.queue.baseQueue = []) :
    RunsTo B lockTimeoutMillis s t ⟨s.queue.baseQueue, s.queue.fullGuard, true⟩ (.dequeued none) := by
  refine .run (s.queue.setOp t .emptyTry) (by simp [BlockingQueue.run, ho, hnil]) fun call => ?_
  refine .run ({ s.queue with emptyGuard := true }.setOp t .emptyLock) ?_ fun call => ?_
  · simp [BlockingQueue.run, setOp]
  exact .timeOut hne (.inl ⟨by simp [setOp], rfl⟩)

theorem RunsTo.tryFoundEmpty (ho : s.queue.op t = .consume false) (hnil : s.queue.baseQueue = []) :
    RunsTo B lockTimeoutMillis s t ⟨s.queue.baseQueue, s.queue.fullGuard, true⟩ (.dequeued none) := by
  refine .run (s.queue.setOp t .tryEmpty) (by simp [BlockingQueue.run, ho, hnil]) fun call => ?_
  refine .run ({ s.queue with emptyGuard := true }.setOp t (.dequeued none)) ?_ fun call => ?_
  · simp [BlockingQueue.run, setOp]
  exact .here rfl (by simp [setOp])

/-- `dequeue` or `try_dequeue` takes the first element. -/
theorem RunsTo.taken (blocking : Bool) {q q' : Contents (BaseQueue α)} {z : BaseQueue α} {item : α} {rest : List α}
    (h : s.contents = q.view B) (ho : s.queue.op t = .consume blocking) (hel : q.baseQueue.elements B = item :: rest)
    (hel' : z.elements B = rest) (hlen : z.queue.availableElementsCount.toNat = rest.length)
    (hr : ({ q with baseQueue := z } : Contents (BaseQueue α)).reportLen false
      (({ q with baseQueue := z } : Contents (BaseQueue α)).size B blocking) (Int32.ofNat rest.length) = .returned q') :
    RunsTo B lockTimeoutMillis s t (q'.view B) (.dequeued (some item)) := by
  obtain ⟨hbase, hfull, hempty⟩ := contents_eq h
  refine .consumed blocking (hbase.trans hel) ho ?_
  simp only [Contents.reportLen, lessOne, Bool.false_eq_true, false_and, if_false, Outcome.returned.injEq] at hr ⊢
  rw [← hr, apply_ite (Contents.view B), Contents.view, Contents.view, Contents.map_reportNoLongerFull]
  simp only [Contents.map, Contents.size, contents, hel', hlen, hfull, hempty]

theorem perform_run (hB : Ring.PowerOfTwo B) (hlt : B < 2 ^ 31) {q q' : Contents (BaseQueue α)} {r : Request α}
    {item : Option α} (hok : Ok B q.baseQueue) (hq : s.contents = q.view B) (hrest : (s.queue.op t).atRest = true)
    (h : q.perform false B lockTimeoutMillis r = .returned (q', item)) :
    ∃ queue, s.queue.step B (r.label t) = some queue ∧
      ∀ call, RunsTo B lockTimeoutMillis ⟨queue, call⟩ t (q'.view B) (r.returned item) := by
  have hcall : ∀ o, s.queue.call t o = some (s.queue.setOp t o) := fun o => if_pos hrest
  obtain ⟨hbase, hfull, hempty⟩ := contents_eq hq
  cases r with
  | enqueue element =>
    refine ⟨_, hcall _, fun call => ?_⟩
    rw [Contents.perform, Contents.enqueue] at h
    rcases Contents.publish_cases hok hB element with ⟨z, hpub, -, hel, -, hroom⟩ | ⟨hpub, hnone⟩
    · rw [hpub] at h
      cases h
      exact .accepted hq (.inl (by simp [setOp])) hel hroom
    · rw [hpub, Contents.reportFull] at h
      have hroom : ¬ s.queue.baseQueue.length < B := hbase ▸ fun hroom => hnone ⟨hlt, hroom⟩
      split at h
      case isTrue => cases h
      case isFalse hne =>
        cases h
        rw [Contents.view, Contents.map, ← hbase, ← hempty]
        exact .refused hne (by simp [setOp]) hroom
  | tryEnqueue element =>
    refine ⟨_, hcall _, fun call => ?_⟩
    rw [Contents.perform, Contents.tryEnqueue] at h
    rcases Contents.publish_cases hok hB element with ⟨z, hpub, -, hel, -, hroom⟩ | ⟨hpub, hnone⟩
    · rw [hpub] at h
      cases h
      exact .accepted hq (.inr (by simp [setOp])) hel hroom
    · rw [hpub] at h
      cases h
      have hroom : ¬ s.queue.baseQueue.length < B := hbase ▸ fun hroom => hnone ⟨hlt, hroom⟩
      rw [Contents.view, Contents.map, ← hbase, ← hempty]
      exact .tryRefused (by simp [setOp]) hroom
  | dequeue =>
    refine ⟨_, hcall _, fun call => ?_⟩
    rw [Contents.perform, Contents.dequeue] at h
    rcases Contents.consume_cases hok hB with ⟨z, x, rest, hconsume, hel, hlen, -, hel', -⟩ | ⟨hconsume, hnil⟩
    · rw [hconsume] at h
      obtain ⟨q₁, hr, he⟩ := Plain.Outcome.of_map_eq h
      cases he
      exact .taken true hq (by simp [setOp]) hel hel' hlen hr
    · rw [hconsume, Contents.reportEmpty] at h
      rw [hnil] at hbase
      split at h
      case isTrue => cases h
      case isFalse hne =>
        cases h
        rw [Contents.view, Contents.map, hnil, ← hbase, ← hfull]
        exact .foundEmpty hne (by simp [setOp]) hbase
  | tryDequeue =>
    refine ⟨_, hcall _, fun call => ?_⟩
    rw [Contents.perform, Contents.tryDequeue] at h
    rcases Contents.consume_cases hok hB with ⟨z, x, rest, hconsume, hel, hlen, -, hel', -⟩ | ⟨hconsume, hnil⟩
    · rw [hconsume] at h
      obtain ⟨q₁, hr, he⟩ := Plain.Outcome.of_map_eq h
      cases he
      exact .taken false hq (by simp [setOp]) hel hel' hlen hr
    · rw [hconsume] at h
      cases h
      rw [hnil] at hbase
      rw [Contents.view, Contents.map, hnil, ← hbase, ← hfull]
      exact .tryFoundEmpty (by simp [setOp]) hbase

end Timed

end BlockingQueue
end Mutiny
