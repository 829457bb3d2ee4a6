import Mathlib.Data.Finset.Card
import Mathlib.Logic.Function.Basic

/-!
# `AtomicMove`, one atomic operation at a time

The queue of `ogre_queues/atomic/atomic_move.rs` under sequentially consistent interleaving: every
`load`, `fetch_add` and `compare_exchange_weak` on the four counters and every slot access is one
step of the thread that performs it. `Op` is where a thread stands inside `publish_movable`,
`publish` or `consume_movable`; `Sys.run` is its next atomic operation.

Besides the queue and the threads, `Sys` records what has been published and consumed, in order.
Nothing in the code reads these two logs.
-/

namespace Mutiny

/-- `AtomicMove<SlotType, BUFFER_SIZE>`; only the indexes below `BUFFER_SIZE` of `buffer` are used. -/
structure AtomicMove (α : Type) where
  head : UInt32
  enqueuerTail : UInt32
  buffer : Nat → α
  dequeuerHead : UInt32
  tail : UInt32

namespace AtomicMove
variable {α τ : Type}

/-- `with_initializer`: all counters at zero. -/
def withInitializer (buffer : Nat → α) : AtomicMove α := ⟨0, 0, buffer, 0, 0⟩

/-- `slot_id as usize % BUFFER_SIZE` -/
def slotIndex (B : Nat) (slotId : UInt32) : Nat := slotId.toNat % B

/-- What is to be published: the item of `publish_movable` or the `setter_fn` of `publish`. -/
inductive Payload (α : Type)
  | movable (item : α)
  | setter (setterFn : α → α)

/-- The slot after `ptr::write(slot_ref, item)`, or after `setter_fn(slot_ref)`. -/
def Payload.store : Payload α → α → α
  | movable item, _ => item
  | setter setterFn, slot => setterFn slot

/-- `publish_movable` passes `|| false` as `report_full_fn`; the one of `publish` may answer anything. -/
def Payload.reportFull : Payload α → Bool → Bool
  | movable _, _ => false
  | setter _, answer => answer

/-- Where a thread stands. The constructors up to `refused` belong to `publish_movable` and
`publish`, the ones from `consumeReserve` on to `consume_movable`. -/
inductive Op (α : Type)
  | idle
  -- `leak_slot_internal`: about to `enqueuer_tail.fetch_add(1)`
  | leakReserve (p : Payload α)
  -- `leak_slot_internal`: about to load `head` and test `len_before < BUFFER_SIZE`
  | leakCheck (p : Payload α) (slotId : UInt32)
  -- `try_unleak_slot_internal(slot_id)`
  | leakRecede (p : Payload α) (slotId : UInt32)
  -- about to call `report_full_fn()`
  | leakReport (p : Payload α)
  -- about to fill the slot
  | slotWrite (p : Payload α) (slotId lenBefore : UInt32)
  -- `publish_leaked_internal(slot_id)`; `stored` is what the thread put into the slot
  | publishLeaked (p : Payload α) (slotId lenBefore : UInt32) (stored : α)
  -- returned `(NonZeroU32::new(len_before+1), None)`; `publish` also reported that length
  | published (lenBefore : UInt32)
  -- returned `(None, Some(item))`, resp. `Some(setter_fn)`
  | refused (p : Payload α)
  -- `consume_leaking_internal`: about to `dequeuer_head.fetch_add(1)`
  | consumeReserve
  -- `consume_leaking_internal`: about to load `tail` and test `len_before > 0`
  | consumeCheck (slotId : UInt32)
  -- `consume_leaking_internal`: about to set `dequeuer_head` back
  | consumeRecede (slotId : UInt32)
  -- about to `ptr::read(slot_ref)`
  | slotRead (slotId : UInt32)
  -- `release_leaked_internal(slot_id)`
  | releaseLeaked (slotId : UInt32) (item : α)
  -- returned `Some(item)`
  | taken (item : α)
  -- returned `None`
  | empty

namespace Op

def atRest : Op α → Bool
  | idle | published _ | refused _ | taken _ | empty => true
  | _ => false

/-- The slot id held by a publisher in progress. -/
def prodSlot : Op α → Option UInt32
  | leakCheck _ slotId | leakRecede _ slotId | slotWrite _ slotId _ | publishLeaked _ slotId _ _ => some slotId
  | _ => none

/-- The slot id held by a consumer in progress. -/
def consSlot : Op α → Option UInt32
  | consumeCheck slotId | consumeRecede slotId | slotRead slotId | releaseLeaked slotId _ => some slotId
  | _ => none

/-- The slot id a publisher may write to: its bound check succeeded and it has not published yet. -/
def writing : Op α → Option UInt32
  | slotWrite _ slotId _ | publishLeaked _ slotId _ _ => some slotId
  | _ => none

/-- The slot id a consumer may read from: its bound check succeeded and it has not released yet. -/
def reading : Op α → Option UInt32
  | slotRead slotId | releaseLeaked slotId _ => some slotId
  | _ => none

/-- The slot id whose buffer index the thread is entitled to access. -/
def entitled (o : Op α) : Option UInt32 := o.writing.or o.reading

end Op

/-- One publication: by which call of which thread, under which id, and what was stored. -/
structure Put (τ α : Type) where
  thread : τ
  call : Nat
  slotId : UInt32
  payload : Payload α
  value : α

/-- One consumption: by which call of which thread, of which id, and what was returned. -/
structure Took (τ α : Type) where
  thread : τ
  call : Nat
  slotId : UInt32
  value : α

/-- The queue, its threads and its history; `calls t` counts the calls thread `t` has made. -/
structure Sys (τ α : Type) where
  q : AtomicMove α
  op : τ → Op α
  calls : τ → Nat
  published : List (Put τ α)
  consumed : List (Took τ α)

inductive Label (τ α : Type)
  -- thread `t` calls `publish_movable(item)` or `publish(setter_fn, report_full_fn, ..)`
  | publish (t : τ) (p : Payload α)
  -- thread `t` calls `consume_movable()`
  | consume (t : τ)
  -- the next atomic operation of thread `t`: a `compare_exchange_weak` fails if `spurious`, a
  -- `report_full_fn` answers `answer`
  | run (t : τ) (spurious answer : Bool)

namespace Sys

def init (buffer : Nat → α) : Sys τ α :=
  ⟨.withInitializer buffer, fun _ => .idle, fun _ => 0, [], []⟩

/-- Fewer than `k` operations are in progress. -/
def InFlightBelow (s : Sys τ α) (k : Nat) : Prop :=
  ∀ F : Finset τ, (∀ t ∈ F, (s.op t).atRest = false) → F.card < k

variable [DecidableEq τ]

def setOp (s : Sys τ α) (t : τ) (o : Op α) : Sys τ α := { s with op := Function.update s.op t o }

/-- A thread that is not inside a call starts one. -/
def call (s : Sys τ α) (t : τ) (o : Op α) : Option (Sys τ α) :=
  if (s.op t).atRest then some { s.setOp t o with calls := Function.update s.calls t (s.calls t + 1) }
  else none

/-- The next atomic operation of thread `t`. -/
def run (B : Nat) (s : Sys τ α) (t : τ) (spurious answer : Bool) : Option (Sys τ α) :=
  match s.op t with
  | .idle | .published _ | .refused _ | .taken _ | .empty => none
  | .leakReserve p =>
    some ({ s with q := { s.q with enqueuerTail := s.q.enqueuerTail + 1 } }.setOp t
      (.leakCheck p s.q.enqueuerTail))
  | .leakCheck p slotId =>
    let lenBefore := slotId - s.q.head
    if lenBefore < UInt32.ofNat B then some (s.setOp t (.slotWrite p slotId lenBefore))
    else some (s.setOp t (.leakRecede p slotId))
  | .leakRecede p slotId =>
    if spurious = false ∧ s.q.enqueuerTail = slotId + 1 then
      some ({ s with q := { s.q with enqueuerTail := slotId } }.setOp t (.leakReport p))
    else some (s.setOp t (.leakCheck p slotId))
  | .leakReport p =>
    if p.reportFull answer then some (s.setOp t (.leakReserve p)) else some (s.setOp t (.refused p))
  | .slotWrite p slotId lenBefore =>
    let stored := p.store (s.q.buffer (slotIndex B slotId))
    some ({ s with q := { s.q with buffer := Function.update s.q.buffer (slotIndex B slotId) stored } }.setOp t
      (.publishLeaked p slotId lenBefore stored))
  | .publishLeaked p slotId lenBefore stored =>
    if spurious = false ∧ s.q.tail = slotId then
      some ({ s with q := { s.q with tail := slotId + 1 },
                     published := s.published ++ [Put.mk t (s.calls t) slotId p stored] }.setOp t
        (.published lenBefore))
    else some s
  | .consumeReserve =>
    some ({ s with q := { s.q with dequeuerHead := s.q.dequeuerHead + 1 } }.setOp t
      (.consumeCheck s.q.dequeuerHead))
  | .consumeCheck slotId =>
    let lenBefore := (s.q.tail - slotId).toInt32
    if 0 < lenBefore then some (s.setOp t (.slotRead slotId)) else some (s.setOp t (.consumeRecede slotId))
  | .consumeRecede slotId =>
    if spurious = false ∧ s.q.dequeuerHead = slotId + 1 then
      some ({ s with q := { s.q with dequeuerHead := slotId } }.setOp t .empty)
    else some (s.setOp t (.consumeCheck slotId))
  | .slotRead slotId =>
    some (s.setOp t (.releaseLeaked slotId (s.q.buffer (slotIndex B slotId))))
  | .releaseLeaked slotId item =>
    if spurious = false ∧ s.q.head = slotId then
      some ({ s with q := { s.q with head := slotId + 1 },
                     consumed := s.consumed ++ [Took.mk t (s.calls t) slotId item] }.setOp t (.taken item))
    else some s

def step (B : Nat) (s : Sys τ α) : Label τ α → Option (Sys τ α)
  | .publish t p => s.call t (.leakReserve p)
  | .consume t => s.call t .consumeReserve
  | .run t spurious answer => s.run B t spurious answer

theorem q_of_call {s s' : Sys τ α} {t : τ} {o : Op α} (h : s.call t o = some s') : s'.q = s.q := by
  simp only [call, Option.ite_none_right_eq_some, Option.some.injEq] at h
  rw [← h.2]
  rfl

theorem op_of_call {s s' : Sys τ α} {t : τ} {o : Op α} (h : s.call t o = some s') :
    s'.op = Function.update s.op t o := by
  simp only [call, Option.ite_none_right_eq_some, Option.some.injEq] at h
  rw [← h.2]
  rfl

/-- Everything the next atomic operation of `t` can do. -/
inductive Moves (B : Nat) (s : Sys τ α) (t : τ) : Sys τ α → Prop
  | leakReserve {p : Payload α} (h : s.op t = .leakReserve p) :
    Moves B s t ({ s with q := { s.q with enqueuerTail := s.q.enqueuerTail + 1 } }.setOp t
      (.leakCheck p s.q.enqueuerTail))
  | leakOk {p : Payload α} {slotId : UInt32} (h : s.op t = .leakCheck p slotId)
    (hlen : slotId - s.q.head < UInt32.ofNat B) :
    Moves B s t (s.setOp t (.slotWrite p slotId (slotId - s.q.head)))
  | leakFull {p : Payload α} {slotId : UInt32} (h : s.op t = .leakCheck p slotId)
    (hlen : ¬ slotId - s.q.head < UInt32.ofNat B) : Moves B s t (s.setOp t (.leakRecede p slotId))
  | leakRecede {p : Payload α} {slotId : UInt32} (h : s.op t = .leakRecede p slotId)
    (hcas : s.q.enqueuerTail = slotId + 1) :
    Moves B s t ({ s with q := { s.q with enqueuerTail := slotId } }.setOp t (.leakReport p))
  | leakRetry {p : Payload α} {slotId : UInt32} (h : s.op t = .leakRecede p slotId) :
    Moves B s t (s.setOp t (.leakCheck p slotId))
  | leakAgain {p : Payload α} (h : s.op t = .leakReport p) : Moves B s t (s.setOp t (.leakReserve p))
  | leakRefuse {p : Payload α} (h : s.op t = .leakReport p) : Moves B s t (s.setOp t (.refused p))
  | write {p : Payload α} {slotId lenBefore : UInt32} (h : s.op t = .slotWrite p slotId lenBefore)
    (stored : α) (hv : stored = p.store (s.q.buffer (slotIndex B slotId))) :
    Moves B s t ({ s with
        q := { s.q with buffer := Function.update s.q.buffer (slotIndex B slotId) stored } }.setOp t
      (.publishLeaked p slotId lenBefore stored))
  | publish {p : Payload α} {slotId lenBefore : UInt32} {stored : α}
    (h : s.op t = .publishLeaked p slotId lenBefore stored) (hcas : s.q.tail = slotId) :
    Moves B s t ({ s with q := { s.q with tail := slotId + 1 },
                          published := s.published ++ [Put.mk t (s.calls t) slotId p stored] }.setOp t
      (.published lenBefore))
  | consumeReserve (h : s.op t = .consumeReserve) :
    Moves B s t ({ s with q := { s.q with dequeuerHead := s.q.dequeuerHead + 1 } }.setOp t
      (.consumeCheck s.q.dequeuerHead))
  | consumeOk {slotId : UInt32} (h : s.op t = .consumeCheck slotId)
    (hlen : 0 < (s.q.tail - slotId).toInt32) : Moves B s t (s.setOp t (.slotRead slotId))
  | consumeNone {slotId : UInt32} (h : s.op t = .consumeCheck slotId)
    (hlen : ¬ 0 < (s.q.tail - slotId).toInt32) : Moves B s t (s.setOp t (.consumeRecede slotId))
  | consumeRecede {slotId : UInt32} (h : s.op t = .consumeRecede slotId)
    (hcas : s.q.dequeuerHead = slotId + 1) :
    Moves B s t ({ s with q := { s.q with dequeuerHead := slotId } }.setOp t .empty)
  | consumeRetry {slotId : UInt32} (h : s.op t = .consumeRecede slotId) :
    Moves B s t (s.setOp t (.consumeCheck slotId))
  | read {slotId : UInt32} (h : s.op t = .slotRead slotId) :
    Moves B s t (s.setOp t (.releaseLeaked slotId (s.q.buffer (slotIndex B slotId))))
  | release {slotId : UInt32} {item : α} (h : s.op t = .releaseLeaked slotId item)
    (hcas : s.q.head = slotId) :
    Moves B s t ({ s with q := { s.q with head := slotId + 1 },
                          consumed := s.consumed ++ [Took.mk t (s.calls t) slotId item] }.setOp t
      (.taken item))
  -- a failed `compare_exchange_weak` of `publish_leaked_internal` or `release_leaked_internal`
  | spin (h : (s.op t).entitled.isSome) : Moves B s t s

theorem moves_of_run {B : Nat} {s s' : Sys τ α} {t : τ} {spurious answer : Bool}
    (h : s.run B t spurious answer = some s') : Moves B s t s' := by
  cases hop : s.op t with
  | idle | published _ | refused _ | taken _ | empty => simp [run, hop] at h
  | leakReserve p =>
    simp only [run, hop] at h
    cases h
    exact .leakReserve hop
  | leakCheck p slotId =>
    simp only [run, hop] at h
    split_ifs at h with hlen <;> cases h
    · exact .leakOk hop hlen
    · exact .leakFull hop hlen
  | leakRecede p slotId =>
    simp only [run, hop] at h
    split_ifs at h with hc <;> cases h
    · exact .leakRecede hop hc.2
    · exact .leakRetry hop
  | leakReport p =>
    simp only [run, hop] at h
    split_ifs at h <;> cases h
    · exact .leakAgain hop
    · exact .leakRefuse hop
  | slotWrite p slotId lenBefore =>
    simp only [run, hop] at h
    cases h
    exact .write hop _ rfl
  | publishLeaked p slotId lenBefore stored =>
    simp only [run, hop] at h
    split_ifs at h with hc <;> cases h
    · exact .publish hop hc.2
    · exact .spin (by rw [hop]; rfl)
  | consumeReserve =>
    simp only [run, hop] at h
    cases h
    exact .consumeReserve hop
  | consumeCheck slotId =>
    simp only [run, hop] at h
    split_ifs at h with hlen <;> cases h
    · exact .consumeOk hop hlen
    · exact .consumeNone hop hlen
  | consumeRecede slotId =>
    simp only [run, hop] at h
    split_ifs at h with hc <;> cases h
    · exact .consumeRecede hop hc.2
    · exact .consumeRetry hop
  | slotRead slotId =>
    simp only [run, hop] at h
    cases h
    exact .read hop
  | releaseLeaked slotId item =>
    simp only [run, hop] at h
    split_ifs at h with hc <;> cases h
    · exact .release hop hc.2
    · exact .spin (by rw [hop]; rfl)

namespace Moves
variable {B : Nat} {s s' : Sys τ α} {t : τ}

theorem op_of_ne (h : Moves B s t s') {u : τ} (hu : u ≠ t) : s'.op u = s.op u := by
  cases h with
  | spin => rfl
  | _ => exact Function.update_of_ne hu _ _

theorem calls_eq (h : Moves B s t s') : s'.calls = s.calls := by cases h <;> rfl

theorem published_cases (h : Moves B s t s') : s'.published = s.published ∨
    ∃ p i l v, s.op t = .publishLeaked p i l v ∧ s.q.tail = i ∧ s'.op t = .published l ∧
      s'.published = s.published ++ [Put.mk t (s.calls t) i p v] := by
  cases h with
  | publish ho hcas => exact .inr ⟨_, _, _, _, ho, hcas, Function.update_self .., rfl⟩
  | _ => exact .inl rfl

theorem consumed_cases (h : Moves B s t s') : s'.consumed = s.consumed ∨
    ∃ i v, s.op t = .releaseLeaked i v ∧ s.q.head = i ∧ s'.op t = .taken v ∧
      s'.consumed = s.consumed ++ [Took.mk t (s.calls t) i v] := by
  cases h with
  | release ho hcas => exact .inr ⟨_, _, ho, hcas, Function.update_self .., rfl⟩
  | _ => exact .inl rfl

theorem published_prefix (h : Moves B s t s') : s.published <+: s'.published := by
  rcases h.published_cases with h | ⟨_, _, _, _, -, -, -, h⟩ <;> rw [h]
  exact List.prefix_append ..

theorem consumed_prefix (h : Moves B s t s') : s.consumed <+: s'.consumed := by
  rcases h.consumed_cases with h | ⟨_, _, -, -, -, h⟩ <;> rw [h]
  exact List.prefix_append ..

end Moves

theorem step_cases {B : Nat} {s s' : Sys τ α} {l : Label τ α} (h : s.step B l = some s') :
    (∃ t o, (o = .consumeReserve ∨ ∃ p, o = .leakReserve p) ∧ (s.op t).atRest = true ∧
      s' = { s.setOp t o with calls := Function.update s.calls t (s.calls t + 1) }) ∨
    ∃ t, Moves B s t s' := by
  cases l with
  | publish t p =>
    simp only [step, call, Option.ite_none_right_eq_some, Option.some.injEq] at h
    exact .inl ⟨t, _, .inr ⟨p, rfl⟩, h.1, h.2.symm⟩
  | consume t =>
    simp only [step, call, Option.ite_none_right_eq_some, Option.some.injEq] at h
    exact .inl ⟨t, _, .inl rfl, h.1, h.2.symm⟩
  | run t spurious answer => exact .inr ⟨t, moves_of_run h⟩

end Sys
end AtomicMove
end Mutiny
