import Mathlib.Data.Fintype.Basic
import Mutiny.Lib.Gate
import Mutiny.Lib.Machine

/-!
# The blocking queue

`BlockingQueue` of `ogre_queues/atomic/blocking_queue.rs` with `LOCK_TIMEOUT_MILLIS = 0`. The base queue is
a bounded FIFO, of which `publish_movable` and `consume_leaking` are one step each, and so is every
operation on the two guards. The guards are binary locks that nobody owns; `lock` is possible only while
the guard is not locked.

A waiter finds the queue empty (full), locks the guard if it is not locked and then locks it again, which
blocks; the other side unlocks the guard when it reports that the queue has just stopped being empty
(full).
-/

namespace Mutiny

namespace BlockingQueue
variable {τ α : Type}

/-- Where a thread stands. A consumer carries what it took and, unread by the code, how many elements it left. -/
inductive Op (α : Type)
  | idle
  -- `enqueue`, about to call `base_queue.publish_movable(element)`
  | publish (element : α)
  -- `report_full`: about to `full_guard.try_lock()`
  | fullTry (element : α)
  -- `report_full`: at `full_guard.lock()`
  | fullLock (element : α)
  -- `try_enqueue`, about to call `base_queue.publish_movable(element)`
  | tryPublish (element : α)
  -- `try_enqueue`, refused: about to `full_guard.try_lock()`
  | tryFull (element : α)
  -- `report_no_longer_empty`: about to test `empty_guard.is_locked()`
  | emptyCheck
  -- `report_no_longer_empty`: about to `empty_guard.unlock()`
  | emptyUnlock
  -- `enqueue` or `try_enqueue` returned
  | enqueued (someElement : Option α)
  -- `dequeue` or, if not `blocking`, `try_dequeue`: about to call `consume_leaking()`
  | consume (blocking : Bool)
  -- `consume`: about to call `queue.available_elements_count()`
  | count (blocking : Bool) (item : α) (left : Nat)
  -- `report_len_after_dequeueing_fn(len)`
  | report (blocking : Bool) (item : α) (len : Int32)
  -- `report_no_longer_full`: about to test `full_guard.is_locked()`
  | fullCheck (item : α)
  -- `report_no_longer_full`: about to `full_guard.unlock()`
  | fullUnlock (item : α)
  -- `report_empty`: about to `empty_guard.try_lock()`
  | emptyTry
  -- `report_empty`: at `empty_guard.lock()`
  | emptyLock
  -- `try_dequeue`, the queue being empty: about to `empty_guard.try_lock()`
  | tryEmpty
  -- `dequeue` or `try_dequeue` returned
  | dequeued (item : Option α)
deriving DecidableEq

namespace Op

def atRest : Op α → Bool
  | idle | enqueued _ | dequeued _ => true
  | _ => false

def inEmpty : Op α → Bool
  | emptyTry | emptyLock => true
  | _ => false

def atEmptyLock : Op α → Bool
  | emptyLock => true
  | _ => false

def owesEmpty : Op α → Bool
  | emptyCheck | emptyUnlock => true
  | _ => false

def inFull : Op α → Bool
  | fullTry _ | fullLock _ => true
  | _ => false

def atFullLock : Op α → Bool
  | fullLock _ => true
  | _ => false

/-- Took an element of the full queue in `dequeue` and is still to unlock the guard. -/
def owesFull (B : Nat) : Op α → Bool
  | count true _ left => left + 1 == B
  | report true _ len => len == Int32.ofNat B - 1
  | fullCheck _ | fullUnlock _ => true
  | _ => false

end Op

end BlockingQueue

open BlockingQueue in
structure BlockingQueue (τ α : Type) where
  baseQueue : List α
  fullGuard : Bool
  emptyGuard : Bool
  op : τ → Op α

namespace BlockingQueue
variable {τ α : Type}

inductive Label (τ α : Type)
  | enqueue (t : τ) (element : α)
  | tryEnqueue (t : τ) (element : α)
  | dequeue (t : τ)
  | tryDequeue (t : τ)
  -- the next step of thread `t`
  | run (t : τ)

def new : BlockingQueue τ α := ⟨[], true, true, fun _ => .idle⟩

section Step
variable [DecidableEq τ]

def setOp (s : BlockingQueue τ α) (t : τ) (o : Op α) : BlockingQueue τ α := { s with op := Function.update s.op t o }

/-- A thread that is not inside a call starts one. -/
def call (s : BlockingQueue τ α) (t : τ) (o : Op α) : Option (BlockingQueue τ α) :=
  if (s.op t).atRest then some (s.setOp t o) else none

/-- `base_queue.publish_movable(element)`: the caller goes on to `refused` if the queue is full. -/
def publishMovable (B : Nat) (s : BlockingQueue τ α) (t : τ) (element : α) (refused : Op α) : BlockingQueue τ α :=
  if s.baseQueue.length < B then
    let lenAfter := s.baseQueue.length + 1
    { s with baseQueue := s.baseQueue ++ [element] }.setOp t (if lenAfter = 1 then .emptyCheck else .enqueued none)
  else s.setOp t refused

def run (B : Nat) (s : BlockingQueue τ α) (t : τ) : Option (BlockingQueue τ α) :=
  match s.op t with
  | .idle | .enqueued _ | .dequeued _ => none
  | .publish element => some (s.publishMovable B t element (.fullTry element))
  | .fullTry element => some ({ s with fullGuard := true }.setOp t (.fullLock element))
  | .fullLock element => if s.fullGuard then none else some ({ s with fullGuard := true }.setOp t (.publish element))
  | .tryPublish element => some (s.publishMovable B t element (.tryFull element))
  | .tryFull element => some ({ s with fullGuard := true }.setOp t (.enqueued (some element)))
  | .emptyCheck => some (s.setOp t (if s.emptyGuard then .emptyUnlock else .enqueued none))
  | .emptyUnlock => some ({ s with emptyGuard := false }.setOp t (.enqueued none))
  | .consume blocking =>
    match s.baseQueue with
    | item :: rest => some ({ s with baseQueue := rest }.setOp t (.count blocking item rest.length))
    | [] => some (s.setOp t (if blocking then .emptyTry else .tryEmpty))
  | .count blocking item _ => some (s.setOp t (.report blocking item (Int32.ofNat s.baseQueue.length)))
  | .report blocking item len =>
    -- `dequeue` compares with `max_size()`, `try_dequeue` with `available_elements_count()`
    let size := if blocking then B else s.baseQueue.length
    some (s.setOp t (if len = Int32.ofNat size - 1 then .fullCheck item else .dequeued (some item)))
  | .fullCheck item => some (s.setOp t (if s.fullGuard then .fullUnlock item else .dequeued (some item)))
  | .fullUnlock item => some ({ s with fullGuard := false }.setOp t (.dequeued (some item)))
  | .emptyTry => some ({ s with emptyGuard := true }.setOp t .emptyLock)
  -- `consume` returns `None` whatever `report_empty` answers
  | .emptyLock => if s.emptyGuard then none else some ({ s with emptyGuard := true }.setOp t (.dequeued none))
  | .tryEmpty => some ({ s with emptyGuard := true }.setOp t (.dequeued none))

def step (B : Nat) (s : BlockingQueue τ α) : Label τ α → Option (BlockingQueue τ α)
  | .enqueue t element => s.call t (.publish element)
  | .tryEnqueue t element => s.call t (.tryPublish element)
  | .dequeue t => s.call t (.consume true)
  | .tryDequeue t => s.call t (.consume false)
  | .run t => s.run B t

end Step

/-! ### Waiting in vain -/

/-- The thread is blocked on a guard. -/
def Waits (s : BlockingQueue τ α) (t : τ) : Prop :=
  ((s.op t).atEmptyLock = true ∧ s.emptyGuard = true) ∨ ((s.op t).atFullLock = true ∧ s.fullGuard = true)

/-- Nobody waits for what is there while all the others are idle or wait too. -/
structure Awake (B : Nat) (s : BlockingQueue τ α) : Prop where
  empty : ∀ t, (s.op t).atEmptyLock = true → s.emptyGuard = true → s.baseQueue ≠ [] →
    ∃ u, u ≠ t ∧ (s.op u).atRest = false ∧ ¬ s.Waits u
  full : ∀ t, (s.op t).atFullLock = true → s.fullGuard = true → s.baseQueue.length < B →
    ∃ u, u ≠ t ∧ (s.op u).atRest = false ∧ ¬ s.Waits u

/-- The step of a thread at `o` comes in time for the others:
a guard is locked by a `try_lock` only while the queue is still empty (full) or an unlock is still to come;
the queue stops being empty (full) while at most one thread is inside `report_empty` (`report_full`);
`try_dequeue` takes nothing from a full queue, and `dequeue` reads the length it has left, while a thread is
inside `report_full`. -/
def InTimeAt (B : Nat) (s : BlockingQueue τ α) : Op α → Prop
  | .emptyTry | .tryEmpty => s.baseQueue = [] ∨ ∃ u, (s.op u).owesEmpty = true
  | .fullTry _ | .tryFull _ => ¬ s.baseQueue.length < B ∨ ∃ u, (s.op u).owesFull B = true
  | .publish _ | .tryPublish _ => s.baseQueue = [] → Gate.AtMostOne Op.inEmpty s.op
  | .consume true => ¬ s.baseQueue.length < B → Gate.AtMostOne Op.inFull s.op
  | .consume false => ¬ s.baseQueue.length < B → ∀ u, (s.op u).inFull = false
  | .count true _ left => left = s.baseQueue.length ∨ ∀ u, (s.op u).inFull = false
  | _ => True

def InTime (B : Nat) (s : BlockingQueue τ α) : Label τ α → Prop
  | .run t => s.InTimeAt B (s.op t)
  | _ => True

/-! ### The invariant -/

theorem Op.inEmpty_of_atEmptyLock (o : Op α) (h : o.atEmptyLock = true) : o.inEmpty = true := by
  cases o <;> first | rfl | cases h

theorem Op.inFull_of_atFullLock (o : Op α) (h : o.atFullLock = true) : o.inFull = true := by
  cases o <;> first | rfl | cases h

/-- Neither at rest nor at the `lock` of a guard. -/
def Op.Busy (o : Op α) : Prop := o.atRest = false ∧ o.atEmptyLock = false ∧ o.atFullLock = false

theorem Op.busy_of_owesEmpty (o : Op α) (h : o.owesEmpty = true) : o.Busy := by
  cases o with
  | emptyCheck | emptyUnlock => exact ⟨rfl, rfl, rfl⟩
  | _ => cases h

theorem Op.busy_of_owesFull {B : Nat} (o : Op α) (h : o.owesFull B = true) : o.Busy := by
  cases o with
  | count | report | fullCheck | fullUnlock => exact ⟨rfl, rfl, rfl⟩
  | _ => cases h

/-- Nobody waits in vain at either of the guards. -/
structure Inv (B : Nat) (s : BlockingQueue τ α) : Prop where
  empty : Gate.Heard Op.inEmpty Op.atEmptyLock Op.owesEmpty (s.baseQueue ≠ []) s.emptyGuard s.op
  full : Gate.Heard Op.inFull Op.atFullLock (Op.owesFull B) (s.baseQueue.length < B) s.fullGuard s.op

namespace Inv
variable {B : Nat} {s s' : BlockingQueue τ α} {t : τ}

theorem new : Inv B (new : BlockingQueue τ α) :=
  ⟨.of_none Op.inEmpty_of_atEmptyLock fun _ => rfl, .of_none Op.inFull_of_atFullLock fun _ => rfl⟩

theorem awake (h : Inv B s) : Awake B s := by
  have hactive : ∀ {t u : τ}, (s.op t).atEmptyLock = true ∨ (s.op t).atFullLock = true → (s.op u).Busy →
      u ≠ t ∧ (s.op u).atRest = false ∧ ¬ s.Waits u := by
    intro t u ht hu
    refine ⟨?_, hu.1, ?_⟩
    · rintro rfl
      rcases ht with ht | ht
      · rw [hu.2.1] at ht; cases ht
      · rw [hu.2.2] at ht; cases ht
    · rintro (⟨hw, -⟩ | ⟨hw, -⟩)
      · rw [hu.2.1] at hw; cases hw
      · rw [hu.2.2] at hw; cases hw
  refine ⟨fun t ht hg hq => ?_, fun t ht hg hq => ?_⟩
  · obtain ⟨u, hu⟩ := h.empty.heard hq hg t ht
    exact ⟨u, hactive (.inl ht) (Op.busy_of_owesEmpty _ hu)⟩
  · obtain ⟨u, hu⟩ := h.full.heard hq hg t ht
    exact ⟨u, hactive (.inr ht) (Op.busy_of_owesFull _ hu)⟩

section Step
variable [DecidableEq τ]

/-- A thread goes on, without making an element available, to where it does not wait for one. -/
theorem emptyOutside {o : Op α} (h : Inv B s) (he' : o.inEmpty = false) (he : (s.op t).owesEmpty = false) :
    Gate.Heard Op.inEmpty Op.atEmptyLock Op.owesEmpty (s.baseQueue ≠ []) s.emptyGuard (Function.update s.op t o) :=
  h.empty.outside Op.inEmpty_of_atEmptyLock id id he' he

/-- A thread goes on, without making room, to where it does not wait for room. -/
theorem fullOutside {o : Op α} (h : Inv B s) (hf' : o.inFull = false) (hf : (s.op t).owesFull B = false) :
    Gate.Heard Op.inFull Op.atFullLock (Op.owesFull B) (s.baseQueue.length < B) s.fullGuard
      (Function.update s.op t o) :=
  h.full.outside Op.inFull_of_atFullLock id id hf' hf

/-- A thread goes on, without touching the queue or the guards, to where it neither waits nor owes. -/
theorem setOp {o : Op α} (h : Inv B s) (he : (s.op t).owesEmpty = false) (hf : (s.op t).owesFull B = false)
    (he' : o.inEmpty = false) (hf' : o.inFull = false) : Inv B (s.setOp t o) :=
  ⟨h.emptyOutside he' he, h.fullOutside hf' hf⟩

theorem call {o : Op α} (h : Inv B s) (hs : s.call t o = some s') (he : o.inEmpty = false) (hf : o.inFull = false) :
    Inv B s' := by
  simp only [BlockingQueue.call, Option.ite_none_right_eq_some, Option.some.injEq] at hs
  obtain ⟨hrest, rfl⟩ := hs
  refine h.setOp ?_ ?_ he hf <;> cases ho : s.op t <;> rw [ho] at hrest <;> first | rfl | cases hrest

theorem publishMovable {element : α} {refused : Op α} (h : Inv B s) (hone : s.baseQueue = [] → Gate.AtMostOne Op.inEmpty s.op)
    (he : (s.op t).owesEmpty = false) (hf : (s.op t).owesFull B = false) (hre : refused.inEmpty = false) :
    Inv B (s.publishMovable B t element refused) := by
  unfold BlockingQueue.publishMovable
  split
  case isTrue hlt =>
    have hlen : ∀ {x : α}, (s.baseQueue ++ [x]).length < B → s.baseQueue.length < B := by
      intro x hx
      rw [List.length_append] at hx
      omega
    by_cases hq : s.baseQueue = []
    · simp only [hq, List.length_nil, Nat.zero_add, if_true, List.nil_append]
      refine ⟨h.empty.owe (fun _ => .inr (hone hq)) (fun hi => by cases hi) rfl, ?_⟩
      refine h.full.outside Op.inFull_of_atFullLock (fun _ => hlt) id rfl hf
    · have hne : ¬ s.baseQueue.length + 1 = 1 := by
        have := List.length_pos_iff.mpr hq
        omega
      simp only [hne, if_false]
      exact ⟨h.empty.outside Op.inEmpty_of_atEmptyLock (fun _ => hq) id rfl he,
        h.full.outside Op.inFull_of_atFullLock hlen id rfl hf⟩
  case isFalse hlt =>
    exact ⟨h.emptyOutside hre he, .of_not hlt⟩

theorem fullTry {element : α} (h : Inv B s) (ho : s.op t = .fullTry element) (hok : s.InTimeAt B (.fullTry element)) :
    Inv B ({ s with fullGuard := true }.setOp t (.fullLock element)) :=
  ⟨h.emptyOutside rfl (by rw [ho]; rfl),
    h.full.tryLock id (fun _ => by rw [ho]; rfl) (by rw [ho]; rfl) fun hl => hok.resolve_left (not_not_intro hl)⟩

theorem tryFull {element : α} (h : Inv B s) (ho : s.op t = .tryFull element) (hok : s.InTimeAt B (.tryFull element)) :
    Inv B ({ s with fullGuard := true }.setOp t (.enqueued (some element))) :=
  ⟨h.emptyOutside rfl (by rw [ho]; rfl),
    h.full.tryLock id (fun hi => by cases hi) (by rw [ho]; rfl) fun hl => hok.resolve_left (not_not_intro hl)⟩

theorem fullLock {element : α} (h : Inv B s) (ho : s.op t = .fullLock element) :
    Inv B ({ s with fullGuard := true }.setOp t (.publish element)) :=
  ⟨h.emptyOutside rfl (by rw [ho]; rfl), h.full.leave Op.inFull_of_atFullLock id (by rw [ho]; rfl) rfl⟩

theorem emptyTry (h : Inv B s) (ho : s.op t = .emptyTry) (hok : s.InTimeAt B .emptyTry) :
    Inv B ({ s with emptyGuard := true }.setOp t .emptyLock) :=
  ⟨h.empty.tryLock id (fun _ => by rw [ho]; rfl) (by rw [ho]; rfl) fun hne => hok.resolve_left hne,
    h.fullOutside rfl (by rw [ho]; rfl)⟩

theorem tryEmpty (h : Inv B s) (ho : s.op t = .tryEmpty) (hok : s.InTimeAt B .tryEmpty) :
    Inv B ({ s with emptyGuard := true }.setOp t (.dequeued none)) :=
  ⟨h.empty.tryLock id (fun hi => by cases hi) (by rw [ho]; rfl) fun hne => hok.resolve_left hne,
    h.fullOutside rfl (by rw [ho]; rfl)⟩

theorem emptyLock (h : Inv B s) (ho : s.op t = .emptyLock) :
    Inv B ({ s with emptyGuard := true }.setOp t (.dequeued none)) :=
  ⟨h.empty.leave Op.inEmpty_of_atEmptyLock id (by rw [ho]; rfl) rfl, h.fullOutside rfl (by rw [ho]; rfl)⟩

theorem emptyCheck (h : Inv B s) (ho : s.op t = .emptyCheck) :
    Inv B (s.setOp t (if s.emptyGuard then .emptyUnlock else .enqueued none)) := by
  have hfull : ∀ {o : Op α}, o.inFull = false → Gate.Heard Op.inFull Op.atFullLock (Op.owesFull B)
      (s.baseQueue.length < B) s.fullGuard (Function.update s.op t o) := fun hf => h.fullOutside hf (by rw [ho]; rfl)
  cases hg : s.emptyGuard with
  | true => exact ⟨h.empty.owe .inl (fun hi => by cases hi) rfl, hfull rfl⟩
  | false => exact ⟨h.empty.unlock id hg (fun hi => by cases hi), hfull rfl⟩

theorem emptyUnlock (h : Inv B s) (ho : s.op t = .emptyUnlock) :
    Inv B ({ s with emptyGuard := false }.setOp t (.enqueued none)) :=
  ⟨h.empty.unlock id rfl (fun hi => by cases hi), h.fullOutside rfl (by rw [ho]; rfl)⟩

theorem fullCheck {item : α} (h : Inv B s) (ho : s.op t = .fullCheck item) :
    Inv B (s.setOp t (if s.fullGuard then .fullUnlock item else .dequeued (some item))) := by
  have hempty : ∀ {o : Op α}, o.inEmpty = false → Gate.Heard Op.inEmpty Op.atEmptyLock Op.owesEmpty
      (s.baseQueue ≠ []) s.emptyGuard (Function.update s.op t o) := fun he => h.emptyOutside he (by rw [ho]; rfl)
  cases hg : s.fullGuard with
  | true => exact ⟨hempty rfl, h.full.owe .inl (fun hi => by cases hi) rfl⟩
  | false => exact ⟨hempty rfl, h.full.unlock id hg (fun hi => by cases hi)⟩

theorem fullUnlock {item : α} (h : Inv B s) (ho : s.op t = .fullUnlock item) :
    Inv B ({ s with fullGuard := false }.setOp t (.dequeued (some item))) :=
  ⟨h.emptyOutside rfl (by rw [ho]; rfl), h.full.unlock id rfl (fun hi => by cases hi)⟩

theorem consume {blocking : Bool} {item : α} {rest : List α} (h : Inv B s) (ho : s.op t = .consume blocking)
    (hok : s.InTimeAt B (.consume blocking)) (hq : s.baseQueue = item :: rest) :
    Inv B ({ s with baseQueue := rest }.setOp t (.count blocking item rest.length)) := by
  have hempty : s.baseQueue ≠ [] := by rw [hq]; exact List.cons_ne_nil item rest
  refine ⟨h.empty.outside Op.inEmpty_of_atEmptyLock (fun _ => hempty) id rfl (by rw [ho]; rfl), ?_⟩
  by_cases hlt : rest.length + 1 < B
  · exact h.full.outside Op.inFull_of_atFullLock (fun _ => by rw [hq]; exact hlt) id rfl (by rw [ho]; rfl)
  · have hfull : ¬ s.baseQueue.length < B := by rw [hq]; exact hlt
    cases blocking with
    | false => exact .nobody Op.inFull_of_atFullLock (hok hfull) rfl
    | true =>
      by_cases hB : rest.length + 1 = B
      · exact h.full.owe (fun _ => .inr (hok hfull)) (fun hi => by cases hi) (by simpa [Op.owesFull] using hB)
      · have hge : ¬ rest.length < B := by omega
        exact .of_not hge

theorem count {blocking : Bool} {item : α} {left : Nat} (h : Inv B s) (ho : s.op t = .count blocking item left)
    (hok : s.InTimeAt B (.count blocking item left)) :
    Inv B (s.setOp t (.report blocking item (Int32.ofNat s.baseQueue.length))) := by
  refine ⟨h.emptyOutside rfl (by rw [ho]; rfl), ?_⟩
  cases blocking with
  | false => exact h.fullOutside rfl (by rw [ho]; rfl)
  | true =>
    by_cases hleft : left + 1 = B
    · rcases hok with rfl | hnone
      · refine h.full.owe .inl (fun hi => by cases hi) ?_
        rw [← hleft]
        simp [Op.owesFull, Int32.ofNat_add]
      · exact .nobody Op.inFull_of_atFullLock hnone rfl
    · refine h.fullOutside rfl ?_
      rw [ho]
      simpa [Op.owesFull] using hleft

theorem report {blocking : Bool} {item : α} {len : Int32} (h : Inv B s) (ho : s.op t = .report blocking item len) :
    Inv B (s.setOp t (if len = Int32.ofNat (if blocking then B else s.baseQueue.length) - 1 then .fullCheck item
      else .dequeued (some item))) := by
  by_cases hlen : len = Int32.ofNat (if blocking then B else s.baseQueue.length) - 1
  · rw [if_pos hlen]
    exact ⟨h.emptyOutside rfl (by rw [ho]; rfl), h.full.owe .inl (fun hi => by cases hi) rfl⟩
  · rw [if_neg hlen]
    refine h.setOp (by rw [ho]; rfl) ?_ rfl rfl
    rw [ho]
    cases blocking with
    | false => rfl
    | true => simpa [Op.owesFull] using hlen

/-- Every step that comes in time keeps the invariant. -/
theorem run (h : Inv B s) (hok : s.InTimeAt B (s.op t)) (hs : s.run B t = some s') : Inv B s' := by
  cases ho : s.op t with
  | idle | enqueued _ | dequeued _ => simp [BlockingQueue.run, ho] at hs
  | publish element | tryPublish element =>
    simp only [BlockingQueue.run, ho, Option.some.injEq] at hs
    subst hs
    rw [ho] at hok
    exact h.publishMovable hok (by rw [ho]; rfl) (by rw [ho]; rfl) rfl
  | fullTry element =>
    simp only [BlockingQueue.run, ho, Option.some.injEq] at hs
    subst hs
    exact h.fullTry ho (by rwa [ho] at hok)
  | fullLock element =>
    simp only [BlockingQueue.run, ho, Option.ite_none_left_eq_some, Option.some.injEq] at hs
    obtain ⟨-, rfl⟩ := hs
    exact h.fullLock ho
  | tryFull element =>
    simp only [BlockingQueue.run, ho, Option.some.injEq] at hs
    subst hs
    exact h.tryFull ho (by rwa [ho] at hok)
  | emptyCheck =>
    simp only [BlockingQueue.run, ho, Option.some.injEq] at hs
    subst hs
    exact h.emptyCheck ho
  | emptyUnlock =>
    simp only [BlockingQueue.run, ho, Option.some.injEq] at hs
    subst hs
    exact h.emptyUnlock ho
  | consume blocking =>
    rw [ho] at hok
    cases hq : s.baseQueue with
    | nil =>
      simp only [BlockingQueue.run, ho, hq, Option.some.injEq] at hs
      subst hs
      exact ⟨.of_not (not_not_intro hq), h.fullOutside (by cases blocking <;> rfl) (by rw [ho]; rfl)⟩
    | cons item rest =>
      simp only [BlockingQueue.run, ho, hq, Option.some.injEq] at hs
      subst hs
      exact h.consume ho hok hq
  | count blocking item left =>
    simp only [BlockingQueue.run, ho, Option.some.injEq] at hs
    subst hs
    exact h.count ho (by rwa [ho] at hok)
  | report blocking item len =>
    simp only [BlockingQueue.run, ho, Option.some.injEq] at hs
    subst hs
    exact h.report ho
  | fullCheck item =>
    simp only [BlockingQueue.run, ho, Option.some.injEq] at hs
    subst hs
    exact h.fullCheck ho
  | fullUnlock item =>
    simp only [BlockingQueue.run, ho, Option.some.injEq] at hs
    subst hs
    exact h.fullUnlock ho
  | emptyTry =>
    simp only [BlockingQueue.run, ho, Option.some.injEq] at hs
    subst hs
    exact h.emptyTry ho (by rwa [ho] at hok)
  | emptyLock =>
    simp only [BlockingQueue.run, ho, Option.ite_none_left_eq_some, Option.some.injEq] at hs
    obtain ⟨-, rfl⟩ := hs
    exact h.emptyLock ho
  | tryEmpty =>
    simp only [BlockingQueue.run, ho, Option.some.injEq] at hs
    subst hs
    exact h.tryEmpty ho (by rwa [ho] at hok)

theorem step {l : Label τ α} (h : Inv B s) (hok : s.InTime B l) (hs : s.step B l = some s') : Inv B s' := by
  cases l with
  | enqueue t element => exact h.call hs rfl rfl
  | tryEnqueue t element => exact h.call hs rfl rfl
  | dequeue t => exact h.call hs rfl rfl
  | tryDequeue t => exact h.call hs rfl rfl
  | run t => exact h.run hok hs

end Step
end Inv

/-- Nobody waits in vain as long as every step comes in time. -/
theorem blockingQueue_awake [DecidableEq τ] {B : Nat} {s : BlockingQueue τ α}
    (h : Machine.Steps (step B) (fun s l _ => s.InTime B l) new s) : Awake B s := by
  refine Inv.awake ?_
  refine h.invariant (I := Inv B) ?_ .new
  intro s l s' hi hs hok
  exact hi.step hok hs

section Runs
variable [Fintype τ] [DecidableEq τ]

instance (p : Op α → Bool) (f : τ → Op α) : Decidable (Gate.AtMostOne p f) :=
  inferInstanceAs (Decidable (∀ t u, p (f t) = true → p (f u) = true → t = u))

instance (B : Nat) (s : BlockingQueue τ α) : (o : Op α) → Decidable (s.InTimeAt B o)
  | .emptyTry | .tryEmpty => inferInstanceAs (Decidable (s.baseQueue = [] ∨ ∃ u, (s.op u).owesEmpty = true))
  | .fullTry _ | .tryFull _ =>
    inferInstanceAs (Decidable (¬ s.baseQueue.length < B ∨ ∃ u, (s.op u).owesFull B = true))
  | .publish _ | .tryPublish _ => inferInstanceAs (Decidable (s.baseQueue = [] → Gate.AtMostOne Op.inEmpty s.op))
  | .consume true => inferInstanceAs (Decidable (¬ s.baseQueue.length < B → Gate.AtMostOne Op.inFull s.op))
  | .consume false => inferInstanceAs (Decidable (¬ s.baseQueue.length < B → ∀ u, (s.op u).inFull = false))
  | .count true _ left => inferInstanceAs (Decidable (left = s.baseQueue.length ∨ ∀ u, (s.op u).inFull = false))
  | .idle | .fullLock _ | .emptyCheck | .emptyUnlock | .enqueued _ | .count false _ _ | .report _ _ _ | .fullCheck _
  | .fullUnlock _ | .emptyLock | .dequeued _ => inferInstanceAs (Decidable True)

instance (B : Nat) (s : BlockingQueue τ α) : (l : Label τ α) → Decidable (s.InTime B l)
  | .run t => inferInstanceAs (Decidable (s.InTimeAt B (s.op t)))
  | .enqueue _ _ | .tryEnqueue _ _ | .dequeue _ | .tryDequeue _ => inferInstanceAs (Decidable True)

end Runs

/-- A queue of one slot: a `dequeue` waits and is woken by an `enqueue`; the next `enqueue` waits and is woken by a
`dequeue`, and so on until an `enqueue` waits again. -/
theorem blockingQueue_awake_full : ∃ s : BlockingQueue (Fin 2) Nat, s.baseQueue = [8] ∧ (s.op 0).atFullLock = true ∧
    s.fullGuard = true ∧ Awake 1 s := by
  have hrun : (Machine.exec (Machine.restrict (step 1) fun s l _ => decide (s.InTime 1 l)) (new : BlockingQueue (Fin 2) Nat)
      [.dequeue 0, .run 0, .run 0, .enqueue 1 7, .run 1, .run 1, .run 1, .run 0, .enqueue 0 8, .run 0, .run 0, .dequeue 1,
       .run 1, .run 1, .run 1, .run 1, .run 1, .run 0, .run 0, .run 0, .run 0, .enqueue 0 9, .run 0, .run 0]).map
      (fun s => decide (s.baseQueue = [8] ∧ (s.op 0).atFullLock = true ∧ s.fullGuard = true)) = some true := by
    decide +kernel
  obtain ⟨s, hs, ht⟩ := Option.map_eq_some_iff.mp hrun
  rw [decide_eq_true_iff] at ht
  exact ⟨s, ht.1, ht.2.1, ht.2.2, blockingQueue_awake
    ((Machine.Path.of_exec_restrict (fun _ _ _ h => of_decide_eq_true h) hs).steps)⟩

/-- A `dequeue` finds the queue empty, an `enqueue` publishes and unlocks the guard, and only then the `dequeue`
locks it, twice. And an `enqueue` that waits for the full queue is not told of the slot a `try_dequeue` frees. -/
theorem waits_in_vain :
    (∃ s : BlockingQueue (Fin 2) Nat, Machine.Steps (step 1) (fun _ _ _ => True) new s ∧ s.op 0 = .emptyLock ∧
      s.baseQueue = [7] ∧ ¬ Awake 1 s) ∧
    ∃ s : BlockingQueue (Fin 2) Nat, Machine.Steps (step 1) (fun _ _ _ => True) new s ∧ s.op 0 = .fullLock 8 ∧
      s.baseQueue = [] ∧ ¬ Awake 1 s := by
  -- with two threads, the other one is at rest
  have hrest : ∀ {s : BlockingQueue (Fin 2) Nat}, (s.op 1).atRest = true →
      ¬ ∃ u, u ≠ (0 : Fin 2) ∧ (s.op u).atRest = false ∧ ¬ s.Waits u := by
    rintro s h₁ ⟨u, hu, hr, -⟩
    obtain rfl : u = 1 := by omega
    rw [h₁] at hr
    cases hr
  constructor
  · have hrun : (Machine.exec (step 1) (new : BlockingQueue (Fin 2) Nat)
        [.dequeue 0, .run 0, .enqueue 1 7, .run 1, .run 1, .run 1, .run 0]).map (fun s => decide (s.op 0 = .emptyLock ∧
          s.baseQueue = [7] ∧ s.emptyGuard = true ∧ (s.op 1).atRest = true)) = some true := by decide +kernel
    obtain ⟨s, hs, ht⟩ := Option.map_eq_some_iff.mp hrun
    rw [decide_eq_true_iff] at ht
    obtain ⟨h₁, h₂, h₃, h₄⟩ := ht
    refine ⟨s, (Machine.Path.of_exec hs).steps, h₁, h₂, fun ha => hrest h₄ (ha.empty 0 ?_ h₃ ?_)⟩
    · rw [h₁]; rfl
    · rw [h₂]; exact List.cons_ne_nil 7 []
  · have hrun : (Machine.exec (step 1) (new : BlockingQueue (Fin 2) Nat)
        [.enqueue 0 7, .run 0, .run 0, .run 0, .enqueue 0 8, .run 0, .run 0, .tryDequeue 1, .run 1, .run 1, .run 1]).map
        (fun s => decide (s.op 0 = .fullLock 8 ∧ s.baseQueue = [] ∧ s.fullGuard = true ∧ (s.op 1).atRest = true)) =
          some true := by decide +kernel
    obtain ⟨s, hs, ht⟩ := Option.map_eq_some_iff.mp hrun
    rw [decide_eq_true_iff] at ht
    obtain ⟨h₁, h₂, h₃, h₄⟩ := ht
    refine ⟨s, (Machine.Path.of_exec hs).steps, h₁, h₂, fun ha => hrest h₄ (ha.full 0 ?_ h₃ ?_)⟩
    · rw [h₁]; rfl
    · rw [h₂]; exact Nat.one_pos

end BlockingQueue
end Mutiny
