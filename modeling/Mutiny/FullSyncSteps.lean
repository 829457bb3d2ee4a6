import Mutiny.AtomicMove
import Mutiny.FullSyncMove
import Mutiny.Lib.Machine

/-!
# `FullSyncMove`, one memory operation at a time

Threads inside `publish_movable`, `publish` and `consume_movable`, as far as somebody who does not take the lock can
tell their steps apart: taking the lock, the length test, the access to the slot, the advance of a counter and the
unlock are one step each. `Sys` also counts what has been published and consumed; nothing reads that.
-/

namespace Mutiny.FullSyncMove
open AtomicMove (Payload)
variable {α τ : Type}

inductive Op (α : Type)
  | idle
  -- `leak_slot_internal`: at `ogre_sync::lock`
  | leakLock (p : Payload α)
  -- it has the lock: about to load `tail` and `head` and test `len_before < BUFFER_SIZE`
  | leakCheck (p : Payload α)
  -- about to unlock the full queue
  | leakUnlock (p : Payload α)
  -- about to call `report_full_fn()`
  | leakReport (p : Payload α)
  -- about to fill the slot
  | slotWrite (p : Payload α) (slotId lenBefore : UInt32)
  -- `publish_leaked_internal`: about to advance `tail`
  | publishLeaked (lenBefore : UInt32)
  -- about to unlock
  | publishUnlock (lenBefore : UInt32)
  -- returned `(NonZeroU32::new(len_before+1), None)`
  | published (lenBefore : UInt32)
  -- returned `(None, Some(item))`, resp. `Some(setter_fn)`
  | refused (p : Payload α)
  -- `consume_leaking_internal`: at `ogre_sync::lock`
  | consumeLock
  -- about to load `head` and test `available_elements_count() > 0`
  | consumeCheck
  -- about to unlock the empty queue
  | consumeUnlock
  -- about to `ptr::read(slot_ref)`
  | slotRead (slotId : UInt32)
  -- `release_leaked_internal`: about to advance `head`
  | releaseLeaked (item : α)
  -- about to unlock
  | releaseUnlock (item : α)
  -- returned `Some(item)`
  | taken (item : α)
  -- returned `None`
  | empty

namespace Op

def atRest : Op α → Bool
  | idle | published _ | refused _ | taken _ | empty => true
  | _ => false

def inside : Op α → Bool
  | leakCheck _ | leakUnlock _ | slotWrite .. | publishLeaked _ | publishUnlock _ | consumeCheck | consumeUnlock
  | slotRead _ | releaseLeaked _ | releaseUnlock _ => true
  | _ => false

/-- It has found room and not yet advanced `tail`. -/
def publishing : Op α → Bool
  | slotWrite .. | publishLeaked _ => true
  | _ => false

/-- It has found an element and not yet advanced `head`. -/
def consuming : Op α → Bool
  | slotRead _ | releaseLeaked _ => true
  | _ => false

end Op

structure Sys (τ α : Type) where
  q : FullSyncMove α
  concurrencyGuard : Bool
  op : τ → Op α
  published : Nat
  consumed : Nat

inductive Label (τ α : Type)
  | publish (t : τ) (p : Payload α)
  | consume (t : τ)
  -- the next step of thread `t`; a `report_full_fn` answers `answer`
  | run (t : τ) (answer : Bool)

namespace Sys

def init (buffer : Nat → α) : Sys τ α := ⟨.withInitializer buffer, false, fun _ => .idle, 0, 0⟩

variable [DecidableEq τ]

def setOp (s : Sys τ α) (t : τ) (o : Op α) : Sys τ α := { s with op := Function.update s.op t o }

/-- A thread that is not inside a call starts one. -/
def call (s : Sys τ α) (t : τ) (o : Op α) : Option (Sys τ α) :=
  if (s.op t).atRest then some (s.setOp t o) else none

/-- The lock is taken, or it is not free and the thread spins. -/
def lock (s : Sys τ α) (t : τ) (o : Op α) : Sys τ α :=
  if s.concurrencyGuard then s else { s with concurrencyGuard := true }.setOp t o

def unlock (s : Sys τ α) (t : τ) (o : Op α) : Sys τ α := { s with concurrencyGuard := false }.setOp t o

def run (B : Nat) (s : Sys τ α) (t : τ) (answer : Bool) : Option (Sys τ α) :=
  match s.op t with
  | .idle | .published _ | .refused _ | .taken _ | .empty => none
  | .leakLock p => some (s.lock t (.leakCheck p))
  | .leakCheck p =>
    let lenBefore := s.q.tail - s.q.head
    if lenBefore < UInt32.ofNat B then some (s.setOp t (.slotWrite p s.q.tail lenBefore))
    else some (s.setOp t (.leakUnlock p))
  | .leakUnlock p => some (s.unlock t (.leakReport p))
  | .leakReport p => some (s.setOp t (if p.reportFull answer then .leakLock p else .refused p))
  | .slotWrite p slotId lenBefore =>
    let stored := p.store (s.q.buffer (slotId.toNat % B))
    some ({ s with q := { s.q with buffer := Function.update s.q.buffer (slotId.toNat % B) stored } }.setOp t
      (.publishLeaked lenBefore))
  | .publishLeaked lenBefore =>
    some ({ s with q := { s.q with tail := s.q.tail + 1 }, published := s.published + 1 }.setOp t
      (.publishUnlock lenBefore))
  | .publishUnlock lenBefore => some (s.unlock t (.published lenBefore))
  | .consumeLock => some (s.lock t .consumeCheck)
  | .consumeCheck =>
    let lenBefore := s.q.availableElementsCount.toInt32
    if 0 < lenBefore then some (s.setOp t (.slotRead s.q.head)) else some (s.setOp t .consumeUnlock)
  | .consumeUnlock => some (s.unlock t .empty)
  | .slotRead slotId => some (s.setOp t (.releaseLeaked (s.q.buffer (slotId.toNat % B))))
  | .releaseLeaked item =>
    some ({ s with q := { s.q with head := s.q.head + 1 }, consumed := s.consumed + 1 }.setOp t (.releaseUnlock item))
  | .releaseUnlock item => some (s.unlock t (.taken item))

def step (B : Nat) (s : Sys τ α) : Label τ α → Option (Sys τ α)
  | .publish t p => s.call t (.leakLock p)
  | .consume t => s.call t .consumeLock
  | .run t answer => s.run B t answer

end Sys

/-! ### The invariant -/

/-- One thread at a time is inside; the counters are the images of the counts. -/
structure Inv (B : Nat) (s : Sys τ α) : Prop where
  one : ∀ t u, (s.op t).inside = true → (s.op u).inside = true → t = u
  locked : ∀ t, (s.op t).inside = true → s.concurrencyGuard = true
  tail : s.q.tail = UInt32.ofNat s.published
  head : s.q.head = UInt32.ofNat s.consumed
  le : s.consumed ≤ s.published
  cap : s.published ≤ s.consumed + Ring.room B
  room : ∀ t, (s.op t).publishing = true → s.published < s.consumed + Ring.room B
  avail : ∀ t, (s.op t).consuming = true → s.consumed < s.published

namespace Op

theorem inside_of_publishing {o : Op α} (h : o.publishing = true) : o.inside = true := by
  cases o <;> first | rfl | cases h

theorem inside_of_consuming {o : Op α} (h : o.consuming = true) : o.inside = true := by
  cases o <;> first | rfl | cases h

end Op

namespace Inv
variable {B : Nat} {s s' : Sys τ α} {t : τ} {o : Op α}

theorem init (B : Nat) (buffer : Nat → α) : Inv B (.init buffer : Sys τ α) :=
  ⟨nofun, nofun, rfl, rfl, le_refl _, Nat.zero_le _, nofun, nofun⟩

theorem others (h : Inv B s) (ht : (s.op t).inside = true) : ∀ u ≠ t, (s.op u).inside = false := by
  intro u hu
  by_contra hin
  exact hu (h.one u t (by simpa using hin) ht)

theorem nobody (h : Inv B s) (hg : s.concurrencyGuard = false) (u : τ) : (s.op u).inside = false := by
  by_contra hin
  have := h.locked u (by simpa using hin)
  rw [hg] at this
  cases this

theorem len (h : Inv B s) : (s.q.tail - s.q.head).toNat = s.published - s.consumed := by
  have := h.cap
  have : Ring.room B < 2 ^ 32 := UInt32.toNat_lt _
  rw [h.tail, h.head, Wrap.toNat_ofNat_sub h.le (by omega)]

section Step
variable [DecidableEq τ]

/-- A step of the only thread inside, which may come from outside. -/
theorem alone (hothers : ∀ u ≠ t, (s.op u).inside = false) (hop : s'.op = Function.update s.op t o)
    (hguard : o.inside = true → s'.concurrencyGuard = true) (htail : s'.q.tail = UInt32.ofNat s'.published)
    (hhead : s'.q.head = UInt32.ofNat s'.consumed) (hle : s'.consumed ≤ s'.published)
    (hcap : s'.published ≤ s'.consumed + Ring.room B)
    (hroom : o.publishing = true → s'.published < s'.consumed + Ring.room B)
    (havail : o.consuming = true → s'.consumed < s'.published) : Inv B s' := by
  have hinside : ∀ u, (s'.op u).inside = true → u = t ∧ s'.op u = o := by
    intro u hu
    rw [hop] at hu ⊢
    by_cases hut : u = t
    · subst hut
      exact ⟨rfl, Function.update_self ..⟩
    · rw [Function.update_of_ne hut, hothers u hut] at hu
      cases hu
  refine ⟨?_, ?_, htail, hhead, hle, hcap, ?_, ?_⟩
  · intro u v hu hv
    rw [(hinside u hu).1, (hinside v hv).1]
  · intro u hu
    exact hguard (by rwa [(hinside u hu).2] at hu)
  · intro u hu
    exact hroom (by rwa [(hinside u (Op.inside_of_publishing hu)).2] at hu)
  · intro u hu
    exact havail (by rwa [(hinside u (Op.inside_of_consuming hu)).2] at hu)

theorem outside (h : Inv B s) (ho : o.inside = false) : Inv B (s.setOp t o) := by
  have hinside : ∀ u, ((s.setOp t o).op u).inside = true → (s.setOp t o).op u = s.op u := by
    intro u hu
    change (Function.update s.op t o u).inside = true at hu
    show Function.update s.op t o u = s.op u
    by_cases hut : u = t
    · subst hut
      rw [Function.update_self, ho] at hu
      cases hu
    · exact Function.update_of_ne hut ..
  refine ⟨?_, ?_, h.tail, h.head, h.le, h.cap, ?_, ?_⟩
  · intro u v hu hv
    exact h.one u v (by rwa [hinside u hu] at hu) (by rwa [hinside v hv] at hv)
  · intro u hu
    exact h.locked u (by rwa [hinside u hu] at hu)
  · intro u hu
    exact h.room u (by rwa [hinside u (Op.inside_of_publishing hu)] at hu)
  · intro u hu
    exact h.avail u (by rwa [hinside u (Op.inside_of_consuming hu)] at hu)

theorem lock (h : Inv B s) (ho : o.publishing = false) (ho' : o.consuming = false) : Inv B (s.lock t o) := by
  unfold Sys.lock
  cases hg : s.concurrencyGuard with
  | true => exact h
  | false =>
    refine alone (s := s) (t := t) (o := o) (fun u _ => h.nobody hg u) rfl (fun _ => rfl) h.tail h.head h.le h.cap ?_ ?_
    · rw [ho]; nofun
    · rw [ho']; nofun

theorem unlock (h : Inv B s) (ht : (s.op t).inside = true) (ho : o.inside = false) : Inv B (s.unlock t o) := by
  refine alone (s := s) (t := t) (o := o) (h.others ht) rfl ?_ h.tail h.head h.le h.cap ?_ ?_
  · rw [ho]; nofun
  · intro hp
    rw [Op.inside_of_publishing hp] at ho
    cases ho
  · intro hp
    rw [Op.inside_of_consuming hp] at ho
    cases ho

theorem inside (h : Inv B s) (ht : (s.op t).inside = true)
    (hroom : o.publishing = true → s.published < s.consumed + Ring.room B)
    (havail : o.consuming = true → s.consumed < s.published) : Inv B (s.setOp t o) :=
  alone (s := s) (t := t) (o := o) (h.others ht) rfl (fun _ => h.locked t ht) h.tail h.head h.le h.cap hroom havail

theorem leakCheck {p : Payload α} {answer : Bool} (h : Inv B s) (ho : s.op t = .leakCheck p)
    (hs : s.run B t answer = some s') : Inv B s' := by
  simp only [Sys.run, ho] at hs
  split_ifs at hs with hlt <;> cases hs
  · refine h.inside (by rw [ho]; rfl) (fun _ => ?_) nofun
    have hlen : (s.q.tail - s.q.head).toNat < Ring.room B := UInt32.lt_iff_toNat_lt.mp hlt
    rw [h.len] at hlen
    have hle := h.le
    omega
  · exact h.inside (by rw [ho]; rfl) nofun nofun

theorem slotWrite {p : Payload α} {slotId lenBefore : UInt32} {answer : Bool} (h : Inv B s)
    (ho : s.op t = .slotWrite p slotId lenBefore) (hs : s.run B t answer = some s') : Inv B s' := by
  simp only [Sys.run, ho, Option.some.injEq] at hs
  subst hs
  have hin : (s.op t).inside = true := by rw [ho]; rfl
  exact alone (h.others hin) rfl (fun _ => h.locked t hin) h.tail h.head h.le h.cap
    (fun _ => h.room t (by rw [ho]; rfl)) nofun

theorem publishLeaked {lenBefore : UInt32} {answer : Bool} (h : Inv B s) (ho : s.op t = .publishLeaked lenBefore)
    (hs : s.run B t answer = some s') : Inv B s' := by
  simp only [Sys.run, ho, Option.some.injEq] at hs
  subst hs
  have hin : (s.op t).inside = true := by rw [ho]; rfl
  have hroom := h.room t (by rw [ho]; rfl)
  refine alone (h.others hin) rfl (fun _ => h.locked t hin) ?_ h.head (Nat.le_succ_of_le h.le) hroom nofun nofun
  show s.q.tail + 1 = _
  rw [h.tail, ← Wrap.ofNat_succ]
  rfl

theorem consumeCheck {answer : Bool} (h : Inv B s) (ho : s.op t = .consumeCheck)
    (hs : s.run B t answer = some s') : Inv B s' := by
  simp only [Sys.run, ho] at hs
  split_ifs at hs with hlt <;> cases hs
  · refine h.inside (by rw [ho]; rfl) nofun fun _ => ?_
    have hlen : 0 < s.q.len := ((zero_lt_count_iff s.q).mp hlt).1
    have : s.q.len = s.published - s.consumed := h.len
    omega
  · exact h.inside (by rw [ho]; rfl) nofun nofun

theorem releaseLeaked {item : α} {answer : Bool} (h : Inv B s) (ho : s.op t = .releaseLeaked item)
    (hs : s.run B t answer = some s') : Inv B s' := by
  simp only [Sys.run, ho, Option.some.injEq] at hs
  subst hs
  have hin : (s.op t).inside = true := by rw [ho]; rfl
  have havail := h.avail t (by rw [ho]; rfl)
  have hcap : s.published ≤ s.consumed + 1 + Ring.room B := by
    have := h.cap
    omega
  refine alone (h.others hin) rfl (fun _ => h.locked t hin) h.tail ?_ havail hcap nofun nofun
  show s.q.head + 1 = _
  rw [h.head, ← Wrap.ofNat_succ]
  rfl

theorem run {answer : Bool} (h : Inv B s) (hs : s.run B t answer = some s') : Inv B s' := by
  cases ho : s.op t with
  | idle | published _ | refused _ | taken _ | empty => simp [Sys.run, ho] at hs
  | leakLock _ | consumeLock =>
    simp only [Sys.run, ho, Option.some.injEq] at hs
    subst hs
    exact h.lock rfl rfl
  | leakUnlock _ | publishUnlock _ | consumeUnlock | releaseUnlock _ =>
    simp only [Sys.run, ho, Option.some.injEq] at hs
    subst hs
    exact h.unlock (by rw [ho]; rfl) rfl
  | leakCheck p => exact h.leakCheck ho hs
  | leakReport p =>
    simp only [Sys.run, ho, Option.some.injEq] at hs
    subst hs
    split <;> exact h.outside rfl
  | slotWrite p slotId lenBefore => exact h.slotWrite ho hs
  | publishLeaked lenBefore => exact h.publishLeaked ho hs
  | consumeCheck => exact h.consumeCheck ho hs
  | slotRead slotId =>
    simp only [Sys.run, ho, Option.some.injEq] at hs
    subst hs
    exact h.inside (by rw [ho]; rfl) nofun fun _ => h.avail t (by rw [ho]; rfl)
  | releaseLeaked item => exact h.releaseLeaked ho hs

theorem step {l : Label τ α} (h : Inv B s) (hs : s.step B l = some s') : Inv B s' := by
  cases l with
  | publish t p | consume t =>
    obtain ⟨-, hs⟩ := Option.ite_none_right_eq_some.mp hs
    cases hs
    exact h.outside rfl
  | run t answer => exact h.run hs

end Step
end Inv

section Counts
variable [DecidableEq τ] {B : Nat} {s s' : Sys τ α} {t : τ}

theorem Sys.counts_of_run {answer : Bool} (hs : s.run B t answer = some s') :
    s.published ≤ s'.published ∧ s.consumed ≤ s'.consumed := by
  have hlock : ∀ o, (s.lock t o).published = s.published ∧ (s.lock t o).consumed = s.consumed := by
    intro o
    unfold lock
    split <;> exact ⟨rfl, rfl⟩
  cases ho : s.op t with
  | idle | published _ | refused _ | taken _ | empty => simp [run, ho] at hs
  | leakLock _ | consumeLock =>
    simp only [run, ho, Option.some.injEq] at hs
    subst hs
    rw [(hlock _).1, (hlock _).2]
    exact ⟨le_refl _, le_refl _⟩
  | leakCheck _ | consumeCheck =>
    simp only [run, ho] at hs
    split_ifs at hs <;> cases hs <;> exact ⟨le_refl _, le_refl _⟩
  | publishLeaked lenBefore =>
    simp only [run, ho, Option.some.injEq] at hs
    subst hs
    exact ⟨Nat.le_succ _, le_refl _⟩
  | releaseLeaked item =>
    simp only [run, ho, Option.some.injEq] at hs
    subst hs
    exact ⟨le_refl _, Nat.le_succ _⟩
  | _ =>
    simp only [run, ho, Option.some.injEq] at hs
    subst hs
    exact ⟨le_refl _, le_refl _⟩

theorem Sys.counts_of_step {l : Label τ α} (hs : s.step B l = some s') :
    s.published ≤ s'.published ∧ s.consumed ≤ s'.consumed := by
  cases l with
  | publish t p | consume t =>
    obtain ⟨-, hs⟩ := Option.ite_none_right_eq_some.mp hs
    cases hs
    exact ⟨le_refl _, le_refl _⟩
  | run t answer => exact counts_of_run hs

end Counts

/-! ### An undisturbed call -/

section Alone
variable [DecidableEq τ] {B : Nat} {s : Sys τ α} {t : τ}

theorem publish_alone (ht : (s.op t).atRest = true) (hg : s.concurrencyGuard = false) (setterFn : α → α) :
    ∃ k, (Machine.exec (Sys.step B) s (.publish t (.setter setterFn) :: List.replicate k (.run t false))).map
      (fun s' => (s'.q, s'.concurrencyGuard)) = some ((s.q.publish B setterFn).1, false) := by
  by_cases hlen : s.q.tail - s.q.head < UInt32.ofNat B
  · refine ⟨5, ?_⟩
    simp only [List.replicate, Machine.exec_cons, Sys.step, Sys.call, ht, if_true, Option.bind_some, Sys.run, Sys.lock,
      Sys.unlock, Sys.setOp, Function.update_self, hg, Bool.false_eq_true, if_false, hlen, Payload.store,
      FullSyncMove.publish, leakSlot, publishLeaked]
    rfl
  · refine ⟨4, ?_⟩
    simp only [List.replicate, Machine.exec_cons, Sys.step, Sys.call, ht, if_true, Option.bind_some, Sys.run, Sys.lock,
      Sys.unlock, Sys.setOp, Function.update_self, hg, Bool.false_eq_true, if_false, hlen, Payload.reportFull,
      FullSyncMove.publish, leakSlot]
    rfl

theorem consume_alone (ht : (s.op t).atRest = true) (hg : s.concurrencyGuard = false) :
    ∃ k, (Machine.exec (Sys.step B) s (.consume t :: List.replicate k (.run t false))).map
      (fun s' => (s'.q, s'.concurrencyGuard)) = some ((s.q.consumeMovable B).1, false) := by
  by_cases hlen : 0 < s.q.availableElementsCount.toInt32
  · refine ⟨5, ?_⟩
    simp only [List.replicate, Machine.exec_cons, Sys.step, Sys.call, ht, if_true, Option.bind_some, Sys.run, Sys.lock,
      Sys.unlock, Sys.setOp, Function.update_self, hg, Bool.false_eq_true, if_false, hlen, consumeMovable]
    rfl
  · refine ⟨3, ?_⟩
    simp only [List.replicate, Machine.exec_cons, Sys.step, Sys.call, ht, if_true, Option.bind_some, Sys.run, Sys.lock,
      Sys.unlock, Sys.setOp, Function.update_self, hg, Bool.false_eq_true, if_false, hlen, consumeMovable]
    rfl

end Alone
end Mutiny.FullSyncMove
