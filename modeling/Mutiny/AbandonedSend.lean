import Mutiny.AtomicMoveSolo
import Mutiny.ZeroCopy

/-!
# `send_with_async`, dropped half way

The future of `send_with_async` reserves its slot at the first poll and publishes it once the future of
`setter` is ready. Dropping it in between runs no code of the channel: what the first poll took is not
given back. `Unharmed` is what a dropped future should leave behind, `abandoned_*` what it leaves in each
of the four channels.

Of the lengths that the operations return only the wake-ups of the streams depend, which are left out.
-/

namespace Mutiny
open MoveContainer

/-- What `send_with_async` and `send` need of the queue of a channel. A call that spins and that only
another thread can let go on has no result. -/
structure SendChannel (σ α : Type) where
  -- `leak_slot_internal(|| false)`, resp. `leak_slot()`
  leakSlot : σ → Option (σ × Option UInt32)
  -- a write through the reference to the slot
  fill : σ → UInt32 → (α → α) → σ
  -- `publish_leaked_internal(..)`, resp. `publish_leaked_ref(slot)`, which may fail
  publishLeaked : σ → UInt32 → Option σ
  -- the lock of the queue is held
  locked : σ → Bool
  -- how many slots are left for producers
  available : σ → Nat
  contents : σ → List α

/-- What a poll of the future of `setter` did to the slot, and whether it completed. -/
inductive SetterPoll (α : Type)
  | pending (setter : α → α)
  | ready (setter : α → α)

inductive SendFuture
  | unpolled
  -- at `setter(slot).await`
  | suspended (slotId : UInt32)
  -- `RetryResult::Ok`
  | ok
  -- `RetryResult::Transient`
  | transient

namespace SendChannel
variable {σ α : Type} (c : SendChannel σ α)

def await (s : σ) (slotId : UInt32) : SetterPoll α → Option (σ × SendFuture)
  | .pending setter => some (c.fill s slotId setter, .suspended slotId)
  | .ready setter => (c.publishLeaked (c.fill s slotId setter) slotId).map fun s' => (s', .ok)

/-- One poll of the future of `send_with_async`; a future that is over is not polled. -/
def poll (x : σ × SendFuture) (p : SetterPoll α) : Option (σ × SendFuture) :=
  match x with
  | (s, .unpolled) =>
    match c.leakSlot s with
    | some (s', some slotId) => c.await s' slotId p
    | some (s', none) => some (s', .transient)
    | none => none
  | (s, .suspended slotId) => c.await s slotId p
  | (_, .ok) | (_, .transient) => none

/-- The polls of one future of `send_with_async`. -/
def polls (s : σ) (ps : List (SetterPoll α)) : Option (σ × SendFuture) := Machine.exec c.poll (s, .unpolled) ps

def send (s : σ) (item : α) : Option σ :=
  match c.leakSlot s with
  | some (s', some slotId) => c.publishLeaked (c.fill s' slotId fun _ => item) slotId
  | _ => none

def sends (s : σ) (items : List α) : Option σ := Machine.exec c.send s items

/-- `s'` is as good a channel as `s`. -/
structure Unharmed (s s' : σ) : Prop where
  locked : c.locked s' = c.locked s
  available : c.available s' = c.available s
  contents : c.contents s' = c.contents s
  sends : ∀ items, (c.sends s' items).isSome = (c.sends s items).isSome

/-- A future that started in `s` and, if suspended, left a channel that satisfies `R`. -/
def Left (s : σ) (R : σ → Prop) : σ × SendFuture → Prop
  | (s', .unpolled) => s' = s
  | (s', .suspended _) => R s'
  | (_, .ok) | (_, .transient) => True

section Polls
variable {c} {s s' : σ} {R : σ → Prop} {x : σ × SendFuture} {p : SetterPoll α} {slotId : UInt32}

theorem Left.await (hfill : ∀ s₁ i f, R s₁ → R (c.fill s₁ i f)) (hs : R s') (h : c.await s' slotId p = some x) :
    Left s R x := by
  cases p with
  | pending f =>
    cases h
    exact hfill s' slotId f hs
  | ready f =>
    obtain ⟨_, -, rfl⟩ := Option.map_eq_some_iff.mp h
    trivial

theorem Left.poll {y : σ × SendFuture} (hleak : ∀ s₁ i, c.leakSlot s = some (s₁, some i) → R s₁)
    (hfill : ∀ s₁ i f, R s₁ → R (c.fill s₁ i f)) (hx : Left s R x) (h : c.poll x p = some y) : Left s R y := by
  obtain ⟨s₁, fut⟩ := x
  cases fut with
  | unpolled =>
    obtain rfl : s₁ = s := hx
    simp only [SendChannel.poll] at h
    rcases hl : c.leakSlot s₁ with _ | ⟨s₂, _ | i⟩
    · simp [hl] at h
    · simp only [hl] at h
      cases h
      trivial
    · simp only [hl] at h
      exact Left.await hfill (hleak s₂ i hl) h
  | suspended i => exact Left.await hfill hx h
  | ok => cases h
  | transient => cases h

theorem polls_suspended {ps : List (SetterPoll α)} (hleak : ∀ s₁ i, c.leakSlot s = some (s₁, some i) → R s₁)
    (hfill : ∀ s₁ i f, R s₁ → R (c.fill s₁ i f)) (h : c.polls s ps = some (s', .suspended slotId)) : R s' := by
  have hI : Left s R (s', .suspended slotId) := by
    refine (Machine.Path.of_exec h).steps.invariant (I := Left s R) ?_ rfl
    intro x p y hx hp _
    exact hx.poll hleak hfill hp
  exact hI

end Polls
end SendChannel

/-! ### Movable Atomic -/

namespace AtomicMove
variable {α τ : Type} {B : Nat} {q q' : AtomicMove α}

/-- `leak_slot_internal(|| false)`, undisturbed -/
def leakSlotInternal (B : Nat) (q : AtomicMove α) : AtomicMove α × Option UInt32 :=
  let slotId := q.enqueuerTail
  let lenBefore := slotId - q.head
  if lenBefore < UInt32.ofNat B then ({ q with enqueuerTail := slotId + 1 }, some slotId)
  else ({ q with enqueuerTail := slotId }, none)

/-- `publish_leaked_internal(slot_id)`; it spins while `tail` is another id. -/
def publishLeakedInternal (q : AtomicMove α) (slotId : UInt32) : Option (AtomicMove α) :=
  if q.tail = slotId then some { q with tail := slotId + 1 } else none

def sendChannel (B : Nat) : SendChannel (AtomicMove α) α where
  leakSlot q := some (q.leakSlotInternal B)
  fill q slotId setter :=
    { q with buffer := Function.update q.buffer (slotIndex B slotId) (setter (q.buffer (slotIndex B slotId))) }
  publishLeaked := publishLeakedInternal
  locked _ := false
  available q := Ring.room B - (q.enqueuerTail - q.head).toNat
  contents q := q.sync.elems B

theorem leakSlot_alone [DecidableEq τ] {s : Sys τ α} {t : τ} {slotId : UInt32} (ht : (s.op t).atRest = true)
    (p : Payload α) (h : s.q.leakSlotInternal B = (q, some slotId)) :
    (Machine.exec (Sys.step B) s (.publish t p :: List.replicate 2 (.run t false false))).map
      (fun s' => (s'.q, (s'.op t).writing)) = some (q, some slotId) := by
  by_cases hlen : s.q.enqueuerTail - s.q.head < UInt32.ofNat B
  · simp only [leakSlotInternal, hlen, if_true, Prod.mk.injEq, Option.some.injEq] at h
    obtain ⟨rfl, rfl⟩ := h
    simp [Machine.exec, Sys.step, Sys.call, ht, Sys.run, Sys.setOp, hlen, Op.writing]
  · simp [leakSlotInternal, hlen] at h

theorem send_quiet (h : q.Quiet) (x : α) : (sendChannel B).send q x =
    if (q.publishMovable B x).2.2 = none then some (q.publishMovable B x).1 else none := by
  have htail : q.tail = q.enqueuerTail := h.1.symm
  by_cases hlen : q.enqueuerTail - q.head < UInt32.ofNat B
  · simp [SendChannel.send, sendChannel, leakSlotInternal, publishLeakedInternal, publishMovable, hlen, htail]
  · simp [SendChannel.send, sendChannel, leakSlotInternal, publishMovable, hlen]

section Abandoned
variable {ps : List (SetterPoll α)} {slotId : UInt32}

theorem polls_suspended (h : (sendChannel B).polls q ps = some (q', .suspended slotId)) :
    q.enqueuerTail - q.head < UInt32.ofNat B ∧ q'.enqueuerTail = q.enqueuerTail + 1 ∧ q'.head = q.head ∧
      q'.tail = q.tail := by
  refine SendChannel.polls_suspended (R := fun q' => q.enqueuerTail - q.head < UInt32.ofNat B ∧
    q'.enqueuerTail = q.enqueuerTail + 1 ∧ q'.head = q.head ∧ q'.tail = q.tail) ?_ (fun _ _ _ hq => hq) h
  intro q₁ i hl
  by_cases hlen : q.enqueuerTail - q.head < UInt32.ofNat B
  · simp only [sendChannel, leakSlotInternal, hlen, if_true, Option.some.injEq, Prod.mk.injEq] at hl
    obtain ⟨rfl, -⟩ := hl
    exact ⟨hlen, rfl, rfl, rfl⟩
  · simp [sendChannel, leakSlotInternal, hlen] at hl

theorem abandoned_available (h : (sendChannel B).polls q ps = some (q', .suspended slotId)) :
    (sendChannel B).available q' + 1 = (sendChannel B).available q := by
  obtain ⟨hlen, henq, hhead, -⟩ := polls_suspended h
  have hlt : (q.enqueuerTail - q.head).toNat < Ring.room B := UInt32.lt_iff_toNat_lt.mp hlen
  have hroom : Ring.room B < 2 ^ 32 := (UInt32.ofNat B).toNat_lt
  have hsucc : (q.enqueuerTail + 1 - q.head).toNat = (q.enqueuerTail - q.head).toNat + 1 := by
    simp only [UInt32.toNat_sub, UInt32.toNat_add, UInt32.toNat_one] at *
    have := q.head.toNat_lt
    omega
  show Ring.room B - (q'.enqueuerTail - q'.head).toNat + 1 = Ring.room B - (q.enqueuerTail - q.head).toNat
  rw [henq, hhead, hsucc]
  omega

theorem abandoned_send (hq : q.Quiet) (h : (sendChannel B).polls q ps = some (q', .suspended slotId)) (x : α) :
    (sendChannel B).send q' x = none := by
  obtain ⟨-, henq, -, htail⟩ := polls_suspended h
  have hne : q'.tail ≠ q'.enqueuerTail := by
    rw [henq, htail, hq.1]
    intro he
    have := congrArg UInt32.toNat he
    rw [UInt32.toNat_add, UInt32.toNat_one] at this
    have := q.tail.toNat_lt
    omega
  by_cases hlen : q'.enqueuerTail - q'.head < UInt32.ofNat B
  · simp [SendChannel.send, sendChannel, leakSlotInternal, publishLeakedInternal, hlen, hne]
  · simp [SendChannel.send, sendChannel, leakSlotInternal, hlen]

theorem abandoned_harms (h : (sendChannel B).polls q ps = some (q', .suspended slotId)) :
    ¬ (sendChannel B).Unharmed q q' := by
  intro hu
  have := abandoned_available h
  have := hu.available
  omega

end Abandoned
end AtomicMove

/-! ### Movable FullSync -/

/-- `FullSyncMove<SlotType, BUFFER_SIZE>` with its lock. -/
structure GuardedMove (α : Type) where
  queue : FullSyncMove α
  concurrencyGuard : Bool

namespace GuardedMove
variable {α : Type} {B : Nat} {q q' : GuardedMove α}

/-- `leak_slot_internal(|| false)`: `lock` spins while the lock is held, and a slot is returned with the lock
held. -/
def leakSlotInternal (B : Nat) (q : GuardedMove α) : Option (GuardedMove α × Option UInt32) :=
  if q.concurrencyGuard then none
  else match q.queue.leakSlot B with
    | some (slotId, _) => some ({ q with concurrencyGuard := true }, some slotId)
    | none => some ({ q with concurrencyGuard := false }, none)

def publishLeakedInternal (q : GuardedMove α) : GuardedMove α :=
  ⟨{ q.queue with tail := q.queue.tail + 1 }, false⟩

def sendChannel (B : Nat) : SendChannel (GuardedMove α) α where
  leakSlot q := q.leakSlotInternal B
  fill q slotId setter :=
    { q with queue.buffer := Function.update q.queue.buffer (slotId.toNat % B) (setter (q.queue.buffer (slotId.toNat % B))) }
  publishLeaked q _ := some q.publishLeakedInternal
  locked := concurrencyGuard
  available q := Ring.room B - q.queue.len
  contents q := q.queue.elems B

theorem send_unlocked (h : q.concurrencyGuard = false) (x : α) : (sendChannel B).send q x =
    if (q.queue.publishMovable B x).2.2 = none then some ⟨(q.queue.publishMovable B x).1, false⟩ else none := by
  cases hl : q.queue.leakSlot B with
  | some r =>
    obtain ⟨slotId, lenBefore⟩ := r
    simp [SendChannel.send, sendChannel, leakSlotInternal, publishLeakedInternal, FullSyncMove.publishMovable,
      FullSyncMove.publishLeaked, h, hl]
  | none => simp [SendChannel.send, sendChannel, leakSlotInternal, FullSyncMove.publishMovable, h, hl]

section Abandoned
variable {ps : List (SetterPoll α)} {slotId : UInt32}

theorem abandoned_locked (h : (sendChannel B).polls q ps = some (q', .suspended slotId)) :
    q.concurrencyGuard = false ∧ q'.concurrencyGuard = true := by
  refine SendChannel.polls_suspended (R := fun q' => q.concurrencyGuard = false ∧ q'.concurrencyGuard = true) ?_
    (fun _ _ _ hq => hq) h
  intro q₁ i hl
  cases hg : q.concurrencyGuard with
  | true => simp [sendChannel, leakSlotInternal, hg] at hl
  | false =>
    simp only [sendChannel, leakSlotInternal, hg, Bool.false_eq_true, if_false] at hl
    split at hl
    · cases hl; exact ⟨rfl, rfl⟩
    · cases hl

theorem abandoned_send (h : (sendChannel B).polls q ps = some (q', .suspended slotId)) (x : α) :
    (sendChannel B).send q' x = none := by
  simp [SendChannel.send, sendChannel, leakSlotInternal, (abandoned_locked h).2]

theorem abandoned_harms (h : (sendChannel B).polls q ps = some (q', .suspended slotId)) :
    ¬ (sendChannel B).Unharmed q q' := by
  intro hu
  obtain ⟨h₁, h₂⟩ := abandoned_locked h
  have hl : q'.concurrencyGuard = q.concurrencyGuard := hu.locked
  rw [h₁, h₂] at hl
  cases hl

end Abandoned
end GuardedMove

/-! ### Zero-copy Atomic and FullSync -/

namespace ZeroCopy
variable {C D : Type → Type} {α : Type} [LawfulMoveContainer C] [LawfulMoveContainer D] {B : Nat}
  {z z' : ZeroCopy C D α}

/-- The zero-copy channels; no operation on the allocator or on the queue of ids keeps a lock. -/
def sendChannel (B : Nat) : SendChannel (ZeroCopy C D α) α where
  leakSlot z := some (z.leakSlot B)
  fill z slotId setter := z.write slotId setter
  publishLeaked z slotId :=
    match z.publishLeakedId B (idFromRef slotId.toNat) with
    | (z', some _) => some z'
    | (_, none) => none
  locked _ := false
  available z := (z.allocator.free B).length
  contents z := (LawfulMoveContainer.elems B z.queue).map fun slotId => z.allocator.pool slotId.toNat

theorem abandoned_available {ps : List (SetterPoll α)} {slotId : UInt32}
    (hz : LawfulMoveContainer.WellFormed B z.allocator.freeList)
    (h : (sendChannel B).polls z ps = some (z', .suspended slotId)) :
    (z'.allocator.free B).length + 1 = (z.allocator.free B).length := by
  refine SendChannel.polls_suspended (R := fun z' => (z'.allocator.free B).length + 1 = (z.allocator.free B).length) ?_
    (fun _ _ _ hz => hz) h
  intro z₁ i hl
  have hl' : z.leakSlot B = (z₁, some i) := Option.some.inj hl
  rcases LawfulMoveContainer.consume_cases hz with ⟨l, x, xs, hc, hel, -, hel'⟩ | ⟨hc, -⟩
  · simp only [leakSlot, Store.allocRef, hc, Prod.mk.injEq] at hl'
    obtain ⟨rfl, -⟩ := hl'
    unfold Store.free
    rw [hel, hel', List.length_cons]
  · simp only [leakSlot, Store.allocRef, hc, Prod.mk.injEq, reduceCtorEq, and_false] at hl'

theorem abandoned_harms {ps : List (SetterPoll α)} {slotId : UInt32} (hB : Ring.PowerOfTwo B) {pool : Nat → α}
    {s : Sys C D α} (hs : Machine.Steps (Sys.step B) (fun _ _ _ => True) (.init B pool) s)
    (h : (sendChannel B).polls s.z ps = some (z', .suspended slotId)) : ¬ (sendChannel B).Unharmed s.z z' := by
  intro hu
  have hi : Inv B s := by
    refine hs.invariant (I := Inv B) ?_ (.init hB pool)
    intro s l s' hi hs _
    exact hi.step hB hs
  have := abandoned_available hi.wfFree h
  have : (z'.allocator.free B).length = (s.z.allocator.free B).length := hu.available
  omega

end ZeroCopy
/-! ### None of the four undoes its reservation -/

/-- In whatever state the channel is and however often the future was polled, dropping it does harm. -/
theorem abandoned_sends_harm {α : Type} {B : Nat} (hB : Ring.PowerOfTwo B) :
    (∀ (q q' : AtomicMove α) (ps : List (SetterPoll α)) (slotId : UInt32),
      (AtomicMove.sendChannel B).polls q ps = some (q', .suspended slotId) →
      ¬ (AtomicMove.sendChannel B).Unharmed q q') ∧
    (∀ (q q' : GuardedMove α) (ps : List (SetterPoll α)) (slotId : UInt32),
      (GuardedMove.sendChannel B).polls q ps = some (q', .suspended slotId) →
      ¬ (GuardedMove.sendChannel B).Unharmed q q') ∧
    (∀ (C : Type → Type) [LawfulMoveContainer C] (pool : Nat → α) (s : ZeroCopy.Sys C AtomicMove α)
      (z' : ZeroCopy C AtomicMove α) (ps : List (SetterPoll α)) (slotId : UInt32),
      Machine.Steps (ZeroCopy.Sys.step B) (fun _ _ _ => True) (.init B pool) s →
      (ZeroCopy.sendChannel B).polls s.z ps = some (z', .suspended slotId) →
      ¬ (ZeroCopy.sendChannel B).Unharmed s.z z') ∧
    (∀ (C : Type → Type) [LawfulMoveContainer C] (pool : Nat → α) (s : ZeroCopy.Sys C FullSyncMove α)
      (z' : ZeroCopy C FullSyncMove α) (ps : List (SetterPoll α)) (slotId : UInt32),
      Machine.Steps (ZeroCopy.Sys.step B) (fun _ _ _ => True) (.init B pool) s →
      (ZeroCopy.sendChannel B).polls s.z ps = some (z', .suspended slotId) →
      ¬ (ZeroCopy.sendChannel B).Unharmed s.z z') := by
  refine ⟨?_, ?_, ?_, ?_⟩
  · intro q q' ps slotId h
    exact AtomicMove.abandoned_harms h
  · intro q q' ps slotId h
    exact GuardedMove.abandoned_harms h
  · intro C _ pool s z' ps slotId hs h
    exact ZeroCopy.abandoned_harms hB hs h
  · intro C _ pool s z' ps slotId hs h
    exact ZeroCopy.abandoned_harms hB hs h

/-- Each of the four, new and with two slots, after two suspensions. -/
theorem abandoned_sends_harm_two :
    (∃ q', (AtomicMove.sendChannel 2).polls (.withInitializer fun _ => 0) [.pending (· + 1), .pending (· + 1)] =
        some (q', .suspended 0) ∧ ¬ (AtomicMove.sendChannel 2).Unharmed (.withInitializer fun _ => 0) q') ∧
    (∃ q', (GuardedMove.sendChannel 2).polls ⟨.withInitializer fun _ => 0, false⟩ [.pending (· + 1), .pending (· + 1)] =
        some (q', .suspended 0) ∧ ¬ (GuardedMove.sendChannel 2).Unharmed ⟨.withInitializer fun _ => 0, false⟩ q') ∧
    (∃ z', (ZeroCopy.sendChannel 2).polls (.new 2 fun _ => 0 : ZeroCopy AtomicMove AtomicMove Nat)
        [.pending (· + 1), .pending (· + 1)] = some (z', .suspended 0) ∧
        ¬ (ZeroCopy.sendChannel 2).Unharmed (.new 2 fun _ => 0 : ZeroCopy AtomicMove AtomicMove Nat) z') ∧
    (∃ z', (ZeroCopy.sendChannel 2).polls (.new 2 fun _ => 0 : ZeroCopy FullSyncMove FullSyncMove Nat)
        [.pending (· + 1), .pending (· + 1)] = some (z', .suspended 0) ∧
        ¬ (ZeroCopy.sendChannel 2).Unharmed (.new 2 fun _ => 0 : ZeroCopy FullSyncMove FullSyncMove Nat) z') := by
  obtain ⟨h₁, h₂, h₃, h₄⟩ := abandoned_sends_harm (α := Nat) (B := 2) ⟨1, rfl⟩
  refine ⟨⟨_, rfl, ?_⟩, ⟨_, rfl, ?_⟩, ⟨_, rfl, ?_⟩, ⟨_, rfl, ?_⟩⟩
  · exact h₁ _ _ [.pending (· + 1), .pending (· + 1)] 0 rfl
  · exact h₂ _ _ [.pending (· + 1), .pending (· + 1)] 0 rfl
  · exact h₃ AtomicMove (fun _ => 0) (.init 2 fun _ => 0) _ [.pending (· + 1), .pending (· + 1)] 0 .refl rfl
  · exact h₄ FullSyncMove (fun _ => 0) (.init 2 fun _ => 0) _ [.pending (· + 1), .pending (· + 1)] 0 .refl rfl

/-- A new movable FullSync channel with two slots: the dropped future keeps the lock, and a send that the
channel accepted before spins. -/
theorem abandoned_send_keeps_lock : ∃ q' : GuardedMove Nat,
    (GuardedMove.sendChannel 2).polls ⟨.withInitializer fun _ => 0, false⟩ [.pending id] = some (q', .suspended 0) ∧
    q'.concurrencyGuard = true ∧ ((GuardedMove.sendChannel 2).send ⟨.withInitializer fun _ => 0, false⟩ 7).isSome = true ∧
    (GuardedMove.sendChannel 2).send q' 7 = none ∧
    ¬ (GuardedMove.sendChannel 2).Unharmed ⟨.withInitializer fun _ => 0, false⟩ q' := by
  obtain ⟨q', h⟩ : ∃ q' : GuardedMove Nat, (GuardedMove.sendChannel 2).polls ⟨.withInitializer fun _ => 0, false⟩
      [.pending id] = some (q', .suspended 0) := ⟨_, rfl⟩
  exact ⟨q', h, (GuardedMove.abandoned_locked h).2, by decide, GuardedMove.abandoned_send h 7,
    GuardedMove.abandoned_harms h⟩

end Mutiny
