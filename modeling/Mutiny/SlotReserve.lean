import Mutiny.AtomicMoveSafety
import Mutiny.Lib.Ring

/-!
# Reserved slots of the movable `Atomic` channel

`reserve_slot`, `try_send_reserved` and `try_cancel_slot_reserve` of `uni/channels/movable/atomic.rs`, on top of
the steps of `AtomicMove`. A reservation is an operation of its own that stops with the slot in its hands; a
thread with several reservations is several of them. The caller keeps only a reference to the slot, so both
`try_` functions know the ring index and guess the cycle from the counter they compare-exchange.

For `try_send_reserved` the guess is right: the ids between `tail` and the one reserved are fewer than
`BUFFER_SIZE`. `enqueuer_tail` may be further away, since a send reserves its id before it finds the queue full.
-/

namespace Mutiny.SlotReserve
open AtomicMove (Op Payload Put slotIndex)
variable {τ α : Type}

/-- Where a reservation stands; operations other than reservations are `free`. -/
inductive Phase
  | free
  -- inside `reserve_slot`
  | reserving
  -- `reserve_slot` returned the slot
  | reserved
  -- `try_publish_leaked_internal_index`: about to compare-exchange `tail`
  | sending (slotId : UInt32)
  -- `try_unleak_slot_index_internal`: about to compare-exchange `enqueuer_tail`
  | cancelling (slotId : UInt32)

/-- The slot id guessed by the call in progress. -/
def Phase.guess : Phase → Option UInt32
  | sending slotId | cancelling slotId => some slotId
  | _ => none

def Phase.ofReserve : Op α → Phase
  | .slotWrite .. => reserved
  | .refused _ => free
  | _ => reserving

/-- A call of `try_cancel_slot_reserve` that returned `true`: the id of its reservation and the id given up. -/
structure Cancel (τ : Type) where
  holder : τ
  own : UInt32
  given : UInt32

/-- The queue and its reservations. Nothing reads `cancels`. -/
structure Chan (τ α : Type) where
  queue : AtomicMove.Sys τ α
  phase : τ → Phase
  cancels : List (Cancel τ)

inductive Label (τ α : Type)
  -- `send`, `send_with` or `send_with_async`
  | send (t : τ) (p : Payload α)
  | consume (t : τ)
  | reserveSlot (t : τ)
  -- the holder writes to its slot
  | fill (t : τ) (f : α → α)
  | trySendReserved (t : τ)
  | tryCancelSlotReserve (t : τ)
  -- the next atomic operation of `t`
  | run (t : τ) (spurious answer : Bool)

namespace Chan

def init (buffer : Nat → α) : Chan τ α := ⟨.init buffer, fun _ => .free, []⟩

/-- The slot reserved under `slot_index`, as of the cycle that the reloaded counter is in. -/
def cycled (B : Nat) (slotIndex reloaded : UInt32) : UInt32 :=
  slotIndex + reloaded / UInt32.ofNat B * UInt32.ofNat B

/-- The id reserved by the caller of `try_cancel_slot_reserve`, if its compare-exchange is next and succeeds. -/
def cancelled (s : Chan τ α) : Label τ α → Option UInt32
  | .run t false _ =>
    match s.phase t, s.queue.op t with
    | .cancelling guess, .slotWrite _ slotId _ => if s.queue.q.enqueuerTail = guess + 1 then some slotId else none
    | _, _ => none
  | _ => none

theorem cancelled_of_ne {s : Chan τ α} {t : τ} {spurious answer : Bool} (h : ∀ guess, s.phase t ≠ .cancelling guess) :
    s.cancelled (.run t spurious answer) = none := by
  cases spurious with
  | true => rfl
  | false =>
    cases hphase : s.phase t with
    | cancelling guess => exact absurd hphase (h guess)
    | _ => simp only [cancelled, hphase]

variable [DecidableEq τ]

def setPhase (s : Chan τ α) (t : τ) (phase : Phase) : Chan τ α :=
  { s with phase := Function.update s.phase t phase }

/-- `try_publish_leaked_internal_index`, with `slot_id` at `guess`. -/
def runSend (B : Nat) (s : Chan τ α) (t : τ) (slotId lenBefore guess : UInt32) (spurious : Bool) : Chan τ α :=
  let index := UInt32.ofNat (slotIndex B slotId)
  let item := s.queue.q.buffer (slotIndex B slotId)
  let reloaded := s.queue.q.tail
  if spurious = false ∧ reloaded = guess then
    { s with queue := { s.queue with
        q := { s.queue.q with tail := guess + 1 },
        published := s.queue.published ++
          [Put.mk t (s.queue.calls t) guess (.movable item) item] }.setOp t (.published lenBefore) }.setPhase t .free
  else if reloaded / UInt32.ofNat B > guess / UInt32.ofNat B then s.setPhase t (.sending (cycled B index reloaded))
  else s.setPhase t .reserved

/-- `try_unleak_slot_index_internal`, with `slot_id` at `guess`; the subtraction wraps, as in a release build. -/
def runCancel (B : Nat) (s : Chan τ α) (t : τ) (slotId guess : UInt32) (spurious : Bool) : Chan τ α :=
  let index := UInt32.ofNat (slotIndex B slotId)
  let reloaded := s.queue.q.enqueuerTail
  if spurious = false ∧ reloaded = guess + 1 then
    { s with queue := { s.queue with q := { s.queue.q with enqueuerTail := guess } }.setOp t .idle,
             cancels := s.cancels ++ [Cancel.mk t slotId guess] }.setPhase t .free
  else if (reloaded - 1) / UInt32.ofNat B > guess / UInt32.ofNat B then
    s.setPhase t (.cancelling (cycled B index (reloaded - 1)))
  else s.setPhase t .reserved

def run (B : Nat) (s : Chan τ α) (t : τ) (spurious answer : Bool) : Option (Chan τ α) :=
  match s.phase t, s.queue.op t with
  | .free, _ => (s.queue.run B t spurious answer).map fun queue => { s with queue := queue }
  | .reserving, _ =>
    (s.queue.run B t spurious false).map fun queue =>
      { s with queue := queue }.setPhase t (Phase.ofReserve (queue.op t))
  | .sending guess, .slotWrite _ slotId lenBefore => some (s.runSend B t slotId lenBefore guess spurious)
  | .cancelling guess, .slotWrite _ slotId _ => some (s.runCancel B t slotId guess spurious)
  | _, _ => none

def step (B : Nat) (s : Chan τ α) : Label τ α → Option (Chan τ α)
  | .send t p =>
    match s.phase t with
    | .free => (s.queue.call t (.leakReserve p)).map fun queue => { s with queue := queue }
    | _ => none
  | .consume t =>
    match s.phase t with
    | .free => (s.queue.call t .consumeReserve).map fun queue => { s with queue := queue }
    | _ => none
  | .reserveSlot t =>
    match s.phase t with
    | .free => (s.queue.call t (.leakReserve (.setter id))).map fun queue =>
        { s with queue := queue }.setPhase t .reserving
    | _ => none
  | .fill t f =>
    match s.phase t, s.queue.op t with
    | .reserved, .slotWrite _ slotId _ =>
      some { s with queue := { s.queue with q := { s.queue.q with
        buffer := Function.update s.queue.q.buffer (slotIndex B slotId)
          (f (s.queue.q.buffer (slotIndex B slotId))) } } }
    | _, _ => none
  | .trySendReserved t =>
    match s.phase t, s.queue.op t with
    | .reserved, .slotWrite _ slotId _ => some (s.setPhase t (.sending (UInt32.ofNat (slotIndex B slotId))))
    | _, _ => none
  | .tryCancelSlotReserve t =>
    match s.phase t, s.queue.op t with
    | .reserved, .slotWrite _ slotId _ => some (s.setPhase t (.cancelling (UInt32.ofNat (slotIndex B slotId))))
    | _, _ => none
  | .run t spurious answer => s.run B t spurious answer

/-- Everything a step can do; the option is the id reserved by the caller of a cancellation that succeeds. -/
inductive Moves (B : Nat) (s : Chan τ α) (t : τ) : Option UInt32 → Chan τ α → Prop
  -- the queue takes a step
  | queue {l : AtomicMove.Label τ α} {queue : AtomicMove.Sys τ α} {phase : Phase} (hs : s.queue.step B l = some queue)
    (hop : ∀ u ≠ t, queue.op u = s.queue.op u) (hphase : phase.guess = none) :
    Moves B s t none ({ s with queue := queue }.setPhase t phase)
  | fill {p : Payload α} {slotId lenBefore : UInt32} (ho : s.queue.op t = .slotWrite p slotId lenBefore)
    (f : α → α) :
    Moves B s t none { s with queue := { s.queue with q := { s.queue.q with
      buffer := Function.update s.queue.q.buffer (slotIndex B slotId) (f (s.queue.q.buffer (slotIndex B slotId))) } } }
  -- a guess is made or given up
  | aim {p : Payload α} {slotId lenBefore : UInt32} {phase : Phase}
    (ho : s.queue.op t = .slotWrite p slotId lenBefore)
    (hphase : ∀ guess, phase.guess = some guess → guess = UInt32.ofNat (slotIndex B slotId) ∨
      ∃ reloaded, guess = cycled B (UInt32.ofNat (slotIndex B slotId)) reloaded) :
    Moves B s t none (s.setPhase t phase)
  | send {p : Payload α} {slotId lenBefore guess : UInt32} (hphase : s.phase t = .sending guess)
    (ho : s.queue.op t = .slotWrite p slotId lenBefore) (hcas : s.queue.q.tail = guess) :
    Moves B s t none ({ s with queue := { s.queue with
        q := { s.queue.q with tail := guess + 1 },
        published := s.queue.published ++ [Put.mk t (s.queue.calls t) guess
          (.movable (s.queue.q.buffer (slotIndex B slotId)))
          (s.queue.q.buffer (slotIndex B slotId))] }.setOp t (.published lenBefore) }.setPhase t .free)
  | cancel {p : Payload α} {slotId lenBefore guess : UInt32} (hphase : s.phase t = .cancelling guess)
    (ho : s.queue.op t = .slotWrite p slotId lenBefore) (hcas : s.queue.q.enqueuerTail = guess + 1) :
    Moves B s t (some slotId)
      ({ s with queue := { s.queue with q := { s.queue.q with enqueuerTail := guess } }.setOp t .idle,
                cancels := s.cancels ++ [Cancel.mk t slotId guess] }.setPhase t .free)

variable {B : Nat} {s s' : Chan τ α} {t : τ}

theorem Moves.ofFree {l : AtomicMove.Label τ α} {queue : AtomicMove.Sys τ α} (hphase : s.phase t = .free)
    (hs : s.queue.step B l = some queue) (hop : ∀ u ≠ t, queue.op u = s.queue.op u) :
    Moves B s t none { s with queue := queue } := by
  have h : Moves B s t none ({ s with queue := queue }.setPhase t .free) := .queue hs hop rfl
  rwa [setPhase, ← hphase, Function.update_eq_self] at h

theorem moves_of_runSend {p : Payload α} {slotId lenBefore guess : UInt32} {spurious : Bool}
    (hphase : s.phase t = .sending guess) (ho : s.queue.op t = .slotWrite p slotId lenBefore) :
    Moves B s t none (s.runSend B t slotId lenBefore guess spurious) := by
  unfold runSend
  simp only
  split
  case isTrue hc => exact .send hphase ho hc.2
  case isFalse =>
    split
    · refine .aim ho fun guess hg => .inr ⟨s.queue.q.tail, ?_⟩
      cases hg
      rfl
    · refine .aim ho fun guess hg => ?_
      cases hg

theorem moves_of_runCancel {p : Payload α} {slotId lenBefore guess : UInt32} {spurious : Bool} (answer : Bool)
    (hphase : s.phase t = .cancelling guess) (ho : s.queue.op t = .slotWrite p slotId lenBefore) :
    Moves B s t (s.cancelled (.run t spurious answer)) (s.runCancel B t slotId guess spurious) := by
  have hcancelled : s.cancelled (.run t spurious answer) =
      if spurious = false ∧ s.queue.q.enqueuerTail = guess + 1 then some slotId else none := by
    cases spurious with
    | false => simp only [cancelled, hphase, ho, true_and]
    | true => simp only [cancelled, reduceCtorEq, false_and, if_false]
  rw [hcancelled]
  unfold runCancel
  simp only
  split
  case isTrue hc => exact .cancel hphase ho hc.2
  case isFalse =>
    split
    · refine .aim ho fun guess hg => .inr ⟨s.queue.q.enqueuerTail - 1, ?_⟩
      cases hg
      rfl
    · refine .aim ho fun guess hg => ?_
      cases hg

theorem guess_ofReserve (o : Op α) : (Phase.ofReserve o).guess = none := by
  cases o <;> rfl

theorem moves_of_run {spurious answer : Bool} (hs : s.run B t spurious answer = some s') :
    Moves B s t (s.cancelled (.run t spurious answer)) s' := by
  cases hphase : s.phase t with
  | free =>
    simp only [run, hphase] at hs
    obtain ⟨queue, hq, rfl⟩ := Option.map_eq_some_iff.mp hs
    rw [cancelled_of_ne (by rw [hphase]; nofun)]
    refine .ofFree (l := .run t spurious answer) hphase hq fun u hu => ?_
    exact (AtomicMove.Sys.moves_of_run hq).op_of_ne hu
  | reserving =>
    simp only [run, hphase] at hs
    obtain ⟨queue, hq, rfl⟩ := Option.map_eq_some_iff.mp hs
    rw [cancelled_of_ne (by rw [hphase]; nofun)]
    refine .queue (l := .run t spurious false) hq (fun u hu => ?_) (guess_ofReserve _)
    exact (AtomicMove.Sys.moves_of_run hq).op_of_ne hu
  | reserved => simp [run, hphase] at hs
  | sending guess =>
    cases ho : s.queue.op t with
    | slotWrite p slotId lenBefore =>
      simp only [run, hphase, ho, Option.some.injEq] at hs
      subst hs
      rw [cancelled_of_ne (by rw [hphase]; nofun)]
      exact moves_of_runSend hphase ho
    | _ => simp [run, hphase, ho] at hs
  | cancelling guess =>
    cases ho : s.queue.op t with
    | slotWrite p slotId lenBefore =>
      simp only [run, hphase, ho, Option.some.injEq] at hs
      subst hs
      exact moves_of_runCancel answer hphase ho
    | _ => simp [run, hphase, ho] at hs

theorem op_of_call_ne {queue : AtomicMove.Sys τ α} {o : Op α} (hs : s.queue.call t o = some queue) {u : τ} (hu : u ≠ t) :
    queue.op u = s.queue.op u := by
  rw [AtomicMove.Sys.op_of_call hs, Function.update_of_ne hu]

omit [DecidableEq τ] in
theorem reserved_of_match {r : Payload α → UInt32 → UInt32 → Option (Chan τ α)}
    (hs : (match s.phase t, s.queue.op t with
      | .reserved, .slotWrite p slotId lenBefore => r p slotId lenBefore
      | _, _ => none) = some s') :
    ∃ p slotId lenBefore, s.phase t = .reserved ∧ s.queue.op t = .slotWrite p slotId lenBefore ∧
      r p slotId lenBefore = some s' := by
  cases hphase : s.phase t with
  | reserved =>
    cases ho : s.queue.op t with
    | slotWrite p slotId lenBefore =>
      simp only [hphase, ho] at hs
      exact ⟨p, slotId, lenBefore, rfl, rfl, hs⟩
    | _ => simp [hphase, ho] at hs
  | _ => simp [hphase] at hs

theorem step_cases {l : Label τ α} (hs : s.step B l = some s') : ∃ t, Moves B s t (s.cancelled l) s' := by
  cases l with
  | send t p =>
    cases hphase : s.phase t with
    | free =>
      simp only [step, hphase] at hs
      obtain ⟨queue, hq, rfl⟩ := Option.map_eq_some_iff.mp hs
      exact ⟨t, .ofFree (l := .publish t p) hphase hq fun u hu => op_of_call_ne hq hu⟩
    | _ => simp [step, hphase] at hs
  | consume t =>
    cases hphase : s.phase t with
    | free =>
      simp only [step, hphase] at hs
      obtain ⟨queue, hq, rfl⟩ := Option.map_eq_some_iff.mp hs
      exact ⟨t, .ofFree (l := .consume t) hphase hq fun u hu => op_of_call_ne hq hu⟩
    | _ => simp [step, hphase] at hs
  | reserveSlot t =>
    cases hphase : s.phase t with
    | free =>
      simp only [step, hphase] at hs
      obtain ⟨queue, hq, rfl⟩ := Option.map_eq_some_iff.mp hs
      exact ⟨t, .queue (l := .publish t (.setter id)) hq (fun u hu => op_of_call_ne hq hu) rfl⟩
    | _ => simp [step, hphase] at hs
  | fill t f =>
    obtain ⟨p, slotId, lenBefore, -, ho, hs⟩ := reserved_of_match hs
    cases hs
    exact ⟨t, .fill ho f⟩
  | trySendReserved t =>
    obtain ⟨p, slotId, lenBefore, -, ho, hs⟩ := reserved_of_match hs
    cases hs
    refine ⟨t, .aim ho fun guess hg => .inl ?_⟩
    cases hg
    rfl
  | tryCancelSlotReserve t =>
    obtain ⟨p, slotId, lenBefore, -, ho, hs⟩ := reserved_of_match hs
    cases hs
    refine ⟨t, .aim ho fun guess hg => .inl ?_⟩
    cases hg
    rfl
  | run t spurious answer => exact ⟨t, moves_of_run hs⟩

end Chan

/-! ### The queue under reservations -/

section Queue
open AtomicMove (Ghost Inv Close Sys)
variable [DecidableEq τ] {B : Nat} {s : Sys τ α} {g : Ghost τ} {t : τ} {p : Payload α} {i l guess : UInt32}

theorem setOp_setOp (s : Sys τ α) (t : τ) (o o' : Op α) : (s.setOp t o).setOp t o' = s.setOp t o' := by
  simp only [Sys.setOp, Function.update_idem]

theorem inv_fill (h : Inv B s g) (hB : B ∣ 2 ^ 32) (ho : s.op t = .slotWrite p i l) (f : α → α) :
    Inv B { s with q := { s.q with
      buffer := Function.update s.q.buffer (slotIndex B i) (f (s.q.buffer (slotIndex B i))) } } g := by
  have ht := h.thread t
  rw [ho] at ht
  have h₁ : Inv B (s.setOp t (.slotWrite (.setter f) i l)) g := h.setOp ht
  have h₂ := h₁.write hB (Function.update_self ..) rfl
  have h₃ := h₂.setOp (t := t) (o := .slotWrite p i l) ht
  rw [setOp_setOp] at h₃
  change Inv B { s with
    q := _, op := Function.update (Function.update s.op t (.slotWrite (.setter f) i l)) t (.slotWrite p i l) } g at h₃
  rw [Function.update_idem, ← ho, Function.update_eq_self] at h₃
  exact h₃

theorem inv_sendReserved (h : Inv B s g) (hw : Close B s g) (ho : s.op t = .slotWrite p i l) (hcas : s.q.tail = i) :
    Inv B ({ s with q := { s.q with tail := i + 1 }, published := s.published ++ [Put.mk t (s.calls t) i
      (.movable (s.q.buffer (slotIndex B i))) (s.q.buffer (slotIndex B i))] }.setOp t (.published l))
      { g with pid := Function.update g.pid t none } := by
  have ht := h.thread t
  rw [ho] at ht
  have h₁ : Inv B (s.setOp t (.slotWrite (.movable (s.q.buffer (slotIndex B i))) i l)) g := h.setOp ht
  have h₂ := h₁.write hw.dvd (Function.update_self ..) rfl
  have h₃ := h₂.publish (hw.of_logs rfl rfl) (Function.update_self ..) hcas
  change Inv B { s with
    q := { s.q with buffer := Function.update s.q.buffer (slotIndex B i) (s.q.buffer (slotIndex B i)), tail := i + 1 },
    op := Function.update (Function.update (Function.update s.op t _) t _) t _, published := _ } _ at h₃
  rw [Function.update_eq_self, Function.update_idem, Function.update_idem] at h₃
  exact h₃

theorem inv_giveUp (h : Inv B s g) (hw : Close B s g) (ho : s.op t = .slotWrite p i l)
    (hcas : s.q.enqueuerTail = i + 1) :
    ∃ g', Inv B ({ s with q := { s.q with enqueuerTail := i } }.setOp t .idle) g' := by
  have ht := h.thread t
  rw [ho] at ht
  obtain ⟨⟨n, hn, hi, -⟩, hc⟩ := ht
  have h₁ : Inv B (s.setOp t (.leakRecede p i)) g := h.setOp ⟨⟨n, hn, hi⟩, hc⟩
  obtain ⟨m, -, h₂⟩ := h₁.leakRecede (hw.of_logs rfl rfl) (Function.update_self ..) hcas
  have h₃ := h₂.setOp (t := t) (o := .idle) ⟨Function.update_self .., hc⟩
  rw [setOp_setOp] at h₃
  change Inv B { s with
    q := _, op := Function.update (Function.update s.op t (.leakRecede p i)) t .idle } _ at h₃
  rw [Function.update_idem] at h₃
  exact ⟨_, h₃⟩

end Queue

section Guess
open AtomicMove (Ghost Inv Close Sys)
variable {B : Nat} {s : Sys τ α} {g : Ghost τ} {t : τ} {p : Payload α} {i l guess : UInt32}

theorem cycled_mod (hdvd : B ∣ 2 ^ 32) (hlt : B < 2 ^ 32) (index reloaded : UInt32) :
    (Chan.cycled B index reloaded).toNat % B = index.toNat % B := by
  rw [Chan.cycled, UInt32.toNat_add, Nat.mod_mod_of_dvd _ hdvd, UInt32.toNat_mul, Nat.add_mod,
    Nat.mod_mod_of_dvd _ hdvd, Wrap.toNat_ofNat_of_lt hlt, Nat.mul_mod_left, Nat.add_zero, Nat.mod_mod]

theorem index_mod (hdvd : B ∣ 2 ^ 32) (i : UInt32) :
    (UInt32.ofNat (slotIndex B i)).toNat % B = slotIndex B i := by
  rw [Wrap.toNat_ofNat_mod hdvd, slotIndex, Nat.mod_mod]

/-- The reserved id, which is less than `BUFFER_SIZE` away from `tail`. -/
theorem reserved_id (h : Inv B s g) (ho : s.op t = .slotWrite p i l) :
    ∃ n, g.pid t = some n ∧ i = UInt32.ofNat n ∧ s.published.length ≤ n ∧ n < g.enq ∧ n < s.published.length + B := by
  have ht := h.thread t
  rw [ho] at ht
  obtain ⟨⟨n, hn, hi, hlt⟩, -⟩ := ht
  obtain ⟨h₁, h₂⟩ := h.prod.range t n hn
  have hle := h.le
  exact ⟨n, hn, hi, h₁, h₂, by omega⟩

/-- The guess of `try_send_reserved` is right when its compare-exchange succeeds. -/
theorem send_guess (h : Inv B s g) (hdvd : B ∣ 2 ^ 32) (ho : s.op t = .slotWrite p i l)
    (hg : guess.toNat % B = slotIndex B i) (hcas : s.q.tail = guess) : guess = i := by
  obtain ⟨n, -, hi, hle, -, hlt⟩ := reserved_id h ho
  rw [← hcas, h.tail, slotIndex, hi, Wrap.toNat_ofNat_mod hdvd, Wrap.toNat_ofNat_mod hdvd] at hg
  rw [← hcas, h.tail, hi]
  by_contra hne
  exact Wrap.mod_ne_of_window s.published.length (Nat.le_refl _) (by omega) hle hlt (fun he => hne (by rw [he])) hg

/-- The guess of `try_cancel_slot_reserve` is right when its compare-exchange succeeds and no id `BUFFER_SIZE`
after its own is reserved, and only then. -/
theorem cancel_guess_iff (h : Inv B s g) (hdvd : B ∣ 2 ^ 32) (hpos : 0 < B) (hlt : g.enq < s.published.length + 2 ^ 32)
    (ho : s.op t = .slotWrite p i l) (hg : guess.toNat % B = slotIndex B i) (hcas : s.q.enqueuerTail = guess + 1) :
    (s.q.enqueuerTail - i).toNat ≤ B ↔ guess = i := by
  obtain ⟨n, -, hi, hle, hn, -⟩ := reserved_id h ho
  have hguess : guess = UInt32.ofNat (g.enq - 1) := by
    have : UInt32.ofNat (g.enq - 1) + 1 = guess + 1 := by
      rw [← hcas, h.enq, ← Wrap.ofNat_succ, Nat.sub_add_cancel (by omega)]
    exact (UInt32.add_left_inj 1).mp this.symm
  rw [hguess, slotIndex, hi, Wrap.toNat_ofNat_mod hdvd, Wrap.toNat_ofNat_mod hdvd] at hg
  rw [h.enq, hi, Wrap.toNat_ofNat_sub (by omega) (by omega), hguess, Wrap.ofNat_inj_of_near (by omega) (by omega)]
  constructor
  · intro hB
    by_contra hne
    exact Wrap.mod_ne_of_window n (by omega) (by omega) (Nat.le_refl n) (by omega) hne hg
  · intro he
    omega

end Guess

/-! ### Runs -/

section Runs
open AtomicMove (Ghost Inv Close Sys NoSlots)
variable {B : Nat} {s s' : Chan τ α} {t : τ}

namespace Chan

/-- Every id between `tail` and `enqueuer_tail` has exactly one holder, and no other id has one. -/
structure OneHolder (s : Chan τ α) : Prop where
  holder : ∀ i, Wrap.InSpan i s.queue.q.tail s.queue.q.enqueuerTail → ∃! t, (s.queue.op t).prodSlot = some i
  only : ∀ t i, (s.queue.op t).prodSlot = some i → Wrap.InSpan i s.queue.q.tail s.queue.q.enqueuerTail

/-- The ids in flight do not go round the 32-bit counters. -/
structure FewHolders (B : Nat) (s : Chan τ α) : Prop where
  prod : ∀ F : Finset τ, (∀ t ∈ F, (s.queue.op t).prodSlot.isSome) → F.card + Ring.room B < 2 ^ 32
  cons : ∀ F : Finset τ, (∀ t ∈ F, (s.queue.op t).consSlot.isSome) → F.card ≤ 2 ^ 31 + 1

/-- A cancellation succeeds only while no id `BUFFER_SIZE` after the one of its caller is reserved. -/
def Careful (B : Nat) (s : Chan τ α) (l : Label τ α) (s' : Chan τ α) : Prop :=
  (∀ slotId, s.cancelled l = some slotId → (s.queue.q.enqueuerTail - slotId).toNat ≤ B) ∧ s'.FewHolders B

/-- The guesses are at the ring index of the reservation. -/
def Guesses (B : Nat) (s : Chan τ α) : Prop :=
  ∀ t guess, (s.phase t).guess = some guess →
    ∃ p i l, s.queue.op t = .slotWrite p i l ∧ guess.toNat % B = slotIndex B i

theorem FewHolders.ids (hf : s.FewHolders B) : s.queue.FewIds B := ⟨hf.prod, hf.cons⟩

theorem FewHolders.windows {B' : Nat} {g : Ghost τ} (hf : s.FewHolders B) (h : Inv B' s.queue g) :
    g.enq + Ring.room B < s.queue.published.length + 2 ^ 32 ∧ g.deq ≤ s.queue.consumed.length + 2 ^ 31 + 1 :=
  h.windows_of_few hf.ids

theorem FewHolders.init (hB : Ring.PowerOfTwo B) (buffer : Nat → α) : (init buffer : Chan τ α).FewHolders B :=
  have hids : (AtomicMove.Sys.init buffer : AtomicMove.Sys τ α).FewIds B := .init hB buffer
  ⟨hids.prod, hids.cons⟩

theorem OneHolder.of_inv {B' : Nat} {g : Ghost τ} (h : Inv B' s.queue g) (hf : s.FewHolders B) : s.OneHolder := by
  have hw := (hf.windows h).1
  have hp : ∀ t, (s.queue.op t).prodSlot = (g.pid t).map UInt32.ofNat := fun t => (h.thread t).prodSlot
  constructor
  · intro i hi
    rw [h.tail, h.enq] at hi
    exact AtomicMove.existsUnique_holder h.prod (by omega) hp hi
  · intro t i hi
    rw [h.tail, h.enq]
    exact AtomicMove.inSpan_of_holder h.prod (by omega) hp hi

structure Roomy (B : Nat) (s : Chan τ α) : Prop where
  inv : ∃ g, Inv B s.queue g
  guesses : s.Guesses B

/-- A ring whose size is zero as a 32-bit number: no bound test ever succeeds. -/
structure Roomless (s : Chan τ α) : Prop where
  inv : ∃ g, Inv 1 s.queue g
  slots : NoSlots s.queue

theorem Roomless.not_slotWrite {p : Payload α} {i l : UInt32} (h : s.Roomless) : s.queue.op t ≠ .slotWrite p i l := by
  intro ho
  have := h.slots.writing t
  rw [ho] at this
  cases this

/-- Either way the ids between `tail` and `enqueuer_tail` have one holder each, and each id given up was the
caller's own. -/
structure Ok (B : Nat) (s : Chan τ α) : Prop where
  own : ∀ c ∈ s.cancels, c.given = c.own
  few : s.FewHolders B
  room : (B < 2 ^ 32 ∧ B ∣ 2 ^ 32 ∧ s.Roomy B) ∨ (UInt32.ofNat B = 0 ∧ s.Roomless)

theorem Ok.init (hB : Ring.PowerOfTwo B) (buffer : Nat → α) : (init buffer : Chan τ α).Ok B := by
  refine ⟨nofun, .init hB buffer, ?_⟩
  rcases hB.room_cases with ⟨-, hle, hdvd⟩ | hroom
  · exact .inl ⟨by omega, hdvd, ⟨_, .init B buffer⟩, nofun⟩
  · exact .inr ⟨UInt32.toNat_inj.mp hroom, ⟨_, .init 1 buffer⟩, .init buffer⟩

theorem Ok.oneHolder (h : s.Ok B) : s.OneHolder := by
  rcases h.room with ⟨-, -, hr⟩ | ⟨-, hr⟩
  · obtain ⟨g, hg⟩ := hr.inv
    exact .of_inv hg h.few
  · obtain ⟨g, hg⟩ := hr.inv
    exact .of_inv hg h.few

theorem Ok.cancel_iff {p : Payload α} {slotId lenBefore guess : UInt32} (h : s.Ok B)
    (hphase : s.phase t = .cancelling guess) (ho : s.queue.op t = .slotWrite p slotId lenBefore)
    (hcas : s.queue.q.enqueuerTail = guess + 1) :
    (s.queue.q.enqueuerTail - slotId).toNat ≤ B ↔ guess = slotId := by
  rcases h.room with ⟨-, hdvd, hr⟩ | ⟨-, hr⟩
  · obtain ⟨g, hg⟩ := hr.inv
    obtain ⟨p', i, l, ho', hguess⟩ := hr.guesses t guess (by rw [hphase]; rfl)
    cases ho.symm.trans ho'
    have hwin := (h.few.windows hg).1
    exact cancel_guess_iff hg hdvd (Nat.pos_of_dvd_of_pos hdvd (Nat.two_pow_pos 32)) (by omega) ho hguess hcas
  · exact absurd ho hr.not_slotWrite

variable [DecidableEq τ]

theorem Guesses.of_ne (h : s.Guesses B) (hop : ∀ u ≠ t, s'.queue.op u = s.queue.op u)
    (hphase : ∀ u ≠ t, s'.phase u = s.phase u) (ht : (s'.phase t).guess = none) : s'.Guesses B := by
  intro u guess hu
  by_cases hut : u = t
  · subst hut
    rw [ht] at hu
    cases hu
  · rw [hphase u hut] at hu
    rw [hop u hut]
    exact h u guess hu

theorem Guesses.moves {c : Option UInt32} (hlt : B < 2 ^ 32) (hdvd : B ∣ 2 ^ 32) (h : s.Guesses B)
    (hm : Chan.Moves B s t c s') : s'.Guesses B := by
  have hset : ∀ (phase : Phase) (u : τ), u ≠ t → Function.update s.phase t phase u = s.phase u :=
    fun phase u hu => Function.update_of_ne hu ..
  cases hm with
  | queue hs hop hphase =>
    refine Guesses.of_ne h hop (hset _) ?_
    show (Function.update s.phase t _ t).guess = none
    rw [Function.update_self]
    exact hphase
  | fill ho f => exact h
  | @aim p i l phase ho hphase =>
    intro u guess hu
    change (Function.update s.phase t phase u).guess = some guess at hu
    by_cases hut : u = t
    · subst hut
      rw [Function.update_self] at hu
      refine ⟨p, i, l, ho, ?_⟩
      rcases hphase guess hu with rfl | ⟨reloaded, rfl⟩
      · exact index_mod hdvd i
      · rw [cycled_mod hdvd hlt, index_mod hdvd]
    · rw [hset phase u hut] at hu
      exact h u guess hu
  | send | cancel =>
    refine Guesses.of_ne (t := t) h (fun u hu => Function.update_of_ne hu ..) (hset _) ?_
    show (Function.update s.phase t _ t).guess = none
    rw [Function.update_self]
    rfl

/-- With room, a step keeps the invariant when a cancellation that succeeds is of the caller's own id. -/
theorem Roomy.moves {c : Option UInt32} (hlt : B < 2 ^ 32) (hdvd : B ∣ 2 ^ 32) (h : s.Roomy B) (hf : s.FewHolders B)
    (hc : ∀ slotId, c = some slotId → (s.queue.q.enqueuerTail - slotId).toNat ≤ B) (hm : Moves B s t c s') :
    s'.Roomy B := by
  refine ⟨?_, h.guesses.moves hlt hdvd hm⟩
  obtain ⟨g, hg⟩ := h.inv
  have hw := hg.close_of_few hlt hdvd hf.ids
  cases hm with
  | queue hs => exact hg.step hw hs
  | fill ho f => exact ⟨g, inv_fill hg hdvd ho f⟩
  | aim => exact ⟨g, hg⟩
  | send hphase ho hcas =>
    obtain ⟨p, i, l, ho', hguess⟩ := h.guesses t _ (by rw [hphase]; rfl)
    cases ho.symm.trans ho'
    obtain rfl := send_guess hg hdvd ho hguess hcas
    exact ⟨_, inv_sendReserved hg hw ho hcas⟩
  | cancel hphase ho hcas =>
    obtain ⟨p, i, l, ho', hguess⟩ := h.guesses t _ (by rw [hphase]; rfl)
    cases ho.symm.trans ho'
    have hpos : 0 < B := Nat.pos_of_dvd_of_pos hdvd (Nat.two_pow_pos 32)
    have hwin := (hf.windows hg).1
    obtain rfl := (cancel_guess_iff hg hdvd hpos (by omega) ho hguess hcas).mp (hc _ rfl)
    exact inv_giveUp hg hw ho hcas

theorem Roomless.moves {c : Option UInt32} (hB : UInt32.ofNat B = 0) (h : s.Roomless) (hf : s.FewHolders B)
    (hm : Moves B s t c s') : s'.Roomless := by
  cases hm with
  | queue hs =>
    obtain ⟨g, hg⟩ := h.inv
    exact ⟨h.slots.inv_step hB hg (h.slots.close hg hf.ids) hs, h.slots.step hB hs⟩
  | fill ho => exact absurd ho h.not_slotWrite
  | aim ho => exact absurd ho h.not_slotWrite
  | send _ ho => exact absurd ho h.not_slotWrite
  | cancel _ ho => exact absurd ho h.not_slotWrite

theorem Ok.step {l : Label τ α} (h : s.Ok B) (hok : Careful B s l s') (hs : s.step B l = some s') : s'.Ok B := by
  obtain ⟨t, hm⟩ := step_cases hs
  refine ⟨?_, hok.2, ?_⟩
  · generalize hc : s.cancelled l = c at hm
    cases hm with
    | cancel hphase ho hcas =>
      intro c hmem
      rcases List.mem_append.mp hmem with hold | hnew
      · exact h.own c hold
      · rw [List.mem_singleton] at hnew
        subst hnew
        exact (h.cancel_iff hphase ho hcas).mp (hok.1 _ hc)
    | _ => exact h.own
  · rcases h.room with ⟨hlt, hdvd, hr⟩ | ⟨hB, hr⟩
    · exact .inl ⟨hlt, hdvd, hr.moves hlt hdvd h.few hok.1 hm⟩
    · exact .inr ⟨hB, hr.moves hB h.few hm⟩

theorem inSpan_of_succ {i lo hi : UInt32} (h : Wrap.InSpan i lo (hi + 1)) (hne : i ≠ hi) : Wrap.InSpan i lo hi := by
  have hne' : i.toNat ≠ hi.toNat := fun he => hne (UInt32.toNat_inj.mp he)
  have h₁ := UInt32.toNat_lt i
  have h₂ := UInt32.toNat_lt lo
  have h₃ := UInt32.toNat_lt hi
  unfold Wrap.InSpan at *
  rw [UInt32.lt_iff_toNat_lt, UInt32.toNat_sub, UInt32.toNat_sub] at *
  rw [UInt32.toNat_add, UInt32.toNat_one] at h
  omega

/-- A cancellation that succeeds otherwise leaves the id of its caller without a holder. -/
theorem Ok.cancel_wrong {l : Label τ α} {slotId : UInt32} (h : s.Ok B) (hs : s.step B l = some s')
    (hl : s.cancelled l = some slotId) (hB : B < (s.queue.q.enqueuerTail - slotId).toNat) :
    ¬ s'.OneHolder ∧ ∃ c ∈ s'.cancels, c.given ≠ c.own := by
  obtain ⟨t, hm⟩ := step_cases hs
  rw [hl] at hm
  cases hm with
  | @cancel p _ lenBefore guess hphase ho hcas =>
    have hne : guess ≠ slotId := fun he => by
      have := (h.cancel_iff hphase ho hcas).mpr he
      omega
    refine ⟨fun hone => ?_, _, List.mem_append_right _ (List.mem_singleton_self _), hne⟩
    have hslot : (s.queue.op t).prodSlot = some slotId := by rw [ho]; rfl
    have hspan := h.oneHolder.only t slotId hslot
    rw [hcas] at hspan
    obtain ⟨u, hu, -⟩ := hone.holder slotId (inSpan_of_succ hspan hne.symm)
    change (Function.update s.queue.op t .idle u).prodSlot = some slotId at hu
    by_cases hut : u = t
    · subst hut
      rw [Function.update_self] at hu
      cases hu
    · rw [Function.update_of_ne hut] at hu
      have hspan' := h.oneHolder.only t slotId hslot
      exact hut ((h.oneHolder.holder slotId hspan').unique hu hslot)

end Chan

/-- As long as a cancellation succeeds only while no id `BUFFER_SIZE` after the caller's own is reserved, it gives
up the caller's own id and every id between `tail` and `enqueuer_tail` has exactly one holder. The first one that
succeeds otherwise gives up another id and leaves its own without a holder. -/
theorem cancel_gives_up_own {B : Nat} [DecidableEq τ] (hB : Ring.PowerOfTwo B) {buffer : Nat → α} {s : Chan τ α}
    (h : Machine.Steps (Chan.step B) (Chan.Careful B) (.init buffer) s) :
    (s.OneHolder ∧ ∀ c ∈ s.cancels, c.given = c.own) ∧
    ∀ l s' slotId, s.step B l = some s' → s.cancelled l = some slotId →
      B < (s.queue.q.enqueuerTail - slotId).toNat → ¬ s'.OneHolder ∧ ∃ c ∈ s'.cancels, c.given ≠ c.own := by
  have hok : s.Ok B := by
    refine h.invariant (I := fun s => s.Ok B) ?_ (.init hB buffer)
    intro s l s' hi hs hcareful
    exact hi.step hcareful hs
  refine ⟨⟨hok.oneHolder, hok.own⟩, ?_⟩
  intro l s' slotId hs hl hlt
  exact hok.cancel_wrong hs hl hlt

theorem Chan.FewHolders.of_card [Fintype τ] (s : Chan τ α) (h₁ : Fintype.card τ + Ring.room B < 2 ^ 32)
    (h₂ : Fintype.card τ ≤ 2 ^ 31 + 1) : s.FewHolders B :=
  have h := AtomicMove.Sys.FewIds.of_card s.queue h₁ h₂
  ⟨h.prod, h.cons⟩

/-- A ring of one slot: a reservation is filled and sent, its item consumed; the next one, of the second cycle, is
cancelled. -/
theorem cancel_gives_up_own_cycled : ∃ s : Chan (Fin 2) Nat, s.cancels.map (fun c => (c.own, c.given)) = [(1, 1)] ∧
    s.queue.consumed.map (fun took => took.value) = [7] ∧ s.OneHolder := by
  have hrun : (Machine.exec (Machine.restrict (Chan.step 1) fun s l _ =>
        (s.cancelled l).all fun slotId => decide ((s.queue.q.enqueuerTail - slotId).toNat ≤ 1))
      (.init fun _ => 0 : Chan (Fin 2) Nat)
      [.reserveSlot 0, .run 0 false false, .run 0 false false, .fill 0 fun _ => 7, .trySendReserved 0,
       .run 0 false false, .consume 1, .run 1 false false, .run 1 false false, .run 1 false false, .run 1 false false,
       .reserveSlot 0, .run 0 false false, .run 0 false false, .tryCancelSlotReserve 0, .run 0 false false,
       .run 0 false false]).map (fun s => decide (s.cancels.map (fun c => (c.own, c.given)) = [(1, 1)] ∧
        s.queue.consumed.map (fun took => took.value) = [7])) = some true := by
    decide +kernel
  obtain ⟨s, hs, ht⟩ := Option.map_eq_some_iff.mp hrun
  rw [decide_eq_true_iff] at ht
  have hsteps : Machine.Steps (Chan.step 1) (Chan.Careful 1) (.init fun _ => 0) s := by
    refine (Machine.Path.of_exec_restrict ?_ hs).steps
    intro s l s' hok
    refine ⟨fun slotId hl => ?_, .of_card s' (by decide) (by decide)⟩
    rw [hl] at hok
    exact of_decide_eq_true hok
  exact ⟨s, ht.1, ht.2, (cancel_gives_up_own ⟨0, rfl⟩ hsteps).1.1⟩

/-- A ring of one slot: 0 has reserved id 0, and 1, which is sending, id 1; the cancellation of 0 gives up id 1. -/
theorem cancel_of_another_run : ∃ s : Chan (Fin 2) Nat,
    Machine.Steps (Chan.step 1) (fun _ _ s' => s'.FewHolders 1) (.init fun _ => 0) s ∧ ¬ s.OneHolder ∧
    s.cancels.map (fun c => (c.own, c.given)) = [(0, 1)] := by
  have hrun : (Machine.exec (Chan.step 1) (.init fun _ => 0 : Chan (Fin 2) Nat)
      [.reserveSlot 0, .run 0 false false, .run 0 false false, .send 1 (.movable 8), .run 1 false false,
       .run 1 false false, .tryCancelSlotReserve 0, .run 0 false false, .run 0 false false]).map (fun s => decide (
        (s.queue.op 1).prodSlot = some 1 ∧ s.queue.q.tail = 0 ∧ s.queue.q.enqueuerTail = 1 ∧
        s.cancels.map (fun c => (c.own, c.given)) = [(0, 1)])) = some true := by
    decide +kernel
  obtain ⟨s, hs, ht⟩ := Option.map_eq_some_iff.mp hrun
  rw [decide_eq_true_iff] at ht
  obtain ⟨hop, htail, henq, hcancels⟩ := ht
  refine ⟨s, (Machine.Path.of_exec hs).steps.mono fun _ _ s' _ => .of_card s' (by decide) (by decide), fun hone => ?_,
    hcancels⟩
  have hspan := hone.only 1 1 hop
  rw [htail, henq] at hspan
  exact absurd hspan (by decide)

end Runs
end Mutiny.SlotReserve
