import Mutiny.BlockingQueue

/-!
# The blocking queue with a timeout

For `LOCK_TIMEOUT_MILLIS` other than 0, the waits of `report_empty` and `report_full` are `try_lock_for`, which may
give up at any time. `report` is what the last of these answered in the current or last call of a thread.

`enqueue` asks again and goes on to publish if the answer is `true`. `dequeue` leaves that to `consume` of the base
queue, which returns `None` whatever the answer is.
-/

namespace Mutiny
namespace BlockingQueue

/-- A call of `enqueue` or `dequeue`, or, if not `blocking`, of `try_enqueue` or `try_dequeue`. -/
structure Call where
  blocking : Bool
  report : Option Bool
deriving DecidableEq

/-- The queue, and the calls of its threads. -/
structure Timed (τ α : Type) where
  queue : BlockingQueue τ α
  call : τ → Call

namespace Timed
variable {τ α : Type}
open Machine (Reached Occurs)

inductive Label (τ α : Type)
  | untimed (l : BlockingQueue.Label τ α)
  -- the `try_lock_for` of thread `t` returns `false`
  | timeOut (t : τ)

def new : Timed τ α := ⟨.new, fun _ => ⟨false, none⟩⟩

section Step
variable [DecidableEq τ]

def calls (s : Timed τ α) : BlockingQueue.Label τ α → τ → Call
  | .enqueue t _ | .dequeue t => Function.update s.call t ⟨true, none⟩
  | .tryEnqueue t _ | .tryDequeue t => Function.update s.call t ⟨false, none⟩
  | .run t =>
    match s.queue.op t with
    -- the guard was locked: `report_empty` or `report_full` returns `true`
    | .emptyLock | .fullLock _ => Function.update s.call t ⟨(s.call t).blocking, some true⟩
    | _ => s.call

/-- Thread `t` returns from `report_empty` or `report_full` with `false`, and from its call. -/
def giveUp (s : Timed τ α) (t : τ) (o : Op α) : Timed τ α :=
  ⟨s.queue.setOp t o, Function.update s.call t ⟨(s.call t).blocking, some false⟩⟩

def step (B lockTimeoutMillis : Nat) (s : Timed τ α) : Label τ α → Option (Timed τ α)
  | .untimed l => (s.queue.step B l).map fun queue => ⟨queue, s.calls l⟩
  | .timeOut t =>
    if lockTimeoutMillis = 0 then none
    else
      match s.queue.op t with
      | .emptyLock => some (s.giveUp t (.dequeued none))
      | .fullLock element => some (s.giveUp t (.enqueued (some element)))
      | _ => none

end Step

/-- A blocking call returns empty-handed only if its last wait did. -/
structure GivesUpInTime (lockTimeoutMillis : Nat) (s : Timed τ α) : Prop where
  dequeue : ∀ t, (s.call t).blocking = true → s.queue.op t = .dequeued none → (s.call t).report = some false
  enqueue : ∀ t element, (s.call t).blocking = true → s.queue.op t = .enqueued (some element) →
    (s.call t).report = some false
  forever : lockTimeoutMillis = 0 → ∀ t, (s.call t).blocking = true → s.queue.op t ≠ .dequeued none

/-- A `dequeue` that found the queue empty gets the lock of `empty_guard`. -/
def Granted (s : Timed τ α) : Label τ α → Prop
  | .untimed (.run t) => s.queue.op t = .emptyLock
  | _ => False

/-! ### The threads inside a call -/

/-- What the record of a call says about where its thread stands. -/
def Agrees (o : Op α) (c : Call) : Prop :=
  match o with
  | .publish _ | .fullTry _ | .fullLock _ | .emptyTry | .emptyLock => c.blocking = true
  | .tryPublish _ | .tryFull _ | .tryEmpty => c.blocking = false
  | .consume blocking => c.blocking = blocking
  | .enqueued (some _) => c.blocking = true → c.report = some false
  | _ => True

def Inv (s : Timed τ α) : Prop := ∀ t, Agrees (s.queue.op t) (s.call t)

/-- Every blocking `dequeue` that returned `None` was given up by the timeout. -/
def Timely (lockTimeoutMillis : Nat) (s : Timed τ α) : Prop :=
  ∀ t, s.queue.op t = .dequeued none → (s.call t).blocking = true →
    (s.call t).report = some false ∧ lockTimeoutMillis ≠ 0

section Inv
variable [DecidableEq τ] {B lockTimeoutMillis : Nat} {s s' : Timed τ α} {t : τ} {q : BlockingQueue τ α}

theorem publishMovable_spec (B : Nat) (q : BlockingQueue τ α) (t : τ) (element : α) (refused : Op α) :
    ∃ o, (q.publishMovable B t element refused).op = Function.update q.op t o ∧
      (o = refused ∨ o = .emptyCheck ∨ o = .enqueued none) := by
  unfold publishMovable
  split
  · refine ⟨_, rfl, .inr ?_⟩
    split
    · exact .inl rfl
    · exact .inr rfl
  · exact ⟨_, rfl, .inl rfl⟩

/-- A step of thread `t`: a blocking `dequeue` comes to `None` by the lock only. -/
theorem run_spec (h : Agrees (s.queue.op t) (s.call t)) (hs : s.queue.run B t = some q) :
    ∃ o, q.op = Function.update s.queue.op t o ∧ Agrees o (s.calls (.run t) t) ∧
      (o = .dequeued none → (s.call t).blocking = true → s.queue.op t = .emptyLock) := by
  unfold BlockingQueue.run at hs
  cases ho : s.queue.op t with
  | idle | enqueued | dequeued => simp [ho] at hs
  | publish element =>
    simp only [ho, Option.some.injEq, Agrees] at hs h
    obtain ⟨o, hop, ho'⟩ := publishMovable_spec B s.queue t element (.fullTry element)
    refine ⟨o, hs ▸ hop, ?_⟩
    rcases ho' with rfl | rfl | rfl <;> simp [Agrees, calls, ho, h]
  | tryPublish element =>
    simp only [ho, Option.some.injEq, Agrees] at hs h
    obtain ⟨o, hop, ho'⟩ := publishMovable_spec B s.queue t element (.tryFull element)
    refine ⟨o, hs ▸ hop, ?_⟩
    rcases ho' with rfl | rfl | rfl <;> simp [Agrees, calls, ho, h]
  | fullTry | tryFull | emptyUnlock | count | fullUnlock | emptyTry | tryEmpty =>
    simp only [ho, Option.some.injEq, Agrees] at hs h
    cases hs
    exact ⟨_, rfl, by simp [Agrees, calls, ho, h]⟩
  | emptyCheck | fullCheck =>
    simp only [ho, Option.some.injEq] at hs
    cases hs
    exact ⟨_, rfl, by split <;> simp [Agrees]⟩
  | report blocking item len =>
    simp only [ho, Option.some.injEq] at hs
    cases hs
    exact ⟨_, rfl, by split <;> split <;> simp [Agrees]⟩
  | consume blocking =>
    simp only [ho, Agrees] at hs h
    split at hs
    · cases hs
      exact ⟨_, rfl, by simp [Agrees]⟩
    · cases hs
      refine ⟨_, rfl, ?_⟩
      cases blocking <;> simp [Agrees, calls, ho, h]
  | fullLock | emptyLock =>
    simp only [ho, Agrees] at hs h
    split at hs
    · cases hs
    · cases hs
      exact ⟨_, rfl, by simp [Agrees, calls, ho, h]⟩

theorem calls_run (s : Timed τ α) (t : τ) :
    s.calls (.run t) = Function.update s.call t (s.calls (.run t) t) ∧
      (s.calls (.run t) t).blocking = (s.call t).blocking := by
  cases ho : s.queue.op t <;> simp [calls, ho]

/-- What a step makes of its thread: a blocking `dequeue` returns `None` by a timeout or by the lock only. -/
theorem step_spec {l : Label τ α} (h : s.Inv) (hs : s.step B lockTimeoutMillis l = some s') :
    ∃ t o c, s'.queue.op = Function.update s.queue.op t o ∧ s'.call = Function.update s.call t c ∧ Agrees o c ∧
      (o = .dequeued none → c.blocking = true →
        (c.report = some false ∧ lockTimeoutMillis ≠ 0) ∨ s.Granted l) := by
  cases l with
  | untimed l =>
    obtain ⟨q, hq, rfl⟩ := Option.map_eq_some_iff.mp hs
    have hcall : ∀ {t : τ} {o : Op α}, s.queue.call t o = some q → q.op = Function.update s.queue.op t o := by
      intro t o hq
      simp only [BlockingQueue.call, Option.ite_none_right_eq_some, Option.some.injEq] at hq
      obtain ⟨-, rfl⟩ := hq
      rfl
    cases l with
    | enqueue t element => exact ⟨t, _, _, hcall hq, rfl, rfl, by simp⟩
    | tryEnqueue t element => exact ⟨t, _, _, hcall hq, rfl, rfl, by simp⟩
    | dequeue t => exact ⟨t, _, _, hcall hq, rfl, rfl, by simp⟩
    | tryDequeue t => exact ⟨t, _, _, hcall hq, rfl, rfl, by simp⟩
    | run t =>
      obtain ⟨o, hop, hagrees, hnone⟩ := run_spec (h t) hq
      obtain ⟨hupdate, hblocking⟩ := calls_run s t
      exact ⟨t, o, _, hop, hupdate, hagrees, fun ho hb => .inr (hnone ho (hblocking ▸ hb))⟩
  | timeOut t =>
    have ht := h t
    simp only [step] at hs
    split_ifs at hs with hne
    · split at hs
      · cases hs
        exact ⟨t, _, _, rfl, rfl, trivial, fun _ _ => .inl ⟨rfl, hne⟩⟩
      · cases hs
        exact ⟨t, _, _, rfl, rfl, fun _ => rfl, by simp⟩
      · cases hs

omit [DecidableEq τ] in
theorem Inv.new : (new : Timed τ α).Inv := fun _ => trivial

theorem Inv.step {l : Label τ α} (h : s.Inv) (hs : s.step B lockTimeoutMillis l = some s') : s'.Inv := by
  obtain ⟨t, o, c, hop, hcall, hagrees, -⟩ := step_spec h hs
  intro u
  rw [hop, hcall]
  by_cases hu : u = t
  · subst hu
    rwa [Function.update_self, Function.update_self]
  · rw [Function.update_of_ne hu, Function.update_of_ne hu]
    exact h u

theorem Timely.step {l : Label τ α} (ht : s.Timely lockTimeoutMillis) (h : s.Inv)
    (hs : s.step B lockTimeoutMillis l = some s') (hl : ¬ s.Granted l) : s'.Timely lockTimeoutMillis := by
  obtain ⟨t, o, c, hop, hcall, -, hnone⟩ := step_spec h hs
  intro u
  rw [hop, hcall]
  by_cases hu : u = t
  · subst hu
    rw [Function.update_self, Function.update_self]
    exact fun ho hb => (hnone ho hb).resolve_right hl
  · rw [Function.update_of_ne hu, Function.update_of_ne hu]
    exact ht u

omit [DecidableEq τ] in
theorem givesUp_iff (h : s.Inv) : s.GivesUpInTime lockTimeoutMillis ↔ s.Timely lockTimeoutMillis := by
  constructor
  · intro hg t ho hb
    exact ⟨hg.dequeue t hb ho, fun hz => hg.forever hz t hb ho⟩
  · intro ht
    refine ⟨fun t hb ho => (ht t ho hb).1, fun t element hb ho => ?_, fun hz t hb ho => (ht t ho hb).2 hz⟩
    have := h t
    rw [ho] at this
    exact this hb

/-- The lock lets a `dequeue` return `None` although `report_empty` answered `true`. -/
theorem Granted.not_timely {l : Label τ α} (hl : s.Granted l) (h : s.Inv)
    (hs : s.step B lockTimeoutMillis l = some s') : ¬ s'.Timely lockTimeoutMillis := by
  cases l with
  | timeOut t => exact absurd hl not_false
  | untimed l =>
    cases l with
    | run t =>
      change s.queue.op t = .emptyLock at hl
      obtain ⟨q, hq, rfl⟩ := Option.map_eq_some_iff.mp hs
      simp only [BlockingQueue.step, BlockingQueue.run, hl] at hq
      split at hq
      · cases hq
      · cases hq
        have hblocking := h t
        rw [hl] at hblocking
        intro ht
        have := (ht t (Function.update_self ..) (by simpa [calls, hl, Agrees] using hblocking)).1
        simp [calls, hl] at this
    | _ => exact absurd hl not_false

end Inv

/-- An `enqueue` gives up only when its wait does. A `dequeue` does so in a run iff no `dequeue` that found the queue
empty is granted the lock it waits for. -/
theorem dequeue_gives_up_iff [DecidableEq τ] (B lockTimeoutMillis : Nat) (labels : List (Label τ α)) :
    (∀ s, Reached (step B lockTimeoutMillis) new labels s → s.GivesUpInTime lockTimeoutMillis) ↔
      ∀ s l s', Occurs (step B lockTimeoutMillis) new labels s l s' → ¬ s.Granted l := by
  have hinv : ∀ s, Reached (step B lockTimeoutMillis) new labels s → s.Inv := by
    intro s hs
    exact hs.invariant (fun u l u' _ hu ho => by
      obtain ⟨-, -, -, hstep⟩ := ho
      exact hu.step hstep) .new
  constructor
  · intro hall s l s' ho hl
    have hstep := ho
    obtain ⟨-, -, -, hstep⟩ := hstep
    exact hl.not_timely (hinv s ho.before) hstep ((givesUp_iff (hinv s' ho.after)).1 (hall s' ho.after))
  · intro hall s hs
    refine (givesUp_iff (hinv s hs)).2
      (hs.invariant (I := Timely lockTimeoutMillis) ?_ (by simp [Timely, new, BlockingQueue.new]))
    intro u l u' hu ht ho
    have hnot := hall u l u' ho
    obtain ⟨-, -, -, hstep⟩ := ho
    exact ht.step (hinv u hu) hstep hnot

/-- A `dequeue` waits for an element without a timeout, is woken by an `enqueue`, and returns `None`. -/
theorem dequeue_leaves_element : ∃ (labels : List (Label (Fin 2) Nat)) (s : Timed (Fin 2) Nat),
    Reached (step 1 0) new labels s ∧ s.queue.op 0 = .dequeued none ∧ s.call 0 = ⟨true, some true⟩ ∧
      s.queue.baseQueue = [7] ∧ ¬ s.GivesUpInTime 0 := by
  let labels : List (Label (Fin 2) Nat) :=
    [.dequeue 0, .run 0, .run 0, .enqueue 1 7, .run 1, .run 1, .run 1, .run 0].map .untimed
  have hrun : (Machine.exec (step 1 0) new labels).map
      (fun s => (s.queue.op 0, s.call 0, s.queue.baseQueue)) = some (.dequeued none, ⟨true, some true⟩, [7]) := by
    decide +kernel
  obtain ⟨s, hs, ht⟩ := Option.map_eq_some_iff.mp hrun
  simp only [Prod.mk.injEq] at ht
  obtain ⟨hop, hcall, hqueue⟩ := ht
  exact ⟨labels, s, .of_exec hs, hop, hcall, hqueue, fun hg => hg.forever rfl 0 (by rw [hcall]) hop⟩

end Timed
end BlockingQueue
end Mutiny
