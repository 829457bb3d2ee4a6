import Mutiny.Lib.Lock
import Mutiny.LinearQueues

/-!
# `ogre_sync`, one attempt at a time

`lock` makes ten attempts with `compare_exchange_weak`, which may fail although the lock is free, and goes on with
`compare_exchange` until it succeeds. `Spinning` are the threads of `FullSyncMove`, which take the lock by these attempts
instead of in one step. An attempt that fails is not noticed by anybody, so the queue is still linearizable; and as long as
a call is in progress some thread is able to finish its own, whatever attempts fail without a reason.
-/

namespace Mutiny

namespace OgreSync
variable {spurious flag : Bool} {failed : Nat}

/-- `compare_exchange(current, new)`: the flag after it, and whether it is `Ok` -/
def compareExchange (flag current new : Bool) : Bool × Bool := if flag = current then (new, true) else (flag, false)

def compareExchangeWeak (spurious flag current new : Bool) : Bool × Bool :=
  if spurious then (flag, false) else compareExchange flag current new

/-- The attempt of `lock(flag)` that follows `failed` others, and whether it returns. -/
def lock (spurious flag : Bool) (failed : Nat) : Bool × Bool :=
  if failed < 10 then compareExchangeWeak spurious flag false true else compareExchange flag false true

/-- How many attempts it takes at most if the flag stays `false`. -/
def attempts (failed : Nat) : Nat := 10 - failed + 1

/-- The attempt takes the free lock, or changes nothing; the eleventh one does not fail without a reason. -/
theorem lock_cases (spurious flag : Bool) (failed : Nat) : (flag = false ∧ lock spurious flag failed = (true, true)) ∨
    (lock spurious flag failed = (flag, false) ∧ (flag = false → failed < 10)) := by
  unfold lock compareExchangeWeak compareExchange
  cases flag with
  | false => by_cases hf : failed < 10 <;> cases spurious <;> simp [hf]
  | true => by_cases hf : failed < 10 <;> cases spurious <;> simp [hf]

theorem attempts_succ (h : failed < 10) : attempts (failed + 1) < attempts failed := by
  unfold attempts
  omega

theorem attempts_le (failed : Nat) : attempts failed ≤ 11 := by
  unfold attempts
  omega

end OgreSync

namespace FullSyncMove
open Linear (Event)
variable {τ α : Type} {B : Nat} {t : τ}

/-- `failed` are the attempts of the `lock` call of each thread that have failed. -/
structure Spinning (τ α : Type) where
  sys : Sys τ α
  failed : τ → Nat

namespace Spinning

inductive Label (τ α : Type)
  | publish (t : τ) (p : AtomicMove.Payload α)
  | consume (t : τ)
  -- the next step of thread `t`; a `report_full_fn` answers `answer`, a `compare_exchange_weak` may fail
  | run (t : τ) (answer spurious : Bool)

def Label.forget : Label τ α → FullSyncMove.Label τ α
  | publish t p => .publish t p
  | consume t => .consume t
  | run t answer _ => .run t answer

def init (buffer : Nat → α) : Spinning τ α := ⟨.init buffer, fun _ => 0⟩

section Step
variable [DecidableEq τ]

/-- The next attempt of thread `t`, which goes on at `o` once it has the lock. -/
def lock (s : Spinning τ α) (t : τ) (spurious : Bool) (o : Op α) : Spinning τ α :=
  match OgreSync.lock spurious s.sys.concurrencyGuard (s.failed t) with
  | (flag, true) => ⟨{ s.sys with concurrencyGuard := flag }.setOp t o, Function.update s.failed t 0⟩
  | (flag, false) => ⟨{ s.sys with concurrencyGuard := flag }, Function.update s.failed t (s.failed t + 1)⟩

def run (B : Nat) (s : Spinning τ α) (t : τ) (answer spurious : Bool) : Option (Spinning τ α) :=
  match s.sys.op t with
  | .leakLock p => some (s.lock t spurious (.leakCheck p))
  | .consumeLock => some (s.lock t spurious .consumeCheck)
  | _ => (s.sys.run B t answer).map fun sys => { s with sys }

def step (B : Nat) (s : Spinning τ α) : Label τ α → Option (Spinning τ α)
  | .publish t p => (s.sys.step B (.publish t p)).map fun sys => { s with sys }
  | .consume t => (s.sys.step B (.consume t)).map fun sys => { s with sys }
  | .run t answer spurious => s.run B t answer spurious

end Step

def events (s : Spinning τ α) (l : Label τ α) (s' : Spinning τ α) : List (τ × Event (QueueOp α) (QueueResult α)) :=
  s.sys.events l.forget s'.sys

end Spinning

/-! ### Attempts are not noticed -/

namespace Spinning
variable [DecidableEq τ] {s s' : Spinning τ α} {answer spurious : Bool} {o : Op α}

/-- An attempt takes the lock as `Sys.lock` does, or leaves everything as it is. -/
theorem lock_cases (s : Spinning τ α) (t : τ) (spurious : Bool) (o : Op α) :
    (s.sys.concurrencyGuard = false ∧ s.lock t spurious o = ⟨s.sys.lock t o, Function.update s.failed t 0⟩) ∨
    (s.lock t spurious o = ⟨s.sys, Function.update s.failed t (s.failed t + 1)⟩ ∧
      (s.sys.concurrencyGuard = false → s.failed t < 10)) := by
  rcases OgreSync.lock_cases spurious s.sys.concurrencyGuard (s.failed t) with ⟨hg, hl⟩ | ⟨hl, hf⟩
  · refine .inl ⟨hg, ?_⟩
    rw [hg] at hl
    simp only [lock, hg, hl, Sys.lock, Bool.false_eq_true, if_false]
  · refine .inr ⟨?_, hf⟩
    simp only [lock, hl]

theorem run_cases (hs : s.run B t answer spurious = some s') :
    s.sys.run B t answer = some s'.sys ∨
      s'.sys = s.sys ∧ ((∃ p, s.sys.op t = .leakLock p) ∨ s.sys.op t = .consumeLock) := by
  cases ho : s.sys.op t with
  | leakLock p =>
    simp only [run, ho] at hs
    cases hs
    rcases lock_cases s t spurious (.leakCheck p) with ⟨-, hl⟩ | ⟨hl, -⟩
    · left
      rw [hl]
      simp only [Sys.run, ho]
    · right
      rw [hl]
      exact ⟨rfl, .inl ⟨p, rfl⟩⟩
  | consumeLock =>
    simp only [run, ho] at hs
    cases hs
    rcases lock_cases s t spurious .consumeCheck with ⟨-, hl⟩ | ⟨hl, -⟩
    · left
      rw [hl]
      simp only [Sys.run, ho]
    · right
      rw [hl]
      exact ⟨rfl, .inr rfl⟩
  | _ =>
    simp only [run, ho] at hs
    obtain ⟨sys, hsys, rfl⟩ := Option.map_eq_some_iff.mp hs
    exact .inl hsys

/-- A step of the spinning threads is one of `Sys`, or it is not noticed. -/
theorem step_refines {l : Label τ α} (hs : s.step B l = some s') :
    s.sys.step B l.forget = some s'.sys ∨ s'.sys = s.sys ∧ s.events l s' = [] := by
  cases l with
  | publish t p | consume t =>
    obtain ⟨sys, hsys, rfl⟩ := Option.map_eq_some_iff.mp hs
    exact .inl hsys
  | run t answer spurious =>
    refine (run_cases hs).imp_right fun ⟨hsame, ho⟩ => ⟨hsame, ?_⟩
    rw [events, hsame]
    rcases ho with ⟨p, ho⟩ | ho <;> simp only [Label.forget, Sys.events, ho]

theorem simulates_queue (hB : RingSize B) :
    Linear.Simulates (step B) (fun _ _ _ => True) events (FifoSpec B true) fun (s : Spinning τ α) a => Matches B s.sys a := by
  refine (simulates_object hB).of_refines sys fun s l s' hs _ => ?_
  exact (step_refines hs).imp_left fun hstep => ⟨l.forget, hstep, trivial, rfl⟩

end Spinning

/-- The calls take effect one after the other on an exact FIFO, by whatever attempts they get the lock. -/
theorem spinning_linearizable [DecidableEq τ] (hB : RingSize B) {buffer : Nat → α}
    {events : List (τ × Event (QueueOp α) (QueueResult α))} {s : Spinning τ α}
    (h : Linear.Run (Spinning.step B) (fun _ _ _ => True) Spinning.events (.init buffer) events s) :
    Linear.Linearizable (FifoSpec B true) [] events (s.sys.q.elems B) := by
  obtain ⟨a, ha, hlin⟩ := (Spinning.simulates_queue hB).linearizable (q := []) (Matches.init B buffer) h
  rwa [ha.state] at hlin

/-- Thread 0 fills the queue, an attempt of it having failed without a reason; thread 1 finds the lock taken, is told that
the queue is full, and consumes. -/
def spinAndTake : List (Spinning.Label Nat Nat) :=
  [.publish 0 (.movable 7), .publish 1 (.movable 8), .run 0 false true, .run 0 false false, .run 1 false false] ++
    List.replicate 4 (.run 0 false false) ++ List.replicate 4 (.run 1 false false) ++ .consume 1 ::
    List.replicate 5 (.run 1 false false)

theorem spinning_linearizable_spinAndTake :
    ∃ (events : List (Nat × Event (QueueOp Nat) (QueueResult Nat))) (s : Spinning Nat Nat),
      Linear.returns events = [(0, .published 1), (1, .full), (1, .consumed 7)] ∧
      Linear.Linearizable (FifoSpec 1 true) [] events (s.sys.q.elems 1) := by
  have hresults : (Linear.trace (Spinning.step 1) Spinning.events (Spinning.init fun _ => 0) spinAndTake).map
      (fun x => Linear.returns x.1) = some [(0, .published 1), (1, .full), (1, .consumed 7)] := by decide +kernel
  obtain ⟨⟨events, s⟩, htrace, hres⟩ := Option.map_eq_some_iff.mp hresults
  exact ⟨events, s, hres, spinning_linearizable ⟨0, by decide, rfl⟩ (.of_trace (fun _ _ _ => trivial) .refl htrace)⟩

/-! ### Somebody gets on -/

/-- How many steps a thread takes at most to finish its call, alone, if it has the lock or the lock is free. -/
def Op.toDo (failed : Nat) : Op α → Nat
  | .idle | .published _ | .refused _ | .taken _ | .empty => 0
  | .leakReport _ | .publishUnlock _ | .consumeUnlock | .releaseUnlock _ => 1
  | .leakUnlock _ | .publishLeaked _ | .releaseLeaked _ => 2
  | .slotWrite .. | .slotRead _ => 3
  | .leakCheck _ | .consumeCheck => 4
  | .leakLock _ | .consumeLock => OgreSync.attempts failed + 4

theorem Op.toDo_le (o : Op α) (failed : Nat) : o.toDo failed ≤ 15 := by
  have := OgreSync.attempts_le failed
  cases o <;> simp only [toDo] <;> omega

theorem Op.atRest_of_toDo {o : Op α} {failed : Nat} (h : o.toDo failed = 0) : o.atRest = true := by
  cases o <;> simp [toDo, atRest] at h ⊢

theorem answer_of_reportFull {p : AtomicMove.Payload α} {answer : Bool} (h : p.reportFull answer = true) :
    answer = true := by
  cases p with
  | movable => cases h
  | setter => exact h

section Progress
variable [DecidableEq τ]

theorem exclusive_run {s s' : Sys τ α} {answer : Bool} (h : Lock.Exclusive Op.inside s.op s.concurrencyGuard)
    (hs : s.run B t answer = some s') : Lock.Exclusive Op.inside s'.op s'.concurrencyGuard := by
  have hstay : ∀ o o', s.op t = o → o'.inside = o.inside →
      Lock.Exclusive Op.inside (Function.update s.op t o') s.concurrencyGuard := by
    rintro _ o' rfl ho
    exact h.stay ho
  have hunlock : ∀ o o', s.op t = o → o.inside = true → o'.inside = false →
      Lock.Exclusive Op.inside (Function.update s.op t o') false := by
    rintro _ o' rfl ho ho'
    exact h.release ho ho'
  have hlock : ∀ o, o.inside = true → Lock.Exclusive Op.inside (s.lock t o).op (s.lock t o).concurrencyGuard := by
    intro o ho
    unfold Sys.lock
    split
    case isTrue => exact h
    case isFalse hg =>
      rw [Bool.not_eq_true] at hg
      rw [hg] at h
      exact h.acquire ho
  cases ho : s.op t with
  | idle | published | refused | taken | empty =>
    simp only [Sys.run, ho] at hs
    cases hs
  | leakLock | consumeLock =>
    simp only [Sys.run, ho] at hs
    cases hs
    exact hlock _ rfl
  | leakCheck | consumeCheck =>
    simp only [Sys.run, ho] at hs
    split at hs <;> cases hs <;> exact hstay _ _ ho rfl
  | leakUnlock | publishUnlock | consumeUnlock | releaseUnlock =>
    simp only [Sys.run, ho] at hs
    cases hs
    exact hunlock _ _ ho rfl rfl
  | leakReport p =>
    simp only [Sys.run, ho] at hs
    cases hs
    exact hstay _ _ ho (by split <;> rfl)
  | slotWrite | publishLeaked | slotRead | releaseLeaked =>
    simp only [Sys.run, ho] at hs
    cases hs
    exact hstay _ _ ho rfl

theorem exclusive_step {s s' : Sys τ α} {l : Label τ α} (h : Lock.Exclusive Op.inside s.op s.concurrencyGuard)
    (hs : s.step B l = some s') : Lock.Exclusive Op.inside s'.op s'.concurrencyGuard := by
  cases l with
  | publish t p | consume t =>
    obtain ⟨ht, hs⟩ := Option.ite_none_right_eq_some.mp hs
    cases hs
    refine h.stay ?_
    cases ho : s.op t <;> rw [ho] at ht <;> first | rfl | cases ht
  | run t answer => exact exclusive_run h hs

namespace Spinning
variable {s s' : Spinning τ α} {spurious : Bool}

/-- Thread `t` has the lock, or could take it. -/
def Able (s : Spinning τ α) (t : τ) : Prop := s.sys.concurrencyGuard = false ∨ (s.sys.op t).inside = true

def toDo (s : Spinning τ α) (t : τ) : Nat := (s.sys.op t).toDo (s.failed t)

theorem Able.lock {o : Op α} (h : s.Able t) (hin : (s.sys.op t).inside = false)
    (hdo : ∀ failed, (s.sys.op t).toDo failed = OgreSync.attempts failed + 4) (ho : o.inside = true)
    (hdo' : ∀ failed, o.toDo failed = 4) :
    (s.lock t spurious o).Able t ∧ (s.lock t spurious o).toDo t < s.toDo t := by
  have hg : s.sys.concurrencyGuard = false := h.resolve_right (by rw [hin]; exact Bool.false_ne_true)
  have hpos : 0 < OgreSync.attempts (s.failed t) := Nat.succ_pos _
  unfold toDo
  rw [hdo]
  rcases lock_cases s t spurious o with ⟨-, hl⟩ | ⟨hl, hf⟩
  · rw [hl]
    unfold Able Sys.lock
    rw [hg, if_neg Bool.false_ne_true]
    simp only [Sys.setOp, Function.update_self, ho, hdo']
    exact ⟨.inr trivial, by omega⟩
  · have hlt := OgreSync.attempts_succ (hf hg)
    rw [hl]
    refine ⟨.inl hg, ?_⟩
    show (s.sys.op t).toDo (Function.update s.failed t (s.failed t + 1) t) < _
    rw [hdo, Function.update_self]
    omega

/-- Thread `t` gets on with its call, unless it is told to start over. -/
theorem Able.run (h : s.Able t) (hbusy : (s.sys.op t).atRest = false) {answer : Bool}
    (hanswer : ∀ p, s.sys.op t = .leakReport p → p.reportFull answer = false) (spurious : Bool) :
    ∃ s', s.run B t answer spurious = some s' ∧ s'.Able t ∧ s'.toDo t < s.toDo t := by
  have hset : ∀ {sys : Sys τ α} {o o' : Op α}, s.sys.op t = o → sys.op = Function.update s.sys.op t o' →
      sys.concurrencyGuard = false ∨ o'.inside = true → o'.toDo (s.failed t) < o.toDo (s.failed t) →
      Able { s with sys } t ∧ toDo { s with sys } t < s.toDo t := by
    rintro sys o o' ho hop hable hlt
    unfold Able toDo
    simp only [hop, ho, Function.update_self]
    exact ⟨hable, hlt⟩
  unfold Spinning.run
  cases ho : s.sys.op t with
  | idle | published lenBefore | refused p | taken item | empty => rw [ho] at hbusy; cases hbusy
  | leakLock p =>
    exact ⟨_, rfl, h.lock (by rw [ho]; rfl) (fun _ => by rw [ho]; rfl) rfl fun _ => rfl⟩
  | consumeLock =>
    exact ⟨_, rfl, h.lock (by rw [ho]; rfl) (fun _ => by rw [ho]; rfl) rfl fun _ => rfl⟩
  | leakCheck p | consumeCheck =>
    simp only [Sys.run, ho]
    split
    · exact ⟨_, rfl, hset ho rfl (.inr rfl) (by simp [Op.toDo])⟩
    · exact ⟨_, rfl, hset ho rfl (.inr rfl) (by simp [Op.toDo])⟩
  | leakUnlock p | publishUnlock lenBefore | consumeUnlock | releaseUnlock item =>
    simp only [Sys.run, ho]
    exact ⟨_, rfl, hset ho rfl (.inl rfl) (by simp [Op.toDo])⟩
  | leakReport p =>
    have hg : s.sys.concurrencyGuard = false := h.resolve_right (by rw [ho]; exact Bool.false_ne_true)
    simp only [Sys.run, ho, hanswer p ho]
    exact ⟨_, rfl, hset ho rfl (.inl hg) (by simp [Op.toDo])⟩
  | slotWrite p slotId lenBefore | publishLeaked lenBefore | slotRead slotId | releaseLeaked item =>
    simp only [Sys.run, ho]
    exact ⟨_, rfl, hset ho rfl (.inr rfl) (by simp [Op.toDo])⟩

/-- The steps of thread `t` alone: what its `report_full_fn` answers at each of them, and whether an attempt fails without
a reason. -/
def alone (t : τ) (choices : List (Bool × Bool)) : List (Label τ α) := choices.map fun c => .run t c.1 c.2

/-- After `k` of the steps thread `t` has returned, or its `report_full_fn` is about to tell it to start over. -/
def Finishes (B : Nat) (s : Spinning τ α) (t : τ) (choices : List (Bool × Bool)) (k : Nat) : Prop :=
  ∃ s', Machine.exec (step B) s (alone t (choices.take k)) = some s' ∧ ((s'.sys.op t).atRest = true ∨
    ∃ p spurious, s'.sys.op t = .leakReport p ∧ choices[k]? = some (true, spurious) ∧ p.reportFull true = true)

theorem Finishes.cons {s₁ : Spinning τ α} {c : Bool × Bool} {choices : List (Bool × Bool)} {k : Nat}
    (hs : s.run B t c.1 c.2 = some s₁) (h : s₁.Finishes B t choices k) : s.Finishes B t (c :: choices) (k + 1) := by
  obtain ⟨s', hs', hend⟩ := h
  refine ⟨s', ?_, by simpa using hend⟩
  show Machine.exec (step B) s (.run t c.1 c.2 :: alone t (choices.take k)) = some s'
  rw [Machine.exec_cons]
  show (s.run B t c.1 c.2).bind _ = some s'
  rw [hs]
  exact hs'

theorem Able.finish (h : s.Able t) (choices : List (Bool × Bool)) (hlen : s.toDo t ≤ choices.length) :
    ∃ k ≤ choices.length, s.Finishes B t choices k := by
  induction choices generalizing s with
  | nil => exact ⟨0, le_refl _, s, rfl, .inl (Op.atRest_of_toDo (Nat.le_zero.mp hlen))⟩
  | cons c choices ih =>
    obtain ⟨answer, spurious⟩ := c
    cases hbusy : (s.sys.op t).atRest with
    | true => exact ⟨0, Nat.zero_le _, s, rfl, .inl hbusy⟩
    | false =>
      by_cases hanswer : ∀ p, s.sys.op t = .leakReport p → p.reportFull answer = false
      · obtain ⟨s₁, hs₁, h₁, hlt⟩ := h.run (B := B) hbusy hanswer spurious
        rw [List.length_cons] at hlen
        obtain ⟨k, hk, hfin⟩ := ih h₁ (by omega)
        exact ⟨k + 1, Nat.succ_le_succ hk, hfin.cons hs₁⟩
      · push Not at hanswer
        obtain ⟨p, hp, htrue⟩ := hanswer
        have htrue := eq_true_of_ne_false htrue
        obtain rfl := answer_of_reportFull htrue
        exact ⟨0, Nat.zero_le _, s, rfl, .inr ⟨p, spurious, hp, rfl, htrue⟩⟩

end Spinning

end Progress

end FullSyncMove
end Mutiny
