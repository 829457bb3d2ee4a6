import Mutiny.AtomicMoveWatch
import Mutiny.MutinyStream

/-!
# The Uni movable `Atomic` channel and its wake-ups

Any number of senders `σ` run `send`, `send_with` and `send_with_async` of
`uni/channels/movable/atomic.rs`, and every created stream is polled by its task. All atomic operations
of the queue are separate steps; the stream that a sender wakes is chosen from the length it
computed when it reserved its slot.

By the time the element becomes visible that length may be stale. If the queue is empty then and the
length names no stream, all the streams may be parked (`lostWakeup_run`). `WakeSafe` is what keeps
them from it: an element published into an empty queue comes with a wake-up of some existing stream,
and no consumer gives up on an element because of another one that is about to step back.
-/

namespace Mutiny.UniAtomic
open AtomicMove (Op Payload Sys)

inductive SendFn
  | send
  | sendWith
  | sendWithAsync
deriving DecidableEq

/-- The stream woken after publishing with `len_before` elements ahead. -/
def wakeTarget (M : Nat) (f : SendFn) (lenBefore : UInt32) : Option UInt32 :=
  match f with
  | .send | .sendWith =>
    let lenAfter := lenBefore + 1
    if lenAfter ≤ UInt32.ofNat M then some (lenAfter - 1)
    else if lenAfter = 1 + UInt32.ofNat M then some (lenAfter - 2) else none
  | .sendWithAsync => if lenBefore < UInt32.ofNat M then some lenBefore else none

/-- The channel, its senders and the tasks of its streams; a stream consumes as the thread of its id. -/
structure Chan (σ α : Type) where
  queue : Sys (σ ⊕ UInt32) α
  sending : σ → Option SendFn
  rt : Runtime

inductive Label (σ α : Type)
  | send (t : σ) (item : α)
  | sendWith (t : σ) (setter : α → α)
  | sendWithAsync (t : σ) (setter : α → α)
  -- the next atomic operation of a sender or of a stream inside `consume`
  | run (u : σ ⊕ UInt32) (spurious : Bool)
  -- the queue call of sender `t` returned: wake a stream if it published, and return
  | finish (t : σ)
  | create
  | cancel (j : UInt32)
  | poll (j : UInt32) (w : Waker)
  -- the next step of the `poll_next` of stream `j` once `consume` returned
  | pollNext (j : UInt32)

namespace Chan
variable {σ α : Type} [DecidableEq σ]

def init (M : Nat) (buffer : Nat → α) : Chan σ α := ⟨.init buffer, fun _ => none, .new M⟩

def startSend (B : Nat) (s : Chan σ α) (t : σ) (f : SendFn) (p : Payload α) : Option (Chan σ α) :=
  if s.sending t = none then
    (s.queue.step B (.publish (.inl t) p)).map fun queue =>
      { s with queue, sending := Function.update s.sending t (some f) }
  else none

def finish (M : Nat) (s : Chan σ α) (t : σ) : Option (Chan σ α) := do
  let f ← s.sending t
  match s.queue.op (.inl t) with
  | .published lenBefore =>
    let rt := (wakeTarget M f lenBefore).elim s.rt s.rt.wake
    some { s with rt, sending := Function.update s.sending t none }
  | .refused _ => some { s with sending := Function.update s.sending t none }
  | _ => none

def pollNext (s : Chan σ α) (j : UInt32) : Option (Chan σ α) :=
  match s.queue.op (.inr j), (s.rt.task j).map Task.phase with
  | .taken _, some .consuming => (s.rt.consumed j true).map fun rt => { s with rt }
  | .empty, some .consuming => (s.rt.consumed j false).map fun rt => { s with rt }
  | _, some .consuming => none
  | _, _ => (s.rt.pollRest j).map fun rt => { s with rt }

def step (B M : Nat) (s : Chan σ α) : Label σ α → Option (Chan σ α)
  | .send t item => s.startSend B t .send (.movable item)
  | .sendWith t setter => s.startSend B t .sendWith (.setter setter)
  | .sendWithAsync t setter => s.startSend B t .sendWithAsync (.setter setter)
  | .run u spurious => (s.queue.step B (.run u spurious false)).map fun queue => { s with queue }
  | .finish t => s.finish M t
  | .create => (s.rt.create M).map fun rt => { s with rt }
  | .cancel j => (s.rt.cancel j).map fun rt => { s with rt }
  | .poll j w => do
    let rt ← s.rt.poll j w
    let queue ← s.queue.step B (.consume (.inr j))
    return { s with rt, queue }
  | .pollNext j => s.pollNext j

/-- Sender `t` has published and not yet made its `wake_stream(j)` call. -/
def Owes (M : Nat) (s : Chan σ α) (t : σ) (j : UInt32) : Prop :=
  ∃ f lenBefore, s.sending t = some f ∧ s.queue.op (.inl t) = .published lenBefore ∧
    wakeTarget M f lenBefore = some j

/-- If no wake-up is under way and the queue holds an element, some stream is not parked. -/
def Awake (M : Nat) (s : Chan σ α) : Prop :=
  (∀ t j, ¬ s.Owes M t j) → s.queue.q.head ≠ s.queue.q.tail → s.rt.AllKept →
    (∃ j, (s.rt.task j).isSome) → ∃ j k, s.rt.task j = some k ∧ ¬ k.parked

/-- The step keeps few operations in flight, is no stale test of a stream (`AtomicMove.NotStale`), and
if it publishes (its compare-exchange on `tail` succeeds) into the empty queue, then with a wake-up of a
stream that exists. -/
def WakeSafe (B M : Nat) (s : Chan σ α) (b : Label σ α) (s' : Chan σ α) : Prop :=
  s'.queue.InFlightBelow (2 ^ 31 - B) ∧
  match b with
  | .run (.inr j) spurious => AtomicMove.NotStale B s.queue (.run (.inr j) spurious false)
  | .run (.inl t) spurious => ∀ p i lenBefore v, s.queue.op (.inl t) = .publishLeaked p i lenBefore v →
      spurious = false → s.queue.q.tail = i → s.queue.q.head = s.queue.q.tail →
      ∃ f j, s.sending t = some f ∧ wakeTarget M f lenBefore = some j ∧ (s.rt.task j).isSome
  | _ => True

end Chan

/-! ### What every run keeps -/

section Base
variable {σ α : Type} {B M : Nat} {s s' : Chan σ α} {t : σ} {i j : UInt32}

/-- Senders only publish, streams only consume, and only while they are polled. -/
structure Base (M : Nat) (s : Chan σ α) : Prop where
  rt : s.rt.Ok M
  sender : ∀ t, (s.queue.op (.inl t)).isConsume = false
  stream : ∀ j, (s.queue.op (.inr j)).isPublish = false
  polling : ∀ j, (s.queue.op (.inr j)).atRest = false → ∃ k, s.rt.task j = some k ∧ k.phase = .consuming

namespace Base

theorem init (hM : Ring.PowerOfTwo M) (buffer : Nat → α) : Base M (.init M buffer : Chan σ α) :=
  ⟨.new hM, fun _ => rfl, fun _ => rfl, fun _ h => (by cases h)⟩

theorem isPublish (h : Base M s) (hr : (s.queue.op (.inl t)).atRest = false) :
    (s.queue.op (.inl t)).isPublish = true := by
  rcases Op.isPublish_or_isConsume hr with h' | h'
  · exact h'.1
  · exact absurd h'.1 (by simp [h.sender t])

theorem isConsume (h : Base M s) (hr : (s.queue.op (.inr j)).atRest = false) :
    (s.queue.op (.inr j)).isConsume = true := by
  rcases Op.isPublish_or_isConsume hr with h' | h'
  · exact absurd h'.1 (by simp [h.stream j])
  · exact h'.1

/-- At most every sender and every stream has an operation in flight. -/
theorem inFlightBelow [Fintype σ] [DecidableEq σ] (h : Base M s) {k : Nat} (hk : Fintype.card σ + M < k) :
    s.queue.InFlightBelow k := by
  intro F hF
  have hsub : F ⊆ (Finset.univ : Finset σ).disjSum (idRange 0 (UInt32.ofNat M)).toFinset := by
    intro u hu
    cases u with
    | inl t => simp
    | inr j =>
      obtain ⟨k, hk, -⟩ := h.polling j (hF _ hu)
      have hlt := h.rt.lt j (by rw [hk]; rfl)
      simp [mem_idRange, hlt]
  have hcard := Finset.card_le_card hsub
  rw [Finset.card_disjSum, Finset.card_univ] at hcard
  have hlen := List.toFinset_card_le (idRange 0 (UInt32.ofNat M))
  rw [length_idRange, UInt32.toNat_ofNat'] at hlen
  have := Nat.mod_le M (2 ^ 32)
  omega

/-- The streams and their tasks took a step that the queue did not see. -/
theorem of_rt {rt : Runtime} {sending : σ → Option SendFn} (h : Base M s) (hrt : rt.Ok M)
    (hpoll : ∀ j k, s.rt.task j = some k → (s.queue.op (.inr j)).atRest = false →
      ∃ k', rt.task j = some k' ∧ k'.phase = k.phase) : Base M ⟨s.queue, sending, rt⟩ := by
  refine ⟨hrt, h.sender, h.stream, fun j hj => ?_⟩
  obtain ⟨k, hk, hph⟩ := h.polling j hj
  obtain ⟨k', hk', hph'⟩ := hpoll j k hk hj
  exact ⟨k', hk', hph'.trans hph⟩

theorem pollNext_of_ne (hph : (s.rt.task j).map Task.phase ≠ some .consuming) :
    s.pollNext j = (s.rt.pollRest j).map fun rt => { s with rt } := by
  unfold Chan.pollNext
  split <;> first | rfl | contradiction

theorem pollNext_cases (h : Base M s) (hs : s.pollNext j = some s') :
    (s.queue.op (.inr j)).atRest = true ∧ ∃ rt, s' = { s with rt } ∧
      ((∃ b, s.rt.consumed j b = some rt ∧ (b = false → (s.queue.op (.inr j)).watches = false)) ∨
       s.rt.pollRest j = some rt) := by
  by_cases hph : (s.rt.task j).map Task.phase = some .consuming
  · cases hop : s.queue.op (.inr j) with
    | taken v =>
      simp only [Chan.pollNext, hop, hph] at hs
      obtain ⟨rt, hc, rfl⟩ := Option.map_eq_some_iff.mp hs
      exact ⟨rfl, rt, rfl, .inl ⟨true, hc, by simp⟩⟩
    | empty =>
      simp only [Chan.pollNext, hop, hph] at hs
      obtain ⟨rt, hc, rfl⟩ := Option.map_eq_some_iff.mp hs
      exact ⟨rfl, rt, rfl, .inl ⟨false, hc, fun _ => rfl⟩⟩
    | _ => simp [Chan.pollNext, hop, hph] at hs
  · rw [pollNext_of_ne hph] at hs
    obtain ⟨rt, hc, rfl⟩ := Option.map_eq_some_iff.mp hs
    refine ⟨?_, rt, rfl, .inr hc⟩
    by_contra hr
    obtain ⟨k, hk, hk'⟩ := h.polling j (by simpa using hr)
    exact hph (by rw [hk, Option.map_some, hk'])

theorem pollNext (h : Base M s) (hs : s.pollNext j = some s') : Base M s' := by
  obtain ⟨hrest, rt, rfl, hc⟩ := h.pollNext_cases hs
  have hne : ∀ i, (s.queue.op (.inr i)).atRest = false → i ≠ j := by
    rintro i hi rfl
    rw [hrest] at hi
    cases hi
  rcases hc with ⟨b, hc, -⟩ | hc
  · have hok := h.rt.consumed hc
    obtain ⟨k, -, -, rfl⟩ := Runtime.consumed_cases hc
    exact h.of_rt hok fun i k' hk' hi => ⟨k', (Function.update_of_ne (hne i hi) _ _).trans hk', rfl⟩
  · have hok := h.rt.pollRest hc
    obtain ⟨k, -, ⟨-, rfl⟩ | ⟨-, b, -, rfl⟩⟩ := Runtime.pollRest_cases hc <;>
      exact h.of_rt hok fun i k' hk' hi => ⟨k', (Function.update_of_ne (hne i hi) _ _).trans hk', rfl⟩

theorem create {rt : Runtime} (h : Base M s) (hc : s.rt.create M = some rt) : Base M { s with rt } := by
  obtain ⟨id, hid, hok, ht, -⟩ := Runtime.create_cases h.rt hc
  refine h.of_rt hok fun j k hk _ => ⟨k, ?_, rfl⟩
  rw [ht, Function.update_of_ne]
  · exact hk
  · rintro rfl
    rw [hid] at hk
    cases hk

theorem cancel {rt : Runtime} (h : Base M s) (hc : s.rt.cancel j = some rt) : Base M { s with rt } := by
  have hok := h.rt.cancel hc
  simp only [Runtime.cancel, Option.ite_none_right_eq_some, Option.some.injEq] at hc
  obtain ⟨-, rfl⟩ := hc
  exact h.of_rt hok fun i k hk _ =>
    Runtime.phase_wake (r := { s.rt with streams := s.rt.streams.setKeepRunning j false }) hk j

variable [DecidableEq σ]

theorem of_queue {queue : Sys (σ ⊕ UInt32) α} {rt : Runtime} {sending : σ → Option SendFn} (h : Base M s)
    (hrt : rt.Ok M) (u : σ ⊕ UInt32) (hop : ∀ v, v ≠ u → queue.op v = s.queue.op v)
    (hl : ∀ t, u = .inl t → (queue.op u).isConsume = false) (hr : ∀ j, u = .inr j → (queue.op u).isPublish = false)
    (hpoll : ∀ j, u = .inr j → (queue.op u).atRest = false → ∃ k, rt.task j = some k ∧ k.phase = .consuming)
    (hother : ∀ j, u ≠ .inr j → rt.task j = s.rt.task j) : Base M ⟨queue, sending, rt⟩ := by
  refine ⟨hrt, fun t => ?_, fun j => ?_, fun j hj => ?_⟩
  · by_cases hu : u = .inl t
    · subst hu; exact hl t rfl
    · show (queue.op (.inl t)).isConsume = false
      rw [hop _ (Ne.symm hu)]
      exact h.sender t
  · by_cases hu : u = .inr j
    · subst hu; exact hr j rfl
    · show (queue.op (.inr j)).isPublish = false
      rw [hop _ (Ne.symm hu)]
      exact h.stream j
  · by_cases hu : u = .inr j
    · subst hu; exact hpoll j rfl hj
    · obtain ⟨k, hk, hph⟩ := h.polling j (by rw [← hop _ (Ne.symm hu)]; exact hj)
      exact ⟨k, (hother j hu).trans hk, hph⟩

theorem startSend {f : SendFn} {p : Payload α} (h : Base M s) (hs : s.startSend B t f p = some s') : Base M s' := by
  simp only [Chan.startSend, Option.ite_none_right_eq_some, Option.map_eq_some_iff, Sys.step, Sys.call,
    Option.some.injEq] at hs
  obtain ⟨-, queue, ⟨-, rfl⟩, rfl⟩ := hs
  refine h.of_queue h.rt (.inl t) (fun v hv => Function.update_of_ne hv _ _) ?_ ?_ ?_ fun _ _ => rfl
  · simp [Sys.setOp, Op.isConsume]
  · simp
  · simp

theorem run {queue : Sys (σ ⊕ UInt32) α} {u : σ ⊕ UInt32} (h : Base M s) (hm : Sys.Moves B s.queue u queue) :
    Base M { s with queue } := by
  have hrest := hm.atRest_eq_false
  refine h.of_queue h.rt u (fun v hv => hm.op_of_ne hv) ?_ ?_ ?_ fun _ _ => rfl
  · rintro t rfl
    exact Op.isPublish_ne_isConsume (hm.isPublish (h.isPublish hrest))
  · rintro j rfl
    exact Op.isConsume_ne_isPublish (hm.isConsume (h.isConsume hrest))
  · rintro j rfl _
    exact h.polling j hrest

theorem finish_cases (hs : s.finish M t = some s') : ∃ f, s.sending t = some f ∧
    ((∃ len, s.queue.op (.inl t) = .published len ∧ s' = { s with
        rt := (wakeTarget M f len).elim s.rt s.rt.wake
        sending := Function.update s.sending t none }) ∨
      ∃ p, s.queue.op (.inl t) = .refused p ∧ s' = { s with sending := Function.update s.sending t none }) := by
  simp only [Chan.finish, Option.bind_eq_bind, Option.bind_eq_some_iff] at hs
  obtain ⟨f, hf, hs⟩ := hs
  refine ⟨f, hf, ?_⟩
  cases hop : s.queue.op (.inl t) with
  | published len =>
    simp only [hop, Option.some.injEq] at hs
    exact .inl ⟨len, rfl, hs.symm⟩
  | refused p =>
    simp only [hop, Option.some.injEq] at hs
    exact .inr ⟨p, rfl, hs.symm⟩
  | _ => simp [hop] at hs

theorem finish (h : Base M s) (hs : s.finish M t = some s') : Base M s' := by
  obtain ⟨f, -, ⟨len, -, rfl⟩ | ⟨p, -, rfl⟩⟩ := finish_cases hs
  · cases wakeTarget M f len with
    | none => exact h.of_rt h.rt fun j k hk _ => ⟨k, hk, rfl⟩
    | some i => exact h.of_rt (h.rt.wake i) fun j k hk _ => Runtime.phase_wake hk i
  · exact h.of_rt h.rt fun j k hk _ => ⟨k, hk, rfl⟩

theorem poll {rt : Runtime} {queue : Sys (σ ⊕ UInt32) α} {w : Waker} (h : Base M s) (hp : s.rt.poll j w = some rt)
    (hq : s.queue.step B (.consume (.inr j)) = some queue) : Base M { s with rt, queue } := by
  simp only [Sys.step, Sys.call, Option.ite_none_right_eq_some, Option.some.injEq] at hq
  obtain ⟨-, rfl⟩ := hq
  have hok := h.rt.poll hp
  obtain ⟨k, -, rfl⟩ := Runtime.poll_cases hp
  refine h.of_queue hok (.inr j) (fun v hv => Function.update_of_ne hv _ _) ?_ ?_ ?_ fun i hi => ?_
  · simp
  · simp [Sys.setOp, Op.isPublish]
  · rintro i ⟨rfl⟩ _
    exact ⟨_, Function.update_self .., rfl⟩
  · exact Function.update_of_ne (by rintro rfl; exact hi rfl) _ _

theorem step {b : Label σ α} (h : Base M s) (hs : s.step B M b = some s') : Base M s' := by
  cases b with
  | send t item => exact h.startSend hs
  | sendWith t setter => exact h.startSend hs
  | sendWithAsync t setter => exact h.startSend hs
  | run u spurious =>
    obtain ⟨queue, hq, rfl⟩ := Option.map_eq_some_iff.mp hs
    exact h.run (Sys.moves_of_run hq)
  | finish t => exact h.finish hs
  | create =>
    obtain ⟨rt, hc, rfl⟩ := Option.map_eq_some_iff.mp hs
    exact h.create hc
  | cancel j =>
    obtain ⟨rt, hc, rfl⟩ := Option.map_eq_some_iff.mp hs
    exact h.cancel hc
  | poll j w =>
    simp only [Chan.step, Option.bind_eq_bind, Option.bind_eq_some_iff, Option.pure_def, Option.some.injEq] at hs
    obtain ⟨rt, hp, queue, hq, rfl⟩ := hs
    exact h.poll hp hq
  | pollNext j => exact h.pollNext hs

theorem of_steps {ok : Chan σ α → Label σ α → Chan σ α → Prop} (hM : Ring.PowerOfTwo M) {buffer : Nat → α}
    (h : Machine.Steps (Chan.step B M) ok (.init M buffer) s) : Base M s :=
  h.invariant (I := Base M) (fun _ _ _ hb hs _ => hb.step hs) (.init hM buffer)

end Base
end Base

/-! ### Who sees to a published element -/

section Covered
variable {σ α : Type} {B M : Nat} {s s' : Chan σ α} {t : σ} {i j : UInt32}

/-- Stream `j` will look at the queue again. -/
def Chan.Watching (s : Chan σ α) (j : UInt32) : Prop :=
  s.rt.Attentive j ((s.queue.op (.inr j)).watches = true)

/-- A wake-up of a stream is under way, or one looks at the queue anyway. -/
def Chan.Covered (M : Nat) (s : Chan σ α) : Prop :=
  (∃ t j, s.Owes M t j ∧ (s.rt.task j).isSome) ∨ ∃ j, s.Watching j

structure Inv (B M : Nat) (s : Chan σ α) : Prop where
  base : Base M s
  queue : (∃ g, AtomicMove.Inv B s.queue g) ∧ s.queue.InFlightBelow (2 ^ 31 - B)
  covered : s.rt.AllKept → s.queue.q.head ≠ s.queue.q.tail → s.Covered M

theorem Inv.awake (h : Inv B M s) : s.Awake M := by
  intro howe hne hk _
  rcases h.covered hk hne with ⟨t, j, ho, -⟩ | ⟨j, hj⟩
  · exact absurd ho (howe t j)
  · exact hj.exists_not_parked

theorem Chan.Covered.of_rt {rt : Runtime} (h : s.Covered M)
    (hsome : ∀ j, (s.rt.task j).isSome → (rt.task j).isSome)
    (hwatch : ∀ j, s.Watching j → Chan.Watching { s with rt } j) : Chan.Covered M { s with rt } := by
  rcases h with ⟨t, j, ho, hj⟩ | ⟨j, hj⟩
  · exact .inl ⟨t, j, ho, hsome j hj⟩
  · exact .inr ⟨j, hwatch j hj⟩

theorem Chan.Covered.of_queue {queue : Sys (σ ⊕ UInt32) α} {u : σ ⊕ UInt32} (h : s.Covered M)
    (hop : ∀ v, v ≠ u → queue.op v = s.queue.op v) (hu : ∀ t j, s.Owes M t j → u ≠ .inl t)
    (hw : ∀ j, u = .inr j → (s.queue.op u).watches = true → (queue.op u).watches = true) :
    Chan.Covered M { s with queue } := by
  rcases h with ⟨t, j, ho, hj⟩ | ⟨j, hj⟩
  · obtain ⟨f, l, h₁, h₂, h₃⟩ := ho
    exact .inl ⟨t, j, ⟨f, l, h₁, (hop _ (hu t j ⟨f, l, h₁, h₂, h₃⟩).symm).trans h₂, h₃⟩, hj⟩
  · refine .inr ⟨j, ?_⟩
    unfold Chan.Watching at hj ⊢
    by_cases huj : u = .inr j
    · subst huj; exact hj.imp (hw j rfl)
    · rwa [hop _ (Ne.symm huj)]

theorem covered_create {rt : Runtime} (h : s.Covered M) (hok : s.rt.Ok M) (hc : s.rt.create M = some rt) :
    Chan.Covered M { s with rt } := by
  refine h.of_rt (fun i hi => ?_) fun i hi => hi.create hok hc
  obtain ⟨id, hid, -, ht, -⟩ := Runtime.create_cases hok hc
  rw [ht, Function.update_of_ne]
  · exact hi
  · rintro rfl
    rw [hid] at hi
    cases hi

theorem covered_pollNext (h : s.Covered M) (hb : Base M s) (hk : s'.rt.AllKept) (hs : s.pollNext j = some s') :
    s'.Covered M := by
  obtain ⟨-, rt, rfl, ⟨b, hc, hb'⟩ | hc⟩ := hb.pollNext_cases hs
  · refine h.of_rt (fun i hi => ?_) fun i hi => Runtime.Attentive.consumed hi hc ?_
    · rwa [(Runtime.sameStreams_consumed hc).isSome]
    · rintro rfl hbf
      simp [hb' hbf]
  · refine h.of_rt (fun i hi => ?_) fun i hi =>
      Runtime.Attentive.pollRest hi (hk.of_pollRest hc i hi.isSome) hc
    rwa [(Runtime.sameStreams_pollRest hc).isSome]

variable [DecidableEq σ]

theorem covered_startSend {f : SendFn} {p : Payload α} (h : s.Covered M) (hs : s.startSend B t f p = some s') :
    s'.Covered M := by
  simp only [Chan.startSend, Option.ite_none_right_eq_some, Option.map_eq_some_iff, Sys.step, Sys.call,
    Option.some.injEq] at hs
  obtain ⟨hnone, queue, ⟨-, rfl⟩, rfl⟩ := hs
  have hne : ∀ u j, s.Owes M u j → u ≠ t := by
    rintro u j ⟨f', l, h₁, -⟩ rfl
    rw [hnone] at h₁
    cases h₁
  rcases h with ⟨u, j, ho, hj⟩ | ⟨j, hj⟩
  · have hut := hne u j ho
    obtain ⟨f', l, h₁, h₂, h₃⟩ := ho
    refine .inl ⟨u, j, ⟨f', l, (Function.update_of_ne hut _ _).trans h₁, ?_, h₃⟩, hj⟩
    exact (Function.update_of_ne (by simpa using hut) _ _).trans h₂
  · refine .inr ⟨j, ?_⟩
    unfold Chan.Watching at hj ⊢
    simpa [Sys.setOp] using hj

theorem covered_finish (h : s.Covered M) (hok : s.rt.Ok M) (hk : s'.rt.AllKept) (hs : s.finish M t = some s') :
    s'.Covered M := by
  -- the other senders owe what they owed
  have howe : ∀ u i, u ≠ t → s.Owes M u i →
      ∀ rt, Chan.Owes M { s with rt, sending := Function.update s.sending t none } u i := by
    rintro u i hut ⟨f', l, h₁, h₂⟩ rt
    exact ⟨f', l, (Function.update_of_ne hut _ _).trans h₁, h₂⟩
  obtain ⟨f, hf, ⟨len, hop, rfl⟩ | ⟨p, hop, rfl⟩⟩ := Base.finish_cases hs
  · -- and `t` owed the wake-up it makes now
    have htgt : ∀ i, s.Owes M t i → wakeTarget M f len = some i := by
      rintro i ⟨f', l, h₁, h₂, h₃⟩
      cases hf.symm.trans h₁
      cases hop.symm.trans h₂
      exact h₃
    cases htg : wakeTarget M f len with
    | none =>
      rcases h with ⟨u, i, ho, hi⟩ | ⟨i, hi⟩
      · refine .inl ⟨u, i, howe u i ?_ ho _, hi⟩
        rintro rfl
        cases htg.symm.trans (htgt i ho)
      · exact .inr ⟨i, hi⟩
    | some j =>
      rw [htg] at hk
      rcases h with ⟨u, i, ho, hi⟩ | ⟨i, hi⟩
      · by_cases hut : u = t
        · subst hut
          cases htg.symm.trans (htgt i ho)
          exact .inr ⟨j, hok.attentive_wake hi (Runtime.AllKept.of_wake hk j hi)⟩
        · exact .inl ⟨u, i, howe u i hut ho _, by show ((s.rt.wake j).task i).isSome; rwa [Runtime.isSome_wake]⟩
      · exact .inr ⟨i, Runtime.Attentive.wake hi j⟩
  · rcases h with ⟨u, i, ho, hi⟩ | ⟨i, hi⟩
    · refine .inl ⟨u, i, howe u i ?_ ho _, hi⟩
      rintro rfl
      obtain ⟨f', l, -, h₂, -⟩ := ho
      cases hop.symm.trans h₂
    · exact .inr ⟨i, hi⟩

theorem Inv.covered_run_sender {queue : Sys (σ ⊕ UInt32) α} {spurious : Bool} (h : Inv B M s) (hB : RingSize B)
    (hq : s.queue.run B (.inl t) spurious false = some queue) (hk : s.rt.AllKept)
    (hne : queue.q.head ≠ queue.q.tail)
    (hsafe : ∀ p i lenBefore v, s.queue.op (.inl t) = .publishLeaked p i lenBefore v →
      spurious = false → s.queue.q.tail = i → s.queue.q.head = s.queue.q.tail →
      ∃ f j, s.sending t = some f ∧ wakeTarget M f lenBefore = some j ∧ (s.rt.task j).isSome) :
    Chan.Covered M { s with queue } := by
  obtain ⟨⟨g, hg⟩, hfl⟩ := h.queue
  have hm := Sys.moves_of_run hq
  by_cases hne₀ : s.queue.q.head = s.queue.q.tail
  · rcases Sys.Moves.published_cases_of_run hq with heq | ⟨p, i, l, v, hsp, ho, hcas, ho'⟩
    · -- nothing was published, so the queue is still empty
      obtain ⟨g', hg'⟩ := hg.moves (hg.close hB hfl) hm
      have hcon := hm.consumed_of_isPublish (h.base.isPublish hm.atRest_eq_false)
      rw [hg'.head_ne_tail_iff hB, hcon, heq, ← hg.head_ne_tail_iff hB] at hne
      exact absurd hne₀ hne
    · obtain ⟨f, j, hf, htgt, hj⟩ := hsafe p i l v ho hsp hcas hne₀
      exact .inl ⟨t, j, ⟨f, l, hf, ho', htgt⟩, hj⟩
  · refine (h.covered hk hne₀).of_queue (u := .inl t) (fun v hv => hm.op_of_ne hv) ?_ (by simp)
    rintro u j ⟨f, l, -, h₂, -⟩ hut
    have := hm.atRest_eq_false
    rw [hut, h₂] at this
    cases this

theorem Inv.covered_run_stream {queue : Sys (σ ⊕ UInt32) α} {spurious : Bool} (h : Inv B M s) (hB : RingSize B)
    (hm : Sys.Moves B s.queue (.inr j) queue) (hk : s.rt.AllKept) (hne : queue.q.head ≠ queue.q.tail)
    (hst : AtomicMove.NotStale B s.queue (.run (.inr j) spurious false)) : Chan.Covered M { s with queue } := by
  obtain ⟨⟨g, hg⟩, hfl⟩ := h.queue
  obtain ⟨g', hg'⟩ := hg.moves (hg.close hB hfl) hm
  have hlt : s.queue.consumed.length < s.queue.published.length := by
    have hle := hm.consumed_prefix.length_le
    rw [hg'.head_ne_tail_iff hB, hm.published_of_isConsume (h.base.isConsume hm.atRest_eq_false)] at hne
    omega
  have hcov := h.covered hk ((hg.head_ne_tail_iff hB).mpr hlt)
  by_cases hfail : ∃ i, s.queue.op (.inr j) = .consumeCheck i ∧ ¬ 0 < (s.queue.q.tail - i).toInt32
  · -- the failed test leaves another stream watching
    obtain ⟨id, ho, hlen⟩ := hfail
    simp only [AtomicMove.NotStale, ho] at hst
    obtain ⟨u, huj, hwu, hru, hcu⟩ := hg.exists_watch hB hfl ho hlen (hst hlen) hlt
    cases u with
    | inl u => rw [h.base.sender u] at hcu; cases hcu
    | inr i =>
      obtain ⟨k, hk', hph⟩ := h.base.polling i hru
      refine .inr ⟨i, k, hk', ?_⟩
      simp only [Task.Attentive, hph]
      exact .inl (by rw [hm.op_of_ne huj]; exact hwu)
  · refine hcov.of_queue (u := .inr j) (fun v hv => hm.op_of_ne hv) (by simp) fun i _ hw => ?_
    exact (hm.watches hw).resolve_right hfail

theorem covered_poll {rt : Runtime} {queue : Sys (σ ⊕ UInt32) α} {w : Waker} (h : s.Covered M)
    (hp : s.rt.poll j w = some rt) (hq : s.queue.step B (.consume (.inr j)) = some queue) :
    Chan.Covered M { s with rt, queue } := by
  simp only [Sys.step, Sys.call, Option.ite_none_right_eq_some, Option.some.injEq] at hq
  obtain ⟨-, rfl⟩ := hq
  rcases h with ⟨u, i, ⟨f', l, h₁, h₂, h₃⟩, hi⟩ | ⟨i, hi⟩
  · have hop : Function.update s.queue.op (.inr j) .consumeReserve (.inl u) = .published l :=
      (Function.update_of_ne (by simp) _ _).trans h₂
    exact .inl ⟨u, i, ⟨f', l, h₁, hop, h₃⟩, by rwa [(Runtime.sameStreams_poll hp).isSome]⟩
  · refine .inr ⟨i, (Runtime.Attentive.poll hi hp).imp ?_⟩
    show _ → (Function.update s.queue.op (.inr j) .consumeReserve (.inr i)).watches = true
    by_cases hij : i = j
    · subst hij; simp [Op.watches]
    · rw [Function.update_of_ne (by simpa using hij)]
      exact fun hor => hor.resolve_right hij

theorem allKept_of_finish (hk : s'.rt.AllKept) (hs : s.finish M t = some s') : s.rt.AllKept := by
  obtain ⟨f, -, ⟨len, -, rfl⟩ | ⟨p, -, rfl⟩⟩ := Base.finish_cases hs
  · cases htg : wakeTarget M f len with
    | none =>
      rw [htg] at hk
      exact hk
    | some j =>
      rw [htg] at hk
      exact Runtime.AllKept.of_wake hk
  · exact hk

theorem queue_of_finish (hs : s.finish M t = some s') : s'.queue = s.queue := by
  obtain ⟨f, -, ⟨len, -, rfl⟩ | ⟨p, -, rfl⟩⟩ := Base.finish_cases hs <;> rfl

theorem Inv.step {b : Label σ α} (h : Inv B M s) (hB : RingSize B) (hs : s.step B M b = some s')
    (hok : s.WakeSafe B M b s') : Inv B M s' := by
  obtain ⟨hfl, hsafe⟩ := hok
  obtain ⟨⟨g, hg⟩, hfl₀⟩ := h.queue
  have hsend : ∀ {t f p}, s.startSend B t f p = some s' → Inv B M s' := by
    intro t f p hs
    obtain ⟨-, queue, hq, rfl⟩ := by
      simpa only [Chan.startSend, Option.ite_none_right_eq_some, Option.map_eq_some_iff] using hs
    refine ⟨h.base.startSend hs, ⟨hg.step (hg.close hB hfl₀) hq, hfl⟩, fun hk hne => covered_startSend (h.covered hk ?_) hs⟩
    rwa [Sys.q_of_call hq] at hne
  cases b with
  | send t item => exact hsend hs
  | sendWith t setter => exact hsend hs
  | sendWithAsync t setter => exact hsend hs
  | run u spurious =>
    have hb := h.base.step hs
    obtain ⟨queue, hq, rfl⟩ := Option.map_eq_some_iff.mp hs
    have hm := Sys.moves_of_run hq
    refine ⟨hb, ⟨hg.moves (hg.close hB hfl₀) hm, hfl⟩, fun hk hne => ?_⟩
    cases u with
    | inl t => exact h.covered_run_sender hB hq hk hne hsafe
    | inr j => exact h.covered_run_stream hB hm hk hne hsafe
  | finish t =>
    have hq := queue_of_finish hs
    refine ⟨h.base.finish hs, ⟨⟨g, by rw [hq]; exact hg⟩, hfl⟩, fun hk hne => ?_⟩
    rw [hq] at hne
    exact covered_finish (h.covered (allKept_of_finish hk hs) hne) h.base.rt hk hs
  | create =>
    have hb := h.base.step hs
    obtain ⟨rt, hc, rfl⟩ := Option.map_eq_some_iff.mp hs
    exact ⟨hb, h.queue, fun hk hne => covered_create (h.covered (hk.of_create h.base.rt hc) hne) h.base.rt hc⟩
  | cancel j =>
    have hb := h.base.step hs
    obtain ⟨rt, hc, rfl⟩ := Option.map_eq_some_iff.mp hs
    exact ⟨hb, h.queue, fun hk => absurd hk (Runtime.not_allKept_of_cancel hc)⟩
  | poll j w =>
    have hb := h.base.step hs
    simp only [Chan.step, Option.bind_eq_bind, Option.bind_eq_some_iff, Option.pure_def, Option.some.injEq] at hs
    obtain ⟨rt, hp, queue, hq, rfl⟩ := hs
    refine ⟨hb, ⟨hg.step (hg.close hB hfl₀) hq, hfl⟩, fun hk hne => covered_poll (h.covered (hk.of_poll hp) ?_) hp hq⟩
    rwa [Sys.q_of_call hq] at hne
  | pollNext j =>
    have hb := h.base.step hs
    obtain ⟨-, rt, rfl, hc⟩ := h.base.pollNext_cases hs
    refine ⟨hb, h.queue, fun hk hne => covered_pollNext (h.covered ?_ hne) h.base hk hs⟩
    rcases hc with ⟨b, hc, -⟩ | hc
    · exact hk.of_consumed hc
    · exact hk.of_pollRest hc

/-- No wake-up is lost in a run all of whose steps are `WakeSafe`. -/
theorem uniAtomic_awake (hB : RingSize B) (hM : Ring.PowerOfTwo M) {buffer : Nat → α}
    (h : Machine.Steps (Chan.step B M) (Chan.WakeSafe B M) (.init M buffer) s) : s.Awake M := by
  refine (h.invariant (I := Inv B M) (fun _ _ _ hi hs hok => hi.step hB hs hok) ?_).awake
  exact ⟨.init hM buffer, ⟨⟨_, .init B buffer⟩, Sys.inFlightBelow_init hB buffer⟩, fun _ h => absurd rfl h⟩

end Covered

/-! ### Concrete runs -/

/-- Whether the step publishes into a non-empty queue or wakes a stream that exists. -/
def Chan.wakes {σ α : Type} (M : Nat) (s : Chan σ α) : Label σ α → Bool
  | .run (.inl t) spurious =>
    match s.queue.op (.inl t) with
    | .publishLeaked _ i lenBefore _ => spurious || s.queue.q.tail ≠ i || s.queue.q.head ≠ s.queue.q.tail ||
        ((s.sending t).bind (wakeTarget M · lenBefore)).any fun j => (s.rt.task j).isSome
    | _ => true
  | _ => true

/-- With one stream and few senders the only condition is on what is woken. -/
theorem wakeSafe_of_wakes {σ α : Type} [DecidableEq σ] [Fintype σ] {B : Nat} {s s' : Chan σ α} {b : Label σ α}
    (hB : RingSize B) (hσ : Fintype.card σ ≤ 8) (h : Base 1 s) (h' : Base 1 s') (hw : s.wakes 1 b = true) :
    s.WakeSafe B 1 b s' := by
  refine ⟨h'.inFlightBelow (by have := hB.le; omega), ?_⟩
  cases b with
  | run u spurious =>
    cases u with
    | inr j =>
      show AtomicMove.NotStale B s.queue (.run (.inr j) spurious false)
      cases ho : s.queue.op (.inr j) with
      | consumeCheck i =>
        simp only [AtomicMove.NotStale, ho]
        -- nobody else is inside `consume`
        intro _ u i' hu
        have hone : ∀ j, (s.queue.op (.inr j)).atRest = false → j = 0 := by
          intro j hj
          obtain ⟨k, hk, -⟩ := h.polling j hj
          have := h.rt.lt j (by rw [hk]; rfl)
          rw [UInt32.lt_iff_toNat_lt] at this
          rw [← UInt32.toNat_inj]
          simpa using this
        cases u with
        | inl t => have := h.sender t; rw [hu] at this; cases this
        | inr j' =>
          obtain rfl := hone j (by rw [ho]; rfl)
          obtain rfl := hone j' (by rw [hu]; rfl)
          rw [ho] at hu
          cases hu
      | leakCheck p i => have := h.stream j; rw [ho] at this; cases this
      | _ => simp only [AtomicMove.NotStale, ho]
    | inl t =>
      intro p i l v ho hsp hcas hempty
      simp only [Chan.wakes, ho, hsp, hcas, hempty, ne_eq, not_true_eq_false, decide_false, Bool.false_or,
        Option.any_eq_true, Option.bind_eq_some_iff] at hw
      obtain ⟨j, ⟨f, hf, hj⟩, hsome⟩ := hw
      exact ⟨f, j, hf, hj, hsome⟩
  | _ => trivial

/-- The stream parks; then a sender publishes and wakes it. -/
def wokenRun : List (Label (Fin 1) Nat) :=
  [.create, .poll 0 5, .run (.inr 0) false, .run (.inr 0) false, .run (.inr 0) false, .pollNext 0, .pollNext 0,
   .pollNext 0, .poll 0 5, .run (.inr 0) false, .run (.inr 0) false, .run (.inr 0) false, .pollNext 0, .pollNext 0,
   .pollNext 0, .send 0 7, .run (.inl 0) false, .run (.inl 0) false, .run (.inl 0) false, .run (.inl 0) true,
   .run (.inl 0) false, .finish 0]

theorem uniAtomic_awake_wokenRun : ∃ s : Chan (Fin 1) Nat, s.queue.q.head ≠ s.queue.q.tail ∧
    s.sending 0 = none ∧ s.Awake 1 := by
  have hrun : (Machine.exec (Machine.restrict (Chan.step 4 1) fun s b _ => s.wakes 1 b)
      (.init 1 fun _ => 0) wokenRun).map (fun s => decide (s.queue.q.head ≠ s.queue.q.tail ∧ s.sending 0 = none)) =
      some true := by decide +kernel
  obtain ⟨s, hs, ht⟩ := Option.map_eq_some_iff.mp hrun
  rw [decide_eq_true_iff] at ht
  have hM : Ring.PowerOfTwo 1 := ⟨0, rfl⟩
  have hB : RingSize 4 := ⟨2, by decide, rfl⟩
  have hsteps : Machine.Steps (Chan.step 4 1) (fun s b _ => s.wakes 1 b = true) (.init 1 fun _ => 0) s :=
    (Machine.Path.of_exec_restrict (fun _ _ _ h => h) hs).steps
  refine ⟨s, ht.1, ht.2, uniAtomic_awake hB hM (Machine.Steps.strengthen (I := Base 1) ?_ ?_ hsteps (.init hM _))⟩
  · exact fun _ _ _ hb hs _ => hb.step hs
  · exact fun _ _ _ hb hb' _ hw => wakeSafe_of_wakes hB (by decide) hb hb' hw

/-- Three senders reserve their slots; the elements of the first two are consumed and the stream
parks; then the third one publishes, with a length that names no stream. -/
def lostRun {σ : Type} (t u v : σ) : List (Label σ Nat) :=
  let reserve (t : σ) : List (Label σ Nat) :=
    [.send t 7, .run (.inl t) false, .run (.inl t) false, .run (.inl t) false]
  let publish (t : σ) : List (Label σ Nat) := [.run (.inl t) false, .finish t]
  let take : List (Label σ Nat) := .poll 0 5 :: List.replicate 4 (.run (.inr 0) false) ++ [.pollNext 0]
  let park : List (Label σ Nat) := .poll 0 5 :: List.replicate 3 (.run (.inr 0) false) ++
    List.replicate 3 (.pollNext 0)
  .create :: reserve t ++ reserve u ++ reserve v ++ publish t ++ publish u ++ take ++ take ++ park ++ park ++ publish v

theorem lostWakeup_run : ∃ s : Chan (Fin 3) Nat,
    Machine.Steps (Chan.step 4 1) (fun _ _ _ => True) (.init 1 fun _ => 0) s ∧ ¬ s.Awake 1 := by
  have hrun : (Machine.exec (Chan.step 4 1) (.init 1 fun _ => 0 : Chan (Fin 3) Nat) (lostRun 0 1 2)).map (fun s =>
      decide (s.queue.q.head ≠ s.queue.q.tail ∧ (∀ t, s.sending t = none) ∧
        s.rt.streams.keepStreamsRunning 0 = true ∧ s.rt.task 0 = some ⟨.pending, 5, false⟩)) = some true := by
    decide +kernel
  obtain ⟨s, hs, ht⟩ := Option.map_eq_some_iff.mp hrun
  rw [decide_eq_true_iff] at ht
  obtain ⟨hne, hsend, hkeep, htask⟩ := ht
  have hsteps := (Machine.Path.of_exec hs).steps
  have hbase := Base.of_steps (M := 1) ⟨0, rfl⟩ hsteps
  have hone : ∀ j, (s.rt.task j).isSome → j = 0 := by
    intro j hj
    have := hbase.rt.lt j hj
    rw [UInt32.lt_iff_toNat_lt] at this
    rw [← UInt32.toNat_inj]
    simpa using this
  have howe : ∀ t j, ¬ s.Owes 1 t j := by
    rintro t j ⟨f, l, hf, -⟩
    rw [hsend t] at hf
    cases hf
  refine ⟨s, hsteps, fun hawake => ?_⟩
  obtain ⟨j, k, hk, hpark⟩ := hawake howe hne (fun j hj => by rw [hone j hj]; exact hkeep) ⟨0, by rw [htask]; rfl⟩
  obtain rfl := hone j (by rw [hk]; rfl)
  cases htask.symm.trans hk
  exact hpark ⟨rfl, rfl⟩

end Mutiny.UniAtomic
