import Mathlib.Data.Fintype.Sum
import Mutiny.AtomicMoveWatch
import Mutiny.MutinyStream

/-!
# The Multi channels over `AtomicMove` and their wake-ups

`arc::Atomic` and `ogre_arc::Atomic` give every stream a queue of its own. A sender visits the streams
in turn: it publishes into the queue of each and wakes the stream if the length after publishing, as
computed when the slot was reserved, is at most 2. If the queue is full, `arc::Atomic` wakes the
stream and tries again later, `ogre_arc::Atomic` panics.

The streams are created before the run starts; each is polled by one task, so that a queue has only
one consumer. An element that becomes visible in an empty queue with a stale length above 2 is left
unattended (`staleLength_run`).
-/

namespace Mutiny.MultiAtomic
open AtomicMove (Op Payload Sys)

def visited : MultiKind → StreamsManagerBase → List UInt32
  | .arc, sm => sm.usedIds
  | .ogreArc, sm => (sm.usedStreams.take sm.runningStreamsCount.toNat).filter (· ≠ u32Max)

/-- `len_after_publishing.get() <= 2` -/
def wakes (lenBefore : UInt32) : Bool := lenBefore + 1 ≤ 2

/-- `send_derived` in progress: the streams yet to visit, the first of them with its `publish_movable`
call made if `called`. -/
structure Sending (α : Type) where
  item : α
  rest : List UInt32
  called : Bool

structure Chan (σ α : Type) where
  queue : UInt32 → Sys (σ ⊕ Unit) α
  sending : σ → Option (Sending α)
  rt : Runtime

inductive Label (σ α : Type)
  -- `send`, `send_with` and `send_derived` all come to `send_derived`
  | sendDerived (t : σ) (item : α)
  -- sender `t` calls `publish_movable` on the next queue, or returns
  | publish (t : σ)
  | run (t : σ) (spurious : Bool)
  -- the `publish_movable` call of `t` returned: wake the stream if need be
  | finish (t : σ)
  | runStream (j : UInt32) (spurious : Bool)
  | cancel (j : UInt32)
  | poll (j : UInt32) (w : Waker)
  -- the next step of the `poll_next` of stream `j` once `consume` returned
  | pollNext (j : UInt32)

/-- Some streams have been created. -/
inductive Created (M : Nat) : Runtime → Prop
  | new : Created M (.new M)
  | create {r r' : Runtime} (h : Created M r) (hc : r.create M = some r') : Created M r'

theorem Created.ok {M : Nat} {r : Runtime} (hM : Ring.PowerOfTwo M) (h : Created M r) : r.Ok M := by
  induction h with
  | new => exact .new hM
  | create _ hc ih =>
    obtain ⟨_, _, hok, _⟩ := Runtime.create_cases ih hc
    exact hok

namespace Chan
variable {σ α : Type} [DecidableEq σ]

def init (rt : Runtime) (buffer : Nat → α) : Chan σ α := ⟨fun _ => .init buffer, fun _ => none, rt⟩

def setQueue (s : Chan σ α) (j : UInt32) (q : Sys (σ ⊕ Unit) α) : Chan σ α :=
  { s with queue := Function.update s.queue j q }

def setSending (s : Chan σ α) (t : σ) (f : Option (Sending α)) : Chan σ α :=
  { s with sending := Function.update s.sending t f }

def publish (B : Nat) (s : Chan σ α) (t : σ) : Option (Chan σ α) :=
  match s.sending t with
  | some ⟨_, [], false⟩ => some (s.setSending t none)
  | some ⟨item, j :: rest, false⟩ =>
    ((s.queue j).step B (.publish (.inl t) (.movable item))).map fun q =>
      (s.setQueue j q).setSending t (some ⟨item, j :: rest, true⟩)
  | _ => none

def run (B : Nat) (s : Chan σ α) (t : σ) (spurious : Bool) : Option (Chan σ α) :=
  match s.sending t with
  | some ⟨_, j :: _, true⟩ => ((s.queue j).step B (.run (.inl t) spurious false)).map (s.setQueue j)
  | _ => none

def finish (kind : MultiKind) (s : Chan σ α) (t : σ) : Option (Chan σ α) :=
  match s.sending t with
  | some ⟨item, j :: rest, true⟩ =>
    match (s.queue j).op (.inl t), kind with
    | .published lenBefore, _ =>
      let rt := if wakes lenBefore then s.rt.wake j else s.rt
      some { s.setSending t (some ⟨item, rest, false⟩) with rt }
    | .refused _, .arc => some { s.setSending t (some ⟨item, j :: rest, false⟩) with rt := s.rt.wake j }
    -- `panic!("BUG! This should never happen! ..")`
    | .refused _, .ogreArc => none
    | _, _ => none
  | _ => none

def pollNext (s : Chan σ α) (j : UInt32) : Option (Chan σ α) :=
  match (s.queue j).op (.inr ()), (s.rt.task j).map Task.phase with
  | .taken _, some .consuming => (s.rt.consumed j true).map fun rt => { s with rt }
  | .empty, some .consuming => (s.rt.consumed j false).map fun rt => { s with rt }
  | _, some .consuming => none
  | _, _ => (s.rt.pollRest j).map fun rt => { s with rt }

def step (kind : MultiKind) (B : Nat) (s : Chan σ α) : Label σ α → Option (Chan σ α)
  | .sendDerived t item =>
    if (s.sending t).isNone then some (s.setSending t (some ⟨item, visited kind s.rt.streams, false⟩)) else none
  | .publish t => s.publish B t
  | .run t spurious => s.run B t spurious
  | .finish t => s.finish kind t
  | .runStream j spurious => ((s.queue j).step B (.run (.inr ()) spurious false)).map (s.setQueue j)
  | .cancel j => (s.rt.cancel j).map fun rt => { s with rt }
  | .poll j w => do
    let rt ← s.rt.poll j w
    let q ← (s.queue j).step B (.consume (.inr ()))
    return { s.setQueue j q with rt }
  | .pollNext j => s.pollNext j

/-- Sender `t` has published into the queue of stream `j` and has yet to make its `wake_stream(j)` call. -/
def Owes (s : Chan σ α) (t : σ) (j : UInt32) : Prop :=
  ∃ item rest lenBefore, s.sending t = some ⟨item, j :: rest, true⟩ ∧
    (s.queue j).op (.inl t) = .published lenBefore ∧ wakes lenBefore = true

/-- A stream that is not cancelled, whose queue holds an element and whom no sender is about to wake,
is not parked. -/
def Awake (s : Chan σ α) : Prop :=
  ∀ j k, s.rt.task j = some k → s.rt.streams.keepStreamsRunning j = true → (∀ t, ¬ s.Owes t j) →
    (s.queue j).q.head ≠ (s.queue j).q.tail → ¬ k.parked

/-- The step keeps few operations in flight in every queue, and if it publishes (its compare-exchange on
`tail` succeeds) into an empty queue, then with a length that wakes the stream. -/
def WakeSafe (B : Nat) (s : Chan σ α) (b : Label σ α) (s' : Chan σ α) : Prop :=
  (∀ j, (s'.queue j).InFlightBelow (2 ^ 31 - B)) ∧
  match b with
  | .run t spurious => ∀ item j rest p i lenBefore v, s.sending t = some ⟨item, j :: rest, true⟩ →
      (s.queue j).op (.inl t) = .publishLeaked p i lenBefore v → spurious = false → (s.queue j).q.tail = i →
      (s.queue j).q.head = (s.queue j).q.tail → wakes lenBefore = true
  | _ => True

end Chan

section Lane
variable {σ α : Type} {B : Nat} {q q' : Sys (σ ⊕ Unit) α} {t : σ}

/-- In the queue of a stream only the stream consumes and only senders publish. -/
structure Lane (q : Sys (σ ⊕ Unit) α) : Prop where
  sender : ∀ t, (q.op (.inl t)).isConsume = false
  stream : (q.op (.inr ())).isPublish = false

theorem Lane.init (buffer : Nat → α) : Lane (.init buffer : Sys (σ ⊕ Unit) α) := ⟨fun _ => rfl, rfl⟩

theorem Lane.isPublish (h : Lane q) (hr : (q.op (.inl t)).atRest = false) : (q.op (.inl t)).isPublish = true := by
  rcases Op.isPublish_or_isConsume hr with h' | h'
  · exact h'.1
  · exact absurd h'.1 (by simp [h.sender t])

theorem Lane.isConsume (h : Lane q) (hr : (q.op (.inr ())).atRest = false) : (q.op (.inr ())).isConsume = true := by
  rcases Op.isPublish_or_isConsume hr with h' | h'
  · exact absurd h'.1 (by simp [h.stream])
  · exact h'.1

variable [DecidableEq σ]

theorem Lane.moves {u : σ ⊕ Unit} (h : Lane q) (hm : Sys.Moves B q u q') : Lane q' := by
  have hrest := hm.atRest_eq_false
  refine ⟨fun t => ?_, ?_⟩
  · by_cases hu : .inl t = u
    · subst hu; exact Op.isPublish_ne_isConsume (hm.isPublish (h.isPublish hrest))
    · rw [hm.op_of_ne hu]; exact h.sender t
  · by_cases hu : .inr () = u
    · subst hu; exact Op.isConsume_ne_isPublish (hm.isConsume (h.isConsume hrest))
    · rw [hm.op_of_ne hu]; exact h.stream

theorem Lane.publish {p : Payload α} (h : Lane q) (hs : q.step B (.publish (.inl t) p) = some q') : Lane q' := by
  simp only [Sys.step, Sys.call, Option.ite_none_right_eq_some, Option.some.injEq] at hs
  obtain ⟨-, rfl⟩ := hs
  refine ⟨fun u => ?_, ?_⟩
  · by_cases hu : u = t
    · subst hu; simp [Sys.setOp, Op.isConsume]
    · simpa [Sys.setOp, hu] using h.sender u
  · simpa [Sys.setOp] using h.stream

theorem Lane.consume (h : Lane q) (hs : q.step B (.consume (.inr ())) = some q') : Lane q' := by
  simp only [Sys.step, Sys.call, Option.ite_none_right_eq_some, Option.some.injEq] at hs
  obtain ⟨-, rfl⟩ := hs
  exact ⟨fun t => by simpa [Sys.setOp] using h.sender t, by simp [Sys.setOp, Op.isPublish]⟩

/-- The only consumer of a queue never fails its test on a non-empty queue. -/
theorem Lane.watches {g : AtomicMove.Ghost (σ ⊕ Unit)} (h : Lane q) (hg : AtomicMove.Inv B q g) (hB : RingSize B)
    (hf : q.InFlightBelow (2 ^ 31 - B)) (hm : Sys.Moves B q (.inr ()) q') (hne : q'.q.head ≠ q'.q.tail)
    (hw : (q.op (.inr ())).watches = true) : (q'.op (.inr ())).watches = true := by
  rcases hm.watches hw with hw' | ⟨i, ho, hlen⟩
  · exact hw'
  obtain ⟨g', hg'⟩ := hg.moves (hg.close hB hf) hm
  have hlt : q.consumed.length < q.published.length := by
    have hle := hm.consumed_prefix.length_le
    rw [hg'.head_ne_tail_iff hB, hm.published_of_isConsume (h.isConsume hm.atRest_eq_false)] at hne
    omega
  have hst : ∀ u j, q.op u = .consumeRecede j → ¬ 0 < (q.q.tail - j).toInt32 := by
    intro u j hj
    cases u with
    | inl t => have := h.sender t; rw [hj] at this; cases this
    | inr u => rw [ho] at hj; cases hj
  obtain ⟨u, hu, -, -, hc⟩ := hg.exists_watch hB hf ho hlen hst hlt
  cases u with
  | inl t => rw [h.sender t] at hc; cases hc
  | inr u => exact absurd rfl hu

end Lane

section Inv
variable {σ α : Type} {kind : MultiKind} {B M : Nat} {s s' : Chan σ α} {t : σ} {i j : UInt32}

/-- What every run keeps. -/
structure Base (M : Nat) (s : Chan σ α) : Prop where
  rt : s.rt.Ok M
  lane : ∀ j, Lane (s.queue j)
  polling : ∀ j, ((s.queue j).op (.inr ())).atRest = false → ∃ k, s.rt.task j = some k ∧ k.phase = .consuming

theorem Base.init {rt : Runtime} (hrt : rt.Ok M) (buffer : Nat → α) : Base M (.init rt buffer : Chan σ α) :=
  ⟨hrt, fun _ => .init buffer, fun _ h => by cases h⟩

/-- Stream `j` will look at its queue again. -/
def Chan.Watching (s : Chan σ α) (j : UInt32) : Prop :=
  s.rt.Attentive j (((s.queue j).op (.inr ())).watches = true)

/-- Somebody sees to the elements of queue `j`. -/
def Chan.Covered (s : Chan σ α) (j : UInt32) : Prop := (∃ t, s.Owes t j) ∨ s.Watching j

structure Inv (B M : Nat) (s : Chan σ α) : Prop where
  base : Base M s
  queue : ∀ j, (∃ g, AtomicMove.Inv B (s.queue j) g) ∧ (s.queue j).InFlightBelow (2 ^ 31 - B)
  covered : ∀ j, (s.rt.task j).isSome → s.rt.streams.keepStreamsRunning j = true →
    (s.queue j).q.head ≠ (s.queue j).q.tail → s.Covered j

theorem Inv.awake (h : Inv B M s) : s.Awake := by
  intro j k hk hkeep howe hne
  rcases h.covered j (by rw [hk]; rfl) hkeep hne with ⟨t, ho⟩ | ⟨k', hk', ha⟩
  · exact absurd ho (howe t)
  · cases hk.symm.trans hk'
    exact ha.not_parked

theorem Chan.Covered.of_rt {rt : Runtime} (h : s.Covered j)
    (hw : s.Watching j → Chan.Watching { s with rt } j) : Chan.Covered { s with rt } j := by
  rcases h with ho | hatt
  · exact .inl ho
  · exact .inr (hw hatt)

theorem pollNext_of_ne (hph : (s.rt.task j).map Task.phase ≠ some .consuming) :
    s.pollNext j = (s.rt.pollRest j).map fun rt => { s with rt } := by
  unfold Chan.pollNext
  split <;> first | rfl | contradiction

theorem Base.pollNext_cases (h : Base M s) (hs : s.pollNext j = some s') :
    ((s.queue j).op (.inr ())).atRest = true ∧ ∃ rt, s' = { s with rt } ∧
      ((∃ b, s.rt.consumed j b = some rt ∧ (b = false → ((s.queue j).op (.inr ())).watches = false)) ∨
       s.rt.pollRest j = some rt) := by
  by_cases hph : (s.rt.task j).map Task.phase = some .consuming
  · cases hop : (s.queue j).op (.inr ()) with
    | taken v =>
      simp only [Chan.pollNext, hop, hph] at hs
      obtain ⟨rt, hc, rfl⟩ := Option.map_eq_some_iff.mp hs
      exact ⟨rfl, rt, rfl, .inl ⟨true, hc, by simp⟩⟩
    | empty =>
      simp only [Chan.pollNext, hop, hph] at hs
      obtain ⟨rt, hc, rfl⟩ := Option.map_eq_some_iff.mp hs
      exact ⟨rfl, rt, rfl, .inl ⟨false, hc, fun _ => rfl⟩⟩
    | _ => simp [Chan.pollNext, hop, hph] at hs
  · rw [pollNext_of_ne hph] at hs
    obtain ⟨rt, hc, rfl⟩ := Option.map_eq_some_iff.mp hs
    refine ⟨?_, rt, rfl, .inr hc⟩
    by_contra hr
    obtain ⟨k, hk, hk'⟩ := h.polling j (by simpa using hr)
    exact hph (by rw [hk, Option.map_some, hk'])

theorem Base.of_rt {rt : Runtime} {sending : σ → Option (Sending α)} (h : Base M s) (hrt : rt.Ok M)
    (hpoll : ∀ j k, s.rt.task j = some k → ((s.queue j).op (.inr ())).atRest = false →
      ∃ k', rt.task j = some k' ∧ k'.phase = k.phase) : Base M ⟨s.queue, sending, rt⟩ := by
  refine ⟨hrt, h.lane, fun j hj => ?_⟩
  obtain ⟨k, hk, hph⟩ := h.polling j hj
  obtain ⟨k', hk', hph'⟩ := hpoll j k hk hj
  exact ⟨k', hk', hph'.trans hph⟩

theorem Base.of_queue {q : Sys (σ ⊕ Unit) α} {sending : σ → Option (Sending α)} (h : Base M s) (hq : Lane q)
    (hpoll : (q.op (.inr ())).atRest = false → ∃ k, s.rt.task j = some k ∧ k.phase = .consuming) :
    Base M { s.setQueue j q with sending } := by
  refine ⟨h.rt, fun i => ?_, fun i hi => ?_⟩
  · show Lane (Function.update s.queue j q i)
    by_cases hij : i = j
    · subst hij; rwa [Function.update_self]
    · rw [Function.update_of_ne hij]; exact h.lane i
  · change ((Function.update s.queue j q i).op _).atRest = false at hi
    by_cases hij : i = j
    · subst hij; rw [Function.update_self] at hi; exact hpoll hi
    · rw [Function.update_of_ne hij] at hi; exact h.polling i hi

theorem Base.pollNext (h : Base M s) (hs : s.pollNext j = some s') : Base M s' := by
  obtain ⟨hrest, rt, rfl, hc⟩ := h.pollNext_cases hs
  have hne : ∀ i, ((s.queue i).op (.inr ())).atRest = false → i ≠ j := by
    rintro i hi rfl
    rw [hrest] at hi
    cases hi
  rcases hc with ⟨b, hc, -⟩ | hc
  · have hok := h.rt.consumed hc
    obtain ⟨k, -, -, rfl⟩ := Runtime.consumed_cases hc
    exact h.of_rt hok fun i k' hk' hi => ⟨k', (Function.update_of_ne (hne i hi) _ _).trans hk', rfl⟩
  · have hok := h.rt.pollRest hc
    obtain ⟨k, -, ⟨-, rfl⟩ | ⟨-, b, -, rfl⟩⟩ := Runtime.pollRest_cases hc <;>
      exact h.of_rt hok fun i k' hk' hi => ⟨k', (Function.update_of_ne (hne i hi) _ _).trans hk', rfl⟩

theorem Base.covered_pollNext (h : Base M s) (hc : s.Covered j) (hkeep : s.rt.streams.keepStreamsRunning j = true)
    (hs : s.pollNext i = some s') : s'.Covered j := by
  obtain ⟨-, rt, rfl, ⟨b, hcons, hb⟩ | hrest⟩ := h.pollNext_cases hs
  · refine hc.of_rt fun hw => Runtime.Attentive.consumed hw hcons ?_
    rintro rfl hbf
    simp [hb hbf]
  · exact hc.of_rt fun hw => Runtime.Attentive.pollRest hw hkeep hrest

theorem covered_cancel {rt : Runtime} (h : s.Covered j) (hc : s.rt.cancel i = some rt) :
    Chan.Covered { s with rt } j := by
  simp only [Runtime.cancel, Option.ite_none_right_eq_some, Option.some.injEq] at hc
  obtain ⟨-, rfl⟩ := hc
  exact h.of_rt fun hw =>
    Runtime.Attentive.wake (r := { s.rt with streams := s.rt.streams.setKeepRunning i false }) hw i

theorem Base.cancel {rt : Runtime} (h : Base M s) (hc : s.rt.cancel j = some rt) : Base M { s with rt } := by
  have hok := h.rt.cancel hc
  simp only [Runtime.cancel, Option.ite_none_right_eq_some, Option.some.injEq] at hc
  obtain ⟨-, rfl⟩ := hc
  exact h.of_rt hok fun i k hk _ =>
    Runtime.phase_wake (r := { s.rt with streams := s.rt.streams.setKeepRunning j false }) hk j

/-- A call of `publish_movable` or `consume_movable` that starts does not change what the queues hold. -/
theorem q_setQueue {q : Sys (σ ⊕ Unit) α} (hq : q.q = (s.queue i).q) (j : UInt32) :
    ((s.setQueue i q).queue j).q = (s.queue j).q := by
  show (Function.update s.queue i q j).q = _
  by_cases hji : j = i
  · subst hji; rw [Function.update_self, hq]
  · rw [Function.update_of_ne hji]

variable [DecidableEq σ]

theorem publish_cases (hs : s.publish B t = some s') :
    (∃ item, s.sending t = some ⟨item, [], false⟩ ∧ s' = s.setSending t none) ∨
    ∃ item i rest q, s.sending t = some ⟨item, i :: rest, false⟩ ∧
      (s.queue i).step B (.publish (.inl t) (.movable item)) = some q ∧
      s' = (s.setQueue i q).setSending t (some ⟨item, i :: rest, true⟩) := by
  rcases hf : s.sending t with _ | ⟨item, _ | ⟨i, rest⟩, _ | _⟩
  · simp [Chan.publish, hf] at hs
  · simp only [Chan.publish, hf, Option.some.injEq] at hs
    exact .inl ⟨item, rfl, hs.symm⟩
  · simp [Chan.publish, hf] at hs
  · simp only [Chan.publish, hf] at hs
    obtain ⟨q, hq, rfl⟩ := Option.map_eq_some_iff.mp hs
    exact .inr ⟨item, i, rest, q, rfl, hq, rfl⟩
  · simp [Chan.publish, hf] at hs

theorem run_cases {spurious : Bool} (hs : s.run B t spurious = some s') :
    ∃ item i rest q, s.sending t = some ⟨item, i :: rest, true⟩ ∧
      (s.queue i).step B (.run (.inl t) spurious false) = some q ∧ s' = s.setQueue i q := by
  rcases hf : s.sending t with _ | ⟨item, _ | ⟨i, rest⟩, _ | _⟩
  · simp [Chan.run, hf] at hs
  · simp [Chan.run, hf] at hs
  · simp [Chan.run, hf] at hs
  · simp [Chan.run, hf] at hs
  · simp only [Chan.run, hf] at hs
    obtain ⟨q, hq, rfl⟩ := Option.map_eq_some_iff.mp hs
    exact ⟨item, i, rest, q, rfl, hq, rfl⟩

/-- After a `publish_movable` call the stream is woken, unless the element came with a length above 2. -/
theorem finish_cases (hs : s.finish kind t = some s') : ∃ item i rest f rt,
    s.sending t = some ⟨item, i :: rest, true⟩ ∧ s' = { s.setSending t (some f) with rt } ∧
    (rt = s.rt.wake i ∨ rt = s.rt ∧ ∃ l, (s.queue i).op (.inl t) = .published l ∧ wakes l = false) := by
  rcases hf : s.sending t with _ | ⟨item, _ | ⟨i, rest⟩, _ | _⟩
  · simp [Chan.finish, hf] at hs
  · simp [Chan.finish, hf] at hs
  · simp [Chan.finish, hf] at hs
  · simp [Chan.finish, hf] at hs
  · cases hop : (s.queue i).op (.inl t) with
    | published l =>
      simp only [Chan.finish, hf, hop, Option.some.injEq] at hs
      subst hs
      refine ⟨item, i, rest, _, _, rfl, rfl, ?_⟩
      by_cases hw : wakes l = true
      · exact .inl (if_pos hw)
      · exact .inr ⟨if_neg hw, l, hop, by simpa using hw⟩
    | refused p =>
      cases kind with
      | arc =>
        simp only [Chan.finish, hf, hop, Option.some.injEq] at hs
        subst hs
        exact ⟨item, i, rest, _, _, rfl, rfl, .inl rfl⟩
      | ogreArc => simp [Chan.finish, hf, hop] at hs
    | _ => simp [Chan.finish, hf, hop] at hs

theorem Base.finish (h : Base M s) (hs : s.finish kind t = some s') : Base M s' := by
  obtain ⟨_, i, _, _, rt, _, rfl, rfl | ⟨rfl, -⟩⟩ := finish_cases hs
  · exact h.of_rt (h.rt.wake i) fun j k hk _ => Runtime.phase_wake hk i
  · exact h.of_rt h.rt fun j k hk _ => ⟨k, hk, rfl⟩

theorem Base.publish (h : Base M s) (hs : s.publish B t = some s') : Base M s' := by
  obtain ⟨_, _, rfl⟩ | ⟨item, i, rest, q, -, hq, rfl⟩ := publish_cases hs
  · exact h.of_rt h.rt fun j k hk _ => ⟨k, hk, rfl⟩
  · refine h.of_queue ((h.lane i).publish hq) fun hr => h.polling i ?_
    simp only [Sys.step, Sys.call, Option.ite_none_right_eq_some, Option.some.injEq] at hq
    obtain ⟨-, rfl⟩ := hq
    simpa [Sys.setOp] using hr

theorem Base.run {spurious : Bool} (h : Base M s) (hs : s.run B t spurious = some s') : Base M s' := by
  obtain ⟨item, i, rest, q, -, hq, rfl⟩ := run_cases hs
  have hm := Sys.moves_of_run hq
  refine h.of_queue ((h.lane i).moves hm) fun hr => h.polling i ?_
  rwa [hm.op_of_ne (by simp)] at hr

theorem Base.runStream {q : Sys (σ ⊕ Unit) α} (h : Base M s) (hm : Sys.Moves B (s.queue j) (.inr ()) q) :
    Base M (s.setQueue j q) :=
  h.of_queue ((h.lane j).moves hm) fun _ => h.polling j hm.atRest_eq_false

theorem Base.poll {rt : Runtime} {q : Sys (σ ⊕ Unit) α} {w : Waker} (h : Base M s)
    (hp : s.rt.poll j w = some rt) (hq : (s.queue j).step B (.consume (.inr ())) = some q) :
    Base M { s.setQueue j q with rt } := by
  have hok := h.rt.poll hp
  obtain ⟨k, hk, rfl⟩ := Runtime.poll_cases hp
  refine ⟨hok, fun i => ?_, fun i hi => ?_⟩
  · show Lane (Function.update s.queue j q i)
    by_cases hij : i = j
    · subst hij; rw [Function.update_self]; exact (h.lane i).consume hq
    · rw [Function.update_of_ne hij]; exact h.lane i
  · by_cases hij : i = j
    · subst hij; exact ⟨_, Function.update_self .., rfl⟩
    · change ((Function.update s.queue j q i).op _).atRest = false at hi
      rw [Function.update_of_ne hij] at hi
      obtain ⟨k', hk', hph⟩ := h.polling i hi
      exact ⟨k', (Function.update_of_ne hij _ _).trans hk', hph⟩

theorem Base.step {b : Label σ α} (h : Base M s) (hs : s.step kind B b = some s') : Base M s' := by
  cases b with
  | sendDerived t item =>
    simp only [Chan.step, Option.ite_none_right_eq_some, Option.some.injEq] at hs
    obtain ⟨-, rfl⟩ := hs
    exact h.of_rt h.rt fun j k hk _ => ⟨k, hk, rfl⟩
  | publish t => exact h.publish hs
  | run t spurious => exact h.run hs
  | finish t => exact h.finish hs
  | runStream j spurious =>
    obtain ⟨q, hq, rfl⟩ := Option.map_eq_some_iff.mp hs
    exact h.runStream (Sys.moves_of_run hq)
  | cancel j =>
    obtain ⟨rt, hc, rfl⟩ := Option.map_eq_some_iff.mp hs
    exact h.cancel hc
  | poll j w =>
    simp only [Chan.step, Option.bind_eq_bind, Option.bind_eq_some_iff, Option.pure_def, Option.some.injEq] at hs
    obtain ⟨rt, hp, q, hq, rfl⟩ := hs
    exact h.poll hp hq
  | pollNext j => exact h.pollNext hs

/-! ### Who sees to a published element -/

theorem Chan.Covered.setSending {f : Option (Sending α)} (h : s.Covered j) (ht : ¬ s.Owes t j) :
    (s.setSending t f).Covered j := by
  rcases h with ⟨u, ho⟩ | hw
  · have hut : u ≠ t := by rintro rfl; exact ht ho
    obtain ⟨item, rest, l, h₁, h₂⟩ := ho
    exact .inl ⟨u, item, rest, l, (Function.update_of_ne hut _ _).trans h₁, h₂⟩
  · exact .inr hw

theorem Chan.Covered.setQueue {q : Sys (σ ⊕ Unit) α} {u : σ ⊕ Unit} (h : s.Covered j)
    (hop : ∀ v, v ≠ u → q.op v = (s.queue i).op v) (hu : ∀ t, s.Owes t i → u ≠ .inl t)
    (hw : j = i → u = .inr () → ((s.queue i).op u).watches = true → (q.op u).watches = true) :
    (s.setQueue i q).Covered j := by
  by_cases hji : j = i
  · subst hji
    have hself : (s.setQueue j q).queue j = q := Function.update_self ..
    rcases h with ⟨t, ho⟩ | hatt
    · have htu := hu t ho
      obtain ⟨item, rest, l, h₁, h₂, h₃⟩ := ho
      refine .inl ⟨t, item, rest, l, h₁, ?_, h₃⟩
      rw [hself, hop _ htu.symm, h₂]
    · refine .inr ?_
      unfold Chan.Watching at hatt ⊢
      rw [hself]
      refine Runtime.Attentive.imp (fun hwt => ?_) hatt
      by_cases huj : u = .inr ()
      · subst huj; exact hw rfl rfl hwt
      · rwa [hop _ (Ne.symm huj)]
  · have hother : (s.setQueue i q).queue j = s.queue j := Function.update_of_ne hji _ _
    unfold Chan.Covered Chan.Owes Chan.Watching
    rw [hother]
    exact h

theorem covered_publish (h : s.Covered j) (hs : s.publish B t = some s') : s'.Covered j := by
  have hnot : ∀ {f : Sending α}, s.sending t = some f → f.called = false → ∀ i, ¬ s.Owes t i := by
    rintro f hf hc i ⟨item, rest, l, h₁, -⟩
    cases hf.symm.trans h₁
    cases hc
  obtain ⟨item, hf, rfl⟩ | ⟨item, i, rest, q, hf, hq, rfl⟩ := publish_cases hs
  · exact h.setSending (hnot hf rfl j)
  · have hno := hnot hf rfl
    simp only [Sys.step, Sys.call, Option.ite_none_right_eq_some, Option.some.injEq] at hq
    obtain ⟨-, rfl⟩ := hq
    refine Chan.Covered.setSending (h.setQueue (u := .inl t) (fun v hv => Function.update_of_ne hv _ _) ?_ (by simp)) ?_
    · rintro u ho ⟨rfl⟩
      exact hno i ho
    · rintro ⟨item', rest', l, h₁, -⟩
      cases hf.symm.trans h₁

theorem Inv.covered_finish (h : Inv B M s) (hc : s.Covered j) (hj : (s.rt.task j).isSome)
    (hkeep : s.rt.streams.keepStreamsRunning j = true) (hs : s.finish kind t = some s') : s'.Covered j := by
  obtain ⟨item, i, rest, f, rt, hf, rfl, hrt⟩ := finish_cases hs
  -- the only wake-up `t` can owe is that of stream `i`
  have hti : s.Owes t j → j = i := by
    rintro ⟨_, _, _, h₁, -⟩
    cases hf.symm.trans h₁
    rfl
  rcases hrt with rfl | ⟨rfl, l, hop, hl⟩
  · by_cases hji : j = i
    · subst hji; exact .inr (h.base.rt.attentive_wake hj hkeep)
    · exact (hc.setSending fun ho => hji (hti ho)).of_rt fun hw => Runtime.Attentive.wake hw i
  · refine hc.setSending fun ho => ?_
    obtain rfl := hti ho
    obtain ⟨_, _, l', -, h₂, h₃⟩ := ho
    cases hop.symm.trans h₂
    rw [hl] at h₃
    cases h₃

theorem Inv.covered_run {spurious : Bool} (h : Inv B M s) (hB : RingSize B) (hs : s.run B t spurious = some s')
    (hsafe : s.WakeSafe B (.run t spurious) s') (hj : (s.rt.task j).isSome)
    (hkeep : s.rt.streams.keepStreamsRunning j = true) (hne : (s'.queue j).q.head ≠ (s'.queue j).q.tail) :
    s'.Covered j := by
  obtain ⟨item, i, rest, q, hf, hq, rfl⟩ := run_cases hs
  have hm := Sys.moves_of_run hq
  obtain ⟨⟨g, hg⟩, hfl⟩ := h.queue i
  have hmove : s.Covered j → (s.setQueue i q).Covered j := by
    intro hc
    refine hc.setQueue (u := .inl t) (fun v hv => hm.op_of_ne hv) ?_ (by simp)
    rintro u ⟨_, _, l, -, h₂, -⟩ hut
    have := hm.atRest_eq_false
    rw [hut, h₂] at this
    cases this
  by_cases hji : j = i
  · subst hji
    have hself : (s.setQueue j q).queue j = q := Function.update_self ..
    rw [hself] at hne
    by_cases hne₀ : (s.queue j).q.head = (s.queue j).q.tail
    · rcases Sys.Moves.published_cases_of_run hq with heq | ⟨p, id, l, v, hsp, ho, hcas, ho'⟩
      · -- nothing was published, so the queue is still empty
        obtain ⟨g', hg'⟩ := hg.moves (hg.close hB hfl) hm
        have hcon := hm.consumed_of_isPublish ((h.base.lane j).isPublish hm.atRest_eq_false)
        rw [hg'.head_ne_tail_iff hB, hcon, heq, ← hg.head_ne_tail_iff hB] at hne
        exact absurd hne₀ hne
      · exact .inl ⟨t, item, rest, l, hf, by rw [hself]; exact ho', hsafe.2 item j rest p id l v hf ho hsp hcas hne₀⟩
    · exact hmove (h.covered j hj hkeep hne₀)
  · have hother : (s.setQueue i q).queue j = s.queue j := Function.update_of_ne hji _ _
    rw [hother] at hne
    exact hmove (h.covered j hj hkeep hne)

theorem Inv.covered_runStream {q : Sys (σ ⊕ Unit) α} (h : Inv B M s) (hB : RingSize B)
    (hm : Sys.Moves B (s.queue i) (.inr ()) q) (hj : (s.rt.task j).isSome)
    (hkeep : s.rt.streams.keepStreamsRunning j = true)
    (hne : ((s.setQueue i q).queue j).q.head ≠ ((s.setQueue i q).queue j).q.tail) : (s.setQueue i q).Covered j := by
  obtain ⟨⟨g, hg⟩, hfl⟩ := h.queue i
  by_cases hji : j = i
  · subst hji
    have hself : (s.setQueue j q).queue j = q := Function.update_self ..
    rw [hself] at hne
    have hne₀ : (s.queue j).q.head ≠ (s.queue j).q.tail := by
      obtain ⟨g', hg'⟩ := hg.moves (hg.close hB hfl) hm
      have hle := hm.consumed_prefix.length_le
      rw [hg'.head_ne_tail_iff hB, hm.published_of_isConsume ((h.base.lane j).isConsume hm.atRest_eq_false)] at hne
      exact (hg.head_ne_tail_iff hB).mpr (by omega)
    exact (h.covered j hj hkeep hne₀).setQueue (fun v hv => hm.op_of_ne hv) (by simp) fun _ _ hw =>
      (h.base.lane j).watches hg hB hfl hm hne hw
  · have hother : (s.setQueue i q).queue j = s.queue j := Function.update_of_ne hji _ _
    rw [hother] at hne
    exact (h.covered j hj hkeep hne).setQueue (fun v hv => hm.op_of_ne hv) (by simp) fun hji' => absurd hji' hji

theorem covered_poll {rt : Runtime} {q : Sys (σ ⊕ Unit) α} {w : Waker} (h : s.Covered j)
    (hp : s.rt.poll i w = some rt) (hq : (s.queue i).step B (.consume (.inr ())) = some q) :
    Chan.Covered { s.setQueue i q with rt } j := by
  have hop := Sys.op_of_call hq
  have hwatch : (q.op (.inr ())).watches = true := by rw [hop, Function.update_self]; rfl
  have hcov : (s.setQueue i q).Covered j := h.setQueue (u := .inr ())
    (fun v hv => by rw [hop, Function.update_of_ne hv]) (by simp) fun _ _ _ => hwatch
  refine hcov.of_rt fun hw => (Runtime.Attentive.poll hw hp).imp ?_
  rintro (hwt | rfl)
  · exact hwt
  · show ((Function.update s.queue j q j).op (.inr ())).watches = true
    rwa [Function.update_self]

theorem queue_step {b : Label σ α} (hs : s.step kind B b = some s') : s'.queue = s.queue ∨
    ∃ i l q, (s.queue i).step B l = some q ∧ s'.queue = Function.update s.queue i q := by
  cases b with
  | sendDerived t item =>
    simp only [Chan.step, Option.ite_none_right_eq_some, Option.some.injEq] at hs
    obtain ⟨-, rfl⟩ := hs
    exact .inl rfl
  | publish t =>
    obtain ⟨_, _, rfl⟩ | ⟨_, i, _, q, -, hq, rfl⟩ := publish_cases hs
    · exact .inl rfl
    · exact .inr ⟨i, _, q, hq, rfl⟩
  | run t spurious =>
    obtain ⟨_, i, _, q, -, hq, rfl⟩ := run_cases hs
    exact .inr ⟨i, _, q, hq, rfl⟩
  | finish t =>
    obtain ⟨_, _, _, _, _, _, rfl, -⟩ := finish_cases hs
    exact .inl rfl
  | runStream j spurious =>
    obtain ⟨q, hq, rfl⟩ := Option.map_eq_some_iff.mp hs
    exact .inr ⟨j, _, q, hq, rfl⟩
  | cancel j =>
    obtain ⟨rt, -, rfl⟩ := Option.map_eq_some_iff.mp hs
    exact .inl rfl
  | poll j w =>
    simp only [Chan.step, Option.bind_eq_bind, Option.bind_eq_some_iff, Option.pure_def, Option.some.injEq] at hs
    obtain ⟨rt, -, q, hq, rfl⟩ := hs
    exact .inr ⟨j, _, q, hq, rfl⟩
  | pollNext j =>
    simp only [Chan.step, Chan.pollNext] at hs
    split at hs <;> first | cases hs | (obtain ⟨rt, -, rfl⟩ := Option.map_eq_some_iff.mp hs; exact .inl rfl)

theorem Base.kept_step {b : Label σ α} (h : Base M s) (hs : s.step kind B b = some s') (j : UInt32) :
    (s'.rt.task j).isSome = (s.rt.task j).isSome ∧
    (s'.rt.streams.keepStreamsRunning j = true → s.rt.streams.keepStreamsRunning j = true) := by
  cases b with
  | sendDerived t item =>
    simp only [Chan.step, Option.ite_none_right_eq_some, Option.some.injEq] at hs
    obtain ⟨-, rfl⟩ := hs
    exact ⟨rfl, id⟩
  | publish t => obtain ⟨_, _, rfl⟩ | ⟨_, i, _, q, -, hq, rfl⟩ := publish_cases hs <;> exact ⟨rfl, id⟩
  | run t spurious => obtain ⟨_, i, _, q, -, hq, rfl⟩ := run_cases hs; exact ⟨rfl, id⟩
  | finish t =>
    obtain ⟨_, i, _, _, _, _, rfl, rfl | ⟨rfl, -⟩⟩ := finish_cases hs
    · exact ⟨Runtime.isSome_wake _ i j, id⟩
    · exact ⟨rfl, id⟩
  | runStream j spurious => obtain ⟨q, hq, rfl⟩ := Option.map_eq_some_iff.mp hs; exact ⟨rfl, id⟩
  | cancel i =>
    obtain ⟨rt, hc, rfl⟩ := Option.map_eq_some_iff.mp hs
    refine ⟨(Runtime.sameStreams_cancel hc).isSome j, fun hkeep => ?_⟩
    simp only [Runtime.cancel, Option.ite_none_right_eq_some, Option.some.injEq] at hc
    obtain ⟨-, rfl⟩ := hc
    change Function.update s.rt.streams.keepStreamsRunning i false j = true at hkeep
    by_cases hji : j = i
    · subst hji; rw [Function.update_self] at hkeep; cases hkeep
    · rwa [Function.update_of_ne hji] at hkeep
  | poll i w =>
    simp only [Chan.step, Option.bind_eq_bind, Option.bind_eq_some_iff, Option.pure_def, Option.some.injEq] at hs
    obtain ⟨rt, hp, q, -, rfl⟩ := hs
    exact ⟨(Runtime.sameStreams_poll hp).isSome j, fun hkeep => by rwa [Runtime.keep_of_poll hp] at hkeep⟩
  | pollNext i =>
    obtain ⟨-, rt, rfl, ⟨b, hc, -⟩ | hc⟩ := h.pollNext_cases hs
    · exact ⟨(Runtime.sameStreams_consumed hc).isSome j, fun hkeep => by rwa [Runtime.keep_of_consumed hc] at hkeep⟩
    · exact ⟨(Runtime.sameStreams_pollRest hc).isSome j, fun hkeep => by rwa [Runtime.keep_of_pollRest hc] at hkeep⟩

theorem Inv.covered_step {b : Label σ α} (h : Inv B M s) (hB : RingSize B) (hs : s.step kind B b = some s')
    (hok : s.WakeSafe B b s') (hj' : (s'.rt.task j).isSome) (hkeep' : s'.rt.streams.keepStreamsRunning j = true)
    (hne : (s'.queue j).q.head ≠ (s'.queue j).q.tail) : s'.Covered j := by
  obtain ⟨hsome, hkept⟩ := h.base.kept_step hs j
  have hj : (s.rt.task j).isSome := by rwa [hsome] at hj'
  have hkeep := hkept hkeep'
  have hcov := h.covered j hj hkeep
  cases b with
  | sendDerived t item =>
    simp only [Chan.step, Option.ite_none_right_eq_some, Option.some.injEq] at hs
    obtain ⟨hnone, rfl⟩ := hs
    refine (hcov hne).setSending ?_
    rintro ⟨_, _, _, h₁, -⟩
    rw [h₁] at hnone
    cases hnone
  | publish t =>
    refine covered_publish (hcov ?_) hs
    obtain ⟨item, hf, rfl⟩ | ⟨item, i, rest, q, hf, hq, rfl⟩ := publish_cases hs
    · exact hne
    · rwa [← q_setQueue (Sys.q_of_call hq) j]
  | run t spurious => exact h.covered_run hB hs hok hj hkeep hne
  | finish t =>
    refine h.covered_finish (hcov ?_) hj hkeep hs
    obtain ⟨_, _, _, _, _, _, rfl, -⟩ := finish_cases hs
    exact hne
  | runStream i spurious =>
    obtain ⟨q, hq, rfl⟩ := Option.map_eq_some_iff.mp hs
    exact h.covered_runStream hB (Sys.moves_of_run hq) hj hkeep hne
  | cancel i =>
    obtain ⟨rt, hc, rfl⟩ := Option.map_eq_some_iff.mp hs
    exact covered_cancel (hcov hne) hc
  | poll i w =>
    simp only [Chan.step, Option.bind_eq_bind, Option.bind_eq_some_iff, Option.pure_def, Option.some.injEq] at hs
    obtain ⟨rt, hp, q, hq, rfl⟩ := hs
    refine covered_poll (hcov ?_) hp hq
    rwa [← q_setQueue (Sys.q_of_call hq) j]
  | pollNext i =>
    refine h.base.covered_pollNext (hcov ?_) hkeep hs
    obtain ⟨-, rt, rfl, -⟩ := h.base.pollNext_cases hs
    exact hne

theorem Inv.step {b : Label σ α} (h : Inv B M s) (hB : RingSize B) (hs : s.step kind B b = some s')
    (hok : s.WakeSafe B b s') : Inv B M s' := by
  refine ⟨h.base.step hs, fun j => ⟨?_, hok.1 j⟩, fun j hj hkeep hne => h.covered_step hB hs hok hj hkeep hne⟩
  rcases queue_step hs with heq | ⟨i, l, q, hq, heq⟩
  · rw [heq]
    exact (h.queue j).1
  · rw [heq]
    by_cases hji : j = i
    · subst hji
      obtain ⟨⟨g, hg⟩, hfl⟩ := h.queue j
      rw [Function.update_self]
      exact hg.step (hg.close hB hfl) hq
    · rw [Function.update_of_ne hji]
      exact (h.queue j).1

/-- No wake-up is lost in a run all of whose steps are `WakeSafe`. -/
theorem multiAtomic_awake (hB : RingSize B) (hM : Ring.PowerOfTwo M) {rt : Runtime} (hrt : Created M rt)
    {buffer : Nat → α} (h : Machine.Steps (Chan.step kind B) (Chan.WakeSafe B) (.init rt buffer) s) : s.Awake := by
  refine (h.invariant (I := Inv B M) (fun _ _ _ hi hs hok => hi.step hB hs hok) ?_).awake
  exact ⟨.init (hrt.ok hM) buffer, fun _ => ⟨⟨_, .init B buffer⟩, Sys.inFlightBelow_init hB buffer⟩,
    fun _ _ _ h => absurd rfl h⟩

end Inv

/-! ### Concrete runs -/

/-- Whether the step publishes into a non-empty queue or wakes the stream. -/
def Chan.wakesEmpty {σ α : Type} (s : Chan σ α) : Label σ α → Bool
  | .run t spurious =>
    match s.sending t with
    | some ⟨_, j :: _, true⟩ =>
      match (s.queue j).op (.inl t) with
      | .publishLeaked _ i lenBefore _ =>
        spurious || (s.queue j).q.tail ≠ i || (s.queue j).q.head ≠ (s.queue j).q.tail || wakes lenBefore
      | _ => true
    | _ => true
  | _ => true

theorem wakeSafe_of_wakesEmpty {σ α : Type} [Fintype σ] {B : Nat} {s s' : Chan σ α} {b : Label σ α}
    (hB : RingSize B) (hσ : Fintype.card σ ≤ 8) (hw : s.wakesEmpty b = true) : s.WakeSafe B b s' := by
  have hcard : Fintype.card (σ ⊕ Unit) < 2 ^ 31 - B := by
    have := hB.le
    rw [Fintype.card_sum, Fintype.card_unit]
    omega
  refine ⟨fun j => (s'.queue j).inFlightBelow_of_card hcard, ?_⟩
  cases b with
  | run t spurious =>
    intro item j rest p i l v hf ho hsp hcas hempty
    simpa [Chan.wakesEmpty, hf, ho, hsp, hcas, hempty] using hw
  | _ => trivial

def oneStream : Runtime := ((Runtime.new 1).create 1).getD (.new 1)

theorem created_oneStream : Created 1 oneStream := by
  obtain ⟨r, hr⟩ : ∃ r, (Runtime.new 1).create 1 = some r := Option.isSome_iff_exists.mp (by decide +kernel)
  have heq : oneStream = r := by rw [oneStream, hr, Option.getD_some]
  rw [heq]
  exact .create .new hr

def reserve (t : Fin 3) : List (Label (Fin 3) Nat) :=
  [.sendDerived t 7, .publish t, .run t false, .run t false, .run t false]

def publish (t : Fin 3) : List (Label (Fin 3) Nat) := [.run t false, .finish t, .publish t]

def take : List (Label (Fin 3) Nat) := .poll 0 5 :: List.replicate 4 (.runStream 0 false) ++ [.pollNext 0]

def park : List (Label (Fin 3) Nat) :=
  .poll 0 5 :: List.replicate 3 (.runStream 0 false) ++ List.replicate 3 (.pollNext 0)

/-- A sender publishes to a parked stream. -/
theorem multiAtomic_awake_parked : ∃ s : Chan (Fin 3) Nat, (s.queue 0).q.head ≠ (s.queue 0).q.tail ∧
    (∀ t, s.sending t = none) ∧ s.Awake := by
  have hrun : (Machine.exec (Machine.restrict (Chan.step .arc 4) fun s b _ => s.wakesEmpty b)
      (.init oneStream fun _ => 0) (park ++ park ++ reserve 0 ++ publish 0)).map (fun s =>
        decide ((s.queue 0).q.head ≠ (s.queue 0).q.tail ∧ ∀ t, s.sending t = none)) = some true := by
    decide +kernel
  obtain ⟨s, hs, ht⟩ := Option.map_eq_some_iff.mp hrun
  rw [decide_eq_true_iff] at ht
  have hB : RingSize 4 := ⟨2, by decide, rfl⟩
  have hsteps : Machine.Steps (Chan.step .arc 4) (Chan.WakeSafe 4) (.init oneStream fun _ => 0) s :=
    (Machine.Path.of_exec_restrict (fun _ _ _ h => h) hs).steps.mono fun _ _ _ hw =>
      wakeSafe_of_wakesEmpty hB (by decide) hw
  exact ⟨s, ht.1, ht.2, multiAtomic_awake hB ⟨0, rfl⟩ created_oneStream hsteps⟩

/-- Three senders reserve their slots; the elements of the first two are consumed and the stream
parks; then the third one publishes, with a length that does not wake. -/
theorem staleLength (kind : MultiKind) : ∃ s : Chan (Fin 3) Nat,
    Machine.Steps (Chan.step kind 4) (fun _ _ _ => True) (.init oneStream fun _ => 0) s ∧
    (∀ t, s.sending t = none) ∧ ¬ s.Awake := by
  have hrun : (Machine.exec (Chan.step kind 4) (.init oneStream fun _ => 0)
      (reserve 0 ++ reserve 1 ++ reserve 2 ++ publish 0 ++ publish 1 ++ take ++ take ++ park ++ park ++
        publish 2)).map (fun s => decide ((s.queue 0).q.head ≠ (s.queue 0).q.tail ∧ (∀ t, s.sending t = none) ∧
          s.rt.streams.keepStreamsRunning 0 = true ∧ s.rt.task 0 = some ⟨.pending, 5, false⟩)) = some true := by
    cases kind <;> decide +kernel
  obtain ⟨s, hs, ht⟩ := Option.map_eq_some_iff.mp hrun
  rw [decide_eq_true_iff] at ht
  obtain ⟨hne, hsend, hkeep, htask⟩ := ht
  refine ⟨s, (Machine.Path.of_exec hs).steps, hsend, fun hawake => ?_⟩
  refine hawake 0 _ htask hkeep ?_ hne ⟨rfl, rfl⟩
  rintro t ⟨_, _, _, h₁, -⟩
  rw [hsend t] at h₁
  cases h₁

theorem staleLength_run :
    (∃ s : Chan (Fin 3) Nat, Machine.Steps (Chan.step .arc 4) (fun _ _ _ => True) (.init oneStream fun _ => 0) s ∧
      (∀ t, s.sending t = none) ∧ ¬ s.Awake) ∧
    ∃ s : Chan (Fin 3) Nat, Machine.Steps (Chan.step .ogreArc 4) (fun _ _ _ => True) (.init oneStream fun _ => 0) s ∧
      (∀ t, s.sending t = none) ∧ ¬ s.Awake :=
  ⟨staleLength .arc, staleLength .ogreArc⟩

end Mutiny.MultiAtomic
