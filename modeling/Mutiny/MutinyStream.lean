import Mutiny.StreamsManager

/-!
# `MutinyStream` and the task that polls it

`poll_next` consumes; on nothing it checks `keep_stream_running`, registers the waker of its context
and returns `Pending`. The task is polled whenever the runtime likes, with any waker; it counts as
woken when the waker its last poll was given is woken, also in the middle of that poll. A wake of an
older waker is not counted, the code has to do without it.
-/

namespace Mutiny

/-- How a Multi channel shares an item among its streams. -/
inductive MultiKind
  | arc
  | ogreArc
deriving DecidableEq

inductive Phase
  | unpolled
  -- inside `consume(stream_id)`
  | consuming
  -- about to call `keep_stream_running(stream_id)`
  | keepRunning
  -- about to call `register_stream_waker(stream_id, cx.waker())`
  | registering
  -- `poll_next` returned `Pending`
  | pending
  -- `poll_next` returned `Ready(Some(event))`
  | ready
  -- `poll_next` returned `Ready(None)`
  | ended
deriving DecidableEq

structure Task where
  phase : Phase
  /-- the waker of the context of the last poll -/
  waker : Waker
  /-- that waker was woken since the last poll began -/
  woken : Bool
deriving DecidableEq

namespace Task
variable {k k' : Task} {reg : Option Waker} {w : Waker}

/-- A new stream. -/
def fresh : Task := ⟨.unpolled, 0, false⟩

/-- The task waits for a wake that nobody has given. -/
def parked (k : Task) : Prop := k.phase = .pending ∧ k.woken = false

/-- The runtime starts a poll with waker `w`. -/
def poll (k : Task) (w : Waker) : Option Task :=
  match k.phase with
  | .unpolled | .pending | .ready => some ⟨.consuming, w, false⟩
  | _ => none

/-- `consume` returned. -/
def consumed (k : Task) (gotEvent : Bool) : Task :=
  { k with phase := if gotEvent then .ready else .keepRunning }

/-- `keep_stream_running` answered. -/
def keep (k : Task) (running : Bool) : Task := { k with phase := if running then .registering else .ended }

/-- `wake_by_ref()` on `w`. -/
def wake (k : Task) (w : Waker) : Task := if w = k.waker then { k with woken := true } else k

/-- What `wake_stream` does to the task whose registered waker is `reg`. -/
def wakeRegistered (k : Task) (reg : Option Waker) : Task := reg.elim k k.wake

/-- `register_stream_waker` returned, having woken the new waker if `selfWoken`. -/
def registered (k : Task) (selfWoken : Bool) : Task := ⟨.pending, k.waker, k.woken || selfWoken⟩

/-- The task will look at the queue again: `testing` says that its `consume` has still to make its test. -/
def Attentive (k : Task) (reg : Option Waker) (testing : Prop) : Prop :=
  match k.phase with
  | .unpolled | .ready => True
  | .consuming => testing ∨ k.woken = true ∨ reg ≠ some k.waker
  | .keepRunning | .registering => k.woken = true ∨ reg ≠ some k.waker
  | .pending => k.woken = true
  | .ended => False

/-- A parked task's registered waker is the one of its last poll. -/
def RegOk (k : Task) (reg : Option Waker) : Prop := k.phase = .pending → reg = some k.waker

theorem Attentive.not_parked {p : Prop} (h : k.Attentive reg p) : ¬ k.parked := by
  rintro ⟨h₁, h₂⟩
  simp [Attentive, h₁, h₂] at h

theorem Attentive.imp {p p' : Prop} (hp : p → p') (h : k.Attentive reg p) : k.Attentive reg p' := by
  unfold Attentive at *
  split at h <;> simp_all
  exact h.imp_left hp

theorem attentive_wakeRegistered {p : Prop} (hr : k.RegOk reg) (he : k.phase ≠ .ended) :
    (k.wakeRegistered reg).Attentive reg p := by
  obtain ⟨ph, kw, wo⟩ := k
  cases reg with
  | none => cases ph <;> simp_all [wakeRegistered, Attentive, RegOk]
  | some r =>
    by_cases hw : r = kw <;> cases ph <;> simp_all [wakeRegistered, wake, Attentive, RegOk]

theorem Attentive.wakeRegistered {p : Prop} (h : k.Attentive reg p) : (k.wakeRegistered reg).Attentive reg p := by
  obtain ⟨ph, kw, wo⟩ := k
  cases reg with
  | none => exact h
  | some r =>
    by_cases hw : r = kw <;> cases ph <;> simp_all [Task.wakeRegistered, wake, Attentive]

theorem RegOk.wakeRegistered (h : k.RegOk reg) : (k.wakeRegistered reg).RegOk reg := by
  cases reg with
  | none => exact h
  | some r => unfold Task.wakeRegistered; simp only [Option.elim, wake]; split <;> exact h

theorem phase_wakeRegistered (k : Task) (reg : Option Waker) : (k.wakeRegistered reg).phase = k.phase := by
  cases reg with
  | none => rfl
  | some r => simp only [wakeRegistered, Option.elim, wake]; split <;> rfl

theorem poll_eq_some (h : k.poll w = some k') : k' = ⟨.consuming, w, false⟩ ∧
    (k.phase = .unpolled ∨ k.phase = .pending ∨ k.phase = .ready) := by
  unfold poll at h
  split at h <;> simp_all

end Task

namespace StreamsManagerBase
/-- `register_stream_waker` leaves the given waker registered, and wakes it unless it was there before. -/
theorem registerStreamWaker_spec (sm : StreamsManagerBase) (id : UInt32) (w : Waker) :
    ((sm.registerStreamWaker id w).2 = true ∨ sm.wakers id = some w) ∧
    (sm.registerStreamWaker id w).1 = sm.setWaker id w := by
  cases hr : sm.wakers id with
  | none => simp [registerStreamWaker, hr]
  | some r =>
    by_cases hrw : r = w
    · subst hrw
      have hsame : sm.setWaker id r = sm := by rw [setWaker, ← hr, Function.update_eq_self]
      simp [registerStreamWaker, hr, hsame]
    · simp [registerStreamWaker, hr, hrw]

end StreamsManagerBase

/-- The streams manager of a channel and the tasks of the streams created so far. -/
structure Runtime where
  streams : StreamsManagerBase
  task : UInt32 → Option Task

namespace Runtime
variable {M : Nat} {r r' : Runtime} {i j : UInt32} {k : Task} {w : Waker} {b : Bool} {p p' : Prop}

def new (M : Nat) : Runtime := ⟨.new M, fun _ => none⟩

def setTask (r : Runtime) (j : UInt32) (k : Task) : Runtime := { r with task := Function.update r.task j (some k) }

@[simp] theorem setTask_streams (r : Runtime) (j : UInt32) (k : Task) : (r.setTask j k).streams = r.streams := rfl

/-- `create_stream()` -/
def create (M : Nat) (r : Runtime) : Option Runtime := do
  let (streams, streamId) ← r.streams.createStreamId M
  return { streams, task := Function.update r.task streamId (some .fresh) }

/-- `wake_stream(j)` -/
def wake (r : Runtime) (j : UInt32) : Runtime :=
  { r with task := Function.update r.task j ((r.task j).map (·.wakeRegistered (r.streams.wakeStream j))) }

/-- `cancel_stream(j)` of a stream that exists. -/
def cancel (r : Runtime) (j : UInt32) : Option Runtime :=
  if (r.task j).isSome then some (wake { r with streams := r.streams.setKeepRunning j false } j) else none

/-- The runtime polls the task of stream `j`. -/
def poll (r : Runtime) (j : UInt32) (w : Waker) : Option Runtime := do
  let k ← r.task j
  let k' ← k.poll w
  return r.setTask j k'

/-- `consume` returns to the `poll_next` of stream `j`. -/
def consumed (r : Runtime) (j : UInt32) (gotEvent : Bool) : Option Runtime := do
  let k ← r.task j
  if k.phase = .consuming then some (r.setTask j (k.consumed gotEvent)) else none

/-- The next step of the `poll_next` of stream `j` after `consume` returned `None`. -/
def pollRest (r : Runtime) (j : UInt32) : Option Runtime := do
  let k ← r.task j
  match k.phase with
  | .keepRunning => some (r.setTask j (k.keep (r.streams.keepStreamRunning j)))
  | .registering =>
    let (streams, selfWoken) := r.streams.registerStreamWaker j k.waker
    some (setTask { r with streams } j (k.registered selfWoken))
  | _ => none

def AllKept (r : Runtime) : Prop := ∀ j, (r.task j).isSome → r.streams.keepStreamsRunning j = true

/-- The task of stream `j` will look at the queue again. -/
def Attentive (r : Runtime) (j : UInt32) (testing : Prop) : Prop :=
  ∃ k, r.task j = some k ∧ k.Attentive (r.streams.wakers j) testing

/-- What the runs keep about the streams as long as none is dropped. -/
structure Ok (M : Nat) (r : Runtime) : Prop where
  wf : r.streams.vacantStreams.WellFormed M
  nodup : (r.streams.vacantStreams.elems M).Nodup
  vacant : ∀ x ∈ r.streams.vacantStreams.elems M, r.task x = none
  vacant_lt : ∀ x ∈ r.streams.vacantStreams.elems M, x < UInt32.ofNat M
  lt : ∀ j, (r.task j).isSome → j < UInt32.ofNat M
  reg : ∀ j k, r.task j = some k → k.RegOk (r.streams.wakers j)
  ended : ∀ j k, r.task j = some k → k.phase = .ended → r.streams.keepStreamsRunning j = false

theorem Ok.new (hM : Ring.PowerOfTwo M) : Ok M (.new M) := by
  obtain ⟨h₁, h₂⟩ := StreamsManagerBase.vacant_new hM
  refine ⟨h₁, ?_, fun _ _ => rfl, fun x hx => ?_, fun _ h => (by cases h), fun _ _ h => (by cases h),
    fun _ _ h => (by cases h)⟩
  · show ((StreamsManagerBase.new M).vacantStreams.elems M).Nodup
    rw [h₂]
    exact nodup_idRange
  · have hx' : x ∈ (StreamsManagerBase.new M).vacantStreams.elems M := hx
    rw [h₂] at hx'
    exact (mem_idRange.mp hx').2

theorem Ok.setTask (h : r.Ok M) (hj : (r.task j).isSome) (hr : k.RegOk (r.streams.wakers j))
    (he : k.phase = .ended → r.streams.keepStreamsRunning j = false) : (r.setTask j k).Ok M := by
  refine ⟨h.wf, h.nodup, fun x hx => ?_, h.vacant_lt, fun i hi => ?_, fun i k' hi => ?_, fun i k' hi => ?_⟩
  · have hne : x ≠ j := by rintro rfl; rw [h.vacant x hx] at hj; cases hj
    exact (Function.update_of_ne hne _ _).trans (h.vacant x hx)
  · by_cases hij : i = j
    · subst hij; exact h.lt i hj
    · exact h.lt i (by simpa [Runtime.setTask, Function.update_of_ne hij] using hi)
  · by_cases hij : i = j
    · subst hij; cases (Function.update_self ..).symm.trans hi; exact hr
    · exact h.reg i k' ((Function.update_of_ne hij _ _).symm.trans hi)
  · by_cases hij : i = j
    · subst hij; cases (Function.update_self ..).symm.trans hi; exact he
    · exact h.ended i k' ((Function.update_of_ne hij _ _).symm.trans hi)

theorem create_cases (h : r.Ok M) (hc : r.create M = some r') : ∃ id, r.task id = none ∧ r'.Ok M ∧
    r'.task = Function.update r.task id (some .fresh) ∧ r'.streams.wakers = r.streams.wakers ∧
    r'.streams.keepStreamsRunning = Function.update r.streams.keepStreamsRunning id true ∧
    ∃ rest, r.streams.vacantStreams.elems M = id :: rest := by
  unfold create StreamsManagerBase.createStreamId at hc
  rcases LawfulMoveContainer.consume_cases (C := FullSyncMove) h.wf with
    ⟨q', id, xs, hq, hel, hwf, hel'⟩ | ⟨hq, -⟩
  · have hq' : r.streams.vacantStreams.consumeMovable M = (q', some id) := hq
    have hel₁ : r.streams.vacantStreams.elems M = id :: xs := hel
    have hel₂ : q'.elems M = xs := hel'
    simp only [StreamsManagerBase.takeVacant, StreamsManagerBase.incUsed, StreamsManagerBase.incCreated, hq',
      Option.bind_eq_bind, Option.bind_some, Option.pure_def, Option.some.injEq] at hc
    subst hc
    have hfree : r.task id = none := h.vacant id (by rw [hel₁]; exact List.mem_cons_self)
    have hnd := h.nodup
    rw [hel₁, List.nodup_cons] at hnd
    have hlt : ∀ x ∈ id :: xs, x < UInt32.ofNat M := fun x hx => h.vacant_lt x (by rw [hel₁]; exact hx)
    refine ⟨id, hfree, ⟨hwf, ?_, fun x hx => ?_, fun x hx => ?_, fun i hi => ?_, fun i k hi => ?_,
      fun i k hi hph => ?_⟩, rfl, rfl, rfl, xs, hel₁⟩
    · show (q'.elems M).Nodup
      rw [hel₂]; exact hnd.2
    · have hx' : x ∈ xs := by rw [← hel₂]; exact hx
      have hne : x ≠ id := by rintro rfl; exact hnd.1 hx'
      exact (Function.update_of_ne hne _ _).trans (h.vacant x (by rw [hel₁]; exact List.mem_cons_of_mem _ hx'))
    · have hx' : x ∈ xs := by rw [← hel₂]; exact hx
      exact hlt x (List.mem_cons_of_mem _ hx')
    · by_cases hi' : i = id
      · subst hi'; exact hlt i List.mem_cons_self
      · refine h.lt i ?_
        rw [← hi]
        exact congrArg Option.isSome (Function.update_of_ne hi' _ _).symm
    · by_cases hi' : i = id
      · subst hi'; cases (Function.update_self ..).symm.trans hi; exact fun hp => by cases hp
      · exact h.reg i k ((Function.update_of_ne hi' _ _).symm.trans hi)
    · by_cases hi' : i = id
      · subst hi'; cases (Function.update_self ..).symm.trans hi; cases hph
      · exact (Function.update_of_ne hi' _ _).trans (h.ended i k ((Function.update_of_ne hi' _ _).symm.trans hi) hph)
  · have hq' : r.streams.vacantStreams.consumeMovable M = (r.streams.vacantStreams, none) := hq
    simp [StreamsManagerBase.takeVacant, StreamsManagerBase.incUsed, StreamsManagerBase.incCreated, hq'] at hc

theorem Ok.wake (h : r.Ok M) (j : UInt32) : (r.wake j).Ok M := by
  cases hj : r.task j with
  | none =>
    have : r.wake j = r := by unfold Runtime.wake; rw [hj, Option.map_none, ← hj, Function.update_eq_self]
    rw [this]; exact h
  | some k =>
    have : r.wake j = r.setTask j (k.wakeRegistered (r.streams.wakers j)) := by
      unfold Runtime.wake; rw [hj]; rfl
    rw [this]
    refine h.setTask (by rw [hj]; rfl) (h.reg j k hj).wakeRegistered fun he => h.ended j k hj ?_
    rw [← he, Task.phase_wakeRegistered]

theorem isSome_wake (r : Runtime) (i j : UInt32) : ((r.wake i).task j).isSome = (r.task j).isSome := by
  by_cases hij : j = i
  · subst hij; simp [Runtime.wake]
  · simp [Runtime.wake, Function.update_of_ne hij]

theorem phase_wake (h : r.task j = some k) (i : UInt32) :
    ∃ k', (r.wake i).task j = some k' ∧ k'.phase = k.phase := by
  by_cases hij : j = i
  · subst hij
    refine ⟨k.wakeRegistered (r.streams.wakers j), ?_, Task.phase_wakeRegistered ..⟩
    simp only [wake, h, Option.map_some, Function.update_self]
    rfl
  · exact ⟨k, by simp [wake, Function.update_of_ne hij, h], rfl⟩

theorem Ok.attentive_wake (h : r.Ok M) (hj : (r.task j).isSome) (hk : r.streams.keepStreamsRunning j = true) :
    (r.wake j).Attentive j p := by
  obtain ⟨k, hk'⟩ := Option.isSome_iff_exists.mp hj
  refine ⟨k.wakeRegistered (r.streams.wakers j), by simp [Runtime.wake, hk']; rfl, ?_⟩
  refine Task.attentive_wakeRegistered (h.reg j k hk') fun he => ?_
  rw [h.ended j k hk' he] at hk
  cases hk

theorem Attentive.imp (hp : p → p') (h : r.Attentive j p) : r.Attentive j p' := by
  obtain ⟨k, hk, ha⟩ := h
  exact ⟨k, hk, ha.imp hp⟩

theorem Attentive.wake (h : r.Attentive j p) (i : UInt32) : (r.wake i).Attentive j p := by
  obtain ⟨k, hk, ha⟩ := h
  by_cases hij : j = i
  · subst hij
    exact ⟨k.wakeRegistered (r.streams.wakers j), by simp [Runtime.wake, hk]; rfl, ha.wakeRegistered⟩
  · exact ⟨k, by simp [Runtime.wake, Function.update_of_ne hij, hk], ha⟩

theorem Attentive.setTask_of_ne (h : r.Attentive j p) (hij : j ≠ i) : (r.setTask i k).Attentive j p := by
  obtain ⟨k', hk, ha⟩ := h
  exact ⟨k', by simp [Runtime.setTask, Function.update_of_ne hij, hk], ha⟩

/-! ### The steps of `poll_next` -/

theorem poll_cases (h : r.poll j w = some r') :
    ∃ k, r.task j = some k ∧ r' = r.setTask j ⟨.consuming, w, false⟩ := by
  simp only [poll, Option.bind_eq_bind, Option.bind_eq_some_iff, Option.pure_def, Option.some.injEq] at h
  obtain ⟨k, hk, k', hk', rfl⟩ := h
  exact ⟨k, hk, by rw [(Task.poll_eq_some hk').1]⟩

theorem consumed_cases (h : r.consumed j b = some r') :
    ∃ k, r.task j = some k ∧ k.phase = .consuming ∧ r' = r.setTask j (k.consumed b) := by
  simp only [consumed, Option.bind_eq_bind, Option.bind_eq_some_iff, Option.ite_none_right_eq_some,
    Option.some.injEq] at h
  obtain ⟨k, hk, hph, rfl⟩ := h
  exact ⟨k, hk, hph, rfl⟩

theorem pollRest_cases (h : r.pollRest j = some r') : ∃ k, r.task j = some k ∧
    ((k.phase = .keepRunning ∧ r' = r.setTask j (k.keep (r.streams.keepStreamsRunning j))) ∨
     (k.phase = .registering ∧ ∃ b, (b = true ∨ r.streams.wakers j = some k.waker) ∧
      r' = setTask { r with streams := r.streams.setWaker j k.waker } j (k.registered b))) := by
  simp only [pollRest, Option.bind_eq_bind, Option.bind_eq_some_iff] at h
  obtain ⟨k, hk, h⟩ := h
  refine ⟨k, hk, ?_⟩
  cases hph : k.phase with
  | keepRunning =>
    simp only [hph] at h
    cases h
    exact .inl ⟨rfl, rfl⟩
  | registering =>
    simp only [hph] at h
    obtain ⟨hb, hsm⟩ := r.streams.registerStreamWaker_spec j k.waker
    cases h
    exact .inr ⟨rfl, _, hb, by rw [← hsm]⟩
  | _ => simp [hph] at h

theorem Ok.poll (h : r.Ok M) (hp : r.poll j w = some r') : r'.Ok M := by
  obtain ⟨k, hk, rfl⟩ := poll_cases hp
  exact h.setTask (by rw [hk]; rfl) (fun hph => by cases hph) (fun hph => by cases hph)

theorem Ok.consumed (h : r.Ok M) (hc : r.consumed j b = some r') : r'.Ok M := by
  obtain ⟨k, hk, -, rfl⟩ := consumed_cases hc
  refine h.setTask (by rw [hk]; rfl) (fun hph => ?_) (fun hph => ?_) <;> cases b <;> cases hph

theorem Ok.setWaker (h : r.Ok M) (hk : r.task j = some k) (b : Bool) :
    (Runtime.setTask { r with streams := r.streams.setWaker j k.waker } j (k.registered b)).Ok M := by
  refine ⟨h.wf, h.nodup, fun x hx => ?_, h.vacant_lt, fun i hi => ?_, fun i k' hi => ?_, fun i k' hi hph => ?_⟩
  · have hne : x ≠ j := by rintro rfl; rw [h.vacant x hx] at hk; cases hk
    exact (Function.update_of_ne hne _ _).trans (h.vacant x hx)
  · by_cases hij : i = j
    · subst hij; exact h.lt i (by rw [hk]; rfl)
    · exact h.lt i (by simpa [Runtime.setTask, Function.update_of_ne hij] using hi)
  · by_cases hij : i = j
    · subst hij
      cases (Function.update_self ..).symm.trans hi
      exact fun _ => Function.update_self ..
    · intro hp
      exact (Function.update_of_ne hij _ _).trans (h.reg i k' ((Function.update_of_ne hij _ _).symm.trans hi) hp)
  · by_cases hij : i = j
    · subst hij; cases (Function.update_self ..).symm.trans hi; cases hph
    · exact h.ended i k' ((Function.update_of_ne hij _ _).symm.trans hi) hph

theorem Ok.pollRest (h : r.Ok M) (hp : r.pollRest j = some r') : r'.Ok M := by
  obtain ⟨k, hk, ⟨-, rfl⟩ | ⟨-, b, -, rfl⟩⟩ := pollRest_cases hp
  · refine h.setTask (by rw [hk]; rfl) (fun hph => ?_) (fun hph => ?_) <;>
      cases hr : r.streams.keepStreamsRunning j <;> rw [hr] at hph <;> first | rfl | cases hph
  · exact h.setWaker hk b

theorem Ok.cancel (h : r.Ok M) (hc : r.cancel j = some r') : r'.Ok M := by
  simp only [Runtime.cancel, Option.ite_none_right_eq_some, Option.some.injEq] at hc
  obtain ⟨-, rfl⟩ := hc
  have h' : Ok M { r with streams := r.streams.setKeepRunning j false } := by
    refine ⟨h.wf, h.nodup, h.vacant, h.vacant_lt, h.lt, h.reg, fun i k hi he => ?_⟩
    by_cases hij : i = j
    · subst hij; exact Function.update_self ..
    · exact (Function.update_of_ne hij _ _).trans (h.ended i k hi he)
  exact h'.wake j

theorem Attentive.poll (h : r.Attentive i p) (hp : r.poll j w = some r') : r'.Attentive i (p ∨ i = j) := by
  obtain ⟨k, hk, rfl⟩ := poll_cases hp
  by_cases hij : i = j
  · subst hij; exact ⟨_, Function.update_self .., .inl (.inr rfl)⟩
  · exact (h.setTask_of_ne hij).imp .inl

/-- A `consume` that returned an event makes its task look again. -/
theorem Attentive.consumed (h : r.Attentive i p) (hc : r.consumed j b = some r')
    (hb : i = j → b = false → ¬ p) : r'.Attentive i p := by
  obtain ⟨k, hk, hph, rfl⟩ := consumed_cases hc
  by_cases hij : i = j
  · subst hij
    obtain ⟨k', hk', ha⟩ := h
    cases hk.symm.trans hk'
    refine ⟨_, Function.update_self .., ?_⟩
    cases b with
    | true => trivial
    | false => simpa [Task.Attentive, hph, hb rfl rfl, Task.consumed] using ha
  · exact h.setTask_of_ne hij

theorem Attentive.pollRest (h : r.Attentive i p) (hkeep : r.streams.keepStreamsRunning i = true)
    (hp : r.pollRest j = some r') : r'.Attentive i p := by
  obtain ⟨k, hkj, hcase⟩ := pollRest_cases hp
  by_cases hij : i = j
  · subst hij
    obtain ⟨k', hk', ha⟩ := h
    cases hkj.symm.trans hk'
    rcases hcase with ⟨hph, rfl⟩ | ⟨hph, b, hb, rfl⟩
    · refine ⟨_, Function.update_self .., ?_⟩
      simpa [Task.Attentive, hph, Task.keep, hkeep] using ha
    · refine ⟨_, Function.update_self .., ?_⟩
      simp only [Task.Attentive, hph] at ha
      simp only [Task.Attentive, Task.registered, Bool.or_eq_true]
      rcases ha with ha | ha
      · exact .inl ha
      · exact .inr (hb.resolve_right ha)
  · rcases hcase with ⟨hph, rfl⟩ | ⟨hph, b, hb, rfl⟩
    · exact h.setTask_of_ne hij
    · obtain ⟨k', hk', ha⟩ := h
      refine ⟨k', (Function.update_of_ne hij _ _).trans hk', ?_⟩
      show k'.Attentive (Function.update r.streams.wakers j (some k.waker) i) p
      rw [Function.update_of_ne hij]
      exact ha

theorem Attentive.create (h : r.Attentive i p) (ho : r.Ok M) (hc : r.create M = some r') : r'.Attentive i p := by
  obtain ⟨id, hid, -, ht, hw, -⟩ := create_cases ho hc
  obtain ⟨k, hk, ha⟩ := h
  have hne : i ≠ id := by rintro rfl; rw [hid] at hk; cases hk
  exact ⟨k, by rw [ht, Function.update_of_ne hne]; exact hk, by rw [hw]; exact ha⟩

/-! ### Which streams exist -/

/-- The same streams exist and the same ids are vacant. -/
structure SameStreams (r r' : Runtime) : Prop where
  isSome : ∀ j, (r'.task j).isSome = (r.task j).isSome
  vacant : r'.streams.vacantStreams = r.streams.vacantStreams

theorem SameStreams.setTask (hj : r.task j = some k) (k' : Task) : SameStreams r (r.setTask j k') := by
  refine ⟨fun i => ?_, rfl⟩
  by_cases hij : i = j
  · subst hij; simp [Runtime.setTask, hj]
  · simp [Runtime.setTask, Function.update_of_ne hij]

theorem sameStreams_poll (h : r.poll j w = some r') : SameStreams r r' := by
  obtain ⟨k, hk, rfl⟩ := poll_cases h
  exact .setTask hk _

theorem sameStreams_consumed (h : r.consumed j b = some r') : SameStreams r r' := by
  obtain ⟨k, hk, -, rfl⟩ := consumed_cases h
  exact .setTask hk _

theorem sameStreams_pollRest (h : r.pollRest j = some r') : SameStreams r r' := by
  obtain ⟨k, hk, ⟨-, rfl⟩ | ⟨-, b, -, rfl⟩⟩ := pollRest_cases h
  · exact .setTask hk _
  · exact ⟨(SameStreams.setTask hk _).isSome, rfl⟩

theorem sameStreams_wake (r : Runtime) (j : UInt32) : SameStreams r (r.wake j) := ⟨isSome_wake r j, rfl⟩

theorem sameStreams_cancel (h : r.cancel j = some r') : SameStreams r r' := by
  simp only [Runtime.cancel, Option.ite_none_right_eq_some, Option.some.injEq] at h
  obtain ⟨-, rfl⟩ := h
  exact ⟨isSome_wake { r with streams := r.streams.setKeepRunning j false } j, rfl⟩

/-! ### Cancellation is never taken back -/

theorem AllKept.of_setTask (h : (r.setTask j k).AllKept) : r.AllKept := by
  intro i hi
  refine h i ?_
  by_cases hij : i = j
  · subst hij; simp [setTask]
  · simpa [setTask, Function.update_of_ne hij] using hi

theorem AllKept.of_poll (h : r'.AllKept) (hp : r.poll j w = some r') : r.AllKept := by
  obtain ⟨k, -, rfl⟩ := poll_cases hp
  exact h.of_setTask

theorem AllKept.of_consumed (h : r'.AllKept) (hc : r.consumed j b = some r') : r.AllKept := by
  obtain ⟨k, -, -, rfl⟩ := consumed_cases hc
  exact h.of_setTask

theorem AllKept.of_pollRest (h : r'.AllKept) (hp : r.pollRest j = some r') : r.AllKept := by
  obtain ⟨k, hk, ⟨-, rfl⟩ | ⟨-, b, -, rfl⟩⟩ := pollRest_cases hp
  · exact h.of_setTask
  · exact fun i hi => h.of_setTask i hi

theorem AllKept.of_wake (h : (r.wake j).AllKept) : r.AllKept := fun i hi => h i (by rwa [isSome_wake])

theorem AllKept.of_create (h : r'.AllKept) (ho : r.Ok M) (hc : r.create M = some r') : r.AllKept := by
  obtain ⟨id, hid, -, ht, -, hk, -⟩ := create_cases ho hc
  intro i hi
  have hne : i ≠ id := by rintro rfl; rw [hid] at hi; cases hi
  have := h i (by rw [ht, Function.update_of_ne hne]; exact hi)
  rwa [hk, Function.update_of_ne hne] at this

theorem not_allKept_of_cancel (hc : r.cancel j = some r') : ¬ r'.AllKept := by
  simp only [Runtime.cancel, Option.ite_none_right_eq_some, Option.some.injEq] at hc
  obtain ⟨hj, rfl⟩ := hc
  intro h
  have := h.of_wake j hj
  simp [StreamsManagerBase.setKeepRunning] at this

theorem Attentive.isSome (h : r.Attentive j p) : (r.task j).isSome := by
  obtain ⟨k, hk, -⟩ := h
  rw [hk]
  rfl

theorem keep_of_poll (h : r.poll j w = some r') : r'.streams.keepStreamsRunning = r.streams.keepStreamsRunning := by
  obtain ⟨k, -, rfl⟩ := poll_cases h
  rfl

theorem keep_of_consumed (h : r.consumed j b = some r') :
    r'.streams.keepStreamsRunning = r.streams.keepStreamsRunning := by
  obtain ⟨k, -, -, rfl⟩ := consumed_cases h
  rfl

theorem keep_of_pollRest (h : r.pollRest j = some r') :
    r'.streams.keepStreamsRunning = r.streams.keepStreamsRunning := by
  obtain ⟨k, -, ⟨-, rfl⟩ | ⟨-, b, -, rfl⟩⟩ := pollRest_cases h <;> rfl

theorem Attentive.exists_not_parked (h : r.Attentive j p) : ∃ j k, r.task j = some k ∧ ¬ k.parked := by
  obtain ⟨k, hk, ha⟩ := h
  exact ⟨j, k, hk, ha.not_parked⟩

end Runtime
end Mutiny
