import Mutiny.MutinyStream

/-!
# Streams that come and go

Any number of threads `τ` run `create_stream_id` and `report_stream_dropped`, whose steps interleave
with one another and with everything else that happens to the streams. A stream lives from the last
step of its creation to the moment its drop begins, which cannot be in the middle of a `poll_next`.

An id is vacant, in the hands of one thread, or that of one stream (`Streams.Ok`).
-/

namespace Mutiny

/-- Where a thread stands in `create_stream_id` or `report_stream_dropped`. -/
inductive Managing
  | idle
  | createIncUsed
  | createTake
  | createKeep (id : UInt32)
  | createSync (id : UInt32)
  -- all ids were in use
  | panicked
  | dropClear (id : UInt32)
  | dropIncFinished (id : UInt32)
  | dropDecUsed (id : UInt32)
  | dropGive (id : UInt32)
  | dropSync
deriving DecidableEq

def Managing.holds : Managing → Option UInt32
  | .createKeep id | .createSync id | .dropClear id | .dropIncFinished id | .dropDecUsed id | .dropGive id => some id
  | .idle | .createIncUsed | .createTake | .panicked | .dropSync => none

def Task.droppable (k : Task) : Bool :=
  match k.phase with
  | .unpolled | .pending | .ready | .ended => true
  | .consuming | .keepRunning | .registering => false

structure Streams (τ : Type) where
  rt : Runtime
  managing : τ → Managing

namespace Runtime
variable {M : Nat} {r : Runtime} {sm : StreamsManagerBase} {id : UInt32}

/-- The manager does something that concerns neither the vacant ids nor a stream. -/
theorem Ok.of_streams (h : r.Ok M) (hv : sm.vacantStreams = r.streams.vacantStreams)
    (hw : ∀ j, (r.task j).isSome → sm.wakers j = r.streams.wakers j)
    (hk : ∀ j, (r.task j).isSome → sm.keepStreamsRunning j = r.streams.keepStreamsRunning j) :
    Ok M { r with streams := sm } := by
  refine ⟨?_, ?_, ?_, ?_, h.lt, fun j k hj => ?_, fun j k hj he => ?_⟩
  · show sm.vacantStreams.WellFormed M
    rw [hv]; exact h.wf
  · show (sm.vacantStreams.elems M).Nodup
    rw [hv]; exact h.nodup
  · show ∀ x ∈ sm.vacantStreams.elems M, r.task x = none
    rw [hv]; exact h.vacant
  · show ∀ x ∈ sm.vacantStreams.elems M, x < UInt32.ofNat M
    rw [hv]; exact h.vacant_lt
  · show k.RegOk (sm.wakers j)
    have hj' : r.task j = some k := hj
    rw [hw j (by rw [hj']; rfl)]
    exact h.reg j k hj
  · show sm.keepStreamsRunning j = false
    have hj' : r.task j = some k := hj
    rw [hk j (by rw [hj']; rfl)]
    exact h.ended j k hj he

theorem Ok.of_vacant {q : FullSyncMove UInt32} (h : r.Ok M) (hwf : q.WellFormed M) (hnd : (q.elems M).Nodup)
    (hq : ∀ x ∈ q.elems M, r.task x = none ∧ x < UInt32.ofNat M) :
    Ok M { r with streams := { r.streams with vacantStreams := q } } :=
  ⟨hwf, hnd, fun x hx => (hq x hx).1, fun x hx => (hq x hx).2, h.lt, h.reg, h.ended⟩

theorem Ok.birth (h : r.Ok M) (hv : id ∉ r.streams.vacantStreams.elems M) (hlt : id < UInt32.ofNat M) :
    (r.setTask id .fresh).Ok M := by
  refine ⟨h.wf, h.nodup, fun x hx => ?_, h.vacant_lt, fun i hi => ?_, fun i k hi => ?_, fun i k hi => ?_⟩
  · have hne : x ≠ id := by rintro rfl; exact hv hx
    exact (Function.update_of_ne hne _ _).trans (h.vacant x hx)
  · by_cases hij : i = id
    · subst hij; exact hlt
    · exact h.lt i (by simpa [Runtime.setTask, Function.update_of_ne hij] using hi)
  · by_cases hij : i = id
    · subst hij; cases (Function.update_self ..).symm.trans hi; exact fun hp => by cases hp
    · exact h.reg i k ((Function.update_of_ne hij _ _).symm.trans hi)
  · by_cases hij : i = id
    · subst hij; cases (Function.update_self ..).symm.trans hi; exact fun hp => by cases hp
    · exact h.ended i k ((Function.update_of_ne hij _ _).symm.trans hi)

theorem Ok.death (h : r.Ok M) (id : UInt32) : Ok M { r with task := Function.update r.task id none } := by
  have hsub : ∀ {i k}, Function.update r.task id none i = some k → r.task i = some k := by
    intro i k hi
    by_cases hij : i = id
    · subst hij; rw [Function.update_self] at hi; cases hi
    · rwa [Function.update_of_ne hij] at hi
  refine ⟨h.wf, h.nodup, fun x hx => ?_, h.vacant_lt, fun i hi => ?_, fun i k hi => h.reg i k (hsub hi),
    fun i k hi => h.ended i k (hsub hi)⟩
  · by_cases hxi : x = id
    · subst hxi; exact Function.update_self ..
    · exact (Function.update_of_ne hxi _ _).trans (h.vacant x hx)
  · obtain ⟨k, hk⟩ := Option.isSome_iff_exists.mp hi
    exact h.lt i (by rw [hsub hk]; rfl)

end Runtime

namespace Streams
variable {τ : Type}

inductive Label (τ : Type)
  | create (t : τ)
  | drop (t : τ) (j : UInt32)
  -- the next step of what thread `t` is about
  | manage (t : τ)

def new (M : Nat) : Streams τ := ⟨.new M, fun _ => .idle⟩

section Step
variable [DecidableEq τ]

/-- Thread `t` takes a step of the streams manager and goes on at `m`. -/
def goOn (s : Streams τ) (t : τ) (m : Managing) (streams : StreamsManagerBase) : Streams τ :=
  ⟨{ s.rt with streams }, Function.update s.managing t m⟩

def manage (M : Nat) (s : Streams τ) (t : τ) : Option (Streams τ) :=
  match s.managing t with
  | .idle | .panicked => none
  | .createIncUsed => some (s.goOn t .createTake s.rt.streams.incUsed)
  | .createTake =>
    match s.rt.streams.takeVacant M with
    | (streams, some id) => some (s.goOn t (.createKeep id) streams)
    | (streams, none) => some (s.goOn t .panicked streams)
  | .createKeep id => some (s.goOn t (.createSync id) (s.rt.streams.setKeepRunning id true))
  | .createSync id =>
    some ⟨⟨s.rt.streams.syncVacantAndUsedStreams M, Function.update s.rt.task id (some .fresh)⟩,
      Function.update s.managing t .idle⟩
  | .dropClear id => some (s.goOn t (.dropIncFinished id) (s.rt.streams.clearWaker id))
  | .dropIncFinished id => some (s.goOn t (.dropDecUsed id) s.rt.streams.incFinished)
  | .dropDecUsed id => some (s.goOn t (.dropGive id) s.rt.streams.decUsed)
  | .dropGive id => some (s.goOn t .dropSync (s.rt.streams.giveVacant M id))
  | .dropSync => some (s.goOn t .idle (s.rt.streams.syncVacantAndUsedStreams M))

def step (M : Nat) (s : Streams τ) : Label τ → Option (Streams τ)
  | .create t => if s.managing t = .idle then some (s.goOn t .createIncUsed s.rt.streams.incCreated) else none
  | .drop t j =>
    if s.managing t = .idle ∧ (s.rt.task j).any Task.droppable then
      some ⟨{ s.rt with task := Function.update s.rt.task j none }, Function.update s.managing t (.dropClear j)⟩
    else none
  | .manage t => s.manage M t

end Step

/-- An id is at one place at most. -/
structure Ok (M : Nat) (s : Streams τ) : Prop where
  rt : s.rt.Ok M
  task : ∀ t id, (s.managing t).holds = some id → s.rt.task id = none
  vacant : ∀ t id, (s.managing t).holds = some id → id ∉ s.rt.streams.vacantStreams.elems M
  lt : ∀ t id, (s.managing t).holds = some id → id < UInt32.ofNat M
  unique : ∀ t u id, (s.managing t).holds = some id → (s.managing u).holds = some id → t = u

namespace Ok
variable {M : Nat} {s s' : Streams τ} {t : τ} {id : UInt32} {r : Runtime}

theorem new (hM : Ring.PowerOfTwo M) : Ok M (.new M : Streams τ) :=
  ⟨.new hM, fun _ _ h => (by cases h), fun _ _ h => (by cases h), fun _ _ h => (by cases h),
    fun _ _ _ h => (by cases h)⟩

theorem of_rt (h : Ok M s) (hr : r.Ok M) (hsame : s.rt.SameStreams r) : Ok M { s with rt := r } := by
  refine ⟨hr, fun t id ht => ?_, fun t id ht => ?_, h.lt, h.unique⟩
  · show r.task id = none
    rw [← Option.not_isSome_iff_eq_none, hsame.isSome id, h.task t id ht]
    simp
  · show id ∉ r.streams.vacantStreams.elems M
    rw [hsame.vacant]
    exact h.vacant t id ht

/-- Setting a flag or a waker of an id in hand concerns no stream. -/
theorem ne_of_holds (h : Ok M s) (ht : (s.managing t).holds = some id) {j : UInt32} (hj : (s.rt.task j).isSome) :
    j ≠ id := by
  rintro rfl
  rw [h.task t j ht] at hj
  cases hj

variable [DecidableEq τ]

theorem update {m : Managing} (h : Ok M s) (hr : r.Ok M)
    (hself : ∀ id, m.holds = some id → r.task id = none ∧ id ∉ r.streams.vacantStreams.elems M ∧
      id < UInt32.ofNat M ∧ ∀ u, u ≠ t → (s.managing u).holds ≠ some id)
    (hother : ∀ u id, u ≠ t → (s.managing u).holds = some id →
      r.task id = none ∧ id ∉ r.streams.vacantStreams.elems M) :
    Ok M ⟨r, Function.update s.managing t m⟩ := by
  have hcase : ∀ {u id}, (Function.update s.managing t m u).holds = some id →
      (u = t ∧ m.holds = some id) ∨ (u ≠ t ∧ (s.managing u).holds = some id) := by
    intro u id hu
    by_cases hut : u = t
    · subst hut; rw [Function.update_self] at hu; exact .inl ⟨rfl, hu⟩
    · rw [Function.update_of_ne hut] at hu; exact .inr ⟨hut, hu⟩
  refine ⟨hr, fun u id hu => ?_, fun u id hu => ?_, fun u id hu => ?_, fun u v id hu hv => ?_⟩
  · rcases hcase hu with ⟨-, hm⟩ | ⟨hne, hu'⟩
    · exact (hself id hm).1
    · exact (hother u id hne hu').1
  · rcases hcase hu with ⟨-, hm⟩ | ⟨hne, hu'⟩
    · exact (hself id hm).2.1
    · exact (hother u id hne hu').2
  · rcases hcase hu with ⟨-, hm⟩ | ⟨-, hu'⟩
    · exact (hself id hm).2.2.1
    · exact h.lt u id hu'
  · rcases hcase hu with ⟨rfl, hm⟩ | ⟨hne, hu'⟩ <;> rcases hcase hv with ⟨rfl, hm'⟩ | ⟨hne', hv'⟩
    · rfl
    · exact absurd hv' ((hself id hm).2.2.2 v hne')
    · exact absurd hu' ((hself id hm').2.2.2 u hne)
    · exact h.unique u v id hu' hv'

/-- Thread `t` does something that concerns neither the vacant ids nor a stream. -/
theorem goOn {m : Managing} {sm : StreamsManagerBase} (h : Ok M s)
    (hm : ∀ id, m.holds = some id → (s.managing t).holds = some id)
    (hv : sm.vacantStreams = s.rt.streams.vacantStreams)
    (hw : ∀ j, (s.rt.task j).isSome → sm.wakers j = s.rt.streams.wakers j)
    (hk : ∀ j, (s.rt.task j).isSome → sm.keepStreamsRunning j = s.rt.streams.keepStreamsRunning j) :
    Ok M (s.goOn t m sm) := by
  have hkeep : ∀ u id, (s.managing u).holds = some id → s.rt.task id = none ∧ id ∉ sm.vacantStreams.elems M := by
    intro u id hu
    rw [hv]
    exact ⟨h.task u id hu, h.vacant u id hu⟩
  refine h.update (h.rt.of_streams hv hw hk) (fun id hid => ?_) fun u id _ hu => hkeep u id hu
  have hold := hm id hid
  exact ⟨(hkeep t id hold).1, (hkeep t id hold).2, h.lt t id hold, fun u hut hu => hut (h.unique u t id hu hold)⟩

theorem createTake (h : Ok M s) (ht : s.managing t = .createTake) (hs : s.manage M t = some s') : Ok M s' := by
  simp only [Streams.manage, ht, StreamsManagerBase.takeVacant] at hs
  rcases LawfulMoveContainer.consume_cases (C := FullSyncMove) h.rt.wf with
    ⟨q, id, rest, hq, hel, hwf, hel'⟩ | ⟨hq, -⟩
  · have hq' : s.rt.streams.vacantStreams.consumeMovable M = (q, some id) := hq
    rw [hq'] at hs
    cases hs
    have hold : s.rt.streams.vacantStreams.elems M = id :: rest := hel
    have hnew : q.elems M = rest := hel'
    have hmem : ∀ x ∈ q.elems M, x ∈ s.rt.streams.vacantStreams.elems M := by
      rw [hold, hnew]
      exact fun x hx => List.mem_cons_of_mem _ hx
    have hid : id ∈ s.rt.streams.vacantStreams.elems M := by rw [hold]; exact List.mem_cons_self
    have hnd := h.rt.nodup
    rw [hold, List.nodup_cons] at hnd
    refine h.update (h.rt.of_vacant hwf (by rw [hnew]; exact hnd.2) fun x hx =>
      ⟨h.rt.vacant x (hmem x hx), h.rt.vacant_lt x (hmem x hx)⟩) ?_ ?_
    · rintro _ ⟨⟩
      refine ⟨h.rt.vacant id hid, by show id ∉ q.elems M; rw [hnew]; exact hnd.1, h.rt.vacant_lt id hid, ?_⟩
      exact fun u _ hu => h.vacant u id hu hid
    · exact fun u x _ hu => ⟨h.task u x hu, fun hx => h.vacant u x hu (hmem x hx)⟩
  · have hq' : s.rt.streams.vacantStreams.consumeMovable M = (s.rt.streams.vacantStreams, none) := hq
    rw [hq'] at hs
    cases hs
    exact h.goOn (fun _ hm => by cases hm) rfl (fun _ _ => rfl) fun _ _ => rfl

theorem createSync (h : Ok M s) (ht : s.managing t = .createSync id) :
    Ok M ⟨⟨s.rt.streams.syncVacantAndUsedStreams M, Function.update s.rt.task id (some .fresh)⟩,
      Function.update s.managing t .idle⟩ := by
  have hold : (s.managing t).holds = some id := by rw [ht]; rfl
  have hr : (Runtime.mk (s.rt.streams.syncVacantAndUsedStreams M)
      (Function.update s.rt.task id (some .fresh))).Ok M :=
    (h.rt.birth (h.vacant t id hold) (h.lt t id hold)).of_streams rfl (fun _ _ => rfl) fun _ _ => rfl
  refine h.update hr (fun _ hm => by cases hm) fun u x hut hu => ⟨?_, h.vacant u x hu⟩
  have hne : x ≠ id := by rintro rfl; exact hut (h.unique u t x hu hold)
  exact (Function.update_of_ne hne _ _).trans (h.task u x hu)

theorem dropGive (hM : Ring.PowerOfTwo M) (h : Ok M s) (ht : s.managing t = .dropGive id) :
    Ok M (s.goOn t .dropSync (s.rt.streams.giveVacant M id)) := by
  have hold : (s.managing t).holds = some id := by rw [ht]; rfl
  rcases LawfulMoveContainer.publish_cases (C := FullSyncMove) hM h.rt.wf id with
    ⟨q, hq, hwf, hel, -⟩ | ⟨hq, -⟩
  · have hq' : s.rt.streams.vacantStreams.publishMovable M id = (q, _, none) := hq
    have hel' : q.elems M = s.rt.streams.vacantStreams.elems M ++ [id] := hel
    have hmem : ∀ {x}, x ∈ q.elems M → x ∈ s.rt.streams.vacantStreams.elems M ∨ x = id := by
      intro x hx
      rw [hel', List.mem_append, List.mem_singleton] at hx
      exact hx
    unfold Streams.goOn StreamsManagerBase.giveVacant
    rw [hq']
    refine h.update (h.rt.of_vacant hwf ?_ fun x hx => ?_) (fun _ hm => by cases hm) fun u x hut hu =>
      ⟨h.task u x hu, fun hx => ?_⟩
    · rw [hel', List.nodup_append_comm, List.singleton_append, List.nodup_cons]
      exact ⟨h.vacant t id hold, h.rt.nodup⟩
    · rcases hmem hx with hx' | rfl
      · exact ⟨h.rt.vacant x hx', h.rt.vacant_lt x hx'⟩
      · exact ⟨h.task t x hold, h.lt t x hold⟩
    · rcases hmem hx with hx' | rfl
      · exact h.vacant u x hu hx'
      · exact hut (h.unique u t x hu hold)
  · have hq' : s.rt.streams.vacantStreams.publishMovable M id = (s.rt.streams.vacantStreams, none, some id) := hq
    refine h.goOn (fun _ hm => by cases hm) ?_ (fun _ _ => rfl) fun _ _ => rfl
    rw [StreamsManagerBase.giveVacant, hq']

theorem drop (h : Ok M s) (hj : (s.rt.task id).isSome) :
    Ok M ⟨{ s.rt with task := Function.update s.rt.task id none }, Function.update s.managing t (.dropClear id)⟩ := by
  have hfree : ∀ u, (s.managing u).holds ≠ some id := by
    intro u hu
    rw [h.task u id hu] at hj
    cases hj
  refine h.update (h.rt.death id) ?_ fun u x _ hu => ⟨?_, h.vacant u x hu⟩
  · rintro _ ⟨⟩
    refine ⟨Function.update_self .., fun hv => ?_, h.rt.lt id hj, fun u _ => hfree u⟩
    rw [h.rt.vacant id hv] at hj
    cases hj
  · have hne : x ≠ id := by rintro rfl; exact hfree u hu
    exact (Function.update_of_ne hne _ _).trans (h.task u x hu)

theorem manage (hM : Ring.PowerOfTwo M) (h : Ok M s) (hs : s.manage M t = some s') : Ok M s' := by
  cases ht : s.managing t with
  | idle => simp [Streams.manage, ht] at hs
  | panicked => simp [Streams.manage, ht] at hs
  | createTake => exact h.createTake ht hs
  | createSync id =>
    simp only [Streams.manage, ht, Option.some.injEq] at hs
    subst hs
    exact h.createSync ht
  | dropGive id =>
    simp only [Streams.manage, ht, Option.some.injEq] at hs
    subst hs
    exact h.dropGive hM ht
  | createKeep id =>
    simp only [Streams.manage, ht, Option.some.injEq] at hs
    subst hs
    refine h.goOn (by simp [ht, Managing.holds]) rfl (fun _ _ => rfl) fun j hj => ?_
    exact Function.update_of_ne (h.ne_of_holds (t := t) (by rw [ht]; rfl) hj) _ _
  | dropClear id =>
    simp only [Streams.manage, ht, Option.some.injEq] at hs
    subst hs
    refine h.goOn (by simp [ht, Managing.holds]) rfl (fun j hj => ?_) fun _ _ => rfl
    exact Function.update_of_ne (h.ne_of_holds (t := t) (by rw [ht]; rfl) hj) _ _
  | createIncUsed | dropIncFinished id | dropDecUsed id | dropSync =>
    simp only [Streams.manage, ht, Option.some.injEq] at hs
    subst hs
    exact h.goOn (by simp [ht, Managing.holds]) rfl (fun _ _ => rfl) fun _ _ => rfl

theorem step {l : Label τ} (hM : Ring.PowerOfTwo M) (h : Ok M s) (hs : s.step M l = some s') : Ok M s' := by
  cases l with
  | create t =>
    simp only [Streams.step, Option.ite_none_right_eq_some, Option.some.injEq] at hs
    obtain ⟨-, rfl⟩ := hs
    exact h.goOn (fun _ hm => by cases hm) rfl (fun _ _ => rfl) fun _ _ => rfl
  | drop t j =>
    simp only [Streams.step, Option.ite_none_right_eq_some, Option.some.injEq] at hs
    obtain ⟨⟨-, hj⟩, rfl⟩ := hs
    exact h.drop (Option.isSome_of_any hj)
  | manage t => exact h.manage hM hs

/-- Nothing that stream `j` could notice happened. -/
def Same (s s' : Streams τ) (j : UInt32) : Prop :=
  s'.rt.task j = s.rt.task j ∧ s'.rt.streams.wakers j = s.rt.streams.wakers j ∧
    s'.rt.streams.keepStreamsRunning j = s.rt.streams.keepStreamsRunning j

/-- A creation that takes a vacant id, or panics, leaves the rest of the manager as it was. -/
theorem goOn_of_createTake (ht : s.managing t = .createTake) (hs : s.manage M t = some s') :
    ∃ m, s' = s.goOn t m (s.rt.streams.takeVacant M).1 := by
  simp only [Streams.manage, ht] at hs
  rcases htake : s.rt.streams.takeVacant M with ⟨streams, _ | id⟩ <;> rw [htake] at hs <;> cases hs <;> exact ⟨_, rfl⟩

theorem manage_task (h : Ok M s) (hs : s.manage M t = some s') {j : UInt32} (hj : (s'.rt.task j).isSome) :
    (s.rt.task j = none ∧ s'.rt.task j = some .fresh) ∨ Same s s' j := by
  cases ht : s.managing t with
  | idle => simp [Streams.manage, ht] at hs
  | panicked => simp [Streams.manage, ht] at hs
  | createTake =>
    obtain ⟨m, rfl⟩ := goOn_of_createTake ht hs
    exact .inr ⟨rfl, rfl, rfl⟩
  | createSync id =>
    simp only [Streams.manage, ht, Option.some.injEq] at hs
    subst hs
    by_cases hji : j = id
    · subst hji; exact .inl ⟨h.task t j (by rw [ht]; rfl), Function.update_self ..⟩
    · exact .inr ⟨Function.update_of_ne hji _ _, rfl, rfl⟩
  | createKeep id =>
    simp only [Streams.manage, ht, Option.some.injEq] at hs
    subst hs
    have hne : j ≠ id := h.ne_of_holds (t := t) (by rw [ht]; rfl) hj
    exact .inr ⟨rfl, rfl, Function.update_of_ne hne _ _⟩
  | dropClear id =>
    simp only [Streams.manage, ht, Option.some.injEq] at hs
    subst hs
    have hne : j ≠ id := h.ne_of_holds (t := t) (by rw [ht]; rfl) hj
    exact .inr ⟨rfl, Function.update_of_ne hne _ _, rfl⟩
  | createIncUsed | dropIncFinished id | dropDecUsed id | dropGive id | dropSync =>
    simp only [Streams.manage, ht, Option.some.injEq] at hs
    subst hs
    exact .inr ⟨rfl, rfl, rfl⟩

/-- A stream that exists after a step was just born or did not notice the step. -/
theorem step_task {l : Label τ} (h : Ok M s) (hs : s.step M l = some s') {j : UInt32} (hj : (s'.rt.task j).isSome) :
    (s.rt.task j = none ∧ s'.rt.task j = some .fresh) ∨ Same s s' j := by
  cases l with
  | create t =>
    simp only [Streams.step, Option.ite_none_right_eq_some, Option.some.injEq] at hs
    obtain ⟨-, rfl⟩ := hs
    exact .inr ⟨rfl, rfl, rfl⟩
  | drop t i =>
    simp only [Streams.step, Option.ite_none_right_eq_some, Option.some.injEq] at hs
    obtain ⟨-, rfl⟩ := hs
    refine .inr ⟨Function.update_of_ne ?_ _ _, rfl, rfl⟩
    rintro rfl
    change (Function.update s.rt.task j none j).isSome at hj
    rw [Function.update_self] at hj
    cases hj
  | manage t => exact h.manage_task hs hj

end Ok
end Streams
end Mutiny
