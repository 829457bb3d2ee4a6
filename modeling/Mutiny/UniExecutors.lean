import Mutiny.Lib.Machine
import Mutiny.Lib.Tally
import Mutiny.SyncedStreams

/-!
# The executors of a `Uni`

The functions of `uni/uni.rs` that spawn the executors make one more of them than there are streams: they count through
`0..=in_streams.len()`. The pairs of executors and streams are as many as the streams, and so are the calls the latch
waits for; the last executor is never started (`spawn_mismatch`). Of the other ones the latch calls `on_close_callback`
once, after all of them have ended (`latch_sound`).

`step` is what a spawned task does up to its next access to something shared. What it does with the items of its stream
is left out, it may go on for ever.
-/

namespace Mutiny.UniExecutors

abbrev Duration := Nat

inductive ExecutorStatus
  | notStarted
  | running
  | scheduledToFinish
  | programmaticallyEnded
  | streamEnded
deriving DecidableEq

structure StreamExecutor where
  executorName : String
  futuresTimeout : Duration
  executorStatus : ExecutorStatus
deriving DecidableEq

namespace StreamExecutor

def withFuturesTimeout (executorName : String) (futuresTimeout : Duration) : StreamExecutor :=
  ⟨executorName, futuresTimeout, .notStarted⟩

def new (executorName : String) : StreamExecutor := withFuturesTimeout executorName 0

def registerExecutionStart (e : StreamExecutor) : StreamExecutor := { e with executorStatus := .running }

/-- `none` while its loop goes on. -/
def registerExecutionFinish (e : StreamExecutor) : Option StreamExecutor :=
  match e.executorStatus with
  | .running => some { e with executorStatus := .streamEnded }
  | .scheduledToFinish => some { e with executorStatus := .programmaticallyEnded }
  | _ => none

def Ended (e : StreamExecutor) : Prop := e.executorStatus = .programmaticallyEnded ∨ e.executorStatus = .streamEnded

instance (e : StreamExecutor) : Decidable e.Ended := inferInstanceAs (Decidable (_ ∨ _))

end StreamExecutor

structure UniChannel where
  name : String
  streamsManager : StreamsManagerBase

namespace UniChannel

def new (M : Nat) (name : String) : UniChannel := ⟨name, .new M⟩

/-- `create_stream()`; `none` when it panics. A stream is known by its id. -/
def createStream (M : Nat) (c : UniChannel) : Option (UniChannel × UInt32) :=
  (c.streamsManager.createStreamId M).map fun (sm, streamId) => ({ c with streamsManager := sm }, streamId)

end UniChannel

structure Uni where
  channel : UniChannel
  streamExecutors : List StreamExecutor
  finishedExecutorsCount : UInt32

namespace Uni

/-- A `Uni` whose executors are not spawned yet. -/
def ofChannel (channel : UniChannel) : Uni := ⟨channel, [], 0⟩

def new (M : Nat) (uniName : String) : Uni := ofChannel (.new M uniName)

/-- `k` streams more -/
def createStreams (M : Nat) : Nat → UniChannel → Option (UniChannel × List UInt32)
  | 0, c => some (c, [])
  | k + 1, c => do
    let (c, stream) ← c.createStream M
    let (c, streams) ← createStreams M k c
    return (c, stream :: streams)

def consumerStreamInternal (M : Nat) (uni : Uni) : Option (Uni × List UInt32) :=
  (createStreams M M uni.channel).map fun (channel, streams) => ({ uni with channel }, streams)

end Uni

/-- Where a task is: in `streamEnded` it is about to increment `finished_executors_count`, in `counted` to decrement the
counter of the latch, in `locking` it waits for the callback and in `calling` for the future the callback returned. -/
inductive Phase
  | spawned
  | running
  | streamEnded
  | counted
  | locking
  | calling
  | ended
  | panicked
deriving DecidableEq

/-- The task of the executor at that index of `stream_executors` and its stream. -/
structure Task where
  executor : Nat
  inStream : UInt32
  phase : Phase
deriving DecidableEq

/-- `asyncCallback` is whether the mutex still holds `on_close_callback`, which has been called with `closedWith`. -/
structure Spawned where
  uni : Uni
  inStreams : List UInt32
  tasks : List Task
  latchCounter : UInt32
  asyncCallback : Bool
  locked : Bool
  closedWith : List Nat

def pipelineName (i : Nat) (channelName : String) : String := s!"Consumer #{i} for Uni '{channelName}'"

/-- What the functions that spawn executors have in common. -/
def spawnWith (newExecutor : String → StreamExecutor) (M : Nat) (uni : Uni) : Option Spawned := do
  let (uni, inStreams) ← uni.consumerStreamInternal M
  -- `0..=in_streams.len()`
  let executors := (List.range (inStreams.length + 1)).map fun i => newExecutor (pipelineName i uni.channel.name)
  let uni := { uni with streamExecutors := uni.streamExecutors ++ executors }
  let tasks := ((List.range uni.streamExecutors.length).zip inStreams).map fun (i, stream) => ⟨i, stream, .spawned⟩
  return { uni, inStreams, tasks, latchCounter := UInt32.ofNat M, asyncCallback := true, locked := false,
           closedWith := [] }

section Calls
variable (M : Nat) (uni : Uni) (futuresTimeout : Duration)

def spawnExecutors : Option Spawned := spawnWith (.withFuturesTimeout · futuresTimeout) M uni

def spawnFalliblesExecutors : Option Spawned := spawnWith .new M uni

def spawnFuturesExecutors : Option Spawned := spawnWith (.withFuturesTimeout · futuresTimeout) M uni

def spawnNonFuturesNonFalliblesExecutors : Option Spawned := spawnWith .new M uni

end Calls

inductive SpawnCall
  | spawnExecutors (futuresTimeout : Duration)
  | spawnFalliblesExecutors
  | spawnFuturesExecutors (futuresTimeout : Duration)
  | spawnNonFuturesNonFalliblesExecutors

def SpawnCall.perform (M : Nat) (uni : Uni) : SpawnCall → Option Spawned
  | .spawnExecutors futuresTimeout => UniExecutors.spawnExecutors M uni futuresTimeout
  | .spawnFalliblesExecutors => UniExecutors.spawnFalliblesExecutors M uni
  | .spawnFuturesExecutors futuresTimeout => UniExecutors.spawnFuturesExecutors M uni futuresTimeout
  | .spawnNonFuturesNonFalliblesExecutors => UniExecutors.spawnNonFuturesNonFalliblesExecutors M uni

/-- The executor that such a function makes. -/
def SpawnCall.newExecutor : SpawnCall → String → StreamExecutor
  | .spawnExecutors futuresTimeout | .spawnFuturesExecutors futuresTimeout => (.withFuturesTimeout · futuresTimeout)
  | .spawnFalliblesExecutors | .spawnNonFuturesNonFalliblesExecutors => .new

theorem SpawnCall.perform_eq (call : SpawnCall) (M : Nat) (uni : Uni) :
    call.perform M uni = spawnWith call.newExecutor M uni := by
  cases call <;> rfl

namespace Spawned

def setPhase (s : Spawned) (i : Nat) (t : Task) (phase : Phase) : Spawned :=
  { s with tasks := s.tasks.set i { t with phase } }

def setExecutor (s : Spawned) (i : Nat) (e : StreamExecutor) : Spawned :=
  { s with uni := { s.uni with streamExecutors := s.uni.streamExecutors.set i e } }

def incFinished (s : Spawned) : Spawned :=
  { s with uni := { s.uni with finishedExecutorsCount := s.uni.finishedExecutorsCount + 1 } }

/-- The mutex is locked and the callback taken out of it; the `expect` panics when there is none. -/
def callBack (s : Spawned) (i : Nat) (t : Task) : Spawned :=
  if s.asyncCallback then
    { s with asyncCallback := false, locked := true, closedWith := s.closedWith ++ [t.executor] }.setPhase i t .calling
  else s.setPhase i t .panicked

def step (s : Spawned) (i : Nat) : Option Spawned := do
  let t ← s.tasks[i]?
  match t.phase with
  | .spawned =>
    let e ← s.uni.streamExecutors[t.executor]?
    some ((s.setExecutor t.executor e.registerExecutionStart).setPhase i t .running)
  | .running =>
    let e ← s.uni.streamExecutors[t.executor]?
    let e ← e.registerExecutionFinish
    some ((s.setExecutor t.executor e).setPhase i t .streamEnded)
  | .streamEnded => some (s.incFinished.setPhase i t .counted)
  | .counted =>
    some ({ s with latchCounter := s.latchCounter - 1 }.setPhase i t (if s.latchCounter = 1 then .locking else .ended))
  | .locking => if s.locked then none else some (s.callBack i t)
  | .calling => some ({ s with locked := false }.setPhase i t .ended)
  | .ended | .panicked => none

/-- A run of the spawned tasks, in any order. -/
abbrev Steps : Spawned → Spawned → Prop := Machine.Steps step fun _ _ _ => True

/-- The executor at index `i` has the task of that stream. -/
def BoundTo (s : Spawned) (i : Nat) (stream : UInt32) : Prop := ∃ t ∈ s.tasks, t.executor = i ∧ t.inStream = stream

def OneToOne (s : Spawned) : Prop :=
  (∀ i < s.uni.streamExecutors.length, ∃! stream, s.BoundTo i stream) ∧
  ∀ stream ∈ s.inStreams, ∃! i, i < s.uni.streamExecutors.length ∧ s.BoundTo i stream

def AllTasksEnded (s : Spawned) : Prop := ∀ t ∈ s.tasks, t.phase = .ended

/-- How many tasks are in a phase that counts. -/
def count (w : Phase → Nat) (s : Spawned) : Nat := (s.tasks.map fun t => w t.phase).sum

end Spawned

/-! ### What is spawned -/

section Streams
variable {M k : Nat} {sm sm' : StreamsManagerBase} {c c' : UniChannel} {streams : List UInt32} {streamId : UInt32}

theorem createStreamId_isSome_iff : (sm.createStreamId M).isSome ↔
    0 < sm.vacantStreams.len ∧ sm.vacantStreams.len < 2 ^ 31 := by
  rw [← FullSyncMove.zero_lt_count_iff]
  unfold StreamsManagerBase.createStreamId StreamsManagerBase.takeVacant StreamsManagerBase.incUsed
    StreamsManagerBase.incCreated FullSyncMove.consumeMovable
  by_cases h : 0 < sm.vacantStreams.availableElementsCount.toInt32 <;> simp [h]

theorem createStreamId_len (h : sm.createStreamId M = some (sm', streamId)) :
    sm'.vacantStreams.len + 1 = sm.vacantStreams.len := by
  have hpos := createStreamId_isSome_iff.mp (Option.isSome_of_eq_some h)
  have hlt := (FullSyncMove.zero_lt_count_iff _).mpr hpos
  unfold StreamsManagerBase.createStreamId StreamsManagerBase.takeVacant StreamsManagerBase.incUsed
    StreamsManagerBase.incCreated FullSyncMove.consumeMovable at h
  simp only [hlt, if_true, Option.some.injEq, Prod.mk.injEq] at h
  obtain ⟨rfl, -⟩ := h
  exact FullSyncMove.len_succ_head hpos.1

theorem createStream_eq_some (h : c.createStream M = some (c', streamId)) :
    c.streamsManager.createStreamId M = some (c'.streamsManager, streamId) := by
  unfold UniChannel.createStream at h
  rw [Option.map_eq_some_iff] at h
  obtain ⟨⟨sm, id⟩, h, heq⟩ := h
  cases heq
  exact h

theorem createStreams_succ (h : Uni.createStreams M (k + 1) c = some (c', streams)) :
    ∃ c₁ streamId rest, c.createStream M = some (c₁, streamId) ∧ Uni.createStreams M k c₁ = some (c', rest) ∧
      streams = streamId :: rest := by
  rw [Uni.createStreams, Option.bind_eq_bind, Option.bind_eq_some_iff] at h
  obtain ⟨⟨c₁, streamId⟩, h₁, h⟩ := h
  rw [Option.bind_eq_bind, Option.bind_eq_some_iff] at h
  obtain ⟨⟨c₂, rest⟩, h₂, h⟩ := h
  cases h
  exact ⟨c₁, streamId, rest, h₁, h₂, rfl⟩

theorem length_createStreams (h : Uni.createStreams M k c = some (c', streams)) : streams.length = k := by
  induction k generalizing c streams with
  | zero => cases h; rfl
  | succ k ih =>
    obtain ⟨c₁, streamId, rest, -, hrest, rfl⟩ := createStreams_succ h
    rw [List.length_cons, ih hrest]

theorem createStreams_isSome_iff : (Uni.createStreams M k c).isSome ↔
    k = 0 ∨ k ≤ c.streamsManager.vacantStreams.len ∧ c.streamsManager.vacantStreams.len < 2 ^ 31 := by
  induction k generalizing c with
  | zero => simp [Uni.createStreams]
  | succ k ih =>
    cases hc : c.createStream M with
    | none =>
      have hnone : ¬ (c.streamsManager.createStreamId M).isSome := by
        unfold UniChannel.createStream at hc
        rw [Option.map_eq_none_iff] at hc
        simp [hc]
      rw [createStreamId_isSome_iff] at hnone
      simp only [Uni.createStreams, hc, Option.bind_eq_bind, Option.bind_none, Option.isSome_none]
      simp only [Bool.false_eq_true, Nat.add_eq_zero_iff, one_ne_zero, and_false, false_or, false_iff]
      omega
    | some r =>
      obtain ⟨c₁, streamId⟩ := r
      have hsm := createStream_eq_some hc
      have hlen := createStreamId_len hsm
      have hpos := createStreamId_isSome_iff.mp (Option.isSome_of_eq_some hsm)
      have hrest : (Uni.createStreams M (k + 1) c).isSome = (Uni.createStreams M k c₁).isSome := by
        simp only [Uni.createStreams, hc, Option.bind_eq_bind, Option.bind_some]
        cases Uni.createStreams M k c₁ <;> rfl
      rw [hrest, ih]
      omega

/-- The streams of a synchronised manager differ from each other. -/
theorem nodup_createStreams (hM : Ring.PowerOfTwo M) (hc : c.streamsManager.Synced M)
    (h : Uni.createStreams M k c = some (c', streams)) :
    streams.Nodup ∧ ∀ x ∈ streams, x ∉ c.streamsManager.inUse M := by
  induction k generalizing c streams with
  | zero => cases h; simp
  | succ k ih =>
    obtain ⟨c₁, streamId, rest, h₁, h₂, rfl⟩ := createStreams_succ h
    obtain ⟨hs, hnew, hmem⟩ := hc.create hM (createStream_eq_some h₁)
    obtain ⟨hnd, hrest⟩ := ih hs h₂
    have hne : ∀ x ∈ rest, x ≠ streamId ∧ x ∉ c.streamsManager.inUse M := by
      intro x hx
      have := hrest x hx
      rw [hmem] at this
      tauto
    refine ⟨List.nodup_cons.mpr ⟨fun hx => (hne _ hx).1 rfl, hnd⟩, ?_⟩
    rintro x (_ | ⟨_, hx⟩)
    · exact hnew
    · exact (hne x hx).2

end Streams

section Vacant
variable {M : Nat}

theorem len_foldl_publish {q : FullSyncMove UInt32} {l : List UInt32} (hM : M < 2 ^ 31) (h : q.len + l.length ≤ M) :
    (l.foldl (fun q streamId => (q.publishMovable M streamId).1) q).len = q.len + l.length := by
  induction l generalizing q with
  | nil => rfl
  | cons x l ih =>
    rw [List.length_cons] at h
    have hroom : q.len < Ring.room M := by
      show q.len < (UInt32.ofNat M).toNat
      rw [Wrap.toNat_ofNat_of_lt (by omega)]
      omega
    have hlen : (q.publishMovable M x).1.len = q.len + 1 := by
      simp only [FullSyncMove.publishMovable, FullSyncMove.leakSlot_eq, if_pos hroom]
      exact FullSyncMove.len_succ_tail (by omega) _
    rw [List.foldl_cons, ih (by omega), hlen, List.length_cons]
    omega

theorem vacant_len_new (hM : M < 2 ^ 31) : (StreamsManagerBase.new M).vacantStreams.len = M := by
  have hlen : (idRange 0 (UInt32.ofNat M)).length = M := by
    rw [length_idRange, Wrap.toNat_ofNat_of_lt (by omega)]
    rfl
  have h := len_foldl_publish (q := .withInitializer fun _ => 0) hM (l := idRange 0 (UInt32.ofNat M)) (by
    rw [hlen]
    exact Nat.le_of_eq (Nat.zero_add M))
  exact h.trans (by rw [hlen]; exact Nat.zero_add M)

end Vacant

namespace Phase

/-- Whether `finished_executors_count` has been incremented .. -/
def hasCounted : Phase → Nat
  | spawned | running | streamEnded => 0
  | _ => 1

/-- .. and the counter of the latch decremented. -/
def hasLatched : Phase → Nat
  | spawned | running | streamEnded | counted => 0
  | _ => 1

def waits : Phase → Nat
  | locking => 1
  | _ => 0

def calls : Phase → Nat
  | calling => 1
  | _ => 0

def panics : Phase → Nat
  | panicked => 1
  | _ => 0

def executorStatus : Phase → ExecutorStatus
  | spawned => .notStarted
  | running => .running
  | _ => .streamEnded

theorem hasCounted_le (p : Phase) : p.hasCounted ≤ 1 := by cases p <;> decide

theorem hasLatched_le (p : Phase) : p.hasLatched ≤ 1 := by cases p <;> decide

end Phase

namespace Spawned
variable {M i : Nat} {s s' s₀ : Spawned} {t : Task} {p : Phase}

def statuses (s : Spawned) : List ExecutorStatus := s.uni.streamExecutors.map StreamExecutor.executorStatus

theorem statuses_setExecutor (s : Spawned) (i : Nat) (e : StreamExecutor) :
    (s.setExecutor i e).statuses = s.statuses.set i e.executorStatus := List.map_set

theorem step_cases (h : s.step i = some s') : ∃ t, s.tasks[i]? = some t ∧
    ((t.phase = .spawned ∧ ∃ e, s.uni.streamExecutors[t.executor]? = some e ∧
        s' = (s.setExecutor t.executor e.registerExecutionStart).setPhase i t .running) ∨
      (t.phase = .running ∧ ∃ e e', s.uni.streamExecutors[t.executor]? = some e ∧
        e.registerExecutionFinish = some e' ∧ s' = (s.setExecutor t.executor e').setPhase i t .streamEnded) ∨
      (t.phase = .streamEnded ∧ s' = s.incFinished.setPhase i t .counted) ∨
      (t.phase = .counted ∧ s' = { s with latchCounter := s.latchCounter - 1 }.setPhase i t
        (if s.latchCounter = 1 then .locking else .ended)) ∨
      (t.phase = .locking ∧ s.locked = false ∧ s' = s.callBack i t) ∨
      t.phase = .calling ∧ s' = { s with locked := false }.setPhase i t .ended) := by
  unfold step at h
  rw [Option.bind_eq_bind, Option.bind_eq_some_iff] at h
  obtain ⟨t, ht, h⟩ := h
  refine ⟨t, ht, ?_⟩
  cases hp : t.phase with
  | spawned =>
    simp only [hp, Option.bind_eq_bind, Option.bind_eq_some_iff, Option.some.injEq] at h
    obtain ⟨e, he, rfl⟩ := h
    exact .inl ⟨rfl, e, he, rfl⟩
  | running =>
    simp only [hp, Option.bind_eq_bind, Option.bind_eq_some_iff, Option.some.injEq] at h
    obtain ⟨e, he, e', he', rfl⟩ := h
    exact .inr (.inl ⟨rfl, e, e', he, he', rfl⟩)
  | streamEnded =>
    simp only [hp, Option.some.injEq] at h
    exact .inr (.inr (.inl ⟨rfl, h.symm⟩))
  | counted =>
    simp only [hp, Option.some.injEq] at h
    exact .inr (.inr (.inr (.inl ⟨rfl, h.symm⟩)))
  | locking =>
    cases hl : s.locked <;> simp [hp, hl] at h
    exact .inr (.inr (.inr (.inr (.inl ⟨rfl, rfl, h.symm⟩))))
  | calling =>
    simp only [hp, Option.some.injEq] at h
    exact .inr (.inr (.inr (.inr (.inr ⟨rfl, h.symm⟩))))
  | ended => simp [hp] at h
  | panicked => simp [hp] at h

/-! ### The executors and the streams -/

/-- The task at an index has the executor and the stream at that index; the last executor has no task. -/
structure Bound (M : Nat) (s : Spawned) : Prop where
  executors : s.statuses.length = M + 1
  tasks : s.tasks.length = M
  inStreams : s.inStreams.length = M
  task : ∀ (i : Nat) (t : Task), s.tasks[i]? = some t →
    t.executor = i ∧ s.inStreams[i]? = some t.inStream ∧ s.statuses[i]? = some t.phase.executorStatus
  last : s.statuses[M]? = some .notStarted

theorem Bound.lt (h : Bound M s) (ht : s.tasks[i]? = some t) : i < M := by
  rw [← h.tasks]
  exact (List.getElem?_eq_some_iff.mp ht).1

theorem Bound.update (h : Bound M s) (ht : s.tasks[i]? = some t)
    (htasks : s'.tasks = s.tasks.set i { t with phase := p })
    (hin : s'.inStreams = s.inStreams) (hst : s'.statuses = s.statuses.set i p.executorStatus) : Bound M s' := by
  have hi := h.lt ht
  have hlen := h.tasks
  have hst' := h.executors
  refine ⟨by rw [hst, List.length_set, hst'], by rw [htasks, List.length_set, hlen], by rw [hin, h.inStreams], ?_, ?_⟩
  · intro j u hu
    rw [htasks, List.getElem?_set] at hu
    rw [hin, hst, List.getElem?_set]
    by_cases hij : i = j
    · subst hij
      rw [if_pos rfl, if_pos (by omega)] at hu
      cases hu
      rw [if_pos rfl, if_pos (by omega)]
      obtain ⟨h₁, h₂, -⟩ := h.task i t ht
      exact ⟨h₁, h₂, rfl⟩
    · rw [if_neg hij] at hu
      rw [if_neg hij]
      exact h.task j u hu
  · rw [hst, List.getElem?_set, if_neg (by omega)]
    exact h.last

theorem Bound.setPhase (h : Bound M s) (ht : s.tasks[i]? = some t)
    (htasks : s'.tasks = s.tasks.set i { t with phase := p })
    (hin : s'.inStreams = s.inStreams) (hst : s'.statuses = s.statuses)
    (hp : p.executorStatus = t.phase.executorStatus) : Bound M s' := by
  refine h.update ht htasks hin ?_
  obtain ⟨hlt, heq⟩ := List.getElem?_eq_some_iff.mp (h.task i t ht).2.2
  rw [hst, hp, ← heq, List.set_getElem_self]

theorem Bound.step (h : Bound M s) (hs : s.step i = some s') : Bound M s' := by
  obtain ⟨t, ht, hcases⟩ := step_cases hs
  obtain ⟨hexec, -, hstatus⟩ := h.task i t ht
  rcases hcases with ⟨-, e, he, rfl⟩ | ⟨hp, e, e', he, he', rfl⟩ | ⟨hp, rfl⟩ | ⟨hp, rfl⟩ | ⟨hp, -, rfl⟩ | ⟨hp, rfl⟩
  · refine h.update (p := .running) ht rfl rfl ?_
    exact (statuses_setExecutor ..).trans (by rw [hexec]; rfl)
  · have hrun : e.executorStatus = .running := by
      rw [hexec] at he
      rw [statuses, List.getElem?_map, he, hp] at hstatus
      exact Option.some.inj hstatus
    rw [StreamExecutor.registerExecutionFinish, hrun] at he'
    cases he'
    refine h.update (p := .streamEnded) ht rfl rfl ?_
    exact (statuses_setExecutor ..).trans (by rw [hexec]; rfl)
  · exact h.setPhase ht rfl rfl rfl (by rw [hp]; rfl)
  · refine h.setPhase ht rfl rfl rfl ?_
    rw [hp]
    split <;> rfl
  · unfold callBack
    split
    · exact h.setPhase (p := .calling) ht rfl rfl rfl (by rw [hp]; rfl)
    · exact h.setPhase ht rfl rfl rfl (by rw [hp]; rfl)
  · exact h.setPhase (p := .ended) ht rfl rfl rfl (by rw [hp]; rfl)

/-! ### The latch -/

theorem count_update (w : Phase → Nat) (ht : s.tasks[i]? = some t)
    (htasks : s'.tasks = s.tasks.set i { t with phase := p }) :
    s'.count w + w t.phase = s.count w + w p := by
  unfold count
  rw [htasks]
  exact Tally.sum_set (w := fun t => w t.phase) ht { t with phase := p }

theorem count_of_phase (w : Phase → Nat) (h : ∀ t ∈ s.tasks, t.phase = p) : s.count w = s.tasks.length * w p := by
  have : s.tasks.map (fun t => w t.phase) = s.tasks.map fun _ => w p := List.map_congr_left fun t ht => by rw [h t ht]
  rw [count, this, List.map_const', List.sum_replicate, smul_eq_mul]

theorem count_le {w : Phase → Nat} (hw : ∀ p, w p ≤ 1) (s : Spawned) : s.count w ≤ s.tasks.length :=
  Tally.sum_le_length fun t => hw t.phase

theorem count_lt {w : Phase → Nat} (hw : ∀ p, w p ≤ 1) (ht : s.tasks[i]? = some t) (h0 : w t.phase = 0) :
    s.count w < s.tasks.length := by
  refine Nat.lt_of_le_of_ne (count_le hw s) fun heq => ?_
  have hone := Tally.eq_one_of_sum (w := fun t : Task => w t.phase) (fun t => hw t.phase) heq t (List.mem_of_getElem? ht)
  rw [h0] at hone
  cases hone

theorem le_count (w : Phase → Nat) (ht : s.tasks[i]? = some t) : w t.phase ≤ s.count w :=
  List.le_sum_of_mem (List.mem_map_of_mem (f := fun t : Task => w t.phase) (List.mem_of_getElem? ht))

/-- The last task to decrement the counter is the one that calls the callback. -/
structure Latch (M : Nat) (s : Spawned) : Prop where
  tasks : s.tasks.length = M
  lt : M < 2 ^ 31
  finished : s.uni.finishedExecutorsCount.toNat = s.count Phase.hasCounted
  counter : s.latchCounter.toNat + s.count Phase.hasLatched = M
  callback : s.count Phase.waits + s.closedWith.length = if s.latchCounter = 0 then 1 else 0
  taken : s.asyncCallback = s.closedWith.isEmpty
  locked : s.count Phase.calls = s.locked.toNat
  panicked : s.count Phase.panics = 0

/-- What a step adds to the counts, its task adds by going on to its next phase. -/
theorem Latch.update (h : Latch M s) (ht : s.tasks[i]? = some t)
    (htasks : s'.tasks = s.tasks.set i { t with phase := p })
    (hfin : s'.uni.finishedExecutorsCount.toNat + t.phase.hasCounted =
      s.uni.finishedExecutorsCount.toNat + p.hasCounted)
    (hcounter : s'.latchCounter.toNat + p.hasLatched = s.latchCounter.toNat + t.phase.hasLatched)
    (hcallback : p.waits + s'.closedWith.length + (if s.latchCounter = 0 then 1 else 0) =
      t.phase.waits + s.closedWith.length + if s'.latchCounter = 0 then 1 else 0)
    (htaken : s'.asyncCallback = s'.closedWith.isEmpty)
    (hlocked : s'.locked.toNat + t.phase.calls = s.locked.toNat + p.calls)
    (hpanics : p.panics = t.phase.panics) : Latch M s' := by
  have hcounted := count_update Phase.hasCounted ht htasks
  have hlatched := count_update Phase.hasLatched ht htasks
  have hwaits := count_update Phase.waits ht htasks
  have hcalls := count_update Phase.calls ht htasks
  have hpanicked := count_update Phase.panics ht htasks
  have hf := h.finished
  have hc := h.counter
  have hcb := h.callback
  have hl := h.locked
  have hpn := h.panicked
  refine ⟨by rw [htasks, List.length_set, h.tasks], h.lt, ?_, ?_, ?_, htaken, ?_, ?_⟩ <;> omega

theorem Latch.incFinished (h : Latch M s) (ht : s.tasks[i]? = some t) (hp : t.phase = .streamEnded) :
    Latch M (s.incFinished.setPhase i t .counted) := by
  have hlt := count_lt Phase.hasCounted_le ht (by rw [hp]; rfl)
  have hsucc : (s.uni.finishedExecutorsCount + 1).toNat = s.uni.finishedExecutorsCount.toNat + 1 := by
    have := h.finished
    have := h.tasks
    have := h.lt
    rw [UInt32.toNat_add, UInt32.toNat_one]
    omega
  refine h.update (p := .counted) ht rfl ?_ ?_ ?_ h.taken ?_ ?_
  all_goals rw [hp]
  · exact hsucc
  · rfl
  · rfl
  · rfl
  · rfl

theorem Latch.toNat_pred (h : Latch M s) (ht : s.tasks[i]? = some t) (hp : t.phase = .counted) :
    (s.latchCounter - 1).toNat + 1 = s.latchCounter.toNat := by
  have hlt := count_lt Phase.hasLatched_le ht (by rw [hp]; rfl)
  have := h.counter
  have := h.tasks
  have := s.latchCounter.toNat_lt
  rw [UInt32.toNat_sub, UInt32.toNat_one]
  omega

theorem Latch.decrement (h : Latch M s) (ht : s.tasks[i]? = some t) (hp : t.phase = .counted) :
    Latch M ({ s with latchCounter := s.latchCounter - 1 }.setPhase i t
      (if s.latchCounter = 1 then .locking else .ended)) := by
  have hpred := h.toNat_pred ht hp
  have hne : s.latchCounter ≠ 0 := by
    intro h0
    rw [h0, UInt32.toNat_zero] at hpred
    omega
  by_cases hone : s.latchCounter = 1
  · have hzero : s.latchCounter - 1 = 0 := by rw [hone]; rfl
    rw [if_pos hone]
    refine h.update (p := .locking) ht rfl ?_ ?_ ?_ h.taken ?_ ?_
    all_goals rw [hp]
    · rfl
    · exact hpred
    · show 1 + s.closedWith.length + (if s.latchCounter = 0 then 1 else 0) =
        0 + s.closedWith.length + if s.latchCounter - 1 = 0 then 1 else 0
      rw [if_neg hne, if_pos hzero]
      omega
    · rfl
    · rfl
  · have hnz : s.latchCounter - 1 ≠ 0 := by
      intro h0
      rw [h0, UInt32.toNat_zero] at hpred
      exact hone (UInt32.toNat_inj.mp hpred.symm)
    rw [if_neg hone]
    refine h.update (p := .ended) ht rfl ?_ ?_ ?_ h.taken ?_ ?_
    all_goals rw [hp]
    · rfl
    · exact hpred
    · show 0 + s.closedWith.length + (if s.latchCounter = 0 then 1 else 0) =
        0 + s.closedWith.length + if s.latchCounter - 1 = 0 then 1 else 0
      rw [if_neg hne, if_neg hnz]
    · rfl
    · rfl

theorem Latch.closed_nil (h : Latch M s) (ht : s.tasks[i]? = some t) (hp : t.phase = .locking) : s.closedWith = [] := by
  have hwaits := le_count Phase.waits ht
  rw [hp] at hwaits
  have hpos : 1 ≤ s.count Phase.waits := hwaits
  have hcallback := h.callback
  rw [← List.length_eq_zero_iff]
  split at hcallback <;> omega

theorem Latch.callBack (h : Latch M s) (ht : s.tasks[i]? = some t) (hp : t.phase = .locking) (hl : s.locked = false) :
    Latch M (s.callBack i t) := by
  have hclosed := h.closed_nil ht hp
  have hasync : s.asyncCallback = true := by rw [h.taken, hclosed]; rfl
  unfold Spawned.callBack
  rw [if_pos hasync, hclosed]
  refine h.update (p := .calling) ht rfl ?_ ?_ ?_ rfl ?_ ?_
  all_goals rw [hp]
  · rfl
  · rfl
  · rw [hclosed]
    rfl
  · rw [hl]
    rfl
  · rfl

theorem Latch.unlock (h : Latch M s) (ht : s.tasks[i]? = some t) (hp : t.phase = .calling) :
    Latch M ({ s with locked := false }.setPhase i t .ended) := by
  have hcalls := le_count Phase.calls ht
  rw [h.locked, hp] at hcalls
  have hlocked : s.locked.toNat = 1 := Nat.le_antisymm (Bool.toNat_le _) hcalls
  refine h.update (p := .ended) ht rfl ?_ ?_ ?_ h.taken ?_ ?_
  all_goals rw [hp]
  · rfl
  · rfl
  · rfl
  · rw [hlocked]
    rfl
  · rfl

theorem Latch.step (h : Latch M s) (hs : s.step i = some s') : Latch M s' := by
  obtain ⟨t, ht, hcases⟩ := step_cases hs
  rcases hcases with ⟨hp, e, -, rfl⟩ | ⟨hp, e, e', -, -, rfl⟩ | ⟨hp, rfl⟩ | ⟨hp, rfl⟩ | ⟨hp, hl, rfl⟩ | ⟨hp, rfl⟩
  · refine h.update (p := .running) ht rfl ?_ ?_ ?_ h.taken ?_ ?_ <;> rw [hp] <;> rfl
  · refine h.update (p := .streamEnded) ht rfl ?_ ?_ ?_ h.taken ?_ ?_ <;> rw [hp] <;> rfl
  · exact h.incFinished ht hp
  · exact h.decrement ht hp
  · exact h.callBack ht hp hl
  · exact h.unlock ht hp

theorem step_inStreams (hs : s.step i = some s') : s'.inStreams = s.inStreams := by
  obtain ⟨t, -, hcases⟩ := step_cases hs
  rcases hcases with ⟨-, e, -, rfl⟩ | ⟨-, e, e', -, -, rfl⟩ | ⟨-, rfl⟩ | ⟨-, rfl⟩ | ⟨-, -, rfl⟩ | ⟨-, rfl⟩
  · rfl
  · rfl
  · rfl
  · rfl
  · unfold callBack
    split <;> rfl
  · rfl

/-! ### What is spawned matches but for one executor -/

theorem Bound.not_oneToOne (h : Bound M s) : ¬ s.OneToOne := by
  intro hone
  have hlen : s.uni.streamExecutors.length = M + 1 := by
    rw [← h.executors, statuses, List.length_map]
  obtain ⟨stream, ⟨t, ht, hexec, -⟩, -⟩ := hone.1 M (by omega)
  obtain ⟨i, hi⟩ := List.mem_iff_getElem?.mp ht
  have hlt := h.lt hi
  rw [(h.task i t hi).1] at hexec
  omega

theorem Bound.exists_not_ended (h : Bound M s) : ∃ e ∈ s.uni.streamExecutors, ¬ e.Ended := by
  have hlast := h.last
  rw [statuses, List.getElem?_map, Option.map_eq_some_iff] at hlast
  obtain ⟨e, he, hstatus⟩ := hlast
  refine ⟨e, List.mem_of_getElem? he, ?_⟩
  rw [StreamExecutor.Ended, hstatus]
  decide

theorem Bound.boundTo_iff (h : Bound M s) {stream : UInt32} : s.BoundTo i stream ↔ s.inStreams[i]? = some stream := by
  constructor
  · rintro ⟨t, ht, rfl, rfl⟩
    obtain ⟨j, hj⟩ := List.mem_iff_getElem?.mp ht
    obtain ⟨hexec, hstream, -⟩ := h.task j t hj
    rwa [hexec]
  · intro hi
    have hlt : i < s.tasks.length := by
      rw [h.tasks, ← h.inStreams]
      exact (List.getElem?_eq_some_iff.mp hi).1
    have ht := List.getElem?_eq_getElem hlt
    obtain ⟨hexec, hstream, -⟩ := h.task i _ ht
    rw [hi] at hstream
    exact ⟨_, List.mem_of_getElem? ht, hexec, (Option.some.inj hstream).symm⟩

/-- The other executors have one stream each, and every stream has one of them. -/
theorem Bound.oneToOne_of_lt (h : Bound M s) (hnd : s.inStreams.Nodup) :
    (∀ i < M, ∃! stream, s.BoundTo i stream) ∧ ∀ stream ∈ s.inStreams, ∃! i, i < M ∧ s.BoundTo i stream := by
  have hlen := h.inStreams
  constructor
  · intro i hi
    have hget := List.getElem?_eq_getElem (l := s.inStreams) (by omega : i < s.inStreams.length)
    refine ⟨_, h.boundTo_iff.mpr hget, fun stream hstream => ?_⟩
    have := h.boundTo_iff.mp hstream
    rw [hget] at this
    exact (Option.some.inj this).symm
  · intro stream hmem
    obtain ⟨i, hi⟩ := List.mem_iff_getElem?.mp hmem
    have hlt := (List.getElem?_eq_some_iff.mp hi).1
    refine ⟨i, ⟨by omega, h.boundTo_iff.mpr hi⟩, fun j hj => ?_⟩
    exact ((List.getElem?_inj hlt hnd).mp (hi.trans (h.boundTo_iff.mp hj.2).symm)).symm

theorem Latch.finished_le (h : Latch M s) : s.uni.finishedExecutorsCount.toNat ≤ M := by
  rw [h.finished, ← h.tasks]
  exact count_le Phase.hasCounted_le s

theorem Latch.closed_le (h : Latch M s) : s.closedWith.length ≤ 1 := by
  have := h.callback
  split at this <;> omega

/-- When the callback is called, all tasks have ended their executors. -/
theorem Latch.latched_of_closed (h : Latch M s) (hclosed : s.closedWith ≠ []) :
    ∀ t ∈ s.tasks, t.phase.hasLatched = 1 := by
  have hpos : s.closedWith.length ≠ 0 := by rwa [Ne, List.length_eq_zero_iff]
  have hcallback := h.callback
  have hzero : s.latchCounter = 0 := by
    by_contra hne
    rw [if_neg hne] at hcallback
    omega
  have hcounter := h.counter
  rw [hzero, UInt32.toNat_zero, Nat.zero_add, ← h.tasks] at hcounter
  exact Tally.eq_one_of_sum (w := fun t : Task => t.phase.hasLatched) (fun t => t.phase.hasLatched_le) hcounter

theorem Latch.all_ended (h : Latch M s) (hend : s.AllTasksEnded) :
    s.closedWith.length = 1 ∧ s.uni.finishedExecutorsCount.toNat = M := by
  have hall : ∀ w : Phase → Nat, s.count w = M * w .ended := by
    intro w
    rw [count_of_phase w hend, h.tasks]
  have hcounter := h.counter
  have hcallback := h.callback
  rw [hall] at hcounter hcallback
  have hzero : s.latchCounter = 0 := by
    rw [← UInt32.toNat_inj, UInt32.toNat_zero]
    have : s.latchCounter.toNat + M * 1 = M := hcounter
    omega
  rw [if_pos hzero] at hcallback
  refine ⟨?_, ?_⟩
  · have : M * 0 + s.closedWith.length = 1 := hcallback
    omega
  · rw [h.finished, hall]
    exact Nat.mul_one M

/-! ### The tasks come to their ends -/

/-- How many steps a task still takes, once its stream ends. -/
def remaining : Phase → Nat
  | .spawned => 6
  | .running => 5
  | .streamEnded => 4
  | .counted => 3
  | .locking => 2
  | .calling => 1
  | .ended | .panicked => 0

theorem step_remaining (hs : s.step i = some s') : s'.count remaining < s.count remaining := by
  obtain ⟨t, ht, hcases⟩ := step_cases hs
  suffices h : ∃ p, s'.tasks = s.tasks.set i { t with phase := p } ∧ remaining p < remaining t.phase by
    obtain ⟨p, htasks, hlt⟩ := h
    have := count_update remaining ht htasks
    omega
  rcases hcases with ⟨hp, e, -, rfl⟩ | ⟨hp, e, e', -, -, rfl⟩ | ⟨hp, rfl⟩ | ⟨hp, rfl⟩ | ⟨hp, -, rfl⟩ | ⟨hp, rfl⟩
  · exact ⟨.running, rfl, by rw [hp]; decide⟩
  · exact ⟨.streamEnded, rfl, by rw [hp]; decide⟩
  · exact ⟨.counted, rfl, by rw [hp]; decide⟩
  · refine ⟨_, rfl, ?_⟩
    rw [hp]
    split <;> decide
  · unfold callBack
    split
    · exact ⟨.calling, rfl, by rw [hp]; decide⟩
    · exact ⟨.panicked, rfl, by rw [hp]; decide⟩
  · exact ⟨.ended, rfl, by rw [hp]; decide⟩

theorem Bound.step_isSome (h : Bound M s) (ht : s.tasks[i]? = some t) (hend : t.phase ≠ .ended)
    (hpanic : t.phase ≠ .panicked) (hl : t.phase = .locking → s.locked = false) : (s.step i).isSome := by
  obtain ⟨hexec, -, hstatus⟩ := h.task i t ht
  rw [statuses, List.getElem?_map, Option.map_eq_some_iff] at hstatus
  obtain ⟨e, he, hstatus⟩ := hstatus
  cases hp : t.phase with
  | spawned => simp [Spawned.step, ht, hp, hexec, he]
  | running =>
    rw [hp] at hstatus
    have hrun : e.executorStatus = .running := hstatus
    simp [Spawned.step, ht, hp, hexec, he, StreamExecutor.registerExecutionFinish, hrun]
  | streamEnded => simp [Spawned.step, ht, hp]
  | counted => simp [Spawned.step, ht, hp]
  | locking => simp [Spawned.step, ht, hp, hl hp]
  | calling => simp [Spawned.step, ht, hp]
  | ended => exact absurd hp hend
  | panicked => exact absurd hp hpanic

theorem mem_of_count {w : Phase → Nat} (h : s.count w ≠ 0) :
    ∃ (i : Nat) (t : Task), s.tasks[i]? = some t ∧ w t.phase ≠ 0 := by
  unfold count at h
  rw [Ne, List.sum_eq_zero_iff] at h
  push Not at h
  obtain ⟨n, hn, hne⟩ := h
  obtain ⟨t, ht, rfl⟩ := List.mem_map.mp hn
  obtain ⟨i, hi⟩ := List.mem_iff_getElem?.mp ht
  exact ⟨i, t, hi, hne⟩

theorem Latch.not_panicked (h : Latch M s) (ht : s.tasks[i]? = some t) : t.phase ≠ .panicked := by
  intro hp
  have hle := le_count Phase.panics ht
  rw [h.panicked, hp] at hle
  cases hle

theorem exists_step (hb : Bound M s) (hl : Latch M s) (h : ¬ s.AllTasksEnded) : ∃ i, (s.step i).isSome := by
  cases hlocked : s.locked with
  | false =>
    unfold AllTasksEnded at h
    push Not at h
    obtain ⟨t, ht, hend⟩ := h
    obtain ⟨i, hi⟩ := List.mem_iff_getElem?.mp ht
    exact ⟨i, hb.step_isSome hi hend (hl.not_panicked hi) fun _ => hlocked⟩
  | true =>
    have hcount := hl.locked
    rw [hlocked] at hcount
    obtain ⟨i, t, hi, hcalls⟩ := mem_of_count (s := s) (w := Phase.calls) (by rw [hcount]; decide)
    have hp : t.phase = .calling := by
      cases hp : t.phase <;> simp [hp, Phase.calls] at hcalls ⊢
    exact ⟨i, hb.step_isSome hi (by rw [hp]; decide) (by rw [hp]; decide) (by rw [hp]; simp)⟩

/-- However far the tasks are, all of them can come to their ends. -/
theorem exists_allTasksEnded (hb : Bound M s) (hl : Latch M s) : ∃ s', Steps s s' ∧ s'.AllTasksEnded := by
  refine Machine.exists_steps_of_variant (I := fun s => Bound M s ∧ Latch M s) (fun s => s.count remaining)
    (fun s hI hend => ?_) ⟨hb, hl⟩
  obtain ⟨i, hi⟩ := exists_step hI.1 hI.2 hend
  obtain ⟨s', hs⟩ := Option.isSome_iff_exists.mp hi
  exact ⟨i, s', hs, trivial, ⟨hI.1.step hs, hI.2.step hs⟩, step_remaining hs⟩

end Spawned

/-! ### From the call on -/

section Runs
variable {M : Nat} {call : SpawnCall} {channel : UniChannel} {s₀ s : Spawned}

theorem perform_eq_some (h : call.perform M (.ofChannel channel) = some s₀) :
    ∃ c streams, Uni.createStreams M M channel = some (c, streams) ∧ streams.length = M ∧ s₀ =
      { uni := ⟨c, (List.range (M + 1)).map fun i => call.newExecutor (pipelineName i c.name), 0⟩
        inStreams := streams
        tasks := ((List.range (M + 1)).zip streams).map fun (i, stream) => ⟨i, stream, .spawned⟩
        latchCounter := UInt32.ofNat M
        asyncCallback := true
        locked := false
        closedWith := [] } := by
  rw [SpawnCall.perform_eq, spawnWith, Option.bind_eq_bind, Option.bind_eq_some_iff] at h
  obtain ⟨⟨uni, streams⟩, hstreams, h⟩ := h
  rw [Uni.consumerStreamInternal, Option.map_eq_some_iff] at hstreams
  obtain ⟨⟨c, streams'⟩, hc, heq⟩ := hstreams
  cases heq
  have hlen := length_createStreams hc
  refine ⟨c, streams, hc, hlen, ?_⟩
  cases h
  simp [Uni.ofChannel, hlen]

theorem zip_range_getElem? {streams : List UInt32} {i : Nat} {t : Task} (hlen : streams.length = M)
    (h : (((List.range (M + 1)).zip streams).map fun (i, stream) => (⟨i, stream, .spawned⟩ : Task))[i]? = some t) :
    i < M ∧ t.executor = i ∧ streams[i]? = some t.inStream ∧ t.phase = .spawned := by
  rw [List.getElem?_map, Option.map_eq_some_iff] at h
  obtain ⟨⟨j, stream⟩, hzip, rfl⟩ := h
  rw [List.getElem?_zip_eq_some] at hzip
  obtain ⟨hrange, hstream⟩ := hzip
  obtain ⟨hi, heq⟩ := List.getElem?_eq_some_iff.mp hrange
  obtain ⟨hi', -⟩ := List.getElem?_eq_some_iff.mp hstream
  rw [List.getElem_range] at heq
  exact ⟨by omega, heq.symm, hstream, rfl⟩

theorem bound_perform (h : call.perform M (.ofChannel channel) = some s₀) : s₀.Bound M := by
  obtain ⟨c, streams, -, hlen, rfl⟩ := perform_eq_some h
  have hst : ∀ i < M + 1,
      ((List.range (M + 1)).map fun i => (call.newExecutor (pipelineName i c.name)).executorStatus)[i]? = some .notStarted := by
    intro i hi
    rw [List.getElem?_map, List.getElem?_range hi]
    cases call <;> rfl
  refine ⟨?_, ?_, hlen, ?_, ?_⟩
  · simp [Spawned.statuses]
  · simp [hlen]
  · intro i t ht
    obtain ⟨hi, hexec, hstream, hp⟩ := zip_range_getElem? hlen ht
    refine ⟨hexec, hstream, ?_⟩
    rw [Spawned.statuses, List.map_map, hp]
    exact hst i (by omega)
  · rw [Spawned.statuses, List.map_map]
    exact hst M (by omega)

theorem lt_of_perform (h : call.perform M (.ofChannel channel) = some s₀) : M < 2 ^ 31 := by
  obtain ⟨c, streams, hc, -⟩ := perform_eq_some h
  have := createStreams_isSome_iff.mp (Option.isSome_of_eq_some hc)
  omega

theorem latch_perform (hM : 0 < M) (h : call.perform M (.ofChannel channel) = some s₀) : s₀.Latch M := by
  have hlt := lt_of_perform h
  have htasks := (bound_perform h).tasks
  have hphase : ∀ t ∈ s₀.tasks, t.phase = .spawned := by
    obtain ⟨c, streams, -, hlen, rfl⟩ := perform_eq_some h
    intro t ht
    obtain ⟨i, hi⟩ := List.mem_iff_getElem?.mp ht
    exact (zip_range_getElem? hlen hi).2.2.2
  have hcount : ∀ w : Phase → Nat, w .spawned = 0 → s₀.count w = 0 := fun w hw => by
    rw [Spawned.count_of_phase w hphase, hw, Nat.mul_zero]
  obtain ⟨c, streams, -, hlen, rfl⟩ := perform_eq_some h
  have hne : UInt32.ofNat M ≠ 0 := by
    rw [Ne, ← UInt32.toNat_inj, Wrap.toNat_ofNat_of_lt (by omega), UInt32.toNat_zero]
    omega
  refine ⟨htasks, hlt, (hcount _ rfl).symm, ?_, ?_, rfl, hcount _ rfl, hcount _ rfl⟩
  · rw [hcount _ rfl, Nat.add_zero, Wrap.toNat_ofNat_of_lt (by omega)]
  · rw [hcount _ rfl, if_neg hne]
    rfl

theorem perform_new_isSome_iff (uniName : String) : (call.perform M (.new M uniName)).isSome ↔ M < 2 ^ 31 := by
  constructor
  · intro h
    obtain ⟨s₀, h⟩ := Option.isSome_iff_exists.mp h
    exact lt_of_perform h
  · intro hM
    have h : (Uni.createStreams M M (UniChannel.new M uniName)).isSome :=
      createStreams_isSome_iff.mpr (.inr ⟨Nat.le_of_eq (vacant_len_new hM).symm, by
        rw [UniChannel.new, vacant_len_new hM]
        exact hM⟩)
    obtain ⟨r, hr⟩ := Option.isSome_iff_exists.mp h
    rw [SpawnCall.perform_eq, spawnWith, Uni.consumerStreamInternal]
    simp [Uni.new, Uni.ofChannel, hr]

theorem bound_run (h : call.perform M (.ofChannel channel) = some s₀) (hs : s₀.Steps s) : s.Bound M :=
  hs.invariant (fun _ _ _ hI hstep _ => hI.step hstep) (bound_perform h)

theorem latch_run (hM : 0 < M) (h : call.perform M (.ofChannel channel) = some s₀) (hs : s₀.Steps s) : s.Latch M :=
  hs.invariant (fun _ _ _ hI hstep _ => hI.step hstep) (latch_perform hM h)

/-- The streams and the other executors match one to one, and the callback is called at most once, after all of these
executors have ended. -/
theorem latch_sound (hP : Ring.PowerOfTwo M) (hM : 0 < M) (hsync : channel.streamsManager.Synced M)
    (h : call.perform M (.ofChannel channel) = some s₀) (hs : s₀.Steps s) :
    (∀ i < M, ∃! stream, s.BoundTo i stream) ∧ (∀ stream ∈ s.inStreams, ∃! i, i < M ∧ s.BoundTo i stream) ∧
    s.closedWith.length ≤ 1 ∧ (s.closedWith ≠ [] → ∀ i < M, s.statuses[i]? = some .streamEnded) := by
  have hb := bound_run h hs
  have hl := latch_run hM h hs
  have hnd : s.inStreams.Nodup := by
    refine hs.invariant (I := fun s => s.inStreams.Nodup) (fun _ _ _ hI hstep _ => ?_) ?_
    · rwa [Spawned.step_inStreams hstep]
    · obtain ⟨c, streams, hc, -, rfl⟩ := perform_eq_some h
      exact (nodup_createStreams hP hsync hc).1
  obtain ⟨h₁, h₂⟩ := hb.oneToOne_of_lt hnd
  refine ⟨h₁, h₂, hl.closed_le, fun hclosed i hi => ?_⟩
  obtain ⟨t, ht⟩ : ∃ t, s.tasks[i]? = some t := ⟨_, List.getElem?_eq_getElem (by rwa [hb.tasks])⟩
  have hlatched := hl.latched_of_closed hclosed t (List.mem_of_getElem? ht)
  rw [(hb.task i t ht).2.2]
  cases hp : t.phase <;> simp [hp, Phase.hasLatched, Phase.executorStatus] at hlatched ⊢

/-- Whatever has happened since, the executors do not match the streams, not all of them have ended when the callback
is called, and those that are counted are fewer; although the callback is called once. -/
theorem spawn_mismatch (hM : 0 < M) (h : call.perform M (.ofChannel channel) = some s₀) (hs : s₀.Steps s) :
    ¬ s.OneToOne ∧
    ¬ (s.closedWith.length = 1 ∧ ∀ e ∈ s.uni.streamExecutors, e.Ended) ∧
    s.uni.finishedExecutorsCount.toNat ≠ s.uni.streamExecutors.length ∧
    (s.AllTasksEnded → s.closedWith.length = 1 ∧ s.uni.finishedExecutorsCount.toNat = M ∧
      s.uni.streamExecutors.length = M + 1) ∧
    ∃ s', s.Steps s' ∧ s'.AllTasksEnded := by
  have hb := bound_run h hs
  have hl := latch_run hM h hs
  have hlen : s.uni.streamExecutors.length = M + 1 := by
    rw [← hb.executors, Spawned.statuses, List.length_map]
  refine ⟨hb.not_oneToOne, fun hall => ?_, ?_, fun hend => ?_, Spawned.exists_allTasksEnded hb hl⟩
  · obtain ⟨e, he, hne⟩ := hb.exists_not_ended
    exact hne (hall.2 e he)
  · have := hl.finished_le
    omega
  · obtain ⟨hclosed, hfin⟩ := hl.all_ended hend
    exact ⟨hclosed, hfin, hlen⟩


/-- With one stream there are two executors. -/
theorem spawn_mismatch_one : ∃ s₀ s, (SpawnCall.spawnExecutors 0).perform 1 (.new 1 "events") = some s₀ ∧ s₀.Steps s ∧
    ¬ s.OneToOne ∧ ¬ (s.closedWith.length = 1 ∧ ∀ e ∈ s.uni.streamExecutors, e.Ended) ∧
    s.uni.finishedExecutorsCount.toNat ≠ s.uni.streamExecutors.length ∧
    (s.AllTasksEnded → s.closedWith.length = 1 ∧ s.uni.finishedExecutorsCount.toNat = 1 ∧
      s.uni.streamExecutors.length = 1 + 1) ∧ ∃ s', s.Steps s' ∧ s'.AllTasksEnded := by
  obtain ⟨s₀, h⟩ := Option.isSome_iff_exists.mp
    (by decide +kernel : ((SpawnCall.spawnExecutors 0).perform 1 (.new 1 "events")).isSome)
  exact ⟨s₀, s₀, h, .refl, spawn_mismatch (by decide) h .refl⟩

/-- The task has ended, the callback has been called and the second executor has not even started. -/
theorem executor_without_stream : ∃ s₀ s, spawnExecutors 1 (.new 1 "events") 0 = some s₀ ∧ s₀.Steps s ∧
    s.AllTasksEnded ∧ s.closedWith = [0] ∧ s.statuses = [.streamEnded, .notStarted] ∧
    s.uni.finishedExecutorsCount = 1 ∧ ¬ ∃ stream, s.BoundTo 1 stream := by
  obtain ⟨s, hrun, hs⟩ := Option.map_eq_some_iff.mp
    (by decide +kernel : ((spawnExecutors 1 (.new 1 "events") 0).bind fun s => Machine.exec Spawned.step s
      (List.replicate 6 0)).map (fun s => (s.tasks, s.closedWith, s.statuses, s.uni.finishedExecutorsCount)) =
      some ([⟨0, 0, .ended⟩], [0], [.streamEnded, .notStarted], 1))
  obtain ⟨s₀, h₀, hexec⟩ := Option.bind_eq_some_iff.mp hrun
  simp only [Prod.mk.injEq] at hs
  obtain ⟨htasks, hclosed, hst, hfin⟩ := hs
  refine ⟨s₀, s, h₀, (Machine.Path.of_exec hexec).steps, ?_, hclosed, hst, hfin, ?_⟩
  · unfold Spawned.AllTasksEnded
    rw [htasks]
    decide
  · unfold Spawned.BoundTo
    rw [htasks]
    simp

end Runs
end Mutiny.UniExecutors
