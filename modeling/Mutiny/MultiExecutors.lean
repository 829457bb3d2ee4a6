import Mutiny.Lib.Machine
import Mutiny.MmapLog

/-!
# Cancelling the executors of a `Multi` by their names

`executor_infos` keeps the stream id of an executor under its name until `flush_and_cancel_executor` is called for it,
even after the stream has ended. By then the id may be that of another stream, which is cancelled instead
(`cancelled_by_name`, `stale_name_run`).

One caller makes one call at a time; the executors poll their streams also while it waits in
`flush_and_cancel_executor`. The channel is `MmapLog`, whose streams for old events end by themselves. The
`debug_assert!` in `end_stream`, that the id is not vacant, is off.
-/

namespace Mutiny.MultiExecutors

/-- A `MutinyStream`, and how many were created before it. -/
structure InStream where
  serial : Nat
  streamId : UInt32
deriving DecidableEq

/-- `executorStats` stands for the executor: it is the `serial` of its stream. -/
structure ExecutorInfo where
  executorStats : Nat
  streamId : UInt32
deriving DecidableEq

/-- A running executor. Its on-close callback may have to spawn another one, for the `newies`. -/
structure Executor where
  executorName : String
  stream : InStream
  onClose : Option (String × InStream)
deriving DecidableEq

/-- `flush_and_cancel_executor` in progress: it waits in `flush`, and then for the stream to be gone. -/
structure Cancelling where
  executorInfo : ExecutorInfo
  timeout : Nat
  flushed : Bool

/-- `created` counts the streams, `cancelled` are the executors that were cancelled by their names. -/
structure Multi (α : Type) where
  multiName : String
  channel : MmapLog α
  executorInfos : String → Option ExecutorInfo
  executors : List Executor
  cancelling : Option Cancelling
  created : Nat
  cancelled : List Nat

inductive Label (α : Type)
  | spawnExecutor (pipelineName : String)
  | spawnOldiesExecutor (oldiesPipelineName newiesPipelineName : String) (sequentialTransition : Bool)
  | send (item : α)
  -- the executor of the stream polls it
  | poll (serial : Nat)
  | flushAndCancelExecutor (pipelineName : String) (timeout : Nat)
  -- that call goes on
  | resume (timedOut : Bool)

namespace Multi
variable {α : Type}

def new (M : Nat) (multiName : String) : Multi α := ⟨multiName, .new M, fun _ => none, [], none, 0, []⟩

def executorName (m : Multi α) (pipelineName : String) : String := m.multiName ++ ": " ++ pipelineName

def dropStream (M : Nat) (m : Multi α) (stream : InStream) : Multi α :=
  { m with channel := m.channel.dropResources M stream.streamId }

/-- `none` if there is an executor of that name. -/
def addExecutor (m : Multi α) (executorName : String) (executorInfo : ExecutorInfo) : Option (Multi α) :=
  if (m.executorInfos executorName).isSome then none
  else some { m with executorInfos := Function.update m.executorInfos executorName (some executorInfo) }

/-- Whether it is `Ok`; otherwise it drops its arguments, the last one first. -/
def spawnExecutorFromStream (M : Nat) (m : Multi α) (pipelineName : String) (stream : InStream)
    (onClose : Option (String × InStream)) : Multi α × Bool :=
  let executorName := m.executorName pipelineName
  match m.addExecutor executorName ⟨stream.serial, stream.streamId⟩ with
  | some m => ({ m with executors := m.executors ++ [⟨executorName, stream, onClose⟩] }, true)
  | none => ((onClose.toList.map Prod.snd ++ [stream]).foldl (dropStream M) m, false)

def spawnExecutor (M : Nat) (m : Multi α) (pipelineName : String) : Option (Multi α × Bool) := do
  let (channel, streamId) ← m.channel.createStreamForNewEvents M
  let inStream := ⟨m.created, streamId⟩
  let m := { m with channel, created := m.created + 1 }
  return m.spawnExecutorFromStream M pipelineName inStream none

def spawnOldiesExecutor (M : Nat) (m : Multi α) (oldiesPipelineName newiesPipelineName : String)
    (sequentialTransition : Bool) : Option (Multi α × Bool) := do
  let (channel, oldiesId, newiesId) ← m.channel.createStreamsForOldAndNewEvents M
  let oldies := ⟨m.created, oldiesId⟩
  let newies := ⟨m.created + 1, newiesId⟩
  let m := { m with channel, created := m.created + 2 }
  if sequentialTransition then
    return m.spawnExecutorFromStream M oldiesPipelineName oldies (some (newiesPipelineName, newies))
  else
    match m.spawnExecutorFromStream M oldiesPipelineName oldies none with
    | (m, true) => return m.spawnExecutorFromStream M newiesPipelineName newies none
    | (m, false) => return (m.dropStream M newies, false)

/-- The end of an executor, after which its on-close callback is called. -/
def endExecutor (M : Nat) (m : Multi α) (e : Executor) : Multi α :=
  let m := { m with executors := m.executors.erase e }.dropStream M e.stream
  match e.onClose with
  | some (newiesPipelineName, newies) => (m.spawnExecutorFromStream M newiesPipelineName newies none).1
  | none => m

def pollExecutor (M : Nat) (m : Multi α) (e : Executor) : Multi α :=
  match m.channel.pollNext e.stream.streamId e.stream.serial with
  | (channel, .ready none) => { m with channel }.endExecutor M e
  | (channel, _) => { m with channel }

/-- Up to where it waits for the first time. -/
def flushAndCancelExecutor (m : Multi α) (pipelineName : String) (timeout : Nat) : Multi α :=
  match m.executorInfos (m.executorName pipelineName) with
  | some executorInfo =>
    { m with executorInfos := Function.update m.executorInfos (m.executorName pipelineName) none,
             cancelling := some ⟨executorInfo, timeout, false⟩ }
  | none => m

/-- `end_stream` wakes up and has either what it waits for, or waited for too long. -/
def resume (M : Nat) (m : Multi α) (c : Cancelling) (timedOut : Bool) : Option (Multi α) :=
  let expired := timedOut ∧ c.timeout ≠ 0
  if c.flushed then
    if m.channel.isVacant M c.executorInfo.streamId ∨ expired then some { m with cancelling := none } else none
  else if m.channel.pendingItemsCount = 0 ∨ expired then
    some { m with channel := m.channel.cancelStream c.executorInfo.streamId,
                  cancelling := some { c with flushed := true },
                  cancelled := c.executorInfo.executorStats :: m.cancelled }
  else none

/-- There is no result while the caller is busy with another call. -/
def step (M N : Nat) (m : Multi α) : Label α → Option (Multi α)
  | .poll serial => (m.executors.find? fun e => e.stream.serial = serial).map (m.pollExecutor M)
  | .resume timedOut => m.cancelling.bind (m.resume M · timedOut)
  | l =>
    if m.cancelling.isSome then none
    else match l with
    | .spawnExecutor pipelineName => (m.spawnExecutor M pipelineName).map Prod.fst
    | .spawnOldiesExecutor oldiesPipelineName newiesPipelineName sequentialTransition =>
      (m.spawnOldiesExecutor M oldiesPipelineName newiesPipelineName sequentialTransition).map Prod.fst
    | .send item => (m.channel.send N item).map fun channel => { m with channel }
    | .flushAndCancelExecutor pipelineName timeout => some (m.flushAndCancelExecutor pipelineName timeout)
    | _ => none

end Multi

/-! ### The streams and their ids -/

/-- The streams there are, each with an id of its own that is in use. -/
structure Held (M : Nat) (sm : StreamsManagerBase) (created : Nat) (streams : List InStream) : Prop where
  synced : sm.Synced M
  ids : (streams.map InStream.streamId).Perm (sm.inUse M)
  serials : (streams.map InStream.serial).Nodup
  lt : ∀ p ∈ streams, p.serial < created

namespace Held
variable {M created : Nat} {sm sm' : StreamsManagerBase} {id : UInt32} {streams streams' : List InStream}
  {p q : InStream}

theorem new (hM : Ring.PowerOfTwo M) : Held M (.new M) 0 [] := by
  refine ⟨.new hM, ?_, List.nodup_nil, nofun⟩
  rw [StreamsManagerBase.inUse_new hM]
  exact .nil

theorem perm (h : Held M sm created streams) (hp : streams.Perm streams') : Held M sm created streams' :=
  ⟨h.synced, (hp.symm.map _).trans h.ids, (hp.map _).nodup_iff.mp h.serials, fun p hp' => h.lt p (hp.mem_iff.mpr hp')⟩

theorem eq_of_streamId (h : Held M sm created streams) (hp : p ∈ streams) (hq : q ∈ streams)
    (he : p.streamId = q.streamId) : p = q :=
  List.inj_on_of_nodup_map (h.ids.nodup_iff.mpr StreamsManagerBase.nodup_inUse) hp hq he

theorem eq_of_serial (h : Held M sm created streams) (hp : p ∈ streams) (hq : q ∈ streams)
    (he : p.serial = q.serial) : p = q :=
  List.inj_on_of_nodup_map h.serials hp hq he

theorem congr (h : Held M sm created streams) (hs : sm.SameIds sm') : Held M sm' created streams := by
  refine ⟨h.synced.congr hs, ?_, h.serials, h.lt⟩
  unfold StreamsManagerBase.inUse
  rw [hs.vacant]
  exact h.ids

theorem create (hM : Ring.PowerOfTwo M) (h : Held M sm created streams) (hc : sm.createStreamId M = some (sm', id)) :
    Held M sm' (created + 1) (⟨created, id⟩ :: streams) ∧ ∀ p ∈ streams, p.streamId ≠ id := by
  obtain ⟨hsync, hnew, -⟩ := h.synced.create hM hc
  refine ⟨⟨hsync, ?_, ?_, ?_⟩, ?_⟩
  · exact h.synced.live_create hM h.ids hc
  · rw [List.map_cons, List.nodup_cons]
    refine ⟨fun hmem => ?_, h.serials⟩
    obtain ⟨p, hp, he⟩ := List.mem_map.mp hmem
    exact absurd he (Nat.ne_of_lt (h.lt p hp))
  · intro p hp
    rcases List.mem_cons.mp hp with rfl | hp
    · exact Nat.lt_succ_self _
    · exact Nat.lt_succ_of_lt (h.lt p hp)
  · rintro p hp rfl
    exact hnew (h.ids.mem_iff.mp (List.mem_map_of_mem hp))

theorem drop (hM : Ring.PowerOfTwo M) (h : Held M sm created (p :: streams)) :
    Held M (sm.reportStreamDropped M p.streamId) created streams := by
  have hmem : p.streamId ∈ (p :: streams).map InStream.streamId := List.mem_cons_self
  refine ⟨(h.synced.drop hM (h.ids.mem_iff.mp hmem)).1, ?_, ?_, ?_⟩
  · have hdrop := h.synced.live_drop hM h.ids hmem
    rwa [List.map_cons, List.erase_cons_head] at hdrop
  · exact (List.nodup_cons.mp h.serials).2
  · intro q hq
    exact h.lt q (List.mem_cons_of_mem _ hq)

end Held

/-- What is known of a registered executor: its stream id, as long as it has its stream. -/
structure Known (created : Nat) (streams : List InStream) (info : ExecutorInfo) : Prop where
  lt : info.executorStats < created
  streamId : ∀ p ∈ streams, p.serial = info.executorStats → p.streamId = info.streamId

namespace Known
variable {created created' : Nat} {streams streams' : List InStream} {info : ExecutorInfo}

theorem mono (h : Known created streams info) (hle : created ≤ created')
    (hs : ∀ p ∈ streams', p ∈ streams ∨ created ≤ p.serial) : Known created' streams' info := by
  refine ⟨Nat.lt_of_lt_of_le h.lt hle, ?_⟩
  intro p hp he
  rcases hs p hp with hp | hp
  · exact h.streamId p hp he
  · have hlt := h.lt
    omega

end Known

/-! ### What the calls keep -/

def Executor.streams (e : Executor) : List InStream := e.stream :: e.onClose.toList.map Prod.snd

namespace Multi
variable {α : Type}

/-- All streams, but those that the call in progress holds. -/
def live (m : Multi α) : List InStream := m.executors.flatMap Executor.streams

def running (m : Multi α) (p : InStream) : Bool := m.channel.streamsManager.keepStreamRunning p.streamId

end Multi

section Inv
variable {α : Type} {M N : Nat} {m m' m'' : Multi α} {held : List InStream} {p : InStream} {e : Executor}
  {info : ExecutorInfo} {l : Label α}

/-- `held` are the streams that the call in progress holds. -/
structure Inv (M : Nat) (m : Multi α) (held : List InStream) : Prop where
  streams : Held M m.channel.streamsManager m.created (held ++ m.live)
  infos : ∀ name info, m.executorInfos name = some info → Known m.created (held ++ m.live) info
  call : ∀ c, m.cancelling = some c → Known m.created (held ++ m.live) c.executorInfo

structure Quiet (m m' : Multi α) : Prop where
  keep : m'.channel.streamsManager.keepStreamsRunning = m.channel.streamsManager.keepStreamsRunning
  cancelling : m'.cancelling = m.cancelling
  cancelled : m'.cancelled = m.cancelled

theorem Quiet.refl (m : Multi α) : Quiet m m := ⟨rfl, rfl, rfl⟩

theorem Quiet.trans (h : Quiet m m') (h' : Quiet m' m'') : Quiet m m'' :=
  ⟨h'.keep.trans h.keep, h'.cancelling.trans h.cancelling, h'.cancelled.trans h.cancelled⟩

theorem Inv.new (hM : Ring.PowerOfTwo M) (multiName : String) : Inv M (.new M multiName : Multi α) [] :=
  ⟨.new hM, nofun, nofun⟩

theorem Inv.dropStream (hM : Ring.PowerOfTwo M) (h : Inv M m (p :: held)) : Inv M (m.dropStream M p) held := by
  have hsub : ∀ q ∈ held ++ m.live, q ∈ p :: held ++ m.live ∨ m.created ≤ q.serial :=
    fun q hq => .inl (List.mem_cons_of_mem p hq)
  refine ⟨h.streams.drop hM, ?_, ?_⟩
  · intro name info hinfo
    exact (h.infos name info hinfo).mono (Nat.le_refl _) hsub
  · intro c hc
    exact (h.call c hc).mono (Nat.le_refl _) hsub

theorem Quiet.dropStream (M : Nat) (m : Multi α) (p : InStream) : Quiet m (m.dropStream M p) := ⟨rfl, rfl, rfl⟩

theorem dropStreams_spec (hM : Ring.PowerOfTwo M) (l : List InStream) (h : Inv M m (l ++ held)) :
    Inv M (l.foldl (Multi.dropStream M) m) held ∧ Quiet m (l.foldl (Multi.dropStream M) m) ∧
      (l.foldl (Multi.dropStream M) m).live = m.live := by
  induction l generalizing m with
  | nil => exact ⟨h, .refl m, rfl⟩
  | cons p l ih =>
    obtain ⟨hinv, hquiet, hlive⟩ := ih (h.dropStream hM)
    exact ⟨hinv, (Quiet.dropStream M m p).trans hquiet, hlive⟩

theorem Inv.regroup {executors : List Executor} {held' : List InStream} (h : Inv M m held)
    (hp : (held ++ m.live).Perm (held' ++ executors.flatMap Executor.streams)) : Inv M { m with executors } held' := by
  have hknown : ∀ info, Known m.created (held ++ m.live) info →
      Known m.created (held' ++ executors.flatMap Executor.streams) info :=
    fun info hinfo => hinfo.mono (Nat.le_refl _) fun q hq => .inl (hp.mem_iff.mpr hq)
  refine ⟨h.streams.perm hp, ?_, ?_⟩
  · intro name info hinfo
    exact hknown info (h.infos name info hinfo)
  · intro c hc
    exact hknown _ (h.call c hc)

theorem Inv.swap {p q : InStream} (h : Inv M m [p, q]) : Inv M m [q, p] := by
  have hregroup : Inv M { m with executors := m.executors } [q, p] := h.regroup (List.Perm.swap q p m.live)
  exact hregroup

theorem Inv.addExecutor {executorName : String} (h : Inv M m held) (hp : p ∈ held ++ m.live)
    (hadd : m.addExecutor executorName ⟨p.serial, p.streamId⟩ = some m') :
    Inv M m' held ∧ Quiet m m' ∧ m'.executors = m.executors := by
  unfold Multi.addExecutor at hadd
  split at hadd
  · cases hadd
  · cases hadd
    refine ⟨⟨h.streams, ?_, h.call⟩, ⟨rfl, rfl, rfl⟩, rfl⟩
    intro name info hinfo
    by_cases hname : name = executorName
    · subst hname
      cases (Function.update_self ..).symm.trans hinfo
      refine ⟨h.streams.lt p hp, fun q hq hs => ?_⟩
      rw [h.streams.eq_of_serial hq hp hs]
    · exact h.infos name info ((Function.update_of_ne hname _ _).symm.trans hinfo)

theorem flatMap_append_singleton (l : List Executor) (e : Executor) :
    (l ++ [e]).flatMap Executor.streams = l.flatMap Executor.streams ++ e.streams := by
  rw [List.flatMap_append, List.flatMap_singleton]

/-- The stream becomes that of an executor, or is dropped, and so do those that its on-close callback holds. -/
theorem spawnExecutorFromStream_spec (pipelineName : String) (p : InStream) (onClose : Option (String × InStream))
    (hM : Ring.PowerOfTwo M) (h : Inv M m (onClose.toList.map Prod.snd ++ [p] ++ held)) :
    Inv M (m.spawnExecutorFromStream M pipelineName p onClose).1 held ∧
      Quiet m (m.spawnExecutorFromStream M pipelineName p onClose).1 ∧
      ∀ q ∈ (m.spawnExecutorFromStream M pipelineName p onClose).1.live,
        q ∈ onClose.toList.map Prod.snd ++ [p] ∨ q ∈ m.live := by
  unfold Multi.spawnExecutorFromStream
  dsimp only
  cases hadd : m.addExecutor (m.executorName pipelineName) ⟨p.serial, p.streamId⟩ with
  | none =>
    obtain ⟨hinv, hquiet, hlive⟩ := dropStreams_spec hM (onClose.toList.map Prod.snd ++ [p]) h
    refine ⟨hinv, hquiet, fun q hq => .inr ?_⟩
    rw [← hlive]
    exact hq
  | some m' =>
    obtain ⟨hinv, hquiet, hexec⟩ := h.addExecutor (p := p) (by simp) hadd
    have hstreams : (Executor.mk (m.executorName pipelineName) p onClose).streams.Perm
        (onClose.toList.map Prod.snd ++ [p]) := (List.perm_append_singleton p _).symm
    refine ⟨hinv.regroup ?_, hquiet.trans ⟨rfl, rfl, rfl⟩, ?_⟩
    · rw [flatMap_append_singleton, List.append_assoc]
      refine List.perm_append_comm.trans ?_
      rw [List.append_assoc]
      exact (hstreams.symm.append_left _).append_left _
    · intro q hq
      rw [Multi.live, flatMap_append_singleton, hexec] at hq
      rcases List.mem_append.mp hq with hq | hq
      · exact .inr hq
      · exact .inl (hstreams.mem_iff.mp hq)

theorem endExecutor_spec (hM : Ring.PowerOfTwo M) (h : Inv M m []) (he : e ∈ m.executors) :
    Inv M (m.endExecutor M e) [] ∧ Quiet m (m.endExecutor M e) ∧
      ∀ q ∈ (m.endExecutor M e).live, q ∈ m.live ∧ q ≠ e.stream := by
  have hperm : m.live.Perm (e.streams ++ (m.executors.erase e).flatMap Executor.streams) :=
    (List.perm_cons_erase he).flatMap_right _
  have hothers : ∀ q ∈ e.onClose.toList.map Prod.snd ++ (m.executors.erase e).flatMap Executor.streams,
      q ∈ m.live ∧ q ≠ e.stream := by
    intro q hq
    refine ⟨hperm.mem_iff.mpr (List.mem_cons_of_mem _ hq), ?_⟩
    rintro rfl
    have hnd := (h.streams.perm hperm).serials
    exact (List.nodup_cons.mp hnd).1 (List.mem_map_of_mem hq)
  have hgroup : Inv M { m with executors := m.executors.erase e } e.streams := h.regroup hperm
  have hinv := hgroup.dropStream hM
  have hquiet : Quiet m ({ m with executors := m.executors.erase e }.dropStream M e.stream) := ⟨rfl, rfl, rfl⟩
  unfold Multi.endExecutor
  dsimp only
  cases hclose : e.onClose with
  | none =>
    rw [hclose] at hinv hothers
    exact ⟨hinv, hquiet, hothers⟩
  | some newies =>
    rw [hclose] at hinv hothers
    obtain ⟨hinv', hquiet', hlive⟩ :=
      spawnExecutorFromStream_spec newies.1 newies.2 none hM hinv
    refine ⟨hinv', hquiet.trans hquiet', ?_⟩
    intro q hq
    refine hothers q ?_
    rcases hlive q hq with hq | hq
    · exact List.mem_append_left _ hq
    · exact List.mem_append_right _ hq

theorem Inv.create {channel : MmapLog α} {id : UInt32} (hM : Ring.PowerOfTwo M) (h : Inv M m held)
    (hc : m.channel.streamsManager.createStreamId M = some (channel.streamsManager, id)) :
    Inv M { m with channel, created := m.created + 1 } (⟨m.created, id⟩ :: held) ∧
      channel.streamsManager.keepStreamRunning id = true ∧
      ∀ q ∈ held ++ m.live, channel.streamsManager.keepStreamRunning q.streamId = m.running q := by
  obtain ⟨hheld, hne⟩ := h.streams.create hM hc
  have hkeep := StreamsManagerBase.keep_createStreamId hc
  have hnew : ∀ q ∈ ⟨m.created, id⟩ :: held ++ m.live, q ∈ held ++ m.live ∨ m.created ≤ q.serial := by
    intro q hq
    rcases List.mem_cons.mp hq with rfl | hq
    · exact .inr (Nat.le_refl _)
    · exact .inl hq
  refine ⟨⟨hheld, ?_, ?_⟩, ?_, ?_⟩
  · intro name info hinfo
    exact (h.infos name info hinfo).mono (Nat.le_succ _) hnew
  · intro c hc
    exact (h.call c hc).mono (Nat.le_succ _) hnew
  · rw [StreamsManagerBase.keepStreamRunning, hkeep, Function.update_self]
  · intro q hq
    rw [StreamsManagerBase.keepStreamRunning, hkeep, Function.update_of_ne (hne q hq)]
    rfl

/-- The stream was there before and has kept its flag, or it is new and runs. -/
def Fares (m : Multi α) (sm : StreamsManagerBase) (p : InStream) : Prop :=
  (p ∈ m.live ∧ sm.keepStreamRunning p.streamId = m.running p) ∨ (p ∉ m.live ∧ sm.keepStreamRunning p.streamId = true)

structure Mild (m m' : Multi α) : Prop where
  fares : ∀ p ∈ m'.live, Fares m m'.channel.streamsManager p
  cancelled : m'.cancelled = m.cancelled

theorem Fares.quiet {sm : StreamsManagerBase} (h : Fares m sm p)
    (hkeep : m'.channel.streamsManager.keepStreamsRunning = sm.keepStreamsRunning) :
    Fares m m'.channel.streamsManager p := by
  unfold Fares StreamsManagerBase.keepStreamRunning at *
  rw [hkeep]
  exact h

theorem not_mem_live (h : Inv M m held) (hp : m.created ≤ p.serial) : p ∉ m.live := fun hmem =>
  absurd (h.streams.lt p (List.mem_append_right _ hmem)) (Nat.not_lt_of_le hp)

theorem spawnExecutor_spec {ok : Bool} {pipelineName : String} (hM : Ring.PowerOfTwo M) (h : Inv M m [])
    (hs : m.spawnExecutor M pipelineName = some (m', ok)) :
    Inv M m' [] ∧ Mild m m' ∧ m'.cancelling = m.cancelling := by
  unfold Multi.spawnExecutor at hs
  cases hc : m.channel.createStreamForNewEvents M with
  | none => simp [hc] at hs
  | some r =>
    simp only [hc, Option.bind_eq_bind, Option.bind_some, Option.pure_def, Option.some.injEq] at hs
    obtain ⟨hinv, hnew, hold⟩ := h.create hM (MmapLog.createStreamForNewEvents_cases hc)
    obtain ⟨hinv', hquiet, hlive⟩ := spawnExecutorFromStream_spec pipelineName _ none hM hinv
    rw [hs] at hinv' hquiet hlive
    refine ⟨hinv', ⟨fun q hq => Fares.quiet ?_ hquiet.keep, hquiet.cancelled⟩, hquiet.cancelling⟩
    rcases hlive q hq with hq | hq
    · obtain rfl := List.mem_singleton.mp hq
      exact .inr ⟨not_mem_live h (Nat.le_refl _), hnew⟩
    · exact .inl ⟨hq, hold q hq⟩

theorem Inv.createPair {channel : MmapLog α} {oldiesId newiesId : UInt32} (hM : Ring.PowerOfTwo M) (h : Inv M m [])
    (hc : m.channel.createStreamsForOldAndNewEvents M = some (channel, oldiesId, newiesId)) :
    Inv M { m with channel, created := m.created + 2 } [⟨m.created + 1, newiesId⟩, ⟨m.created, oldiesId⟩] ∧
      ∀ p ∈ [⟨m.created + 1, newiesId⟩, ⟨m.created, oldiesId⟩] ++ m.live, Fares m channel.streamsManager p := by
  obtain ⟨sm, hc₁, hc₂⟩ := MmapLog.createStreamsForOldAndNewEvents_cases hc
  have hc₁' : m.channel.streamsManager.createStreamId M =
      some (({ m.channel with streamsManager := sm } : MmapLog α).streamsManager, oldiesId) := hc₁
  obtain ⟨hinv₁, hnew₁, hold₁⟩ := h.create hM hc₁'
  obtain ⟨hinv₂, hnew₂, hold₂⟩ := hinv₁.create hM hc₂
  refine ⟨hinv₂, ?_⟩
  intro p hp
  rcases List.mem_cons.mp hp with rfl | hp
  · exact .inr ⟨not_mem_live h (Nat.le_succ _), hnew₂⟩
  · have hkeep := hold₂ p hp
    rcases List.mem_cons.mp hp with rfl | hp
    · exact .inr ⟨not_mem_live h (Nat.le_refl _), hkeep.trans hnew₁⟩
    · exact .inl ⟨hp, hkeep.trans (hold₁ p hp)⟩

theorem spawnOldiesExecutor_spec {ok sequentialTransition : Bool} {oldiesPipelineName newiesPipelineName : String}
    (hM : Ring.PowerOfTwo M) (h : Inv M m [])
    (hs : m.spawnOldiesExecutor M oldiesPipelineName newiesPipelineName sequentialTransition = some (m', ok)) :
    Inv M m' [] ∧ Mild m m' ∧ m'.cancelling = m.cancelling := by
  unfold Multi.spawnOldiesExecutor at hs
  rcases hc : m.channel.createStreamsForOldAndNewEvents M with _ | ⟨channel, oldiesId, newiesId⟩
  · simp [hc] at hs
  simp only [hc, Option.bind_eq_bind, Option.bind_some, Option.pure_def] at hs
  obtain ⟨hinv, hfares⟩ := h.createPair hM hc
  split at hs
  case isTrue =>
    rw [Option.some.injEq] at hs
    obtain ⟨hinv', hquiet, hlive⟩ :=
      spawnExecutorFromStream_spec oldiesPipelineName _ (some (newiesPipelineName, _)) hM hinv
    rw [hs] at hinv' hquiet hlive
    refine ⟨hinv', ⟨fun q hq => Fares.quiet (hfares q ?_) hquiet.keep, hquiet.cancelled⟩, hquiet.cancelling⟩
    exact List.mem_append.mpr (hlive q hq)
  case isFalse =>
    obtain ⟨hinv₁, hquiet₁, hlive₁⟩ := spawnExecutorFromStream_spec oldiesPipelineName _ none hM hinv.swap
    generalize heq : Multi.spawnExecutorFromStream M _ oldiesPipelineName _ none = r at hs
    rcases r with ⟨m₁, _ | _⟩
    · cases hs
      rw [heq] at hinv₁ hquiet₁ hlive₁
      have hquiet := hquiet₁.trans (.dropStream M m₁ ⟨m.created + 1, newiesId⟩)
      refine ⟨hinv₁.dropStream hM, ⟨fun q hq => Fares.quiet (hfares q ?_) hquiet.keep, hquiet.cancelled⟩,
        hquiet.cancelling⟩
      rcases hlive₁ q hq with hq | hq
      · obtain rfl := List.mem_singleton.mp hq
        exact List.mem_cons_of_mem _ List.mem_cons_self
      · exact List.mem_cons_of_mem _ (List.mem_cons_of_mem _ hq)
    · rw [Option.some.injEq] at hs
      rw [heq] at hinv₁ hquiet₁ hlive₁
      obtain ⟨hinv₂, hquiet₂, hlive₂⟩ := spawnExecutorFromStream_spec newiesPipelineName _ none hM hinv₁
      rw [hs] at hinv₂ hquiet₂ hlive₂
      have hquiet := hquiet₁.trans hquiet₂
      refine ⟨hinv₂, ⟨fun q hq => Fares.quiet (hfares q ?_) hquiet.keep, hquiet.cancelled⟩, hquiet.cancelling⟩
      rcases hlive₂ q hq with hq | hq
      · obtain rfl := List.mem_singleton.mp hq
        exact List.mem_cons_self
      · rcases hlive₁ q hq with hq | hq
        · obtain rfl := List.mem_singleton.mp hq
          exact List.mem_cons_of_mem _ List.mem_cons_self
        · exact List.mem_cons_of_mem _ (List.mem_cons_of_mem _ hq)

theorem pollExecutor_spec (hM : Ring.PowerOfTwo M) (h : Inv M m []) (he : e ∈ m.executors) :
    Inv M (m.pollExecutor M e) [] ∧ (m.pollExecutor M e).cancelled = m.cancelled ∧
      (m.pollExecutor M e).cancelling = m.cancelling ∧
      ∀ q ∈ (m.pollExecutor M e).live, q ∈ m.live ∧ (m.pollExecutor M e).running q = m.running q := by
  unfold Multi.pollExecutor
  rcases hp : m.channel.pollNext e.stream.streamId e.stream.serial with ⟨channel, r⟩
  obtain ⟨hids, hkeep⟩ := MmapLog.pollNext_spec hp
  have hother : r ≠ .ready none → Inv M { m with channel } [] ∧ ∀ q ∈ m.live,
      channel.streamsManager.keepStreamsRunning q.streamId = m.running q := by
    intro hr
    refine ⟨⟨h.streams.congr hids, h.infos, h.call⟩, fun q hq => ?_⟩
    rcases hkeep with hkeep | ⟨rfl, -⟩
    · exact congrFun hkeep q.streamId
    · exact absurd rfl hr
  rcases r with (_ | event) | _
  case ready.none =>
    have hinv : Inv M { m with channel } [] := ⟨h.streams.congr hids, h.infos, h.call⟩
    obtain ⟨hinv', hquiet, hlive⟩ := endExecutor_spec hM hinv he
    refine ⟨hinv', hquiet.cancelled, hquiet.cancelling, fun q hq => ⟨(hlive q hq).1, ?_⟩⟩
    obtain ⟨hq, hne⟩ := hlive q hq
    have hmem : e.stream ∈ m.live := List.mem_flatMap.mpr ⟨e, he, List.mem_cons_self⟩
    have hid : q.streamId ≠ e.stream.streamId := fun hid => hne (h.streams.eq_of_streamId hq hmem hid)
    have hsame : channel.streamsManager.keepStreamsRunning q.streamId = m.running q := by
      rcases hkeep with hkeep | ⟨-, hkeep⟩
      · exact congrFun hkeep q.streamId
      · rw [hkeep, Function.update_of_ne hid]
        rfl
    exact (congrFun hquiet.keep q.streamId).trans hsame
  all_goals
    obtain ⟨hinv, hkept⟩ := hother nofun
    exact ⟨hinv, rfl, rfl, fun q hq => ⟨hq, hkept q hq⟩⟩

end Inv

/-! ### Cancelling by name -/

namespace Multi
variable {α : Type}

/-- The executor whose stream the step is to cancel. -/
def target (m : Multi α) : Label α → Option ExecutorInfo
  | .resume _ => (m.cancelling.filter fun c => !c.flushed).map Cancelling.executorInfo
  | _ => none

/-- All streams keep their flags, except the one that is to be cancelled. -/
def KeepsOthers (m : Multi α) (l : Label α) (m' : Multi α) : Prop :=
  ∀ p ∈ m.live, p ∈ m'.live → (∀ info, m.target l = some info → p.serial ≠ info.executorStats) →
    m'.running p = m.running p

/-- The stream to be cancelled is still there, or else no running stream has its id. -/
def Unrecycled (m : Multi α) (l : Label α) : Prop :=
  ∀ info, m.target l = some info → (∃ p ∈ m.live, p.serial = info.executorStats) ∨
    ∀ p ∈ m.live, p.streamId = info.streamId → m.running p = false

instance (m : Multi α) (l : Label α) : Decidable (m.Unrecycled l) :=
  match h : m.target l with
  | none => .isTrue fun info hinfo => by rw [h] at hinfo; cases hinfo
  | some info => decidable_of_iff ((∃ p ∈ m.live, p.serial = info.executorStats) ∨
      ∀ p ∈ m.live, p.streamId = info.streamId → m.running p = false) <| by
    constructor
    · intro hu info' hinfo
      rw [h] at hinfo
      cases hinfo
      exact hu
    · exact fun hu => hu info h

/-- Only executors that have not ended are to be cancelled. -/
def StillLive (m : Multi α) : Label α → Prop
  | .flushAndCancelExecutor pipelineName _ => ∀ info, m.executorInfos (m.executorName pipelineName) = some info →
      ∃ p ∈ m.live, p.serial = info.executorStats
  | _ => True

/-- Streams have been cancelled by their names only. -/
def CancelledByName (m : Multi α) : Prop := ∀ p ∈ m.live, m.running p = false → p.serial ∈ m.cancelled

end Multi

section Cancel
variable {α : Type} {M N : Nat} {m m' : Multi α} {l : Label α} {c : Cancelling} {timedOut : Bool}

theorem flushAndCancelExecutor_spec (h : Inv M m []) (pipelineName : String) (timeout : Nat) :
    Inv M (m.flushAndCancelExecutor pipelineName timeout) [] ∧
      Mild m (m.flushAndCancelExecutor pipelineName timeout) := by
  unfold Multi.flushAndCancelExecutor
  cases hinfo : m.executorInfos (m.executorName pipelineName) with
  | none => exact ⟨h, ⟨fun q hq => .inl ⟨hq, rfl⟩, rfl⟩⟩
  | some info =>
    refine ⟨⟨h.streams, ?_, ?_⟩, ⟨fun q hq => .inl ⟨hq, rfl⟩, rfl⟩⟩
    · intro name info' hinfo'
      by_cases hname : name = m.executorName pipelineName
      · subst hname
        cases (Function.update_self ..).symm.trans hinfo'
      · exact h.infos name info' ((Function.update_of_ne hname _ _).symm.trans hinfo')
    · intro c hc
      cases hc
      exact h.infos _ info hinfo

/-- Everything a step can do: it lets the streams be, or it is the one that cancels. -/
theorem step_cases (hM : Ring.PowerOfTwo M) (h : Inv M m []) (hs : m.step M N l = some m') : Inv M m' [] ∧
    ((m.target l = none ∧ Mild m m') ∨
      ∃ c : Cancelling, m.target l = some c.executorInfo ∧
        m' = { m with channel := m.channel.cancelStream c.executorInfo.streamId,
                      cancelling := some { c with flushed := true },
                      cancelled := c.executorInfo.executorStats :: m.cancelled }) := by
  cases l with
  | spawnExecutor pipelineName =>
    simp only [Multi.step, Option.ite_none_left_eq_some, Option.map_eq_some_iff] at hs
    obtain ⟨-, ⟨m', ok⟩, hspawn, rfl⟩ := hs
    obtain ⟨hinv, hmild, -⟩ := spawnExecutor_spec hM h hspawn
    exact ⟨hinv, .inl ⟨rfl, hmild⟩⟩
  | spawnOldiesExecutor oldiesPipelineName newiesPipelineName sequentialTransition =>
    simp only [Multi.step, Option.ite_none_left_eq_some, Option.map_eq_some_iff] at hs
    obtain ⟨-, ⟨m', ok⟩, hspawn, rfl⟩ := hs
    obtain ⟨hinv, hmild, -⟩ := spawnOldiesExecutor_spec hM h hspawn
    exact ⟨hinv, .inl ⟨rfl, hmild⟩⟩
  | send item =>
    simp only [Multi.step, Option.ite_none_left_eq_some, Option.map_eq_some_iff] at hs
    obtain ⟨-, channel, hsend, rfl⟩ := hs
    unfold MmapLog.send at hsend
    split at hsend
    · cases hsend
      exact ⟨⟨h.streams, h.infos, h.call⟩, .inl ⟨rfl, ⟨fun q hq => .inl ⟨hq, rfl⟩, rfl⟩⟩⟩
    · cases hsend
  | poll serial =>
    simp only [Multi.step, Option.map_eq_some_iff] at hs
    obtain ⟨e, he, rfl⟩ := hs
    obtain ⟨hinv, hcancelled, -, hlive⟩ := pollExecutor_spec hM h (List.mem_of_find?_eq_some he)
    exact ⟨hinv, .inl ⟨rfl, ⟨fun q hq => .inl (hlive q hq), hcancelled⟩⟩⟩
  | flushAndCancelExecutor pipelineName timeout =>
    simp only [Multi.step, Option.ite_none_left_eq_some, Option.some.injEq] at hs
    obtain ⟨-, rfl⟩ := hs
    obtain ⟨hinv, hmild⟩ := flushAndCancelExecutor_spec h pipelineName timeout
    exact ⟨hinv, .inl ⟨rfl, hmild⟩⟩
  | resume timedOut =>
    simp only [Multi.step, Option.bind_eq_some_iff] at hs
    obtain ⟨c, hc, hs⟩ := hs
    unfold Multi.resume at hs
    dsimp only at hs
    split at hs
    case isTrue hflushed =>
      simp only [Option.ite_none_right_eq_some, Option.some.injEq] at hs
      obtain ⟨-, rfl⟩ := hs
      refine ⟨⟨h.streams, h.infos, nofun⟩, .inl ⟨?_, ⟨fun q hq => .inl ⟨hq, rfl⟩, rfl⟩⟩⟩
      simp [Multi.target, hc, hflushed]
    case isFalse hflushed =>
      simp only [Option.ite_none_right_eq_some, Option.some.injEq] at hs
      obtain ⟨-, rfl⟩ := hs
      refine ⟨⟨h.streams.congr (.cancelStream _ _), h.infos, ?_⟩, .inr ⟨c, ?_, rfl⟩⟩
      · intro c' hc'
        cases hc'
        exact h.call c hc
      · simp [Multi.target, hc, hflushed]

theorem known_of_target {info : ExecutorInfo} (h : Inv M m []) (ht : m.target l = some info) :
    Known m.created m.live info := by
  cases l with
  | resume timedOut =>
    simp only [Multi.target, Option.map_eq_some_iff, Option.filter_eq_some_iff] at ht
    obtain ⟨c, ⟨hc, -⟩, rfl⟩ := ht
    exact h.call c hc
  | _ => cases ht

/-- A step touches the flag of the stream that it is to cancel only, exactly if the id has not been recycled. -/
theorem keepsOthers_iff (hM : Ring.PowerOfTwo M) (h : Inv M m []) (hs : m.step M N l = some m') :
    m.KeepsOthers l m' ↔ m.Unrecycled l := by
  obtain ⟨-, ⟨ht, hmild⟩ | ⟨c, ht, rfl⟩⟩ := step_cases hM h hs
  · constructor
    · intro _ info hinfo
      rw [ht] at hinfo
      cases hinfo
    · intro _ p hp hp' _
      rcases hmild.fares p hp' with ⟨-, hkeep⟩ | ⟨hnot, -⟩
      · exact hkeep
      · exact absurd hp hnot
  · have hcleared : ∀ p : InStream, p.streamId = c.executorInfo.streamId →
        (m.channel.cancelStream c.executorInfo.streamId).streamsManager.keepStreamRunning p.streamId = false := by
      intro p hp
      rw [hp]
      exact Function.update_self ..
    constructor
    · intro hkeeps info hinfo
      rw [ht] at hinfo
      cases hinfo
      by_cases hlive : ∃ p ∈ m.live, p.serial = c.executorInfo.executorStats
      · exact .inl hlive
      · right
        intro p hp hid
        have hother : ∀ info, m.target l = some info → p.serial ≠ info.executorStats := by
          rintro info hinfo hserial
          rw [ht] at hinfo
          cases hinfo
          exact hlive ⟨p, hp, hserial⟩
        rw [← hkeeps p hp hp hother]
        exact hcleared p hid
    · intro hun p hp _ hother
      by_cases hid : p.streamId = c.executorInfo.streamId
      · rcases hun _ ht with ⟨q, hq, hserial⟩ | hnone
        · have hq' := (known_of_target h ht).streamId q hq hserial
          obtain rfl := h.streams.eq_of_streamId hp hq (hid.trans hq'.symm)
          exact absurd hserial (hother _ ht)
        · rw [hnone p hp hid]
          exact hcleared p hid
      · exact Function.update_of_ne hid ..

theorem Inv.of_steps {ok : Multi α → Label α → Multi α → Prop} (hM : Ring.PowerOfTwo M) {multiName : String}
    (h : Machine.Steps (Multi.step M N) ok (.new M multiName) m) : Inv M m [] := by
  refine h.invariant (I := fun m => Inv M m []) ?_ (.new hM multiName)
  intro m l m' hi hs _
  exact (step_cases hM hi hs).1

theorem cancelledByName_step (hM : Ring.PowerOfTwo M) (h : Inv M m []) (hc : m.CancelledByName)
    (hun : m.Unrecycled l) (hs : m.step M N l = some m') : m'.CancelledByName := by
  intro p hp hstop
  obtain ⟨-, ⟨-, hmild⟩ | ⟨c, ht, rfl⟩⟩ := step_cases hM h hs
  · rcases hmild.fares p hp with ⟨hp, hkeep⟩ | ⟨-, hrun⟩
    · rw [hmild.cancelled]
      exact hc p hp (hkeep.symm.trans hstop)
    · cases hrun.symm.trans hstop
  · have hkeeps := (keepsOthers_iff hM h hs).mpr hun
    by_cases hserial : p.serial = c.executorInfo.executorStats
    · rw [hserial]
      exact List.mem_cons_self
    · refine List.mem_cons_of_mem _ (hc p hp ?_)
      rw [← hkeeps p hp hp fun info hinfo => by rw [ht] at hinfo; cases hinfo; exact hserial]
      exact hstop

/-- While the caller waits, the stream of the executor is there, or its id is nobody's. -/
def OwnId (m : Multi α) : Prop :=
  ∀ info, (∃ c, m.cancelling = some c ∧ c.executorInfo = info) →
    (∃ p ∈ m.live, p.serial = info.executorStats) ∨ ∀ p ∈ m.live, p.streamId ≠ info.streamId

theorem ownId_poll {e : Executor} (hM : Ring.PowerOfTwo M) (h : Inv M m []) (ho : OwnId m) (he : e ∈ m.executors) :
    OwnId (m.pollExecutor M e) := by
  obtain ⟨-, -, hcancelling, hlive⟩ := pollExecutor_spec hM h he
  rintro info ⟨c, hc, rfl⟩
  rw [hcancelling] at hc
  rcases ho _ ⟨c, hc, rfl⟩ with ⟨p, hp, hserial⟩ | hnone
  · by_cases hp' : p ∈ (m.pollExecutor M e).live
    · exact .inl ⟨p, hp', hserial⟩
    · right
      intro q hq hid
      have hpid := (h.call c hc).streamId p hp hserial
      obtain rfl := h.streams.eq_of_streamId (hlive q hq).1 hp (hid.trans hpid.symm)
      exact hp' hq
  · exact .inr fun q hq => hnone q (hlive q hq).1

theorem ownId_step (hM : Ring.PowerOfTwo M) (h : Inv M m []) (ho : OwnId m) (hl : m.StillLive l)
    (hs : m.step M N l = some m') : OwnId m' := by
  have hidle : m.cancelling.isSome ≠ true → m'.cancelling = m.cancelling → OwnId m' := by
    rintro hnot hsame info ⟨c, hc, -⟩
    rw [← hsame, hc] at hnot
    exact absurd rfl hnot
  cases l with
  | spawnExecutor pipelineName =>
    simp only [Multi.step, Option.ite_none_left_eq_some, Option.map_eq_some_iff] at hs
    obtain ⟨hnot, ⟨m', ok⟩, hspawn, rfl⟩ := hs
    exact hidle hnot (spawnExecutor_spec hM h hspawn).2.2
  | spawnOldiesExecutor oldiesPipelineName newiesPipelineName sequentialTransition =>
    simp only [Multi.step, Option.ite_none_left_eq_some, Option.map_eq_some_iff] at hs
    obtain ⟨hnot, ⟨m', ok⟩, hspawn, rfl⟩ := hs
    exact hidle hnot (spawnOldiesExecutor_spec hM h hspawn).2.2
  | send item =>
    simp only [Multi.step, Option.ite_none_left_eq_some, Option.map_eq_some_iff] at hs
    obtain ⟨hnot, channel, -, rfl⟩ := hs
    exact hidle hnot rfl
  | poll serial =>
    simp only [Multi.step, Option.map_eq_some_iff] at hs
    obtain ⟨e, he, rfl⟩ := hs
    exact ownId_poll hM h ho (List.mem_of_find?_eq_some he)
  | flushAndCancelExecutor pipelineName timeout =>
    simp only [Multi.step, Option.ite_none_left_eq_some, Option.some.injEq] at hs
    obtain ⟨hnot, rfl⟩ := hs
    unfold Multi.flushAndCancelExecutor at hidle ⊢
    cases hinfo : m.executorInfos (m.executorName pipelineName) with
    | none => exact ho
    | some info =>
      rintro _ ⟨c, hc, rfl⟩
      cases hc
      exact .inl (hl info hinfo)
  | resume timedOut =>
    simp only [Multi.step, Option.bind_eq_some_iff] at hs
    obtain ⟨c, hc, hs⟩ := hs
    simp only [Multi.resume] at hs
    split at hs
    · simp only [Option.ite_none_right_eq_some, Option.some.injEq] at hs
      obtain ⟨-, rfl⟩ := hs
      rintro _ ⟨c', hc', -⟩
      cases hc'
    · simp only [Option.ite_none_right_eq_some, Option.some.injEq] at hs
      obtain ⟨-, rfl⟩ := hs
      rintro _ ⟨c', hc', rfl⟩
      cases hc'
      exact ho _ ⟨c, hc, rfl⟩

theorem unrecycled_of_ownId (ho : OwnId m) : m.Unrecycled l := by
  intro info ht
  cases l with
  | resume timedOut =>
    simp only [Multi.target, Option.map_eq_some_iff, Option.filter_eq_some_iff] at ht
    obtain ⟨c, ⟨hc, -⟩, rfl⟩ := ht
    rcases ho _ ⟨c, hc, rfl⟩ with hown | hnone
    · exact .inl hown
    · exact .inr fun p hp hid => absurd hid (hnone p hp)
  | _ => cases ht

theorem cancelledByName_of_steps (hM : Ring.PowerOfTwo M) {multiName : String}
    (h : Machine.Steps (Multi.step M N) (fun m l _ => m.Unrecycled l) (.new M multiName) m) : m.CancelledByName := by
  have hboth : Inv M m [] ∧ m.CancelledByName := by
    refine h.invariant (I := fun m => Inv M m [] ∧ m.CancelledByName) ?_ ⟨.new hM multiName, nofun⟩
    intro m l m' hi hs hun
    exact ⟨(step_cases hM hi.1 hs).1, cancelledByName_step hM hi.1 hi.2 hun hs⟩
  exact hboth.2

/-- It is enough that only executors that have not ended are cancelled. -/
theorem cancelledByName_of_stillLive (hM : Ring.PowerOfTwo M) {multiName : String}
    (h : Machine.Steps (Multi.step M N) (fun m l _ => m.StillLive l) (.new M multiName) m) : m.CancelledByName := by
  have hun : Machine.Steps (Multi.step M N) (fun m l _ => m.Unrecycled l) (.new M multiName) m := by
    refine h.strengthen (I := fun m => Inv M m [] ∧ OwnId m) ?_ ?_ ⟨.new hM multiName, ?_⟩
    · intro m l m' hi hs hl
      exact ⟨(step_cases hM hi.1 hs).1, ownId_step hM hi.1 hi.2 hl hs⟩
    · intro m l m' hi _ _ _
      exact unrecycled_of_ownId hi.2
    · rintro _ ⟨c, hc, -⟩
      cases hc
  exact cancelledByName_of_steps hM hun

/-- Cancelling by name never touches another pipeline, as long as no id is recycled while it is still registered. -/
theorem cancelled_by_name (hM : Ring.PowerOfTwo M) (N : Nat) (multiName : String) (m : Multi α) :
    (Machine.Steps (Multi.step M N) (fun m l _ => m.Unrecycled l) (.new M multiName) m → m.CancelledByName) ∧
    (Machine.Steps (Multi.step M N) (fun _ _ _ => True) (.new M multiName) m →
      ∀ l m', m.step M N l = some m' → (m.KeepsOthers l m' ↔ m.Unrecycled l)) := by
  constructor
  · exact cancelledByName_of_steps hM
  · intro h l m' hs
    exact keepsOthers_iff hM (.of_steps hM h) hs

/-- Two streams, for old and for new events; the second one is cancelled. -/
theorem cancelled_by_name_newies : ∃ m m' : Multi Nat, m.step 2 1 (.resume false) = some m' ∧
    m'.live = [⟨0, 0⟩, ⟨1, 1⟩] ∧ m'.running ⟨1, 1⟩ = false ∧ m'.CancelledByName ∧ m.KeepsOthers (.resume false) m' := by
  have hrun : (Machine.exec (Machine.restrict (Multi.step 2 1) fun m l _ => decide (m.Unrecycled l))
      (.new 2 "multi" : Multi Nat) [.spawnOldiesExecutor "old" "new" false, .flushAndCancelExecutor "new" 0]).map
      (fun m => decide (m.Unrecycled (.resume false) ∧ (m.step 2 1 (.resume false)).map
        (fun m' => (m'.live, m'.running ⟨1, 1⟩)) = some ([⟨0, 0⟩, ⟨1, 1⟩], false))) = some true := by
    decide +kernel
  obtain ⟨m, hm, ht⟩ := Option.map_eq_some_iff.mp hrun
  rw [decide_eq_true_iff] at ht
  obtain ⟨hun, hnext⟩ := ht
  obtain ⟨m', hs, hm'⟩ := Option.map_eq_some_iff.mp hnext
  rw [Prod.mk.injEq] at hm'
  have hsteps := (Machine.Path.of_exec_restrict (fun _ _ _ h => of_decide_eq_true h) hm).steps
  have hall : Machine.Steps (Multi.step 2 1) (fun _ _ _ => True) (.new 2 "multi") m :=
    hsteps.mono fun _ _ _ _ => trivial
  exact ⟨m, m', hs, hm'.1, hm'.2, (cancelled_by_name ⟨1, rfl⟩ 1 "multi" m').1 (hsteps.tail ⟨_, hs, hun⟩),
    ((cancelled_by_name ⟨1, rfl⟩ 1 "multi" m).2 hall _ m' hs).mpr hun⟩

/-- The stream for the old events ends, its id goes to the executor `late`, and `old` is cancelled. -/
theorem stale_name_run : ∃ m m' : Multi Nat,
    Machine.Steps (Multi.step 2 1) (fun _ _ _ => True) (.new 2 "multi") m ∧
    m.target (.resume false) = some ⟨0, 0⟩ ∧ m.live = [⟨1, 1⟩, ⟨2, 0⟩] ∧ m.step 2 1 (.resume false) = some m' ∧
    ¬ m.KeepsOthers (.resume false) m' ∧ ¬ m'.CancelledByName := by
  have hrun : (Machine.exec (Multi.step 2 1) (.new 2 "multi" : Multi Nat)
      [.send 5, .spawnOldiesExecutor "old" "new" false, .poll 0, .poll 0, .spawnExecutor "late",
       .flushAndCancelExecutor "old" 0]).map (fun m => decide (m.target (.resume false) = some ⟨0, 0⟩ ∧
      m.live = [⟨1, 1⟩, ⟨2, 0⟩] ∧ m.running ⟨2, 0⟩ = true ∧ (m.step 2 1 (.resume false)).map
        (fun m' => (m'.live, m'.running ⟨2, 0⟩, m'.cancelled)) = some ([⟨1, 1⟩, ⟨2, 0⟩], false, [0]))) = some true := by
    decide +kernel
  obtain ⟨m, hm, ht⟩ := Option.map_eq_some_iff.mp hrun
  rw [decide_eq_true_iff] at ht
  obtain ⟨htarget, hlive, hrunning, hnext⟩ := ht
  obtain ⟨m', hs, hm'⟩ := Option.map_eq_some_iff.mp hnext
  simp only [Prod.mk.injEq] at hm'
  obtain ⟨hlive', hstopped, hcancelled⟩ := hm'
  have hlate : (⟨2, 0⟩ : InStream) ∈ m.live := by
    rw [hlive]
    simp
  have hlate' : (⟨2, 0⟩ : InStream) ∈ m'.live := by
    rw [hlive']
    simp
  refine ⟨m, m', (Machine.Path.of_exec hm).steps, htarget, hlive, hs, ?_, ?_⟩
  · intro hkeeps
    have hkept := hkeeps ⟨2, 0⟩ hlate hlate' fun info hinfo => by
      rw [htarget] at hinfo
      cases hinfo
      decide
    rw [hrunning, hstopped] at hkept
    cases hkept
  · intro hnamed
    have hmem := hnamed ⟨2, 0⟩ hlate' hstopped
    rw [hcancelled] at hmem
    revert hmem
    decide

end Cancel

end Mutiny.MultiExecutors
