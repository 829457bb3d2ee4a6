import Mutiny.Lib.Machine
import Mutiny.MmapLog
import Mutiny.MultiOgreArcDrop

/-!
# The calls of the streams manager, one after the other

A refused `create_stream_id` has already counted its stream when it panics: from then on
`running_streams_count` is one more than the streams there are (`Sound`, `unnoticed_iff`).

`report_stream_dropped` does not clear the keep-running flag: that of a stream dropped without having been cancelled
stays set (`flagsOfLive_iff`).
-/

namespace Mutiny

namespace StreamsManagerBase

/-- `create_stream_id()` up to where it returns the id, or panics. -/
def createOrPanic (M : Nat) (sm : StreamsManagerBase) : StreamsManagerBase × Option UInt32 :=
  match sm.incCreated.incUsed.takeVacant M with
  | (sm, some streamId) => ((sm.setKeepRunning streamId true).syncVacantAndUsedStreams M, some streamId)
  | (sm, none) => (sm, none)

/-- `is_any_stream_running()`, which is `is_channel_open()` -/
def isAnyStreamRunning (M : Nat) (sm : StreamsManagerBase) : Bool :=
  ((idRange 0 (UInt32.ofNat M)).takeWhile (· ≠ u32Max)).any sm.keepStreamRunning

end StreamsManagerBase

/-- `live` are the ids of the streams there are, `refused` counts the creations that panicked. -/
structure StreamCalls where
  manager : StreamsManagerBase
  live : List UInt32
  refused : Nat

namespace StreamCalls
open Machine (Reached Occurs)
open MultiOgreArc (cancelAllStreams)

inductive Call
  | create
  | cancel (streamId : UInt32)
  | cancelAll
  | drop (streamId : UInt32)
deriving DecidableEq

def new (M : Nat) : StreamCalls := ⟨.new M, [], 0⟩

/-- A panic stays in the task that asked for the stream. The `MutinyStream` of an id is dropped once. -/
def step (M : Nat) (s : StreamCalls) : Call → Option StreamCalls
  | .create =>
    match s.manager.createOrPanic M with
    | (manager, some streamId) => some { s with manager, live := streamId :: s.live }
    | (manager, none) => some { s with manager, refused := s.refused + 1 }
  | .cancel streamId =>
    -- an index of `keep_streams_running`
    if streamId.toNat < M then some { s with manager := s.manager.cancelStream streamId } else none
  | .cancelAll => some { s with manager := cancelAllStreams s.manager }
  | .drop streamId =>
    if streamId ∈ s.live then
      some { s with manager := s.manager.reportStreamDropped M streamId, live := s.live.erase streamId }
    else none

/-- The part of the registry that other components rely on. -/
structure SameRegistry (M : Nat) (sm sm' : StreamsManagerBase) : Prop where
  count : sm'.runningStreamsCount = sm.runningStreamsCount
  used : sm'.usedStreams = sm.usedStreams
  vacant : sm'.vacantStreams.elems M = sm.vacantStreams.elems M
  begun : sm'.createdStreamsCount - sm'.finishedStreamsCount = sm.createdStreamsCount - sm.finishedStreamsCount

/-- No other call notices that creations were refused. -/
structure Unnoticed (M : Nat) (calls : List Call) : Prop where
  refused : ∀ s s', Occurs (step M) (.new M) calls s .create s' → s.manager.createStreamId M = none →
    SameRegistry M s.manager s'.manager
  dropped : ∀ s, Reached (step M) (.new M) calls s → s.live = [] → s.manager.runningStreamsCount = 0
  /-- the loops over `0..running_streams_count` in `send_derived` -/
  loop : ∀ s, Reached (step M) (.new M) calls s → ∀ i < s.manager.runningStreamsCount.toNat,
    i < s.manager.usedStreams.length

/-- Every stream that was asked for was created. -/
def Accepted (M : Nat) (calls : List Call) : Prop :=
  ∀ s s', Occurs (step M) (.new M) calls s .create s' → s.manager.createStreamId M ≠ none

/-- The keep-running flags speak of live streams only. -/
structure FlagsOfLive (M : Nat) (calls : List Call) : Prop where
  live : ∀ s, Reached (step M) (.new M) calls s → ∀ id, s.manager.keepStreamRunning id = true → id ∈ s.live
  running : ∀ s, Reached (step M) (.new M) calls s → s.manager.isAnyStreamRunning M = true →
    0 < s.manager.runningStreamsCount
  fresh : ∀ s s' id, Occurs (step M) (.new M) calls s .create s' → s'.live = id :: s.live →
    s'.manager.keepStreamRunning id = true
  cancelled : ∀ s s', Occurs (step M) (.new M) calls s .cancelAll s' → ∀ id, s'.manager.keepStreamRunning id = false

/-- Streams are dropped only after they have been cancelled. -/
def CancelledFirst (M : Nat) (calls : List Call) : Prop :=
  ∀ s s' id, Occurs (step M) (.new M) calls s (.drop id) s' → s.manager.keepStreamRunning id = false

end StreamCalls

/-! ### Creating and dropping, whatever the counters are -/

namespace StreamsManagerBase
variable {M : Nat} {sm sm' : StreamsManagerBase} {id x : UInt32}

/-- The manager without `n` of the streams that it counts. -/
def uncount (sm : StreamsManagerBase) (n : Nat) : StreamsManagerBase :=
  { sm with usedStreamsCount := sm.usedStreamsCount - UInt32.ofNat n }

@[simp] theorem uncount_zero (sm : StreamsManagerBase) : sm.uncount 0 = sm := by
  simp [uncount]

theorem createStreamId_uncount (sm : StreamsManagerBase) (n : Nat) : (sm.uncount n).createStreamId M =
    (sm.createStreamId M).map fun r => (r.1.uncount n, r.2) := by
  have hsub : sm.usedStreamsCount - UInt32.ofNat n + 1 = sm.usedStreamsCount + 1 - UInt32.ofNat n := by
    grind
  simp only [createStreamId, takeVacant, incUsed, incCreated, uncount, hsub]
  rcases sm.vacantStreams.consumeMovable M with ⟨q, - | streamId⟩
  · rfl
  · rfl

theorem reportStreamDropped_uncount (sm : StreamsManagerBase) (n : Nat) (id : UInt32) :
    (sm.uncount n).reportStreamDropped M id = (sm.reportStreamDropped M id).uncount n := by
  have hsub : sm.usedStreamsCount - UInt32.ofNat n - 1 = sm.usedStreamsCount - 1 - UInt32.ofNat n := by
    grind
  simp only [reportStreamDropped, giveVacant, decUsed, incFinished, clearWaker, uncount, hsub]
  rfl

theorem counts_createStreamId (hc : sm.createStreamId M = some (sm', id)) :
    sm'.createdStreamsCount = sm.createdStreamsCount + 1 ∧ sm'.finishedStreamsCount = sm.finishedStreamsCount := by
  unfold createStreamId at hc
  generalize htake : sm.incCreated.incUsed.takeVacant M = r at hc
  rcases r with ⟨taken, _ | streamId⟩
  · cases hc
  · cases hc
    obtain rfl : (takeVacant M sm.incCreated.incUsed).1 = taken := congrArg Prod.fst htake
    exact ⟨rfl, rfl⟩

theorem foldl_setKeepRunning (l : List UInt32) (sm : StreamsManagerBase) :
    l.foldl (fun sm streamId => sm.setKeepRunning streamId false) sm =
      { sm with keepStreamsRunning := fun x => if x ∈ l then false else sm.keepStreamsRunning x } := by
  induction l generalizing sm with
  | nil => simp
  | cons id l ih =>
    rw [List.foldl_cons, ih]
    unfold setKeepRunning
    congr 1
    funext x
    by_cases hx : x = id <;> simp [hx]

theorem createOrPanic_cases (h : VacantOk M sm) :
    (∃ sm' id, sm.createStreamId M = some (sm', id) ∧ sm.createOrPanic M = (sm', some id)) ∨
    (sm.createStreamId M = none ∧ sm.createOrPanic M = (sm.incCreated.incUsed, none)) := by
  simp only [createStreamId, createOrPanic, takeVacant, incUsed, incCreated]
  rcases LawfulMoveContainer.consume_cases (C := FullSyncMove) h.wf with ⟨q, v, -, hq, -⟩ | ⟨hq, -⟩
  · have hq' : sm.vacantStreams.consumeMovable M = (q, some v) := hq
    rw [hq']
    exact .inl ⟨_, v, rfl, rfl⟩
  · have hq' : sm.vacantStreams.consumeMovable M = (sm.vacantStreams, none) := hq
    rw [hq']
    exact .inr ⟨rfl, rfl⟩

end StreamsManagerBase

namespace StreamCalls
open Machine (Reached Occurs)
open MultiOgreArc (cancelAllStreams)
open StreamsManagerBase (SameIds)

variable {M : Nat} {s s' : StreamCalls} {call : Call} {calls : List Call} {id : UInt32}

/-! ### What every call keeps -/

/-- The registry is in order but for the refused creations, which `running_streams_count` counts as well. -/
structure Sound (M : Nat) (s : StreamCalls) : Prop where
  synced : (s.manager.uncount s.refused).Synced M
  live : s.live.Perm (s.manager.inUse M)
  begun : s.manager.createdStreamsCount - s.manager.finishedStreamsCount = UInt32.ofNat (s.live.length + s.refused)

namespace Sound

theorem new (hM : Ring.PowerOfTwo M) : Sound M (.new M) := by
  refine ⟨?_, ?_, (by decide : (0 : UInt32) - 0 = UInt32.ofNat 0)⟩
  · rw [show (StreamCalls.new M).refused = 0 from rfl, StreamsManagerBase.uncount_zero]
    exact .new hM
  · rw [show (StreamCalls.new M).manager.inUse M = [] from StreamsManagerBase.inUse_new hM]
    exact .nil

theorem count (h : Sound M s) : s.manager.runningStreamsCount = UInt32.ofNat (s.live.length + s.refused) := by
  have hc : s.manager.usedStreamsCount - UInt32.ofNat s.refused = UInt32.ofNat (s.manager.inUse M).length :=
    h.synced.count
  rw [StreamsManagerBase.runningStreamsCount, UInt32.ofNat_add, h.live.length_eq, ← hc, UInt32.sub_add_cancel]

theorem length_used (hM : Ring.PowerOfTwo M) (h : Sound M s) : s.manager.usedStreams.length = M := by
  have hle : (s.manager.inUse M).length ≤ M := Nat.le_trans h.synced.length_le hM.room_le_self
  have hu : s.manager.usedStreams = s.manager.inUse M ++ List.replicate (M - (s.manager.inUse M).length) u32Max :=
    h.synced.used
  rw [hu, List.length_append, List.length_replicate]
  omega

theorem usedIds (hM : Ring.PowerOfTwo M) (h : Sound M s) : s.manager.usedIds = s.manager.inUse M :=
  StreamsManagerBase.usedIds_of_eq hM h.synced.used

theorem of_sameIds {sm : StreamsManagerBase} (h : Sound M s) (hs : SameIds s.manager sm)
    (hc : sm.createdStreamsCount = s.manager.createdStreamsCount)
    (hf : sm.finishedStreamsCount = s.manager.finishedStreamsCount) : Sound M { s with manager := sm } := by
  refine ⟨h.synced.congr ⟨hs.vacant, hs.used, ?_⟩, ?_, ?_⟩
  · show sm.usedStreamsCount - _ = s.manager.usedStreamsCount - _
    rw [hs.count]
  · show s.live.Perm (sm.inUse M)
    unfold StreamsManagerBase.inUse
    rw [hs.vacant]
    exact h.live
  · show sm.createdStreamsCount - sm.finishedStreamsCount = _
    rw [hc, hf]
    exact h.begun

theorem create (hM : Ring.PowerOfTwo M) (h : Sound M s) {sm : StreamsManagerBase}
    (hc : s.manager.createStreamId M = some (sm, id)) : Sound M { s with manager := sm, live := id :: s.live } := by
  have hc' : (s.manager.uncount s.refused).createStreamId M = some (sm.uncount s.refused, id) := by
    rw [StreamsManagerBase.createStreamId_uncount, hc]
    rfl
  have hlive : (id :: s.live).Perm ((sm.uncount s.refused).inUse M) := h.synced.live_create hM h.live hc'
  refine ⟨(h.synced.create hM hc').1, hlive, ?_⟩
  obtain ⟨hcreated, hfinished⟩ := StreamsManagerBase.counts_createStreamId hc
  have hb := h.begun
  show sm.createdStreamsCount - sm.finishedStreamsCount = UInt32.ofNat (s.live.length + 1 + s.refused)
  rw [hcreated, hfinished, Nat.add_right_comm, Wrap.ofNat_succ, ← hb]
  grind

theorem refuse (h : Sound M s) :
    Sound M { s with manager := s.manager.incCreated.incUsed, refused := s.refused + 1 } := by
  have hcount : s.manager.incCreated.incUsed.uncount (s.refused + 1) = (s.manager.uncount s.refused).incCreated := by
    have hsub : s.manager.usedStreamsCount + 1 - (UInt32.ofNat s.refused + 1) =
        s.manager.usedStreamsCount - UInt32.ofNat s.refused := by
      grind
    simp only [StreamsManagerBase.uncount, StreamsManagerBase.incUsed, StreamsManagerBase.incCreated,
      Wrap.ofNat_succ, hsub]
  refine ⟨?_, h.live, ?_⟩
  · show (s.manager.incCreated.incUsed.uncount (s.refused + 1)).Synced M
    rw [hcount]
    exact h.synced.congr ⟨rfl, rfl, rfl⟩
  · have hb := h.begun
    show s.manager.createdStreamsCount + 1 - s.manager.finishedStreamsCount =
      UInt32.ofNat (s.live.length + (s.refused + 1))
    rw [← Nat.add_assoc, Wrap.ofNat_succ, ← hb]
    grind

theorem drop (hM : Ring.PowerOfTwo M) (h : Sound M s) (hid : id ∈ s.live) :
    Sound M { s with manager := s.manager.reportStreamDropped M id, live := s.live.erase id } := by
  have hin : id ∈ (s.manager.uncount s.refused).inUse M := h.live.mem_iff.mp hid
  refine ⟨?_, ?_, ?_⟩
  · show ((s.manager.reportStreamDropped M id).uncount s.refused).Synced M
    rw [← StreamsManagerBase.reportStreamDropped_uncount]
    exact (h.synced.drop hM hin).1
  · have hlive := h.synced.live_drop hM h.live hid
    rw [StreamsManagerBase.reportStreamDropped_uncount] at hlive
    exact hlive
  · have hb := h.begun
    have hlen : s.live.length + s.refused = (s.live.erase id).length + s.refused + 1 := by
      have := List.length_pos_of_mem hid
      rw [List.length_erase_of_mem hid]
      omega
    rw [hlen, Wrap.ofNat_succ] at hb
    show s.manager.createdStreamsCount - (s.manager.finishedStreamsCount + 1) = _
    grind

theorem cancelAll (h : Sound M s) : Sound M { s with manager := cancelAllStreams s.manager } := by
  rw [cancelAllStreams, StreamsManagerBase.foldl_setKeepRunning]
  exact h.of_sameIds ⟨rfl, rfl, rfl⟩ rfl rfl

end Sound

theorem step_cases (h : Sound M s) (hs : s.step M call = some s') :
    (∃ sm id, call = .create ∧ s.manager.createStreamId M = some (sm, id) ∧
      s' = { s with manager := sm, live := id :: s.live }) ∨
    (call = .create ∧ s.manager.createStreamId M = none ∧
      s' = { s with manager := s.manager.incCreated.incUsed, refused := s.refused + 1 }) ∨
    (∃ id, call = .cancel id ∧ s' = { s with manager := s.manager.cancelStream id }) ∨
    (call = .cancelAll ∧ s' = { s with manager := cancelAllStreams s.manager }) ∨
    (∃ id, call = .drop id ∧ id ∈ s.live ∧
      s' = { s with manager := s.manager.reportStreamDropped M id, live := s.live.erase id }) := by
  cases call with
  | create =>
    have hok : StreamsManagerBase.VacantOk M s.manager := ⟨h.synced.vacant.wf, h.synced.vacant.nodup, h.synced.vacant.lt⟩
    rcases StreamsManagerBase.createOrPanic_cases hok with ⟨sm, id, hc, hp⟩ | ⟨hc, hp⟩
    · simp only [step, hp, Option.some.injEq] at hs
      exact .inl ⟨sm, id, rfl, hc, hs.symm⟩
    · simp only [step, hp, Option.some.injEq] at hs
      exact .inr (.inl ⟨rfl, hc, hs.symm⟩)
  | cancel id =>
    simp only [step, Option.ite_none_right_eq_some, Option.some.injEq] at hs
    exact .inr (.inr (.inl ⟨id, rfl, hs.2.symm⟩))
  | cancelAll =>
    simp only [step, Option.some.injEq] at hs
    exact .inr (.inr (.inr (.inl ⟨rfl, hs.symm⟩)))
  | drop id =>
    simp only [step, Option.ite_none_right_eq_some, Option.some.injEq] at hs
    exact .inr (.inr (.inr (.inr ⟨id, rfl, hs.1, hs.2.symm⟩)))

theorem Sound.step (hM : Ring.PowerOfTwo M) (h : Sound M s) (hs : s.step M call = some s') : Sound M s' := by
  rcases step_cases h hs with ⟨sm, id, -, hc, rfl⟩ | ⟨-, -, rfl⟩ | ⟨id, -, rfl⟩ | ⟨-, rfl⟩ | ⟨id, -, hid, rfl⟩
  · exact h.create hM hc
  · exact h.refuse
  · exact h.of_sameIds (.cancelStream _ _) rfl rfl
  · exact h.cancelAll
  · exact h.drop hM hid

theorem Sound.of_reached (hM : Ring.PowerOfTwo M) (h : Reached (StreamCalls.step M) (.new M) calls s) : Sound M s := by
  refine Reached.invariant ?_ (Sound.new hM) h
  rintro s call s' - hsound ⟨-, -, -, hs⟩
  exact hsound.step hM hs

/-! ### Refused creations -/

theorem refused_eq_zero (hM : Ring.PowerOfTwo M) (ha : Accepted M calls)
    (h : Reached (step M) (.new M) calls s) : s.refused = 0 := by
  refine Reached.invariant (I := fun s => s.refused = 0) ?_ rfl h
  intro s call s' hreached hzero ho
  obtain ⟨-, -, -, hs⟩ := id ho
  rcases step_cases (.of_reached hM hreached) hs with
    ⟨sm, id, -, -, rfl⟩ | ⟨rfl, hc, -⟩ | ⟨id, -, rfl⟩ | ⟨-, rfl⟩ | ⟨id, -, -, rfl⟩
  case inr.inl => exact absurd hc (ha s s' ho)
  all_goals exact hzero

theorem not_sameRegistry_refuse (sm : StreamsManagerBase) : ¬ SameRegistry M sm sm.incCreated.incUsed := by
  intro h
  have hc : sm.usedStreamsCount + 1 = sm.usedStreamsCount := h.count
  grind

/-- Refused creations go unnoticed in exactly the runs that have none. -/
theorem unnoticed_iff (hM : Ring.PowerOfTwo M) (calls : List Call) : Unnoticed M calls ↔ Accepted M calls := by
  constructor
  · intro h s s' ho hc
    have hsame := h.refused s s' ho hc
    obtain ⟨-, -, -, hs⟩ := id ho
    rcases step_cases (.of_reached hM ho.before) hs with
      ⟨sm, id, -, hc', -⟩ | ⟨-, -, rfl⟩ | ⟨id, hcall, -⟩ | ⟨hcall, -⟩ | ⟨id, hcall, -⟩
    · rw [hc] at hc'
      cases hc'
    · exact not_sameRegistry_refuse s.manager hsame
    all_goals cases hcall
  · intro ha
    refine ⟨fun s s' ho hc => absurd hc (ha s s' ho), fun s hs hlive => ?_, fun s hs i hi => ?_⟩
    · rw [(Sound.of_reached hM hs).count, hlive, refused_eq_zero hM ha hs]
      rfl
    · have hsound := Sound.of_reached hM hs
      have hlive : s.live.length ≤ M := by
        rw [hsound.live.length_eq]
        exact Nat.le_trans hsound.synced.length_le hM.room_le_self
      rw [hsound.count, refused_eq_zero hM ha hs] at hi
      rw [hsound.length_used hM]
      exact Nat.lt_of_lt_of_le hi (Nat.le_trans (Nat.mod_le ..) hlive)

/-- The second of three streams is dropped before the third one is created. -/
theorem unnoticed_two : Unnoticed 2 [.create, .create, .drop 1, .create] := by
  refine (unnoticed_iff ⟨1, rfl⟩ [.create, .create, .drop 1, .create]).mpr ?_
  intro s s' ho
  have hrun : (Machine.exec (Machine.restrict (step 2)
      fun s call _ => decide (call = .create → s.manager.createStreamId 2 ≠ none)) (.new 2)
      [.create, .create, .drop 1, .create]).isSome = true := by
    decide +kernel
  obtain ⟨t, ht⟩ := Option.isSome_iff_exists.mp hrun
  exact of_decide_eq_true (ho.of_exec_restrict ht) rfl

/-- The only stream there may be: asked for twice, dropped, and one is still running. -/
theorem refusal_noticed : ¬ Unnoticed 1 [.create, .create, .drop 0] ∧
    ((Machine.exec (step 1) (.new 1) [.create, .create]).map fun s =>
      (s.manager.runningStreamsCount, s.manager.usedStreams.length)) = some (2, 1) := by
  have hrun : ((Machine.exec (step 1) (.new 1) [.create, .create, .drop 0]).map fun s =>
      (s.live, s.manager.runningStreamsCount)) = some ([], 1) := by
    decide +kernel
  refine ⟨fun h => ?_, by decide +kernel⟩
  obtain ⟨s, hs, hlive⟩ := Option.map_eq_some_iff.mp hrun
  rw [Prod.mk.injEq] at hlive
  have hzero := h.dropped s (.of_exec hs) hlive.1
  rw [hlive.2] at hzero
  cases hzero

/-! ### The keep-running flags -/

theorem keep_cancelAll (hM : Ring.PowerOfTwo M) (h : Sound M s) (x : UInt32) :
    (cancelAllStreams s.manager).keepStreamRunning x = if x ∈ s.live then false else s.manager.keepStreamRunning x := by
  rw [cancelAllStreams, StreamsManagerBase.foldl_setKeepRunning, h.usedIds hM]
  simp only [StreamsManagerBase.keepStreamRunning, h.live.mem_iff]

/-- A step leaves the flags of streams that are not live clear, if the one that it drops has been cancelled. -/
theorem flags_step (hM : Ring.PowerOfTwo M) (h : Sound M s)
    (hf : ∀ x, s.manager.keepStreamRunning x = true → x ∈ s.live) (hs : s.step M call = some s')
    (hc : ∀ x, call = .drop x → s.manager.keepStreamRunning x = false) :
    ∀ x, s'.manager.keepStreamRunning x = true → x ∈ s'.live := by
  intro x hx
  rcases step_cases h hs with ⟨sm, id, -, hcreate, rfl⟩ | ⟨-, -, rfl⟩ | ⟨id, -, rfl⟩ | ⟨-, rfl⟩ | ⟨id, hcall, hid, rfl⟩
  · have hkeep : sm.keepStreamRunning x = Function.update s.manager.keepStreamsRunning id true x :=
      congrFun (StreamsManagerBase.keep_createStreamId hcreate) x
    by_cases hxi : x = id
    · exact List.mem_cons.mpr (.inl hxi)
    · rw [hkeep, Function.update_of_ne hxi] at hx
      exact List.mem_cons_of_mem _ (hf x hx)
  · exact hf x hx
  · by_cases hxi : x = id
    · subst hxi
      cases (Function.update_self ..).symm.trans hx
    · exact hf x ((Function.update_of_ne hxi _ _).symm.trans hx)
  · rw [keep_cancelAll hM h] at hx
    split at hx
    · cases hx
    · exact hf x hx
  · have hne : x ≠ id := by
      rintro rfl
      cases (hc x hcall).symm.trans hx
    exact (List.mem_erase_of_ne hne).mpr (hf x hx)

theorem flags_of_reached (hM : Ring.PowerOfTwo M) (hc : CancelledFirst M calls)
    (h : Reached (step M) (.new M) calls s) (x : UInt32) (hx : s.manager.keepStreamRunning x = true) : x ∈ s.live := by
  refine Reached.invariant (I := fun s => ∀ x, s.manager.keepStreamRunning x = true → x ∈ s.live) ?_ ?_ h x hx
  · intro s call s' hs hf ho
    have hs' := ho
    obtain ⟨-, -, -, hstep⟩ := hs'
    refine flags_step hM (.of_reached hM hs) hf hstep ?_
    rintro id rfl
    exact hc s s' id ho
  · intro x hx
    cases hx

theorem exists_keep_of_running {sm : StreamsManagerBase} (h : sm.isAnyStreamRunning M = true) :
    ∃ x, sm.keepStreamRunning x = true := by
  obtain ⟨x, -, hx⟩ := List.any_eq_true.mp h
  exact ⟨x, hx⟩

theorem keep_fresh (hM : Ring.PowerOfTwo M) (ho : Occurs (step M) (.new M) calls s .create s')
    (hlive : s'.live = id :: s.live) : s'.manager.keepStreamRunning id = true := by
  have hsound := Sound.of_reached hM ho.before
  obtain ⟨-, -, -, hs⟩ := ho
  rcases step_cases hsound hs with ⟨sm, x, -, hc, rfl⟩ | ⟨-, -, rfl⟩ | ⟨x, hcall, -⟩ | ⟨hcall, -⟩ | ⟨x, hcall, -⟩
  · obtain rfl : x = id := (List.cons.inj hlive).1
    have hkeep : sm.keepStreamRunning x = Function.update s.manager.keepStreamsRunning x true x :=
      congrFun (StreamsManagerBase.keep_createStreamId hc) x
    rw [hkeep, Function.update_self]
  · exact absurd hlive.symm (List.cons_ne_self _ _)
  all_goals cases hcall

/-- The flags speak of live streams only in exactly the runs that cancel every stream before it is dropped. -/
theorem flagsOfLive_iff (hM : Ring.PowerOfTwo M) (calls : List Call) (ha : Accepted M calls) :
    FlagsOfLive M calls ↔ CancelledFirst M calls := by
  constructor
  · intro h s s' x ho
    by_contra hkeep
    rw [Bool.not_eq_false] at hkeep
    have hsound := Sound.of_reached hM ho.before
    have hafter := h.live s' ho.after x
    obtain ⟨-, -, -, hs⟩ := ho
    rw [step, Option.ite_none_right_eq_some, Option.some.injEq] at hs
    obtain ⟨hx, rfl⟩ := hs
    have hnd : s.live.Nodup := hsound.live.nodup_iff.mpr StreamsManagerBase.nodup_inUse
    exact hnd.not_mem_erase (hafter hkeep)
  · intro hc
    refine ⟨fun s hs x => flags_of_reached hM hc hs x, fun s hs hrun => ?_, fun s s' x ho => keep_fresh hM ho, ?_⟩
    · obtain ⟨x, hx⟩ := exists_keep_of_running hrun
      have hsound := Sound.of_reached hM hs
      have hpos := List.length_pos_of_mem (flags_of_reached hM hc hs x hx)
      have hle := hsound.synced.length_le
      have hroom : (UInt32.ofNat M).toNat ≤ 2 ^ 31 := hM.room_le
      have hlen : s.live.length ≤ (UInt32.ofNat M).toNat := hsound.live.length_eq ▸ hle
      rw [UInt32.lt_iff_toNat_lt, hsound.count, refused_eq_zero hM ha hs, Nat.add_zero,
        Wrap.toNat_ofNat_of_lt (by omega)]
      exact hpos
    · intro s s' ho x
      have hsound := Sound.of_reached hM ho.before
      have hflags := flags_of_reached hM hc ho.before x
      obtain ⟨-, -, -, hs⟩ := ho
      cases hs
      rw [keep_cancelAll hM hsound]
      split
      · rfl
      · exact Bool.eq_false_iff.mpr fun hkeep => absurd (hflags hkeep) ‹_›

def Call.dropped : Call → Option UInt32
  | .drop streamId => some streamId
  | _ => none

/-- An id is reused after its stream was cancelled and dropped. -/
theorem flagsOfLive_two : FlagsOfLive 2 [.create, .create, .cancel 0, .drop 0, .create, .cancelAll, .drop 1] := by
  have hrun : (Machine.exec (Machine.restrict (step 2) fun s call _ =>
      decide ((call = .create → s.manager.createStreamId 2 ≠ none) ∧
        call.dropped.all fun x => !s.manager.keepStreamRunning x)) (.new 2)
      [.create, .create, .cancel 0, .drop 0, .create, .cancelAll, .drop 1]).isSome = true := by
    decide +kernel
  obtain ⟨t, ht⟩ := Option.isSome_iff_exists.mp hrun
  refine (flagsOfLive_iff ⟨1, rfl⟩ [.create, .create, .cancel 0, .drop 0, .create, .cancelAll, .drop 1] ?_).mpr ?_
  · intro s s' ho
    exact (of_decide_eq_true (ho.of_exec_restrict ht)).1 rfl
  · intro s s' x ho
    have hkeep := (of_decide_eq_true (ho.of_exec_restrict ht)).2
    rw [Call.dropped, Option.all_some, Bool.not_eq_true'] at hkeep
    exact hkeep

/-- A channel whose only stream was dropped says it is open, also after all streams have been cancelled. -/
theorem dropped_stream_runs : ¬ FlagsOfLive 1 [.create, .drop 0, .cancelAll] ∧
    ((Machine.exec (step 1) (.new 1) [.create, .drop 0, .cancelAll]).map fun s =>
      (s.live, s.manager.isAnyStreamRunning 1, s.manager.runningStreamsCount)) = some ([], true, 0) := by
  have hrun : ((Machine.exec (step 1) (.new 1) [.create, .drop 0, .cancelAll]).map fun s =>
      (s.live, s.manager.isAnyStreamRunning 1, s.manager.runningStreamsCount)) = some ([], true, 0) := by
    decide +kernel
  refine ⟨fun h => ?_, hrun⟩
  obtain ⟨s, hs, heq⟩ := Option.map_eq_some_iff.mp hrun
  simp only [Prod.mk.injEq] at heq
  have hpos := h.running s (.of_exec hs) heq.2.1
  rw [heq.2.2] at hpos
  exact absurd hpos (by decide)

end StreamCalls
end Mutiny
