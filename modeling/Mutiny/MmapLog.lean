import Mutiny.MMapMeta
import Mutiny.MutinyStream
import Mutiny.SyncedStreams

/-!
# The `MmapLog` Multi channel, one call at a time

`multi/channels/reference/mmap_log.rs`: every stream follows the log with a subscriber of its own, either up to the
end of the log or up to where the log ended when the stream was created. In the latter case the stream cancels itself
once it got there. What the log does in one call is what its atomic steps do if nobody interferes (`consume_run`).

Waking a stream changes nothing here.
-/

namespace Mutiny

/-- `MMapMetaSubscriber`, between two calls. -/
structure LogSubscriber where
  kind : MMapMeta.Kind
  head : Nat

inductive Poll (α : Type)
  | ready (event : Option α)
  | pending

/-- `logQueue` are the events below `consumer_tail`. -/
structure MmapLog (α : Type) where
  streamsManager : StreamsManagerBase
  logQueue : List α
  subscribers : UInt32 → LogSubscriber

namespace LogSubscriber

/-- What the head is compared with, in a log of `len` events. -/
def tail (u : LogSubscriber) (len : Nat) : Nat :=
  match u.kind with
  | .dynamic => len
  | .fixed fixedTail => fixedTail

def consume (u : LogSubscriber) (len : Nat) : LogSubscriber × Option Nat :=
  if u.head ≥ u.tail len then (u, none) else ({ u with head := u.head + 1 }, some u.head)

def remainingElementsCount (u : LogSubscriber) (len : Nat) : Nat := u.tail len - u.head

end LogSubscriber

namespace StreamsManagerBase

def cancelStream (sm : StreamsManagerBase) (streamId : UInt32) : StreamsManagerBase := sm.setKeepRunning streamId false

end StreamsManagerBase

namespace MmapLog
variable {α : Type}

def new (M : Nat) : MmapLog α := ⟨.new M, [], fun _ => ⟨.dynamic, 0⟩⟩

/-- There is no result if `create_stream_id` panics. -/
def createStreamForNewEvents (M : Nat) (c : MmapLog α) : Option (MmapLog α × UInt32) := do
  let (streamsManager, streamId) ← c.streamsManager.createStreamId M
  let newies := ⟨.dynamic, c.logQueue.length⟩
  return ({ c with streamsManager, subscribers := Function.update c.subscribers streamId newies }, streamId)

def createStreamsForOldAndNewEvents (M : Nat) (c : MmapLog α) : Option (MmapLog α × UInt32 × UInt32) := do
  let oldies := ⟨.fixed c.logQueue.length, 0⟩
  let newies := ⟨.dynamic, c.logQueue.length⟩
  let (streamsManager, oldiesId) ← c.streamsManager.createStreamId M
  let (streamsManager, newiesId) ← streamsManager.createStreamId M
  let subscribers := Function.update (Function.update c.subscribers oldiesId oldies) newiesId newies
  return ({ c with streamsManager, subscribers }, oldiesId, newiesId)

/-- There is no result if it writes beyond the `N` slots of the file. -/
def send (N : Nat) (c : MmapLog α) (item : α) : Option (MmapLog α) :=
  if c.logQueue.length < N then some { c with logQueue := c.logQueue ++ [item] } else none

def cancelStream (c : MmapLog α) (streamId : UInt32) : MmapLog α :=
  { c with streamsManager := c.streamsManager.cancelStream streamId }

def consume (c : MmapLog α) (streamId : UInt32) : MmapLog α × Option α :=
  let subscriber := c.subscribers streamId
  match subscriber.consume c.logQueue.length with
  | (subscriber, some slot) =>
    ({ c with subscribers := Function.update c.subscribers streamId subscriber }, c.logQueue[slot]?)
  | (_, none) =>
    match subscriber.kind with
    | .dynamic => (c, none)
    | .fixed _ => (c.cancelStream streamId, none)

def pollNext (c : MmapLog α) (streamId : UInt32) (waker : Waker) : MmapLog α × Poll α :=
  match c.consume streamId with
  | (c, some event) => (c, .ready (some event))
  | (c, none) =>
    if c.streamsManager.keepStreamRunning streamId then
      ({ c with streamsManager := (c.streamsManager.registerStreamWaker streamId waker).1 }, .pending)
    else (c, .ready none)

def dropResources (M : Nat) (c : MmapLog α) (streamId : UInt32) : MmapLog α :=
  { c with streamsManager := c.streamsManager.reportStreamDropped M streamId }

def pendingItemsCount (c : MmapLog α) : UInt32 :=
  UInt32.ofNat ((c.streamsManager.usedIds.map fun streamId =>
    (c.subscribers streamId).remainingElementsCount c.logQueue.length).max?.getD 0)

def isVacant (M : Nat) (c : MmapLog α) (streamId : UInt32) : Bool :=
  decide (streamId ∈ c.streamsManager.vacantStreams.peekRemaining M)

end MmapLog

/-! ### What the calls do to the streams manager -/

namespace StreamsManagerBase
variable {M : Nat} {sm sm' : StreamsManagerBase} {id : UInt32}

/-- The ids are vacant and in use as before. -/
structure SameIds (sm sm' : StreamsManagerBase) : Prop where
  vacant : sm'.vacantStreams = sm.vacantStreams
  used : sm'.usedStreams = sm.usedStreams
  count : sm'.usedStreamsCount = sm.usedStreamsCount

theorem SameIds.refl (sm : StreamsManagerBase) : SameIds sm sm := ⟨rfl, rfl, rfl⟩

theorem SameIds.cancelStream (sm : StreamsManagerBase) (id : UInt32) : SameIds sm (sm.cancelStream id) :=
  ⟨rfl, rfl, rfl⟩

theorem SameIds.setWaker (sm : StreamsManagerBase) (id : UInt32) (waker : Waker) : SameIds sm (sm.setWaker id waker) :=
  ⟨rfl, rfl, rfl⟩

theorem Synced.congr (h : Synced M sm) (hs : SameIds sm sm') : Synced M sm' := by
  have hin : sm'.inUse M = sm.inUse M := by
    unfold inUse
    rw [hs.vacant]
  refine ⟨⟨?_, ?_, ?_⟩, ?_, ?_⟩
  · rw [hs.vacant]; exact h.vacant.wf
  · rw [hs.vacant]; exact h.vacant.nodup
  · rw [hs.vacant]; exact h.vacant.lt
  · rw [hs.used, hin]; exact h.used
  · rw [hs.count, hin]; exact h.count

theorem keep_createStreamId (hc : sm.createStreamId M = some (sm', id)) :
    sm'.keepStreamsRunning = Function.update sm.keepStreamsRunning id true := by
  unfold createStreamId at hc
  generalize htake : sm.incCreated.incUsed.takeVacant M = r at hc
  rcases r with ⟨taken, _ | streamId⟩
  · cases hc
  · cases hc
    obtain rfl : (takeVacant M sm.incCreated.incUsed).1 = taken := congrArg Prod.fst htake
    rfl

end StreamsManagerBase

namespace MmapLog
variable {α : Type} {c c' : MmapLog α} {id : UInt32} {waker : Waker} {r : Poll α}
open StreamsManagerBase (SameIds)

/-- Nothing was consumed: a stream for old events has cancelled itself. -/
theorem consume_cases {event : Option α} (h : c.consume id = (c', event)) :
    c'.streamsManager = c.streamsManager ∨ (event = none ∧ c' = c.cancelStream id) := by
  unfold consume at h
  dsimp only at h
  split at h
  · cases h
    exact .inl rfl
  · split at h
    · cases h
      exact .inl rfl
    · cases h
      exact .inr ⟨rfl, rfl⟩

theorem pollNext_spec (h : c.pollNext id waker = (c', r)) :
    SameIds c.streamsManager c'.streamsManager ∧
    (c'.streamsManager.keepStreamsRunning = c.streamsManager.keepStreamsRunning ∨ r = .ready none ∧
      c'.streamsManager.keepStreamsRunning = Function.update c.streamsManager.keepStreamsRunning id false) := by
  unfold pollNext at h
  rcases hc : c.consume id with ⟨c₁, event⟩
  rw [hc] at h
  rcases consume_cases hc with hsame | ⟨rfl, rfl⟩
  · cases event with
    | some event =>
      cases h
      rw [hsame]
      exact ⟨.refl _, .inl rfl⟩
    | none =>
      dsimp only at h
      split at h
      · cases h
        obtain ⟨-, hsm⟩ := c₁.streamsManager.registerStreamWaker_spec id waker
        dsimp only
        rw [hsm, hsame]
        exact ⟨.setWaker _ _ _, .inl rfl⟩
      · cases h
        rw [hsame]
        exact ⟨.refl _, .inl rfl⟩
  · have hkeep : (c.cancelStream id).streamsManager.keepStreamRunning id = false := Function.update_self ..
    dsimp only at h
    rw [hkeep] at h
    cases h
    exact ⟨.cancelStream _ _, .inr ⟨rfl, rfl⟩⟩

theorem createStreamForNewEvents_cases {M : Nat} (h : c.createStreamForNewEvents M = some (c', id)) :
    c.streamsManager.createStreamId M = some (c'.streamsManager, id) := by
  unfold createStreamForNewEvents at h
  cases hc : c.streamsManager.createStreamId M with
  | none => simp [hc] at h
  | some r =>
    simp only [hc, Option.bind_eq_bind, Option.bind_some, Option.pure_def, Option.some.injEq, Prod.mk.injEq] at h
    obtain ⟨rfl, rfl⟩ := h
    rfl

theorem createStreamsForOldAndNewEvents_cases {M : Nat} {id' : UInt32}
    (h : c.createStreamsForOldAndNewEvents M = some (c', id, id')) :
    ∃ sm, c.streamsManager.createStreamId M = some (sm, id) ∧ sm.createStreamId M = some (c'.streamsManager, id') := by
  unfold createStreamsForOldAndNewEvents at h
  cases hc : c.streamsManager.createStreamId M with
  | none => simp [hc] at h
  | some r =>
    cases hc' : r.1.createStreamId M with
    | none => simp [hc, hc'] at h
    | some r' =>
      simp only [hc, hc', Option.bind_eq_bind, Option.bind_some, Option.pure_def, Option.some.injEq, Prod.mk.injEq] at h
      obtain ⟨rfl, rfl, rfl⟩ := h
      exact ⟨r.1, rfl, hc'⟩

end MmapLog

/-! ### The atomic steps of the log -/

namespace LogSubscriber
open MMapMeta

section Steps
variable {τ α : Type} {N i : Nat} {s : Sys τ α} {u u' : Subscriber α}

def returned (v : LogSubscriber) (contents : MMapContents α) : Returned α :=
  match (v.consume contents.consumerTail).2 with
  | some slot => .item (contents.buffer slot) (Int32.ofNat (v.tail contents.consumerTail - slot))
  | none => .none (v.tail contents.consumerTail)

theorem getElem?_setSubscriber (hu : s.subscribers[i]? = some u) (u' : Subscriber α) :
    (s.setSubscriber i u').subscribers[i]? = some u' := by
  obtain ⟨hi, -⟩ := List.getElem?_eq_some_iff.mp hu
  exact List.getElem?_set_self hi

theorem setSubscriber_setSubscriber (u u' : Subscriber α) :
    (s.setSubscriber i u).setSubscriber i u' = s.setSubscriber i u' := by
  simp [Sys.setSubscriber, List.set_set]

variable [DecidableEq τ]

theorem exec_runConsume (hu : s.subscribers[i]? = some u) {l : List (Label τ α)} {v : Subscriber α}
    (hrun : (s.setSubscriber i u').runConsume N i u' false = some ((s.setSubscriber i u').setSubscriber i v)) :
    Machine.exec (Sys.step N) (s.setSubscriber i u') (.runConsume i false :: l) =
      Machine.exec (Sys.step N) (s.setSubscriber i v) l := by
  have hstep : (s.setSubscriber i u').step N (.runConsume i false) = some (s.setSubscriber i v) := by
    show ((s.setSubscriber i u').subscribers[i]?).bind _ = _
    rw [getElem?_setSubscriber hu, Option.bind_some, hrun, setSubscriber_setSubscriber]
  rw [Machine.exec_cons, hstep, Option.bind_some]

theorem consume_run (hu : s.subscribers[i]? = some u) (hidle : u.op = .idle)
    (htail : (LogSubscriber.mk u.kind u.head).tail s.contents.consumerTail ≤ N) :
    ∃ n, Machine.exec (Sys.step N) s (.consume i :: List.replicate n (.runConsume i false)) =
      some (s.setSubscriber i { u with
        head := ((LogSubscriber.mk u.kind u.head).consume s.contents.consumerTail).1.head,
        returned := u.returned ++ [(LogSubscriber.mk u.kind u.head).returned s.contents] }) := by
  have hstart : ∀ l, Machine.exec (Sys.step N) s (.consume i :: l) =
      Machine.exec (Sys.step N) (s.setSubscriber i { u with op := .reserve }) l := by
    intro l
    have hstep : s.step N (.consume i) = some (s.setSubscriber i { u with op := .reserve }) := by
      show (s.subscribers[i]?).bind _ = _
      rw [hu, Option.bind_some, hidle]
    rw [Machine.exec_cons, hstep, Option.bind_some]
  cases hk : u.kind with
  | dynamic =>
    refine ⟨3, ?_⟩
    rw [hstart]
    by_cases hlt : u.head ≥ s.contents.consumerTail
    · rw [List.replicate_succ, exec_runConsume hu (v := { u with head := u.head + 1, op := .load u.head }),
        List.replicate_succ, exec_runConsume hu
          (v := { u with head := u.head + 1, op := .recede u.head s.contents.consumerTail }),
        List.replicate_one, exec_runConsume hu
          (v := { u with op := .idle, returned := u.returned ++ [.none s.contents.consumerTail] })]
      · simp [Machine.exec, consume, returned, tail, hlt, hk, hidle]
      · simp [Sys.runConsume]
      · simp [Sys.runConsume, Sys.setSubscriber, hlt]
      · simp [Sys.runConsume, hk]
    · rw [List.replicate_succ, exec_runConsume hu (v := { u with head := u.head + 1, op := .load u.head }),
        List.replicate_succ, exec_runConsume hu
          (v := { u with head := u.head + 1, op := .read u.head s.contents.consumerTail }),
        List.replicate_one, exec_runConsume hu
          (v := { u with head := u.head + 1, op := .idle, returned := u.returned ++
            [.item (s.contents.buffer u.head) (Int32.ofNat (s.contents.consumerTail - u.head))] })]
      · simp [Machine.exec, consume, returned, tail, hlt, hk, hidle]
      · rw [hk] at htail
        have hN : u.head < N := Nat.lt_of_lt_of_le (Nat.lt_of_not_le hlt) htail
        simp [Sys.runConsume, Sys.setSubscriber, hN]
      · simp [Sys.runConsume, Sys.setSubscriber, hlt]
      · simp [Sys.runConsume, hk]
  | fixed fixedTail =>
    refine ⟨2, ?_⟩
    rw [hstart]
    by_cases hlt : u.head ≥ fixedTail
    · rw [List.replicate_succ, exec_runConsume hu
          (v := { u with head := u.head + 1, op := .recede u.head fixedTail }),
        List.replicate_one, exec_runConsume hu
          (v := { u with op := .idle, returned := u.returned ++ [.none fixedTail] })]
      · simp [Machine.exec, consume, returned, tail, hlt, hk, hidle]
      · simp [Sys.runConsume]
      · simp [Sys.runConsume, hk, hlt]
    · rw [List.replicate_succ, exec_runConsume hu
          (v := { u with head := u.head + 1, op := .read u.head fixedTail }),
        List.replicate_one, exec_runConsume hu
          (v := { u with head := u.head + 1, op := .idle, returned := u.returned ++
            [.item (s.contents.buffer u.head) (Int32.ofNat (fixedTail - u.head))] })]
      · simp [Machine.exec, consume, returned, tail, hlt, hk, hidle]
      · rw [hk] at htail
        have hN : u.head < N := Nat.lt_of_lt_of_le (Nat.lt_of_not_le hlt) htail
        simp [Sys.runConsume, Sys.setSubscriber, hN]
      · simp [Sys.runConsume, hk, hlt]

end Steps

end LogSubscriber

end Mutiny
