import Mutiny.IncrementalAverages
import Mutiny.UniExecutors

/-!
# `StreamExecutor`

What the tasks of `spawn_executor`, `spawn_futures_executor` and `spawn_fallibles_executor` do with the items of their
streams. An item processor is the list of what it does once the item is resolved, in that order: `itemProcessor` has the
branches of the source, the macros being functions to such lists. The tasks that are concerned, those of the items that
run concurrently and the one of the executor, go on one step at a time (`step`), and so does each `inc` within them.

`for_each` and `for_each_concurrent` pull an item when their limit admits one more and end when the stream has ended and
all items are completed. The clock never goes back, and its readings fit 64 bits.
-/

namespace Mutiny.Executor
open Machine UniExecutors

inductive Instruments
  | noInstruments
  | logsWithoutMetrics
  | logsWithMetrics
  | logsWithExpensiveMetrics
  | metricsWithoutLogs
  | expensiveMetricsWithoutLogs
  | custom (instruments : Nat)
deriving DecidableEq

namespace Instruments

def COUNTERS : Nat := 1
def SATURATION : Nat := 2
def CHEAP_PROFILING : Nat := 4
def EXPENSIVE_PROFILING : Nat := 8
def LOG : Nat := 32
def PERFORMANCE_LOG : Nat := 64
def TRACING : Nat := 128

def into : Instruments → Nat
  | noInstruments => 0
  | logsWithoutMetrics => LOG
  | logsWithMetrics => LOG ||| PERFORMANCE_LOG ||| COUNTERS ||| SATURATION ||| CHEAP_PROFILING
  | logsWithExpensiveMetrics => LOG ||| PERFORMANCE_LOG ||| COUNTERS ||| SATURATION ||| EXPENSIVE_PROFILING
  | metricsWithoutLogs => COUNTERS ||| SATURATION ||| CHEAP_PROFILING
  | expensiveMetricsWithoutLogs => COUNTERS ||| SATURATION ||| EXPENSIVE_PROFILING
  | custom instruments => instruments

def logging (i : Instruments) : Bool := 0 < i.into &&& (LOG ||| TRACING)

def tracing (i : Instruments) : Bool := 0 < i.into &&& TRACING

def cheapProfiling (i : Instruments) : Bool :=
  0 < i.into &&& (COUNTERS ||| SATURATION ||| CHEAP_PROFILING ||| EXPENSIVE_PROFILING)

def metrics (i : Instruments) : Bool :=
  0 < i.into &&& (COUNTERS ||| SATURATION ||| CHEAP_PROFILING ||| EXPENSIVE_PROFILING)

end Instruments

/-- The fields `ok_events_avg_future_duration`, `timed_out_events_avg_future_duration` and
`failed_events_avg_future_duration` -/
inductive Counter
  | okEvents
  | timedOutEvents
  | failedEvents
deriving DecidableEq

/-- What the executor logs at its end: counters, with the average duration, in seconds, where it has one. -/
structure Stats where
  ok : UInt32 × Option ℚ
  timedOut : Option (UInt32 × ℚ)
  failed : Option (UInt32 × Option ℚ)

inductive LogLine (α ε : Type)
  | started (executorName : String) (future : Bool) (futuresTimeout : Duration) (fallible metrics : Bool)
  | yielded (executorName : String) (item : α)
  | yieldedIn (executorName : String) (item : α) (elapsed : Duration)
  | yieldedError (executorName : String) (err : ε)
  | yieldedErrorIn (executorName : String) (err : ε) (elapsed : Duration)
  | timedOut (executorName : String)
  | timedOutAfter (executorName : String) (elapsed : Duration)
  | ended (streamEnded : Bool) (executorName : String) (executionNanos : Nat) (stats : Option Stats)

inductive Action (α ε : Type)
  | inc (counter : Counter) (measurement : ℚ)
  | panic (message : String)
  | log (line : LogLine α ε)
  | onErrCallback (err : ε)
  -- the `await` of the future that `on_err_callback` returned
  | awaitCallback

/-- `as_secs_f32()` -/
def asSecs (elapsed : Duration) : ℚ := elapsed / 10 ^ 9

section Macros
variable {α ε : Type} (I : Instruments) (executorName : String)

def nonTimed (counter : Counter) : List (Action α ε) :=
  -- "the convention is to use -1.0"
  if I.cheapProfiling then [.inc counter (-1)] else []

def timed (counter : Counter) (elapsed : Duration) (panicMessage : String) : List (Action α ε) :=
  if I.cheapProfiling then [.inc counter (asSecs elapsed)] else [.panic panicMessage]

def logIf (b : Bool) (line : LogLine α ε) : List (Action α ε) := if b then [.log line] else []

def onNonTimedOkItem (item : α) : List (Action α ε) :=
  nonTimed I .okEvents ++ logIf I.tracing (.yielded executorName item)

def onTimedOkItem (item : α) (elapsed : Duration) : List (Action α ε) :=
  timed I .okEvents elapsed ("\nThis macro can only be used if at least one of the Instruments' PROFILING are enabled" ++
      " -- otherwise you should use `on_non_timed_ok_item!(...)` instead") ++
    logIf I.tracing (.yieldedIn executorName item elapsed)

def onNonTimedErrItem (err : ε) : List (Action α ε) :=
  nonTimed I .failedEvents ++ logIf I.logging (.yieldedError executorName err)

def onTimedErrItem (err : ε) (elapsed : Duration) : List (Action α ε) :=
  timed I .failedEvents elapsed ("This macro can only be used if at least one of the Instruments' PROFILING are enabled" ++
      " -- otherwise you should use `on_non_timed_err_item!(...)` instead") ++
    logIf I.logging (.yieldedErrorIn executorName err elapsed)

/-- The branches of the executors of futures. -/
def onOk (item : α) (elapsed : Duration) : List (Action α ε) :=
  if I.cheapProfiling then onTimedOkItem I executorName item elapsed else onNonTimedOkItem I executorName item

def onErr (err : ε) (elapsed : Duration) : List (Action α ε) :=
  (if I.cheapProfiling then onTimedErrItem I executorName err elapsed else onNonTimedErrItem I executorName err) ++
    [.onErrCallback err, .awaitCallback]

def onTimeOut (elapsed : Duration) : List (Action α ε) :=
  if I.cheapProfiling then
    .inc .timedOutEvents (asSecs elapsed) :: logIf I.logging (.timedOutAfter executorName elapsed)
  else logIf I.logging (.timedOut executorName)

end Macros

/-- A future of the stream: its output, and whether it takes longer than `futures_timeout`. -/
structure FutureElement (ρ : Type) where
  output : ρ
  timesOut : Bool

/-- `timeout(futures_timeout, future_element).await` -/
def FutureElement.timeout {ρ : Type} (e : FutureElement ρ) : Option ρ := if e.timesOut then none else some e.output

structure StreamExecutor where
  executorName : String
  futuresTimeout : Duration
  executorStatus : ExecutorStatus
  executionStartDeltaNanos : Nat
  executionFinishDeltaNanos : Nat
  /-- The three averages; the items of the stream, by number, are the threads. -/
  averages : Counter → AtomicIncrementalAverage64 Nat

namespace StreamExecutor

def withFuturesTimeout (executorName : String) (futuresTimeout : Duration) : StreamExecutor where
  executorName := executorName
  futuresTimeout := futuresTimeout
  executorStatus := .notStarted
  executionStartDeltaNanos := 2 ^ 64 - 1
  executionFinishDeltaNanos := 2 ^ 64 - 1
  averages := fun _ => .new

def new (executorName : String) : StreamExecutor := withFuturesTimeout executorName 0

end StreamExecutor

/-- The arguments of `on_executor_start!` and `on_executor_end!` -/
structure Announced where
  future : Bool
  fallible : Bool
  futuresTimeout : Duration

/-- A task that processes the elements, of type `ρ`, of a stream. -/
structure Processing (ρ α ε : Type) where
  /-- The processor returns a future, which is polled later on; else it is over when it returns. -/
  isAsync : Bool
  itemProcessor : ρ → Duration → List (Action α ε)
  onStart : Announced
  onEnd : Announced

section Spawn
variable {α ε : Type} (I : Instruments) (e : StreamExecutor)

def spawnExecutor : Processing (FutureElement (Except ε α)) α ε :=
  match e.futuresTimeout with
  | 0 =>
    { isAsync := true
      itemProcessor := fun futureElement elapsed =>
        match futureElement.output with
        | .ok yieldedItem => onOk I e.executorName yieldedItem elapsed
        | .error err => onErr I e.executorName err elapsed
      onStart := ⟨true, true, e.futuresTimeout⟩
      onEnd := ⟨true, true, 0⟩ }
  | _ =>
    { isAsync := true
      itemProcessor := fun futureElement elapsed =>
        match futureElement.timeout with
        | some (.ok yieldedItem) => onOk I e.executorName yieldedItem elapsed
        | some (.error err) => onErr I e.executorName err elapsed
        | none => onTimeOut I e.executorName elapsed
      onStart := ⟨true, true, e.futuresTimeout⟩
      onEnd := ⟨true, true, e.futuresTimeout⟩ }

def spawnFuturesExecutor : Processing (FutureElement α) α ε :=
  match e.futuresTimeout with
  | 0 =>
    { isAsync := true
      itemProcessor := fun futureElement elapsed => onOk I e.executorName futureElement.output elapsed
      onStart := ⟨true, true, e.futuresTimeout⟩
      onEnd := ⟨true, true, 0⟩ }
  | _ =>
    { isAsync := true
      itemProcessor := fun futureElement elapsed =>
        match futureElement.timeout with
        | some nonTimedOutResult => onOk I e.executorName nonTimedOutResult elapsed
        | none => onTimeOut I e.executorName elapsed
      onStart := ⟨true, true, e.futuresTimeout⟩
      onEnd := ⟨true, true, e.futuresTimeout⟩ }

def spawnFalliblesExecutor : Processing (Except ε α) α ε where
  isAsync := false
  itemProcessor element _ :=
    match element with
    | .ok yieldedItem => onNonTimedOkItem I e.executorName yieldedItem
    | .error err => onNonTimedErrItem I e.executorName err ++ [.onErrCallback err]
  onStart := ⟨true, true, 0⟩
  onEnd := ⟨false, true, 0⟩

end Spawn

/-! ### The tasks -/

/-- Where the task of the executor is. In `finishing` and `retrying` it is before the first and the second
`compare_exchange` of `register_execution_finish`, in `closing` it waits for the future of `stream_ended_callback`. -/
inductive Phase
  | spawned
  | starting
  | processing
  | finishing
  | retrying
  | finished
  | reporting
  | calling
  | closing
  | ended
  | panicked (message : String)
deriving DecidableEq

/-- An item that was pulled from the stream: the future of its processor, not polled yet; waiting for the item since
`start`; what it still does. -/
inductive Item (ρ α ε : Type)
  | created (element : ρ)
  | awaiting (element : ρ) (start : Nat)
  | running (script : List (Action α ε))
  | completed

def Item.inFlight {ρ α ε : Type} : Item ρ α ε → Bool
  | .completed => false
  | _ => true

/-- `now` is `creation_time.elapsed()` in nanoseconds; `onErrCalls` are the calls of `on_err_callback` with the number of
the item, and `log` the lines that were logged. -/
structure State (ρ α ε : Type) extends StreamExecutor where
  phase : Phase
  now : Nat
  start : Nat
  items : List (Item ρ α ε)
  onErrCalls : List (Nat × ε)
  streamEndedCalls : Nat
  log : List (LogLine α ε)

inductive Act
  -- time passes
  | tick (nanos : Nat)
  -- another thread calls `report_scheduled_to_finish`
  | reportScheduledToFinish
  -- the next step of the executor's own
  | executor
  -- the next step of the `i`-th item
  | item (i : Nat)

/-- `Duration::from_secs_f32(secs)`, in seconds still; `none` when it panics. -/
def fromSecsF32 (secs : ℚ) : Option ℚ := if 0 ≤ secs ∧ secs < 2 ^ 64 then some secs else none

section Run
variable {ρ α ε : Type} (I : Instruments) (checks : Bool) (P : Processing ρ α ε) (concurrencyLimit : UInt32)
  (elements : List ρ)

namespace State

def init (e : StreamExecutor) : State ρ α ε := ⟨e, .spawned, 0, 0, [], [], 0, []⟩

def inFlight (s : State ρ α ε) : Nat := s.items.countP Item.inFlight

def setItem (s : State ρ α ε) (i : Nat) (item : Item ρ α ε) : State ρ α ε := { s with items := s.items.set i item }

def addLine (s : State ρ α ε) (line : LogLine α ε) : State ρ α ε := { s with log := s.log ++ [line] }

def setAverage (s : State ρ α ε) (c : Counter) (average : AtomicIncrementalAverage64 Nat) : State ρ α ε :=
  { s with averages := Function.update s.averages c average }

def admits (s : State ρ α ε) : Bool :=
  if P.isAsync then
    match concurrencyLimit with
    | 1 => s.inFlight == 0
    | _ => concurrencyLimit == 0 || s.inFlight < concurrencyLimit.toNat
  else s.inFlight == 0

def pull (s : State ρ α ε) (element : ρ) : State ρ α ε :=
  { s with items := s.items ++ [if P.isAsync then .created element else .running (P.itemProcessor element 0)] }

def startLine (s : State ρ α ε) : LogLine α ε :=
  .started s.executorName P.onStart.future P.onStart.futuresTimeout P.onStart.fallible I.metrics

/-- The statistics `on_executor_end!` logs; `none` when it panics. -/
def stats (s : State ρ α ε) : Option Stats := do
  let (okCounter, okAvgSeconds) := (s.averages .okEvents).probe
  let (timedOutCounter, timedOutAvgSeconds) := (s.averages .timedOutEvents).probe
  let (failedCounter, failedAvgSeconds) := (s.averages .failedEvents).probe
  let ok ← if P.onEnd.future then (fromSecsF32 okAvgSeconds).map fun avg => (okCounter, some avg)
    else some (okCounter, none)
  let timedOut ← if P.onEnd.future ∧ P.onEnd.futuresTimeout ≠ 0 then
      (fromSecsF32 timedOutAvgSeconds).map fun avg => some (timedOutCounter, avg)
    else some none
  let failed ← if P.onEnd.future ∧ P.onEnd.fallible then
      (fromSecsF32 failedAvgSeconds).map fun avg => some (failedCounter, some avg)
    else if P.onEnd.fallible then some (some (failedCounter, none)) else some none
  return ⟨ok, timedOut, failed⟩

/-- `on_executor_end!` after `register_execution_finish`; `none` when it panics. -/
def executorEnd (s : State ρ α ε) : Option (State ρ α ε) := do
  let streamEnded : Bool := s.executorStatus = .streamEnded
  let executionNanos ← Plain.word checks ((s.executionFinishDeltaNanos : Int) - s.executionStartDeltaNanos)
  if I.logging ∧ I.cheapProfiling then
    let stats ← s.stats P
    return s.addLine (.ended streamEnded s.executorName executionNanos (some stats))
  else if I.logging then return s.addLine (.ended streamEnded s.executorName executionNanos none)
  else return s

def executor (s : State ρ α ε) : Option (State ρ α ε) :=
  match s.phase with
  | .spawned => some { s with executorStatus := .running, phase := .starting }
  | .starting =>
    let s := { s with executionStartDeltaNanos := s.now, start := s.now, phase := .processing }
    some (if I.logging then s.addLine (s.startLine I P) else s)
  | .processing =>
    match elements[s.items.length]? with
    | some element => if s.admits P concurrencyLimit then some (s.pull P element) else none
    | none => if s.inFlight = 0 then some { s with phase := .finishing } else none
  | .finishing =>
    if s.executorStatus = .running then some { s with executorStatus := .streamEnded, phase := .finished }
    else some { s with phase := .retrying }
  | .retrying =>
    if s.executorStatus = .scheduledToFinish then
      some { s with executorStatus := .programmaticallyEnded, phase := .finished }
    else some { s with phase := .finishing }
  | .finished => some { s with executionFinishDeltaNanos := s.now, phase := .reporting }
  | .reporting =>
    match s.executorEnd I checks P with
    | some s => some { s with phase := .calling }
    | none => some { s with phase := .panicked "on_executor_end" }
  | .calling => some { s with streamEndedCalls := s.streamEndedCalls + 1, phase := .closing }
  | .closing => some { s with phase := .ended }
  | .ended | .panicked _ => none

/-- The call of `inc` by item `i`, or its next step if it was made. -/
def incAct (s : State ρ α ε) (c : Counter) (i : Nat) (measurement : ℚ) : CasLoop.Act Nat ℚ :=
  match (s.averages c).calls i with
  | .idle => .call i measurement
  | _ => .go i

/-- Item `i` goes on with `action`, before `script`. -/
def perform (s : State ρ α ε) (i : Nat) (action : Action α ε) (script : List (Action α ε)) : Option (State ρ α ε) :=
  match action with
  | .inc c measurement =>
    (AtomicIncrementalAverage64.step checks (s.averages c) (s.incAct c i measurement)).map fun average =>
      let s := s.setAverage c average
      match average.calls i with
      | .idle => s.setItem i (.running script)
      | .panicked _ => { s with phase := .panicked "attempt to add with overflow" }
      | _ => s
  | .panic message => some { s with phase := .panicked message }
  | .log line => some ((s.addLine line).setItem i (.running script))
  | .onErrCallback err => some ({ s with onErrCalls := s.onErrCalls ++ [(i, err)] }.setItem i (.running script))
  | .awaitCallback => some (s.setItem i (.running script))

def item (s : State ρ α ε) (i : Nat) : Option (State ρ α ε) :=
  if s.phase = .processing then
    match s.items[i]? with
    | some (.created element) => some (s.setItem i (.awaiting element (if I.cheapProfiling then s.now else s.start)))
    | some (.awaiting element start) => some (s.setItem i (.running (P.itemProcessor element (s.now - start))))
    | some (.running []) => some (s.setItem i .completed)
    | some (.running (action :: script)) => s.perform checks i action script
    | some .completed | none => none
  else none

def step (s : State ρ α ε) : Act → Option (State ρ α ε)
  | .tick nanos => if s.now + nanos < 2 ^ 64 then some { s with now := s.now + nanos } else none
  | .reportScheduledToFinish => some { s with executorStatus := .scheduledToFinish }
  | .executor => s.executor I checks P concurrencyLimit elements
  | .item i => s.item I checks P i

end State

end Run

end Mutiny.Executor
