import Mutiny.StreamExecutor

/-!
# What the executors account for

`Outcome` is what became of an item. The list of what a processor does with the item tells it (`Tells`): one `inc` of the
counter of the outcome, if profiling is on, one call of `on_err_callback` for an error, and no panic. What the items that
were pulled still have to do, with what the counters and the callbacks have got so far, is what the outcomes of these
items are worth (`Accounting`); once they are completed nothing is left to do.
-/

namespace Mutiny.Executor
open Machine UniExecutors AtomicIncrementalAverage64

variable {ρ α ε : Type}

inductive Outcome (ε : Type)
  | ok
  | timedOut
  | failed (err : ε)

namespace Outcome

def counter : Outcome ε → Counter
  | ok => .okEvents
  | timedOut => .timedOutEvents
  | failed _ => .failedEvents

def errs : Outcome ε → List ε
  | failed err => [err]
  | ok | timedOut => []

def due (I : Instruments) (o : Outcome ε) (c : Counter) : Nat := if I.cheapProfiling ∧ o.counter = c then 1 else 0

def ofResult : Except ε α → Outcome ε
  | .ok _ => ok
  | .error err => failed err

end Outcome

/-- The outcome of an item of `spawn_executor` -/
def fallibleFutureOutcome (futuresTimeout : Duration) (e : FutureElement (Except ε α)) : Outcome ε :=
  if futuresTimeout ≠ 0 ∧ e.timesOut then .timedOut else .ofResult e.output

/-- The outcome of an item of `spawn_futures_executor` -/
def futureOutcome (futuresTimeout : Duration) (e : FutureElement α) : Outcome ε :=
  if futuresTimeout ≠ 0 ∧ e.timesOut then .timedOut else .ok

/-! ### The scripts of the items -/

namespace Action

def incs (c : Counter) : Action α ε → Nat
  | inc c' _ => if c' = c then 1 else 0
  | _ => 0

def errs : Action α ε → List ε
  | onErrCallback err => [err]
  | _ => []

def Harmless (timed : Bool) : Action α ε → Prop
  | inc _ measurement => timed = true → 0 ≤ measurement ∧ measurement ≤ asSecs (2 ^ 64)
  | panic _ => False
  | _ => True

end Action

/-- The script is that of an item with the outcome `o`. -/
structure Tells (I : Instruments) (timed : Bool) (o : Outcome ε) (script : List (Action α ε)) : Prop where
  incs : ∀ c, (script.map (Action.incs c)).sum = o.due I c
  errs : script.flatMap Action.errs = o.errs
  harmless : ∀ a ∈ script, a.Harmless timed
  length_le : script.length ≤ 4

/-- The counter is incremented if profiling is on. -/
def Counts (I : Instruments) (timed : Bool) (c : Counter) (script : List (Action α ε)) : Prop :=
  if I.cheapProfiling then ∃ m, script = [.inc c m] ∧ (timed = true → 0 ≤ m ∧ m ≤ asSecs (2 ^ 64)) else script = []

section Scripts
variable {I : Instruments} {executorName : String} {elapsed : Duration} {timed : Bool} {o : Outcome ε}

theorem Counts.incs {c : Counter} {script : List (Action α ε)} (h : Counts I timed c script) (c' : Counter) :
    (script.map (Action.incs c')).sum = if I.cheapProfiling ∧ c = c' then 1 else 0 := by
  unfold Counts at h
  split_ifs at h with hI
  · obtain ⟨m, rfl, -⟩ := h
    simp [Action.incs, hI]
  · subst h
    simp [hI]

theorem Counts.harmless {c : Counter} {script : List (Action α ε)} (h : Counts I timed c script) :
    (∀ a ∈ script, a.Harmless timed) ∧ script.length ≤ 1 ∧ script.flatMap Action.errs = [] := by
  unfold Counts at h
  split_ifs at h
  · obtain ⟨m, rfl, hm⟩ := h
    exact ⟨fun a ha => by rw [List.mem_singleton.mp ha]; exact hm, le_refl _, rfl⟩
  · subst h
    simp

theorem harmless_logIf (timed b : Bool) (line : LogLine α ε) :
    (∀ a ∈ logIf b line, a.Harmless timed) ∧ (logIf b line).length ≤ 1 ∧
      (logIf b line).flatMap Action.errs = [] ∧ ∀ c, ((logIf b line).map (Action.incs c)).sum = 0 := by
  cases b <;> simp [logIf, Action.Harmless, Action.errs, Action.incs]

theorem Tells.of_counts {script tail : List (Action α ε)} (h : Counts I timed o.counter script) (b : Bool)
    (line : LogLine α ε) (hincs : ∀ c, (tail.map (Action.incs c)).sum = 0) (herrs : tail.flatMap Action.errs = o.errs)
    (hharm : ∀ a ∈ tail, a.Harmless timed) (hlen : tail.length ≤ 2) : Tells I timed o (script ++ logIf b line ++ tail) := by
  obtain ⟨hs, hlen₁, he⟩ := h.harmless
  obtain ⟨hl, hlen₂, hle, hli⟩ := harmless_logIf timed b line
  refine ⟨fun c => ?_, ?_, fun a ha => ?_, ?_⟩
  · rw [List.map_append, List.map_append, List.sum_append, List.sum_append, h.incs, hli, hincs]
    rfl
  · rw [List.flatMap_append, List.flatMap_append, he, hle, herrs]
    rfl
  · rw [List.append_assoc] at ha
    rcases List.mem_append.mp ha with ha | ha
    · exact hs a ha
    · exact (List.mem_append.mp ha).elim (hl a) (hharm a)
  · rw [List.length_append, List.length_append]
    omega

theorem Tells.of_counts_nil {script : List (Action α ε)} (h : Counts I timed o.counter script) (b : Bool)
    (line : LogLine α ε) (herrs : o.errs = []) : Tells I timed o (script ++ logIf b line) := by
  have htells : Tells I timed o (script ++ logIf b line ++ []) :=
    .of_counts h b line (fun _ => rfl) herrs.symm (by simp) (by simp)
  rwa [List.append_nil] at htells

theorem asSecs_bounds (h : elapsed < 2 ^ 64) : 0 ≤ asSecs elapsed ∧ asSecs elapsed ≤ asSecs (2 ^ 64) := by
  have hle : ((elapsed : Nat) : ℚ) ≤ ((2 ^ 64 : Nat) : ℚ) := by exact_mod_cast h.le
  have hpos : (0 : ℚ) < 10 ^ 9 := by positivity
  unfold asSecs
  exact ⟨div_nonneg (Nat.cast_nonneg _) hpos.le, (div_le_div_iff_of_pos_right hpos).mpr hle⟩

theorem counts_timed (c : Counter) (h : elapsed < 2 ^ 64) (hI : I.cheapProfiling = true) (message : String) :
    Counts I timed c (Executor.timed I c elapsed message : List (Action α ε)) := by
  rw [Counts, if_pos hI, Executor.timed, if_pos hI]
  exact ⟨_, rfl, fun _ => asSecs_bounds h⟩

theorem counts_nonTimed (c : Counter) (h : timed = true → I.cheapProfiling = false) :
    Counts I timed c (nonTimed I c : List (Action α ε)) := by
  unfold Counts nonTimed
  split_ifs with hI
  · exact ⟨_, rfl, fun ht => by simp [h ht] at hI⟩
  · rfl

theorem tells_onOk (item : α) (h : elapsed < 2 ^ 64) :
    Tells I timed (.ok : Outcome ε) (onOk I executorName item elapsed) := by
  unfold onOk
  split_ifs with hI
  · exact .of_counts_nil (counts_timed _ h hI _) _ _ rfl
  · exact .of_counts_nil (counts_nonTimed _ fun _ => by simpa using hI) _ _ rfl

theorem tells_onErr (err : ε) (h : elapsed < 2 ^ 64) :
    Tells I timed (.failed err) (onErr I executorName err elapsed : List (Action α ε)) := by
  unfold onErr
  split_ifs with hI
  · exact .of_counts (counts_timed _ h hI _) _ _ (fun _ => rfl) rfl (by simp [Action.Harmless]) (by simp)
  · exact .of_counts (counts_nonTimed _ fun _ => by simpa using hI) _ _ (fun _ => rfl) rfl (by simp [Action.Harmless])
      (by simp)

theorem tells_onTimeOut (h : elapsed < 2 ^ 64) :
    Tells I timed (.timedOut : Outcome ε) (onTimeOut I executorName elapsed : List (Action α ε)) := by
  unfold onTimeOut
  split_ifs with hI
  · show Tells I timed .timedOut ([.inc .timedOutEvents (asSecs elapsed)] ++ logIf I.logging _)
    refine .of_counts_nil ?_ _ _ rfl
    rw [Counts, if_pos hI]
    exact ⟨_, rfl, fun _ => asSecs_bounds h⟩
  · show Tells I timed .timedOut ([] ++ logIf I.logging _)
    refine .of_counts_nil ?_ _ _ rfl
    rw [Counts, if_neg hI]

end Scripts

/-- The processor of the task does with each item what its outcome asks for. -/
def Processing.Sound (I : Instruments) (P : Processing ρ α ε) (outcome : ρ → Outcome ε) : Prop :=
  ∀ element elapsed, elapsed < 2 ^ 64 → Tells I P.onEnd.future (outcome element) (P.itemProcessor element elapsed)

section Sound
variable (I : Instruments) (e : StreamExecutor)

theorem sound_spawnExecutor :
    (spawnExecutor I e : Processing _ α ε).Sound I (fallibleFutureOutcome e.futuresTimeout) := by
  rintro ⟨output, timesOut⟩ elapsed h
  unfold spawnExecutor fallibleFutureOutcome
  cases e.futuresTimeout with
  | zero =>
    rw [if_neg fun hc => hc.1 rfl]
    cases output with
    | ok item => exact tells_onOk item h
    | error err => exact tells_onErr err h
  | succ futuresTimeout =>
    cases timesOut with
    | true =>
      rw [if_pos ⟨Nat.succ_ne_zero _, rfl⟩]
      exact tells_onTimeOut h
    | false =>
      rw [if_neg (by simp)]
      cases output with
      | ok item => exact tells_onOk item h
      | error err => exact tells_onErr err h

theorem sound_spawnFuturesExecutor :
    (spawnFuturesExecutor I e : Processing _ α ε).Sound I (futureOutcome e.futuresTimeout) := by
  rintro ⟨output, timesOut⟩ elapsed h
  unfold spawnFuturesExecutor futureOutcome
  cases e.futuresTimeout with
  | zero =>
    rw [if_neg fun hc => hc.1 rfl]
    exact tells_onOk output h
  | succ futuresTimeout =>
    cases timesOut with
    | true =>
      rw [if_pos ⟨Nat.succ_ne_zero _, rfl⟩]
      exact tells_onTimeOut h
    | false =>
      rw [if_neg (by simp)]
      exact tells_onOk output h

theorem sound_spawnFalliblesExecutor :
    (spawnFalliblesExecutor I e : Processing _ α ε).Sound I Outcome.ofResult := by
  rintro element elapsed -
  cases element with
  | ok item => exact .of_counts_nil (counts_nonTimed _ (by simp [spawnFalliblesExecutor])) _ _ rfl
  | error err =>
    exact .of_counts (counts_nonTimed _ (by simp [spawnFalliblesExecutor])) _ _ (fun _ => rfl) rfl
      (by simp [Action.Harmless]) (by simp)

end Sound

/-! ### What is left to do -/

namespace Item

/-- How often an item still increments the counter. -/
def due (I : Instruments) (outcome : ρ → Outcome ε) (c : Counter) : Item ρ α ε → Nat
  | created element | awaiting element _ => (outcome element).due I c
  | running script => (script.map (Action.incs c)).sum
  | completed => 0

/-- What an item still calls `on_err_callback` with. -/
def errs (outcome : ρ → Outcome ε) : Item ρ α ε → List ε
  | created element | awaiting element _ => (outcome element).errs
  | running script => script.flatMap Action.errs
  | completed => []

def Harmless (timed : Bool) : Item ρ α ε → Prop
  | running script => ∀ a ∈ script, a.Harmless timed
  | created _ | awaiting _ _ | completed => True

/-- How far an item is from being completed. -/
def weight : Item ρ α ε → Nat
  | created _ => 7
  | awaiting _ _ => 6
  | running script => script.length + 1
  | completed => 0

/-- An item makes the call of `inc` of the counter. -/
def Calling (c : Counter) (call : CasLoop.Call IncrementalAveragePair32 ℚ) (item : Item ρ α ε) : Prop :=
  ∃ m script, item = .running (.inc c m :: script) ∧ (call = .loading m ∨ ∃ current, call = .computing m current)

end Item

/-- The calls of `on_err_callback` by the `i`-th item. -/
def callsFor (calls : List (Nat × ε)) (i : Nat) : List ε := (calls.filter (·.1 == i)).map Prod.snd

theorem callsFor_append (calls : List (Nat × ε)) (i j : Nat) (err : ε) :
    callsFor (calls ++ [(j, err)]) i = callsFor calls i ++ if j = i then [err] else [] := by
  unfold callsFor
  rw [List.filter_append, List.map_append]
  by_cases h : j = i
  · simp [h]
  · simp [h]

/-- What was done and what is left to do amount to what the outcomes of the items pulled are worth. -/
structure Accounting (I : Instruments) (checks : Bool) (timed : Bool) (outcome : ρ → Outcome ε) (elements : List ρ)
    (s : State ρ α ε) : Prop where
  fits : s.now < 2 ^ 64
  le : s.items.length ≤ elements.length
  folds : ∀ c, CasLoop.Folds (inc checks) ⟨0, 0⟩ (s.averages c)
  counts : ∀ c, (s.averages c).taken.length + (s.items.map (Item.due I outcome c)).sum =
    ((elements.take s.items.length).map fun element => (outcome element).due I c).sum
  errs : ∀ (i : Nat) item element, s.items[i]? = some item → elements[i]? = some element →
    callsFor s.onErrCalls i ++ item.errs outcome = (outcome element).errs
  noErrs : ∀ i, s.items.length ≤ i → callsFor s.onErrCalls i = []
  calls : ∀ c i, (s.averages c).calls i = .idle ∨
    ∃ item, s.items[i]? = some item ∧ item.Calling c ((s.averages c).calls i)
  harmless : ∀ item ∈ s.items, item.Harmless timed
  bounds : timed = true → ∀ c, 0 ≤ (s.averages c).word.average ∧ (s.averages c).word.average ≤ asSecs (2 ^ 64)

namespace Accounting
variable {I : Instruments} {checks timed : Bool} {outcome : ρ → Outcome ε} {elements : List ρ} {s s' : State ρ α ε}
  {i : Nat} {item item' : Item ρ α ε}

theorem init (e : StreamExecutor) (he : e.averages = fun _ => .new) :
    Accounting I checks timed outcome elements (State.init e : State ρ α ε) := by
  have hav : ∀ c, (State.init e : State ρ α ε).averages c = .new := fun c => congrFun he c
  refine ⟨by simp [State.init], by simp [State.init], fun c => ?_, fun c => ?_, fun i item element h => ?_, fun _ _ => rfl,
    fun c i => .inl ?_, fun item h => ?_, fun _ c => ?_⟩
  · rw [hav]
    exact .start _ _
  · rw [hav]
    rfl
  · cases h
  · rw [hav]
    rfl
  · cases h
  · rw [hav]
    exact ⟨le_refl _, div_nonneg (Nat.cast_nonneg _) (by positivity)⟩

theorem congr (h : Accounting I checks timed outcome elements s) (hnow : s'.now < 2 ^ 64) (hit : s'.items = s.items)
    (hav : s'.averages = s.averages) (hcalls : s'.onErrCalls = s.onErrCalls) :
    Accounting I checks timed outcome elements s' := by
  constructor
  · exact hnow
  · rw [hit]; exact h.le
  · rw [hav]; exact h.folds
  · rw [hav, hit]; exact h.counts
  · rw [hcalls, hit]; exact h.errs
  · rw [hcalls, hit]; exact h.noErrs
  · rw [hav, hit]; exact h.calls
  · rw [hit]; exact h.harmless
  · rw [hav]; exact h.bounds

theorem lt_of_getElem? (hi : s.items[i]? = some item) : i < s.items.length := (List.getElem?_eq_some_iff.mp hi).1

/-- The `i`-th item goes on, with what that does to the counters and the callbacks. -/
theorem set (h : Accounting I checks timed outcome elements s) (hi : s.items[i]? = some item)
    (hit : s'.items = s.items.set i item') (hnow : s'.now = s.now)
    (hfolds : ∀ c, CasLoop.Folds (inc checks) ⟨0, 0⟩ (s'.averages c))
    (hcount : ∀ c, (s'.averages c).taken.length + item'.due I outcome c =
      (s.averages c).taken.length + item.due I outcome c)
    (herrs : callsFor s'.onErrCalls i ++ item'.errs outcome = callsFor s.onErrCalls i ++ item.errs outcome)
    (hother : ∀ j, j ≠ i → callsFor s'.onErrCalls j = callsFor s.onErrCalls j)
    (hcalls : ∀ c, (s'.averages c).calls i = .idle ∨ item'.Calling c ((s'.averages c).calls i))
    (hcallsOther : ∀ c j, j ≠ i → (s'.averages c).calls j = (s.averages c).calls j) (hharm : item'.Harmless timed)
    (hbounds : timed = true → ∀ c,
      0 ≤ (s'.averages c).word.average ∧ (s'.averages c).word.average ≤ asSecs (2 ^ 64)) :
    Accounting I checks timed outcome elements s' := by
  have hlt := lt_of_getElem? hi
  have hlen : s'.items.length = s.items.length := by rw [hit, List.length_set]
  have hself : s'.items[i]? = some item' := by rw [hit, List.getElem?_set_self hlt]
  have hne : ∀ j, j ≠ i → s'.items[j]? = s.items[j]? := fun j hj => by rw [hit, List.getElem?_set_ne hj.symm]
  refine ⟨hnow ▸ h.fits, hlen ▸ h.le, hfolds, fun c => ?_, fun j item₁ element hj he => ?_, fun j hj => ?_, fun c j => ?_,
    fun item₁ hm => ?_, hbounds⟩
  · have hsum := Tally.sum_set (w := Item.due I outcome c) hi item'
    have := hcount c
    have := h.counts c
    rw [hlen, hit]
    omega
  · by_cases hji : j = i
    · subst hji
      rw [hself] at hj
      cases hj
      rw [herrs]
      exact h.errs j item element hi he
    · rw [hother j hji]
      exact h.errs j item₁ element (by rwa [← hne j hji]) he
  · rw [hlen] at hj
    rw [hother j (by omega)]
    exact h.noErrs j hj
  · by_cases hji : j = i
    · subst hji
      exact (hcalls c).imp_right fun hc => ⟨item', hself, hc⟩
    · rw [hne j hji, hcallsOther c j hji]
      exact h.calls c j
  · rw [hit] at hm
    rcases List.mem_or_eq_of_mem_set hm with hm | rfl
    · exact h.harmless item₁ hm
    · exact hharm

theorem idle (h : Accounting I checks timed outcome elements s) (hi : s.items[i]? = some item)
    (hn : ∀ c m script, item ≠ .running (.inc c m :: script)) (c : Counter) : (s.averages c).calls i = .idle := by
  rcases h.calls c i with hc | ⟨item₁, hi₁, m, script, rfl, -⟩
  · exact hc
  · rw [hi] at hi₁
    cases hi₁
    exact absurd rfl (hn c m script)

end Accounting

/-! ### The steps of an item -/

/-- Everything a step of the `i`-th item can do. -/
inductive ItemTurn (I : Instruments) (checks timed : Bool) (outcome : ρ → Outcome ε) (s : State ρ α ε) (i : Nat) :
    State ρ α ε → Prop
  | move {item item' : Item ρ α ε} {log : List (LogLine α ε)} (hi : s.items[i]? = some item)
    (hidle : ∀ c, (s.averages c).calls i = .idle)
    (hdue : ∀ c, item'.due I outcome c = item.due I outcome c) (herrs : item'.errs outcome = item.errs outcome)
    (hharm : item'.Harmless timed) (hlt : item'.weight < item.weight) :
    ItemTurn I checks timed outcome s i ({ s with log }.setItem i item')
  | callback {err : ε} {script : List (Action α ε)} (hi : s.items[i]? = some (.running (.onErrCallback err :: script)))
    (hidle : ∀ c, (s.averages c).calls i = .idle) :
    ItemTurn I checks timed outcome s i
      ({ s with onErrCalls := s.onErrCalls ++ [(i, err)] }.setItem i (.running script))
  | inc {c : Counter} {m : ℚ} {script : List (Action α ε)} {call : CasLoop.Call IncrementalAveragePair32 ℚ}
    (hi : s.items[i]? = some (.running (.inc c m :: script)))
    (hcall : call = .loading m ∨ call = .computing m (s.averages c).word)
    (hlt : call.steps (s.averages c).word < ((s.averages c).calls i).steps (s.averages c).word) :
    ItemTurn I checks timed outcome s i (s.setAverage c ((s.averages c).setCall i call))
  | counted {c : Counter} {m : ℚ} {script : List (Action α ε)} {new : IncrementalAveragePair32}
    (hi : s.items[i]? = some (.running (.inc c m :: script))) (hn : inc checks (s.averages c).word m = some new) :
    ItemTurn I checks timed outcome s i
      ((s.setAverage c ((s.averages c).exchange i m new)).setItem i (.running script))

namespace Accounting
variable {I : Instruments} {checks : Bool} {P : Processing ρ α ε} {outcome : ρ → Outcome ε} {elements : List ρ}
  {s s' : State ρ α ε} {i : Nat}

theorem incAct_cases {timed : Bool} {c : Counter} {m : ℚ} {script : List (Action α ε)}
    (h : Accounting I checks timed outcome elements s) (hi : s.items[i]? = some (.running (.inc c m :: script))) :
    s.incAct c i m = .call i m ∨ s.incAct c i m = .go i ∧ ((s.averages c).calls i).op = some m := by
  unfold State.incAct
  rcases h.calls c i with hc | ⟨item, hi', m', script', rfl, hc | ⟨current, hc⟩⟩
  · exact .inl (by rw [hc])
  all_goals
    rw [hi] at hi'
    cases hi'
    exact .inr ⟨by rw [hc], by rw [hc]; rfl⟩

theorem itemTurn_of_perform {action : Action α ε} {script : List (Action α ε)}
    (h : Accounting I checks P.onEnd.future outcome elements s) (hi : s.items[i]? = some (.running (action :: script)))
    (hs : s.perform checks i action script = some s') : ItemTurn I checks P.onEnd.future outcome s i s' := by
  have hharm : ∀ a ∈ action :: script, a.Harmless P.onEnd.future := h.harmless _ (List.mem_of_getElem? hi)
  have hrest : Item.Harmless P.onEnd.future (.running script : Item ρ α ε) :=
    fun a ha => hharm a (List.mem_cons_of_mem _ ha)
  cases action with
  | inc c m =>
    simp only [State.perform, Option.map_eq_some_iff] at hs
    obtain ⟨average, hstep, rfl⟩ := hs
    have hact := h.incAct_cases hi
    rcases (CasLoop.turn_of_step hstep).closer hact (inc_ne_none checks · m) with
      ⟨call, rfl, hcall, hlt⟩ | ⟨new, hn, -, rfl⟩
    · have hgo : ItemTurn I checks P.onEnd.future outcome s i _ := .inc hi hcall hlt
      rcases hcall with rfl | rfl <;> simpa using hgo
    · simpa using ItemTurn.counted hi hn
  | panic message => exact absurd (hharm _ (List.mem_cons_self ..)) id
  | log line =>
    cases hs
    exact .move hi (h.idle hi (by simp)) (fun c => by simp [Item.due, Action.incs]) (by simp [Item.errs, Action.errs])
      hrest (by simp [Item.weight])
  | onErrCallback err =>
    cases hs
    exact .callback hi (h.idle hi (by simp))
  | awaitCallback =>
    cases hs
    exact .move hi (h.idle hi (by simp)) (fun c => by simp [Item.due, Action.incs]) (by simp [Item.errs, Action.errs])
      hrest (by simp [Item.weight])

theorem itemTurn_of_item (hP : P.Sound I outcome) (h : Accounting I checks P.onEnd.future outcome elements s)
    (hs : s.item I checks P i = some s') : s.phase = .processing ∧ ItemTurn I checks P.onEnd.future outcome s i s' := by
  unfold State.item at hs
  by_cases hphase : s.phase = .processing
  case neg =>
    rw [if_neg hphase] at hs
    cases hs
  rw [if_pos hphase] at hs
  refine ⟨hphase, ?_⟩
  rcases hi : s.items[i]? with _ | element | ⟨element, start⟩ | (_ | ⟨action, script⟩) | _
  · simp [hi] at hs
  · simp only [hi] at hs
    cases hs
    exact .move hi (h.idle hi (by simp)) (fun _ => rfl) rfl trivial (by simp [Item.weight])
  · simp only [hi] at hs
    cases hs
    have htells := hP element (s.now - start) ((Nat.sub_le ..).trans_lt h.fits)
    have hlen := htells.length_le
    exact .move hi (h.idle hi (by simp)) htells.incs htells.errs htells.harmless (by simp only [Item.weight]; omega)
  · simp only [hi] at hs
    cases hs
    exact .move hi (h.idle hi (by simp)) (fun _ => rfl) rfl trivial (by simp [Item.weight])
  · simp only [hi] at hs
    exact itemTurn_of_perform h hi hs
  · simp [hi] at hs

theorem pull (hP : P.Sound I outcome) (h : Accounting I checks P.onEnd.future outcome elements s) {element : ρ}
    (he : elements[s.items.length]? = some element) :
    Accounting I checks P.onEnd.future outcome elements (s.pull P element) := by
  obtain ⟨item, hitem⟩ : ∃ item : Item ρ α ε, item = if P.isAsync then .created element else
    .running (P.itemProcessor element 0) := ⟨_, rfl⟩
  have htells := hP element 0 (by decide)
  have hnew : (∀ c, item.due I outcome c = (outcome element).due I c) ∧ item.errs outcome = (outcome element).errs ∧
      item.Harmless P.onEnd.future := by
    subst hitem
    split_ifs
    · exact ⟨fun _ => rfl, rfl, trivial⟩
    · exact ⟨htells.incs, htells.errs, htells.harmless⟩
  have hpull : s.pull P element = { s with items := s.items ++ [item] } := by rw [State.pull, hitem]
  have hlt : s.items.length < elements.length := (List.getElem?_eq_some_iff.mp he).1
  rw [hpull]
  refine ⟨h.fits, ?_, h.folds, fun c => ?_, fun i item₁ element₁ hi he₁ => ?_, fun i hi => ?_, fun c i => ?_,
    fun item₁ hm => ?_, h.bounds⟩
  · show (s.items ++ [item]).length ≤ _
    rw [List.length_append, List.length_singleton]
    exact hlt
  · show _ + ((s.items ++ [item]).map _).sum = ((elements.take (s.items ++ [item]).length).map _).sum
    rw [List.length_append, List.length_singleton, List.take_add_one, he]
    simp only [List.map_append, List.sum_append, Option.toList_some, List.map_singleton, List.sum_singleton, hnew.1 c]
    rw [← Nat.add_assoc, h.counts c]
  · have hi' : (s.items ++ [item])[i]? = some item₁ := hi
    rw [List.getElem?_append] at hi'
    split_ifs at hi' with hlt'
    · exact h.errs i item₁ element₁ hi' he₁
    · obtain rfl : i = s.items.length := by
        have := (List.getElem?_eq_some_iff.mp hi').1
        rw [List.length_singleton] at this
        omega
      rw [Nat.sub_self, List.getElem?_cons_zero] at hi'
      cases hi'
      rw [he] at he₁
      cases he₁
      rw [h.noErrs _ (le_refl _), hnew.2.1]
      rfl
  · refine h.noErrs i (Nat.le_of_succ_le ?_)
    have hi' : (s.items ++ [item]).length ≤ i := hi
    rwa [List.length_append, List.length_singleton] at hi'
  · refine (h.calls c i).imp_right fun ⟨item₁, hi, hc⟩ => ⟨item₁, ?_, hc⟩
    show (s.items ++ [item])[i]? = _
    rw [List.getElem?_append_left (lt_of_getElem? hi)]
    exact hi
  · rcases List.mem_append.mp hm with hm | hm
    · exact h.harmless item₁ hm
    · obtain rfl := List.mem_singleton.mp hm
      exact hnew.2.2

theorem setAverage {timed : Bool} {c : Counter} {m : ℚ} {script : List (Action α ε)}
    {average : AtomicIncrementalAverage64 Nat} {item' : Item ρ α ε}
    (h : Accounting I checks timed outcome elements s) (hi : s.items[i]? = some (.running (.inc c m :: script)))
    (hit : s'.items = s.items.set i item') (hav : s'.averages = Function.update s.averages c average)
    (hnow : s'.now = s.now) (hcallbacks : s'.onErrCalls = s.onErrCalls)
    (hfolds : CasLoop.Folds (inc checks) ⟨0, 0⟩ average)
    (hcount : average.taken.length + item'.due I outcome c =
      (s.averages c).taken.length + Item.due I outcome c (.running (.inc c m :: script)))
    (hdue : ∀ c', c' ≠ c → item'.due I outcome c' = Item.due I outcome c' (.running (.inc c m :: script)))
    (herrs : item'.errs outcome = Item.errs outcome (.running (.inc c m :: script)))
    (hcalls : average.calls i = .idle ∨ item'.Calling c (average.calls i))
    (hother : ∀ j, j ≠ i → average.calls j = (s.averages c).calls j) (hharm : item'.Harmless timed)
    (hbounds : timed = true → 0 ≤ average.word.average ∧ average.word.average ≤ asSecs (2 ^ 64)) :
    Accounting I checks timed outcome elements s' := by
  have hidle : ∀ c', c' ≠ c → (s.averages c').calls i = .idle := by
    intro c' hc'
    rcases h.calls c' i with hc | ⟨item, hi', m', script', rfl, -⟩
    · exact hc
    · rw [hi] at hi'
      cases hi'
      exact absurd rfl hc'
  have hcases : ∀ {Q : Counter → AtomicIncrementalAverage64 Nat → Prop}, Q c average →
      (∀ c', c' ≠ c → Q c' (s.averages c')) → ∀ c', Q c' (s'.averages c') := by
    intro Q hc hne c'
    rw [hav]
    by_cases hc' : c' = c
    · subst hc'
      rwa [Function.update_self]
    · rw [Function.update_of_ne hc']
      exact hne c' hc'
  have hfolds' := hcases (Q := fun _ a => CasLoop.Folds (inc checks) ⟨0, 0⟩ a) hfolds fun c' _ => h.folds c'
  have hcount' := hcases (Q := fun c' a => a.taken.length + item'.due I outcome c' = (s.averages c').taken.length +
    Item.due I outcome c' (.running (.inc c m :: script))) hcount fun c' hc' => by rw [hdue c' hc']
  have hcalls' := hcases (Q := fun c' a => a.calls i = .idle ∨ item'.Calling c' (a.calls i)) hcalls
    fun c' hc' => .inl (hidle c' hc')
  exact h.set hi hit hnow hfolds' hcount' (by rw [hcallbacks, herrs]) (fun _ _ => by rw [hcallbacks]) hcalls'
    (fun c' j hj => hcases (Q := fun c' a => a.calls j = (s.averages c').calls j) (hother j hj) (fun _ _ => rfl) c')
    hharm fun ht => hcases (Q := fun _ a => 0 ≤ a.word.average ∧ a.word.average ≤ asSecs (2 ^ 64)) (hbounds ht)
      fun c' _ => h.bounds ht c'

theorem itemTurn {timed : Bool} (h : Accounting I checks timed outcome elements s)
    (ht : ItemTurn I checks timed outcome s i s') : Accounting I checks timed outcome elements s' := by
  cases ht with
  | move hi hidle hdue herrs hharm hlt =>
    exact h.set hi rfl rfl h.folds (fun c => by rw [hdue c]; rfl) (by rw [herrs]; rfl) (fun _ _ => rfl)
      (fun c => .inl (hidle c)) (fun _ _ _ => rfl) hharm h.bounds
  | @callback err script hi hidle =>
    have hharm := h.harmless _ (List.mem_of_getElem? hi)
    refine h.set hi rfl rfl h.folds (fun c => ?_) ?_ (fun j hj => ?_) (fun c => .inl (hidle c)) (fun _ _ _ => rfl)
      (fun a ha => hharm a (List.mem_cons_of_mem _ ha)) h.bounds
    · simp [Item.due, Action.incs, State.setItem]
    · show callsFor (s.onErrCalls ++ [(i, err)]) i ++ _ = _
      rw [callsFor_append, if_pos rfl]
      simp [Item.errs, Action.errs]
    · show callsFor (s.onErrCalls ++ [(i, err)]) j = _
      rw [callsFor_append, if_neg (Ne.symm hj), List.append_nil]
  | @inc c m script call hi hcall hlt =>
    obtain ⟨hlt', hget⟩ := List.getElem?_eq_some_iff.mp hi
    have hset : s.items = s.items.set i (.running (.inc c m :: script)) := by rw [← hget, List.set_getElem_self]
    have hcalling : call = .loading m ∨ ∃ current, call = .computing m current := hcall.imp_right fun hc => ⟨_, hc⟩
    exact h.setAverage hi hset rfl rfl rfl (h.folds c) rfl (fun _ _ => rfl) rfl
      (.inr ⟨m, script, rfl, by simpa using hcalling⟩) (fun j hj => CasLoop.setCall_calls_of_ne _ _ hj)
      (h.harmless _ (List.mem_of_getElem? hi)) (h.bounds · c)
  | @counted c m script new hi hn =>
    have hharm := h.harmless _ (List.mem_of_getElem? hi)
    refine h.setAverage hi rfl rfl rfl rfl ?_ ?_ (fun c' hc' => ?_) ?_ (.inl (by simp))
      (fun j hj => CasLoop.exchange_calls_of_ne _ _ _ hj) (fun a ha => hharm a (List.mem_cons_of_mem _ ha)) fun ht => ?_
    · exact (h.folds c).exchange hn
    · simp only [Item.due, Action.incs, CasLoop.exchange_taken, List.length_append, List.length_singleton, List.map_cons,
        List.sum_cons, if_pos]
      omega
    · simp [Item.due, Action.incs, Ne.symm hc']
    · simp [Item.errs, Action.errs]
    · exact inc_bounds hn (hharm _ (List.mem_cons_self ..) ht) (h.bounds ht c)

end Accounting

end Mutiny.Executor
