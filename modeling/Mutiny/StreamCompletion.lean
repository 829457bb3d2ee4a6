import Mathlib.Algebra.Order.BigOperators.Group.Finset
import Mutiny.StreamAccounting

/-!
# What the executors come to

Every own step of an executor lessens `measure`, and as long as it has not ended one of its tasks can go on
(`exists_own_step`): so it ends, whatever the order of the steps. By then the counters, the calls of `on_err_callback`
and the one of `stream_ended_callback` are what the outcomes of the items ask for (`Exact`).
-/

namespace Mutiny.Executor
open Machine UniExecutors AtomicIncrementalAverage64

variable {ρ α ε : Type}

/-! ### The phases -/

namespace State

/-- The stream has ended and all items are completed. -/
def Drained (elements : List ρ) (s : State ρ α ε) : Prop :=
  s.items.length = elements.length ∧ ∀ item ∈ s.items, item = .completed

/-- `register_execution_finish` finds one of the two statuses it waits for. -/
def Live (s : State ρ α ε) : Prop := s.executorStatus = .running ∨ s.executorStatus = .scheduledToFinish

def PhaseOk (elements : List ρ) (s : State ρ α ε) : Prop :=
  match s.phase with
  | .spawned => s.streamEndedCalls = 0
  | .starting => s.Live ∧ s.streamEndedCalls = 0
  | .processing => s.Live ∧ s.executionStartDeltaNanos ≤ s.now ∧ s.streamEndedCalls = 0
  | .finishing => s.Live ∧ s.executionStartDeltaNanos ≤ s.now ∧ s.Drained elements ∧ s.streamEndedCalls = 0
  | .retrying => s.executorStatus = .scheduledToFinish ∧ s.executionStartDeltaNanos ≤ s.now ∧ s.Drained elements ∧
      s.streamEndedCalls = 0
  | .finished => s.executionStartDeltaNanos ≤ s.now ∧ s.Drained elements ∧ s.streamEndedCalls = 0
  | .reporting => s.executionStartDeltaNanos ≤ s.executionFinishDeltaNanos ∧ s.executionFinishDeltaNanos < 2 ^ 64 ∧
      s.Drained elements ∧ s.streamEndedCalls = 0
  | .calling => s.Drained elements ∧ s.streamEndedCalls = 0
  | .closing | .ended => s.Drained elements ∧ s.streamEndedCalls = 1
  | .panicked _ => False

theorem inFlight_eq_zero_iff {s : State ρ α ε} : s.inFlight = 0 ↔ ∀ item ∈ s.items, item = .completed := by
  refine List.countP_eq_zero.trans (forall₂_congr fun item _ => ?_)
  cases item <;> simp [Item.inFlight]

theorem admits_of_inFlight_eq_zero {s : State ρ α ε} (P : Processing ρ α ε) (concurrencyLimit : UInt32)
    (h : s.inFlight = 0) : s.admits P concurrencyLimit := by
  unfold admits
  rw [h]
  split_ifs
  · split
    · rfl
    · by_cases hl : concurrencyLimit = 0
      · simp [hl]
      · have : 0 < concurrencyLimit.toNat := Nat.pos_of_ne_zero fun h0 => hl (UInt32.toNat_inj.mp h0)
        simp [this]
  · rfl

end State

/-- How far the task of an executor is from its end. -/
def Phase.rank : Phase → Nat
  | .spawned => 9
  | .starting => 8
  | .processing => 7
  | .finishing => 6
  | .retrying => 5
  | .finished => 4
  | .reporting => 3
  | .calling => 2
  | .closing => 1
  | .ended | .panicked _ => 0

/-! ### `on_executor_end!` -/

section ExecutorEnd
variable {I : Instruments} {checks : Bool} {P : Processing ρ α ε} {s : State ρ α ε}

theorem fromSecsF32_eq {secs : ℚ} (h : 0 ≤ secs ∧ secs ≤ asSecs (2 ^ 64)) : fromSecsF32 secs = some secs := by
  have hlt : asSecs (2 ^ 64) < 2 ^ 64 := by norm_num [asSecs]
  exact if_pos ⟨h.1, h.2.trans_lt hlt⟩

theorem stats_isSome (h : P.onEnd.future = true →
    ∀ c, 0 ≤ (s.averages c).word.average ∧ (s.averages c).word.average ≤ asSecs (2 ^ 64)) : (s.stats P).isSome := by
  unfold State.stats probe
  cases hf : P.onEnd.future with
  | false => cases P.onEnd.fallible <;> simp
  | true =>
    have hok := fromSecsF32_eq (h hf .okEvents)
    have htimedOut := fromSecsF32_eq (h hf .timedOutEvents)
    have hfailed := fromSecsF32_eq (h hf .failedEvents)
    cases P.onEnd.fallible <;> by_cases ht : P.onEnd.futuresTimeout = 0 <;> simp [ht, hok, htimedOut, hfailed]

theorem exists_executorEnd (h : P.onEnd.future = true →
      ∀ c, 0 ≤ (s.averages c).word.average ∧ (s.averages c).word.average ≤ asSecs (2 ^ 64))
    (hle : s.executionStartDeltaNanos ≤ s.executionFinishDeltaNanos) (hlt : s.executionFinishDeltaNanos < 2 ^ 64) :
    ∃ log, s.executorEnd I checks P = some { s with log } := by
  obtain ⟨stats, hstats⟩ := Option.isSome_iff_exists.mp (stats_isSome h)
  have hnanos : Plain.word checks ((s.executionFinishDeltaNanos : Int) - s.executionStartDeltaNanos) =
      some (s.executionFinishDeltaNanos - s.executionStartDeltaNanos) := by
    rw [← Int.natCast_sub hle]
    exact Plain.word_of_lt (by omega)
  unfold State.executorEnd
  rw [hnanos, hstats]
  by_cases hl : I.logging
  · by_cases hc : I.cheapProfiling
    · exact ⟨_, by simp [hl, hc, State.addLine]; rfl⟩
    · exact ⟨_, by simp [hl, hc, State.addLine]; rfl⟩
  · exact ⟨s.log, by simp [hl]⟩

end ExecutorEnd

/-! ### The invariant -/

structure Inv (I : Instruments) (checks : Bool) (P : Processing ρ α ε) (outcome : ρ → Outcome ε) (elements : List ρ)
    (s : State ρ α ε) : Prop where
  books : Accounting I checks P.onEnd.future outcome elements s
  phase : s.PhaseOk elements

section Inv
variable {I : Instruments} {checks : Bool} {P : Processing ρ α ε} {concurrencyLimit : UInt32}
  {outcome : ρ → Outcome ε} {elements : List ρ} {s s' : State ρ α ε} {i : Nat}

theorem ItemTurn.keeps {timed : Bool} (h : ItemTurn I checks timed outcome s i s') :
    s'.phase = s.phase ∧ s'.executorStatus = s.executorStatus ∧ s'.now = s.now ∧
      s'.executionStartDeltaNanos = s.executionStartDeltaNanos ∧ s'.streamEndedCalls = s.streamEndedCalls := by
  cases h <;> exact ⟨rfl, rfl, rfl, rfl, rfl⟩

theorem executor_cases (h : Inv I checks P outcome elements s)
    (hs : s.executor I checks P concurrencyLimit elements = some s') :
    (∃ element, elements[s.items.length]? = some element ∧ s.phase = .processing ∧ s' = s.pull P element) ∨
    s'.items = s.items ∧ s'.averages = s.averages ∧ s'.onErrCalls = s.onErrCalls ∧ s'.now = s.now ∧
      s'.PhaseOk elements ∧ s'.phase.rank < s.phase.rank := by
  have hok := h.phase
  unfold State.PhaseOk at hok
  unfold State.executor at hs
  cases hp : s.phase with
  | processing =>
    rw [hp] at hs hok
    dsimp only at hs hok
    cases he : elements[s.items.length]? with
    | some element =>
      simp only [he] at hs
      split_ifs at hs
      cases hs
      exact .inl ⟨element, rfl, rfl, rfl⟩
    | none =>
      simp only [he] at hs
      split_ifs at hs with hf
      cases hs
      have hlen : s.items.length = elements.length :=
        Nat.le_antisymm h.books.le (List.getElem?_eq_none_iff.mp he)
      exact .inr ⟨rfl, rfl, rfl, rfl, ⟨hok.1, hok.2.1, ⟨hlen, State.inFlight_eq_zero_iff.mp hf⟩, hok.2.2⟩,
        by simp [Phase.rank]⟩
  | spawned =>
    rw [hp] at hs hok
    cases hs
    exact .inr ⟨rfl, rfl, rfl, rfl, ⟨.inl rfl, hok⟩, by simp [Phase.rank]⟩
  | starting =>
    rw [hp] at hs hok
    cases hs
    split_ifs <;> exact .inr ⟨rfl, rfl, rfl, rfl, ⟨hok.1, le_refl s.now, hok.2⟩, by simp [Phase.rank, State.addLine]⟩
  | finishing =>
    rw [hp] at hs hok
    dsimp only at hs hok
    split_ifs at hs with hr
    · cases hs
      exact .inr ⟨rfl, rfl, rfl, rfl, hok.2, by simp [Phase.rank]⟩
    · cases hs
      exact .inr ⟨rfl, rfl, rfl, rfl, ⟨hok.1.resolve_left hr, hok.2⟩, by simp [Phase.rank]⟩
  | retrying =>
    rw [hp] at hs hok
    dsimp only at hs hok
    rw [if_pos hok.1] at hs
    cases hs
    exact .inr ⟨rfl, rfl, rfl, rfl, hok.2, by simp [Phase.rank]⟩
  | finished =>
    rw [hp] at hs hok
    cases hs
    exact .inr ⟨rfl, rfl, rfl, rfl, ⟨hok.1, h.books.fits, hok.2⟩, by simp [Phase.rank]⟩
  | reporting =>
    rw [hp] at hs hok
    dsimp only at hs hok
    have hlogs : ∃ log, s.executorEnd I checks P = some { s with log } := exists_executorEnd h.books.bounds hok.1 hok.2.1
    obtain ⟨log, hend⟩ := hlogs
    rw [hend] at hs
    cases hs
    exact .inr ⟨rfl, rfl, rfl, rfl, hok.2.2, by simp [Phase.rank]⟩
  | calling =>
    rw [hp] at hs hok
    cases hs
    exact .inr ⟨rfl, rfl, rfl, rfl, ⟨hok.1, by rw [hok.2]⟩, by simp [Phase.rank]⟩
  | closing =>
    rw [hp] at hs hok
    cases hs
    exact .inr ⟨rfl, rfl, rfl, rfl, hok, by simp [Phase.rank]⟩
  | ended | panicked =>
    rw [hp] at hs
    cases hs

theorem inv_init (name : String) (futuresTimeout : Duration) :
    Inv I checks P outcome elements (.init (.withFuturesTimeout name futuresTimeout)) :=
  ⟨.init _ rfl, rfl⟩

theorem State.PhaseOk.tick {nanos : Nat} (h : s.PhaseOk elements) :
    ({ s with now := s.now + nanos } : State ρ α ε).PhaseOk elements := by
  unfold State.PhaseOk at h ⊢
  cases hp : s.phase <;> rw [hp] at h <;> dsimp only at h ⊢
  case processing | finishing | retrying => exact ⟨h.1, h.2.1.trans (Nat.le_add_right ..), h.2.2⟩
  case finished => exact ⟨h.1.trans (Nat.le_add_right ..), h.2⟩
  all_goals exact h

theorem State.PhaseOk.scheduled (h : s.PhaseOk elements) :
    ({ s with executorStatus := .scheduledToFinish } : State ρ α ε).PhaseOk elements := by
  unfold State.PhaseOk at h ⊢
  cases hp : s.phase <;> rw [hp] at h <;> dsimp only at h ⊢
  case starting | processing | finishing => exact ⟨.inr rfl, h.2⟩
  case retrying => exact ⟨rfl, h.2⟩
  all_goals exact h

theorem State.PhaseOk.item (h : s.PhaseOk elements) (hp : s.phase = .processing) (hp' : s'.phase = s.phase)
    (hst : s'.executorStatus = s.executorStatus) (hnow : s'.now = s.now)
    (hstart : s'.executionStartDeltaNanos = s.executionStartDeltaNanos)
    (hcalls : s'.streamEndedCalls = s.streamEndedCalls) : s'.PhaseOk elements := by
  unfold State.PhaseOk at h ⊢
  rw [hp', hp]
  rw [hp] at h
  exact ⟨by rw [State.Live, hst]; exact h.1, by rw [hstart, hnow]; exact h.2.1, by rw [hcalls]; exact h.2.2⟩

theorem Inv.step {a : Act} (hP : P.Sound I outcome) (h : Inv I checks P outcome elements s)
    (hs : s.step I checks P concurrencyLimit elements a = some s') : Inv I checks P outcome elements s' := by
  cases a with
  | tick nanos =>
    simp only [State.step] at hs
    split_ifs at hs with hlt
    cases hs
    exact ⟨h.books.congr hlt rfl rfl rfl, h.phase.tick⟩
  | reportScheduledToFinish =>
    cases hs
    exact ⟨h.books.congr h.books.fits rfl rfl rfl, h.phase.scheduled⟩
  | executor =>
    rcases executor_cases h hs with ⟨element, he, hp, rfl⟩ | ⟨hit, hav, hcalls, hnow, hok, -⟩
    · exact ⟨h.books.pull hP he, h.phase.item hp rfl rfl rfl rfl rfl⟩
    · exact ⟨h.books.congr (hnow ▸ h.books.fits) hit hav hcalls, hok⟩
  | item i =>
    obtain ⟨hp, hturn⟩ := h.books.itemTurn_of_item hP hs
    obtain ⟨hp', hst, hnow, hstart, hcalls⟩ := hturn.keeps
    exact ⟨h.books.itemTurn hturn, h.phase.item hp hp' hst hnow hstart hcalls⟩

theorem inv_of_exec {name : String} {futuresTimeout : Duration} {l : List Act} (hP : P.Sound I outcome)
    (hs : exec (State.step I checks P concurrencyLimit elements) (.init (.withFuturesTimeout name futuresTimeout)) l =
      some s) : Inv I checks P outcome elements s :=
  (Path.of_exec hs).steps.invariant (fun _ _ _ h hb _ => h.step hP hb) (inv_init name futuresTimeout)

/-! ### The end is reached -/

/-- A step of the executor's own task or of one of its items. -/
def Act.own : Act → Bool
  | .executor | .item _ => true
  | .tick _ | .reportScheduledToFinish => false

/-- How many steps the call of `inc` of the `i`-th item may take before its exchange. -/
def State.callSteps (s : State ρ α ε) (i : Nat) : Nat :=
  match s.items[i]? with
  | some (.running (.inc c _ :: _)) => ((s.averages c).calls i).steps (s.averages c).word
  | _ => 0

def State.toDo (elements : List ρ) (s : State ρ α ε) : Nat :=
  8 * (elements.length - s.items.length) + (s.items.map Item.weight).sum + s.phase.rank

/-- An exchange may set the other calls back, by three steps each. -/
def State.measure (elements : List ρ) (s : State ρ α ε) : Nat :=
  (3 * elements.length + 1) * s.toDo elements + ∑ i ∈ Finset.range elements.length, s.callSteps i

theorem callSteps_le (s : State ρ α ε) (i : Nat) : s.callSteps i ≤ 3 := by
  unfold State.callSteps
  split
  · exact CasLoop.Call.steps_le ..
  · exact Nat.zero_le 3

theorem sum_callSteps_le (elements : List ρ) (s : State ρ α ε) :
    ∑ i ∈ Finset.range elements.length, s.callSteps i ≤ 3 * elements.length := by
  have := Finset.sum_le_card_nsmul (Finset.range elements.length) s.callSteps 3 fun i _ => callSteps_le s i
  rwa [Finset.card_range, smul_eq_mul, Nat.mul_comm] at this

theorem measure_lt_of_toDo_lt (h : s'.toDo elements < s.toDo elements) : s'.measure elements < s.measure elements := by
  have hle := sum_callSteps_le elements s'
  have hmul : (3 * elements.length + 1) * (s'.toDo elements + 1) ≤ (3 * elements.length + 1) * s.toDo elements :=
    Nat.mul_le_mul_left _ h
  unfold State.measure
  rw [Nat.mul_add, Nat.mul_one] at hmul
  omega

theorem toDo_setItem_lt {item item' : Item ρ α ε} (hi : s.items[i]? = some item) (hit : s'.items = s.items.set i item')
    (hp : s'.phase = s.phase) (hlt : item'.weight < item.weight) : s'.toDo elements < s.toDo elements := by
  have := Tally.sum_set (w := Item.weight) hi item'
  unfold State.toDo
  rw [hit, hp, List.length_set]
  omega

theorem ItemTurn.measure_lt {timed : Bool} (h : ItemTurn I checks timed outcome s i s')
    (hle : s.items.length ≤ elements.length) : s'.measure elements < s.measure elements := by
  cases h with
  | move hi hidle hdue herrs hharm hlt => exact measure_lt_of_toDo_lt (toDo_setItem_lt hi rfl rfl hlt)
  | callback hi hidle => exact measure_lt_of_toDo_lt (toDo_setItem_lt hi rfl rfl (by simp [Item.weight]))
  | counted hi hn => exact measure_lt_of_toDo_lt (toDo_setItem_lt hi rfl rfl (by simp [Item.weight]))
  | @inc c m script call hi hcall hlt =>
    have hrange : i ∈ Finset.range elements.length :=
      Finset.mem_range.mpr ((Accounting.lt_of_getElem? hi).trans_le hle)
    have hself : (s.setAverage c ((s.averages c).setCall i call)).callSteps i < s.callSteps i := by
      have hi' : (s.setAverage c ((s.averages c).setCall i call)).items[i]? = _ := hi
      rw [State.callSteps, State.callSteps, hi, hi']
      simpa [State.setAverage] using hlt
    have hother : ∀ j, j ≠ i → (s.setAverage c ((s.averages c).setCall i call)).callSteps j = s.callSteps j := by
      intro j hj
      have hcalls : ∀ c', ((s.setAverage c ((s.averages c).setCall i call)).averages c').calls j = (s.averages c').calls j ∧
          ((s.setAverage c ((s.averages c).setCall i call)).averages c').word = (s.averages c').word := by
        intro c'
        by_cases hc : c' = c
        · subst hc
          simp [State.setAverage, CasLoop.setCall_calls_of_ne _ _ hj, CasLoop.setCall_word]
        · simp [State.setAverage, Function.update_of_ne hc]
      simp only [State.callSteps, hcalls]
      rfl
    refine Nat.add_lt_add_left (Finset.sum_lt_sum (fun j _ => ?_) ⟨i, hrange, hself⟩) _
    by_cases hj : j = i
    · exact hj ▸ hself.le
    · exact (hother j hj).le

theorem toDo_pull_lt (hP : P.Sound I outcome) {element : ρ} (he : elements[s.items.length]? = some element) :
    (s.pull P element).toDo elements < s.toDo elements := by
  have hlt : s.items.length < elements.length := (List.getElem?_eq_some_iff.mp he).1
  have hweight : (if P.isAsync then Item.created element else .running (P.itemProcessor element 0) :
      Item ρ α ε).weight ≤ 7 := by
    split_ifs
    · exact le_refl _
    · have := (hP element 0 (by decide)).length_le
      simp only [Item.weight]
      omega
  unfold State.toDo State.pull
  simp only [List.length_append, List.length_singleton, List.map_append, List.sum_append, List.map_singleton,
    List.sum_singleton]
  omega

theorem measure_step {a : Act} (hP : P.Sound I outcome) (h : Inv I checks P outcome elements s)
    (hs : s.step I checks P concurrencyLimit elements a = some s') :
    s'.measure elements + (if a.own then 1 else 0) ≤ s.measure elements := by
  cases a with
  | tick nanos =>
    simp only [State.step] at hs
    split_ifs at hs with hlt
    cases hs
    exact le_refl _
  | reportScheduledToFinish =>
    cases hs
    exact le_refl _
  | executor =>
    rcases executor_cases h hs with ⟨element, he, -, rfl⟩ | ⟨hit, -, -, -, -, hrank⟩
    · exact measure_lt_of_toDo_lt (toDo_pull_lt hP he)
    · refine measure_lt_of_toDo_lt ?_
      unfold State.toDo
      rw [hit]
      omega
  | item i => exact (h.books.itemTurn_of_item hP hs).2.measure_lt h.books.le

theorem own_steps_le {l : List Act} (hP : P.Sound I outcome) (h : Inv I checks P outcome elements s)
    (hs : exec (State.step I checks P concurrencyLimit elements) s l = some s') :
    l.countP Act.own + s'.measure elements ≤ s.measure elements := by
  induction l generalizing s with
  | nil =>
    cases hs
    rw [List.countP_nil, Nat.zero_add]
  | cons a l ih =>
    rw [exec_cons, Option.bind_eq_some_iff] at hs
    obtain ⟨s₁, ha, hl⟩ := hs
    have := measure_step hP h ha
    have := ih (h.step hP ha) hl
    rw [List.countP_cons]
    omega

theorem item_isSome {item : Item ρ α ε} (h : Accounting I checks P.onEnd.future outcome elements s)
    (hp : s.phase = .processing) (hi : s.items[i]? = some item) (hne : item ≠ .completed) :
    (s.item I checks P i).isSome := by
  unfold State.item
  rw [if_pos hp, hi]
  cases item with
  | created | awaiting => rfl
  | completed => exact absurd rfl hne
  | running script =>
    cases script with
    | nil => rfl
    | cons action script =>
      cases action with
      | panic | log | onErrCallback | awaitCallback => rfl
      | inc c m =>
        simp only [State.perform, State.incAct, Option.isSome_map]
        rcases h.calls c i with hc | ⟨item, hi', m', script', -, hc⟩
        · rw [hc]
          exact CasLoop.isSome_call hc
        · have hgo : (AtomicIncrementalAverage64.step checks (s.averages c) (.go i)).isSome := CasLoop.isSome_go hc
          rcases hc with hc | ⟨current, hc⟩ <;> rwa [hc]

/-- As long as the executor has not ended, one of its tasks can go on. -/
theorem exists_own_step (h : Inv I checks P outcome elements s) (hne : s.phase ≠ .ended) :
    ∃ a : Act, a.own ∧ (s.step I checks P concurrencyLimit elements a).isSome := by
  by_cases hbusy : s.phase = .processing ∧ s.inFlight ≠ 0
  · obtain ⟨hp, hbusy⟩ := hbusy
    rw [Ne, State.inFlight_eq_zero_iff] at hbusy
    push Not at hbusy
    obtain ⟨item, hm, hne⟩ := hbusy
    obtain ⟨i, hi⟩ := List.mem_iff_getElem?.mp hm
    exact ⟨.item i, rfl, item_isSome h.books hp hi hne⟩
  · refine ⟨.executor, rfl, ?_⟩
    have hok := h.phase
    show (s.executor I checks P concurrencyLimit elements).isSome
    unfold State.PhaseOk at hok
    unfold State.executor
    cases hp : s.phase with
    | processing =>
      have hzero : s.inFlight = 0 := not_not.mp fun hne => hbusy ⟨hp, hne⟩
      dsimp only
      split
      · rw [if_pos (State.admits_of_inFlight_eq_zero P concurrencyLimit hzero)]
        rfl
      · rw [if_pos hzero]
        rfl
    | ended => exact absurd hp hne
    | panicked message =>
      rw [hp] at hok
      exact hok.elim
    | finishing | retrying =>
      dsimp only
      split_ifs <;> rfl
    | reporting =>
      dsimp only
      split <;> rfl
    | spawned | starting | finished | calling | closing => rfl

end Inv

/-! ### The accounts at the end -/

def Phase.streamEnded : Phase → Bool
  | .finishing | .retrying | .finished | .reporting | .calling | .closing | .ended => true
  | .spawned | .starting | .processing | .panicked _ => false

/-- What `on_err_callback` has to be called with for the `i`-th item. -/
def errsAt (outcomes : List (Outcome ε)) (i : Nat) : List ε := (outcomes[i]?.map Outcome.errs).getD []

/-- The number of items the counter has to come to. -/
def countOf (I : Instruments) (outcomes : List (Outcome ε)) (c : Counter) : Nat :=
  if I.cheapProfiling then outcomes.countP (·.counter = c) else 0

/-- What has to hold at any time of an executor of items with these outcomes. -/
structure Exact (I : Instruments) (outcomes : List (Outcome ε)) (s : State ρ α ε) : Prop where
  noPanic : ∀ message, s.phase ≠ .panicked message
  counters : s.phase.streamEnded = true → ∀ c, (probe (s.averages c)).1.toNat = countOf I outcomes c
  total : s.phase.streamEnded = true → I.cheapProfiling = true →
    (probe (s.averages .okEvents)).1.toNat + (probe (s.averages .failedEvents)).1.toNat +
      (probe (s.averages .timedOutEvents)).1.toNat = outcomes.length
  off : I.cheapProfiling = false → ∀ c, (probe (s.averages c)).1 = 0
  callbacks : ∀ i, callsFor s.onErrCalls i <+: errsAt outcomes i
  callbacksEnd : s.phase.streamEnded = true → ∀ i, callsFor s.onErrCalls i = errsAt outcomes i
  endedCalls : s.streamEndedCalls = if s.phase = .closing ∨ s.phase = .ended then 1 else 0
  afterAll : s.streamEndedCalls ≠ 0 → s.items.length = outcomes.length ∧ ∀ item ∈ s.items, item = .completed

/-- In every run, an executor accounts exactly for its items and comes to its end: it has no more own steps than a bound,
and as long as it has not ended one of them is possible. -/
def AccountsExactly (I : Instruments) (checks : Bool) (concurrencyLimit : UInt32) (e : StreamExecutor)
    (P : Processing ρ α ε) (elements : List ρ) (outcomes : List (Outcome ε)) : Prop :=
  ∃ bound, ∀ (l : List Act) (s : State ρ α ε),
    exec (State.step I checks P concurrencyLimit elements) (.init e) l = some s →
      Exact I outcomes s ∧ l.countP Act.own ≤ bound ∧
      (s.phase ≠ .ended → ∃ a : Act, a.own ∧ (s.step I checks P concurrencyLimit elements a).isSome)

section Exact
variable {I : Instruments} {checks : Bool} {P : Processing ρ α ε} {outcome : ρ → Outcome ε} {elements : List ρ}
  {s : State ρ α ε}

theorem sum_due (I : Instruments) (outcome : ρ → Outcome ε) (elements : List ρ) (c : Counter) :
    (elements.map fun element => (outcome element).due I c).sum = countOf I (elements.map outcome) c := by
  unfold countOf Outcome.due
  cases I.cheapProfiling with
  | false => simp
  | true =>
    induction elements with
    | nil => rfl
    | cons element elements ih =>
      simp only [List.map_cons, List.sum_cons, List.countP_cons, decide_eq_true_eq] at ih ⊢
      simp only [if_true, true_and] at ih ⊢
      omega

theorem sum_countOf (hI : I.cheapProfiling = true) (outcomes : List (Outcome ε)) :
    countOf I outcomes .okEvents + countOf I outcomes .failedEvents + countOf I outcomes .timedOutEvents =
      outcomes.length := by
  simp only [countOf, hI, if_true]
  induction outcomes with
  | nil => rfl
  | cons o outcomes ih =>
    cases o <;> simp [Outcome.counter] at ih ⊢ <;> omega

theorem drained_of_streamEnded (h : s.PhaseOk elements) (hp : s.phase.streamEnded = true) : s.Drained elements := by
  unfold State.PhaseOk at h
  cases hphase : s.phase <;> rw [hphase] at h hp <;> cases hp
  case finishing | retrying | reporting => exact h.2.2.1
  case finished => exact h.2.1
  all_goals exact h.1

theorem streamEndedCalls_eq (h : s.PhaseOk elements) :
    s.streamEndedCalls = if s.phase = .closing ∨ s.phase = .ended then 1 else 0 := by
  unfold State.PhaseOk at h
  cases hphase : s.phase <;> rw [hphase] at h <;> simp only [reduceCtorEq, or_self, or_true, true_or, if_true, if_false]
  case spawned => exact h
  case starting | calling | closing | ended => exact h.2
  case processing | finished => exact h.2.2
  case finishing | retrying | reporting => exact h.2.2.2
  case panicked => exact h.elim

theorem counter_eq (h : Accounting I checks P.onEnd.future outcome elements s) {c : Counter} {n : Nat}
    (hn : (s.averages c).taken.length = n) (hlt : n < 2 ^ 32) : (probe (s.averages c)).1 = UInt32.ofNat n := by
  have hf := h.folds c
  rw [CasLoop.Folds, foldlM_inc checks (hn ▸ hlt), Option.some.injEq] at hf
  rw [probe, ← hf, hn]

theorem taken_length_eq (h : Accounting I checks P.onEnd.future outcome elements s) (hd : s.Drained elements)
    (c : Counter) : (s.averages c).taken.length = countOf I (elements.map outcome) c := by
  have hzero : (s.items.map (Item.due I outcome c)).sum = 0 := by
    refine List.sum_eq_zero fun n hn => ?_
    obtain ⟨item, hm, rfl⟩ := List.mem_map.mp hn
    rw [hd.2 item hm]
    rfl
  have := h.counts c
  rwa [hzero, Nat.add_zero, hd.1, List.take_length, sum_due] at this

/-- What is left of the calls of an item is nothing once it is completed. -/
theorem exists_callsFor_append (h : Accounting I checks P.onEnd.future outcome elements s) (i : Nat) :
    ∃ left, callsFor s.onErrCalls i ++ left = errsAt (elements.map outcome) i ∧ (s.Drained elements → left = []) := by
  rw [errsAt, List.getElem?_map]
  by_cases hi : i < s.items.length
  · have he := List.getElem?_eq_getElem (hi.trans_le h.le)
    have hitem := List.getElem?_eq_getElem hi
    refine ⟨s.items[i].errs outcome, ?_, fun hd => ?_⟩
    · rw [he]
      exact h.errs i _ _ hitem he
    · rw [hd.2 _ (List.getElem_mem hi)]
      rfl
  · rw [h.noErrs i (Nat.le_of_not_lt hi)]
    refine ⟨_, rfl, fun hd => ?_⟩
    rw [List.getElem?_eq_none (by rw [← hd.1]; exact Nat.le_of_not_lt hi)]
    rfl

theorem exact_of_inv (h : Inv I checks P outcome elements s) (hlen : elements.length < 2 ^ 32 - 1) :
    Exact I (elements.map outcome) s := by
  have hbooks := h.books
  have hle : ∀ c, countOf I (elements.map outcome) c < 2 ^ 32 := by
    intro c
    have hcount : countOf I (elements.map outcome) c ≤ (elements.map outcome).length := by
      unfold countOf
      split_ifs
      · exact List.countP_le_length
      · exact Nat.zero_le _
    rw [List.length_map] at hcount
    omega
  have hcounters : s.phase.streamEnded = true →
      ∀ c, (probe (s.averages c)).1.toNat = countOf I (elements.map outcome) c := by
    intro hp c
    rw [counter_eq hbooks (taken_length_eq hbooks (drained_of_streamEnded h.phase hp) c) (hle c)]
    exact Wrap.toNat_ofNat_of_lt (hle c)
  have hok := h.phase
  unfold State.PhaseOk at hok
  constructor
  case noPanic =>
    intro message hp
    rw [hp] at hok
    exact hok
  case counters => exact hcounters
  case total =>
    intro hp hI
    rw [hcounters hp, hcounters hp, hcounters hp]
    exact sum_countOf hI _
  case off =>
    intro hI c
    have hcounts := hbooks.counts c
    rw [sum_due, countOf, hI] at hcounts
    exact counter_eq hbooks (n := 0) (by simp at hcounts; simp [hcounts]) (by decide)
  case callbacks =>
    intro i
    obtain ⟨left, heq, -⟩ := exists_callsFor_append hbooks i
    exact ⟨left, heq⟩
  case callbacksEnd =>
    intro hp i
    obtain ⟨left, heq, hnil⟩ := exists_callsFor_append hbooks i
    rwa [hnil (drained_of_streamEnded h.phase hp), List.append_nil] at heq
  case endedCalls => exact streamEndedCalls_eq h.phase
  case afterAll =>
    intro hne
    have hp : s.phase.streamEnded = true := by
      rw [streamEndedCalls_eq h.phase] at hne
      split_ifs at hne with hp
      · rcases hp with hp | hp <;> rw [hp] <;> rfl
      · exact absurd rfl hne
    rw [List.length_map]
    exact drained_of_streamEnded h.phase hp

theorem accountsExactly {name : String} {futuresTimeout : Duration} {concurrencyLimit : UInt32}
    (hP : P.Sound I outcome) (hlen : elements.length < 2 ^ 32 - 1) :
    AccountsExactly I checks concurrencyLimit (.withFuturesTimeout name futuresTimeout) P elements
      (elements.map outcome) := by
  refine ⟨(State.init (.withFuturesTimeout name futuresTimeout) : State ρ α ε).measure elements, fun l s hs => ?_⟩
  have hinv := inv_of_exec hP hs
  have hown := own_steps_le hP (inv_init name futuresTimeout) hs
  exact ⟨exact_of_inv hinv hlen, by omega, exists_own_step hinv⟩

end Exact

/-- The executors account for every item exactly once, whatever its outcome and the order in which the items complete. -/
theorem executors_account_exactly (I : Instruments) (checks : Bool) (name : String) (futuresTimeout : Duration)
    (concurrencyLimit : UInt32) :
    let e := StreamExecutor.withFuturesTimeout name futuresTimeout
    (∀ elements : List (FutureElement (Except ε α)), elements.length < 2 ^ 32 - 1 →
      AccountsExactly I checks concurrencyLimit e (spawnExecutor I e) elements
        (elements.map (fallibleFutureOutcome futuresTimeout))) ∧
    (∀ elements : List (FutureElement α), elements.length < 2 ^ 32 - 1 →
      AccountsExactly I checks concurrencyLimit e (spawnFuturesExecutor I e : Processing _ α ε) elements
        (elements.map (futureOutcome futuresTimeout))) ∧
    ∀ elements : List (Except ε α), elements.length < 2 ^ 32 - 1 →
      AccountsExactly I checks concurrencyLimit e (spawnFalliblesExecutor I e) elements (elements.map .ofResult) :=
  ⟨fun _ h => accountsExactly (sound_spawnExecutor I _) h, fun _ h => accountsExactly (sound_spawnFuturesExecutor I _) h,
    fun _ h => accountsExactly (sound_spawnFalliblesExecutor I _) h⟩

def threeElements : List (FutureElement (Except String Nat)) := [⟨.ok 7, false⟩, ⟨.error "no", false⟩, ⟨.ok 8, true⟩]

/-- Two of the items at a time, the second one taking longer than the first and the third one. -/
def threeItems : List Act :=
  List.flatten [List.replicate 4 .executor, [.item 0, .item 1, .tick 3], List.replicate 5 (.item 0),
    [.executor, .item 2, .tick 5], List.replicate 5 (.item 2), List.replicate 7 (.item 1), List.replicate 6 .executor]

theorem executors_account_exactly_three :
    ∃ s : State (FutureElement (Except String Nat)) Nat String,
      exec (State.step .metricsWithoutLogs true (spawnExecutor .metricsWithoutLogs (.withFuturesTimeout "three" 5)) 2
        threeElements) (.init (.withFuturesTimeout "three" 5)) threeItems = some s ∧
      (∀ c, (probe (s.averages c)).1.toNat = 1) ∧ callsFor s.onErrCalls 1 = ["no"] ∧ s.streamEndedCalls = 1 := by
  have hsome : (exec (State.step .metricsWithoutLogs true
      (spawnExecutor .metricsWithoutLogs (.withFuturesTimeout "three" 5)) 2 threeElements)
      (.init (.withFuturesTimeout "three" 5)) threeItems).isSome := by decide +kernel
  have hended : ∀ s ∈ exec (State.step .metricsWithoutLogs true
      (spawnExecutor .metricsWithoutLogs (.withFuturesTimeout "three" 5)) 2 threeElements)
      (.init (.withFuturesTimeout "three" 5)) threeItems, s.phase = .ended := by decide +kernel
  obtain ⟨s, hs⟩ := Option.isSome_iff_exists.mp hsome
  obtain ⟨bound, hrun⟩ :=
    (executors_account_exactly .metricsWithoutLogs true "three" 5 2).1 threeElements (by decide)
  obtain ⟨hexact, -⟩ := hrun threeItems s hs
  have hp := hended s hs
  refine ⟨s, hs, fun c => ?_, hexact.callbacksEnd (by rw [hp]; rfl) 1, by rw [hexact.endedCalls, hp]; rfl⟩
  rw [hexact.counters (by rw [hp]; rfl) c]
  cases c <;> rfl

end Mutiny.Executor
