import Mathlib.Data.List.Infix
import Mathlib.Logic.Function.Basic
import Mutiny.Lib.Machine

/-!
# Linearizable objects

Threads call the operations of an object, each of which takes a number of steps and then returns a result. What one sees
of a run are the calls and the returns, its `Event`s. What the object is for is said by `spec q o r q'`: in the state `q`
the operation `o` may have the result `r` and leave the state `q'` behind, all at once.

The events are linearizable if every operation takes effect once, somewhere between its call and its return, and the
results are those of the operations one after the other, in the order of their effects (`Linearizable`). `Object` is the
object that does just that; whatever it simulates is linearizable (`Simulates.linearizable`).
-/

namespace Linear
open Machine

variable {τ ς ο ρ γ σ β : Type}

/-- What a thread sees. -/
inductive Event (ο ρ : Type)
  | call (o : ο)
  | ret (r : ρ)
deriving DecidableEq

/-- What the calls have returned, in order. -/
def returns (events : List (τ × Event ο ρ)) : List (τ × ρ) :=
  events.filterMap fun
    | (t, .ret r) => some (t, r)
    | (_, .call _) => none

@[simp] theorem returns_nil : returns ([] : List (τ × Event ο ρ)) = [] := rfl

theorem returns_append (events events' : List (τ × Event ο ρ)) :
    returns (events ++ events') = returns events ++ returns events' := List.filterMap_append

/-- The operations `log`, one after the other. -/
inductive Legal (spec : ς → ο → ρ → ς → Prop) (q : ς) : List (τ × ο × ρ) → ς → Prop
  | nil : Legal spec q [] q
  | concat {log : List (τ × ο × ρ)} {t : τ} {o : ο} {r : ρ} {q' q'' : ς} (h : Legal spec q log q')
    (ho : spec q' o r q'') : Legal spec q (log ++ [(t, o, r)]) q''

/-- Where a thread stands with respect to the object. -/
inductive Status (ο ρ : Type)
  | idle
  | called (o : ο)
  -- the operation has taken effect and has yet to return
  | done (r : ρ)

/-- What a thread has seen, of whose operations `ops` have taken effect. -/
inductive Fits : Status ο ρ → List (Event ο ρ) → List (ο × ρ) → Prop
  | nil : Fits .idle [] []
  | call {seen : List (Event ο ρ)} {ops : List (ο × ρ)} {o : ο} (h : Fits .idle seen ops) :
    Fits (.called o) (seen ++ [.call o]) ops
  | take {seen : List (Event ο ρ)} {ops : List (ο × ρ)} {o : ο} {r : ρ} (h : Fits (.called o) seen ops) :
    Fits (.done r) seen (ops ++ [(o, r)])
  | ret {seen : List (Event ο ρ)} {ops : List (ο × ρ)} {r : ρ} (h : Fits (.done r) seen ops) :
    Fits .idle (seen ++ [.ret r]) ops

/-- The object and its threads. -/
structure Object (τ ς ο ρ : Type) where
  state : ς
  status : τ → Status ο ρ

def Object.new (q : ς) : Object τ ς ο ρ := ⟨q, fun _ => .idle⟩

section Threads
variable [DecidableEq τ]

/-- What of `l` belongs to thread `t`. -/
def of (t : τ) (l : List (τ × γ)) : List γ := l.filterMap fun x => if x.1 = t then some x.2 else none

@[simp] theorem of_append (t : τ) (l l' : List (τ × γ)) : of t (l ++ l') = of t l ++ of t l' := List.filterMap_append

@[simp] theorem of_nil (t : τ) : of t ([] : List (τ × γ)) = [] := rfl

@[simp] theorem of_self (t : τ) (x : γ) : of t [(t, x)] = [x] := by simp [of]

theorem of_ne {t u : τ} (h : u ≠ t) (x : γ) : of u [(t, x)] = [] := by simp [of, h.symm]

/-- The operations have taken effect as in `log`, at each moment those of a part of it and at the end all of them, and `q`
is what they left behind. -/
def Linearizable (spec : ς → ο → ρ → ς → Prop) (q₀ : ς) (events : List (τ × Event ο ρ)) (q : ς) : Prop :=
  ∃ log : List (τ × ο × ρ), Legal spec q₀ log q ∧ (∀ t, ∃ st, Fits st (of t events) (of t log)) ∧
    ∀ past, past <+: events → ∃ effects, effects <+: log ∧ ∀ t, ∃ st, Fits st (of t past) (of t effects)

namespace Object
variable {spec : ς → ο → ρ → ς → Prop} {a a' a'' : Object τ ς ο ρ} {events events' : List (τ × Event ο ρ)}
  {log log' : List (τ × ο × ρ)} {t : τ} {o : ο} {r : ρ} {q : ς}

def setStatus (a : Object τ ς ο ρ) (t : τ) (st : Status ο ρ) : Object τ ς ο ρ :=
  { a with status := Function.update a.status t st }

/-- A step, its events and the operation that takes effect. -/
inductive Step (spec : ς → ο → ρ → ς → Prop) (a : Object τ ς ο ρ) :
    List (τ × Event ο ρ) → List (τ × ο × ρ) → Object τ ς ο ρ → Prop
  | call {t : τ} {o : ο} (h : a.status t = .idle) : Step spec a [(t, .call o)] [] (a.setStatus t (.called o))
  | take {t : τ} {o : ο} {r : ρ} {q : ς} (h : a.status t = .called o) (hq : spec a.state o r q) :
    Step spec a [] [(t, o, r)] { a.setStatus t (.done r) with state := q }
  | ret {t : τ} {r : ρ} (h : a.status t = .done r) : Step spec a [(t, .ret r)] [] (a.setStatus t .idle)

inductive Steps (spec : ς → ο → ρ → ς → Prop) (a : Object τ ς ο ρ) :
    List (τ × Event ο ρ) → List (τ × ο × ρ) → Object τ ς ο ρ → Prop
  | refl : Steps spec a [] [] a
  | tail {events events' : List (τ × Event ο ρ)} {log log' : List (τ × ο × ρ)} {a' a'' : Object τ ς ο ρ}
    (h : Steps spec a events log a') (hs : Step spec a' events' log' a'') :
    Steps spec a (events ++ events') (log ++ log') a''

/-- What each thread has seen fits what has taken effect. -/
def Fitting (a : Object τ ς ο ρ) (events : List (τ × Event ο ρ)) (log : List (τ × ο × ρ)) : Prop :=
  ∀ t, Fits (a.status t) (of t events) (of t log)

theorem Fitting.step (h : a.Fitting events log) (hs : Step spec a events' log' a') :
    a'.Fitting (events ++ events') (log ++ log') := by
  intro u
  have hu := h u
  rw [of_append, of_append]
  cases hs with
  | @call t o ht =>
    by_cases hut : u = t
    · subst hut
      rw [ht] at hu
      simpa [setStatus] using hu.call (o := o)
    · simpa [setStatus, hut, of_ne hut] using hu
  | @take t o r q ht hq =>
    by_cases hut : u = t
    · subst hut
      rw [ht] at hu
      simpa [setStatus] using hu.take (r := r)
    · simpa [setStatus, hut, of_ne hut] using hu
  | @ret t r ht =>
    by_cases hut : u = t
    · subst hut
      rw [ht] at hu
      simpa [setStatus] using hu.ret
    · simpa [setStatus, hut, of_ne hut] using hu

theorem Steps.fitting (h : Steps spec (.new q) events log a) : a.Fitting events log := by
  induction h with
  | refl => exact fun _ => .nil
  | tail _ hs ih => exact ih.step hs

theorem Steps.legal (h : Steps spec (.new q) events log a) : Legal spec q log a.state := by
  induction h with
  | refl => exact .nil
  | tail _ hs ih =>
    cases hs with
    | call | ret => simpa [setStatus] using ih
    | take _ hq => exact ih.concat hq

theorem Steps.linearizable (h : Steps spec (.new q) events log a) : Linearizable spec q events a.state := by
  refine ⟨log, h.legal, fun t => ⟨_, h.fitting t⟩, ?_⟩
  induction h with
  | refl =>
    rintro past hp
    obtain rfl := List.prefix_nil.mp hp
    exact ⟨[], List.nil_prefix, fun _ => ⟨_, .nil⟩⟩
  | @tail events events' log log' a a' h hs ih =>
    intro past hp
    have hnow : past = events ++ events' ∨ past <+: events := by
      cases hs with
      | take => exact .inr (by simpa using hp)
      | call | ret => exact List.prefix_concat_iff.mp hp
    rcases hnow with rfl | hp
    · exact ⟨log ++ log', List.prefix_rfl, fun t => ⟨_, (h.tail hs).fitting t⟩⟩
    · obtain ⟨effects, he, hfit⟩ := ih past hp
      exact ⟨effects, he.trans (List.prefix_append ..), hfit⟩

theorem Steps.trans (h : Steps spec a events log a') (h' : Steps spec a' events' log' a'') :
    Steps spec a (events ++ events') (log ++ log') a'' := by
  induction h' with
  | refl => simpa using h
  | tail _ hs ih =>
    rw [← List.append_assoc, ← List.append_assoc]
    exact ih.tail hs

theorem Step.steps (h : Step spec a events log a') : Steps spec a events log a' := by
  simpa using Steps.refl.tail h

theorem setStatus_of_eq {st : Status ο ρ} (h : a.status t = st) : a.setStatus t st = a := by
  rw [setStatus, ← h, Function.update_eq_self]

theorem Steps.answer (h : a.status t = .called o) (hq : spec a.state o r q) :
    Steps spec a [(t, .ret r)] [(t, o, r)] { a.setStatus t .idle with state := q } := by
  have hret : Step spec { a.setStatus t (.done r) with state := q } [(t, .ret r)] []
      ({ a.setStatus t (.done r) with state := q }.setStatus t .idle) := .ret (Function.update_self ..)
  have := (Step.take h hq).steps.tail hret
  simpa [setStatus] using this

end Object

/-! ### What has been returned -/

/-- The result of an operation that has taken effect and not returned. -/
def Status.owed : Status ο ρ → List ρ
  | .done r => [r]
  | .idle | .called _ => []

def Event.result : Event ο ρ → Option ρ
  | .ret r => some r
  | .call _ => none

omit [DecidableEq τ] in
theorem Fits.results {st : Status ο ρ} {seen : List (Event ο ρ)} {ops : List (ο × ρ)} (h : Fits st seen ops) :
    seen.filterMap Event.result ++ st.owed = ops.map Prod.snd := by
  induction h with
  | nil => rfl
  | @call seen ops o _ ih =>
    have hcall : [Event.call o].filterMap (Event.result (ρ := ρ)) = [] := rfl
    rw [List.filterMap_append, hcall]
    simpa [Status.owed] using ih
  | take _ ih =>
    rw [List.map_append, ← ih]
    simp [Status.owed]
  | ret _ ih =>
    rw [List.filterMap_append, ← ih]
    simp [Status.owed, Event.result]

theorem of_returns (t : τ) (events : List (τ × Event ο ρ)) :
    of t (returns events) = (of t events).filterMap Event.result := by
  induction events with
  | nil => rfl
  | cons x events ih =>
    obtain ⟨u, e⟩ := x
    rw [show (u, e) :: events = [(u, e)] ++ events from rfl, returns_append, of_append, of_append, List.filterMap_append, ih]
    cases e <;> by_cases hut : u = t <;> simp [returns, of, hut, Event.result]

theorem of_map {δ : Type} (t : τ) (f : γ → δ) (l : List (τ × γ)) : of t (l.map (Prod.map id f)) = (of t l).map f := by
  induction l with
  | nil => rfl
  | cons x l ih =>
    obtain ⟨u, g⟩ := x
    rw [List.map_cons, show (u, g) :: l = [(u, g)] ++ l from rfl, of_append, List.map_append, ← ih]
    by_cases hut : u = t <;> simp [of, hut]

theorem perm_of_forall_of {l l' : List (τ × γ)} (h : ∀ t, of t l = of t l') : l.Perm l' := by
  classical
  have hcount : ∀ (t : τ) (x : γ) (l : List (τ × γ)), l.count (t, x) = (of t l).count x := by
    intro t x l
    induction l with
    | nil => rfl
    | cons y l ih =>
      obtain ⟨u, y⟩ := y
      rw [show (u, y) :: l = [(u, y)] ++ l from rfl, List.count_append, of_append, List.count_append, ih]
      by_cases hut : u = t <;> simp [of, hut, List.count_singleton]
  exact List.perm_iff_count.mpr fun ⟨t, x⟩ => by rw [hcount, hcount, h]

/-- While no call is under way, what has been returned are the results of what has taken effect. -/
theorem Object.Fitting.returns_perm {a : Object τ ς ο ρ} {events : List (τ × Event ο ρ)} {log : List (τ × ο × ρ)}
    (h : a.Fitting events log) (hidle : ∀ t, a.status t = .idle) : (returns events).Perm (log.map (Prod.map id Prod.snd)) := by
  refine perm_of_forall_of fun t => ?_
  have hfits := (h t).results
  rw [hidle t] at hfits
  rw [of_returns, of_map, ← hfits]
  exact (List.append_nil _).symm

/-! ### Simulation -/

section Simulation
variable {step : σ → β → Option σ} {ok : σ → β → σ → Prop} {event : σ → β → σ → List (τ × Event ο ρ)}
  {spec : ς → ο → ρ → ς → Prop} {R : σ → Object τ ς ο ρ → Prop} {s s' : σ} {q : ς} {events : List (τ × Event ο ρ)}

omit [DecidableEq τ] in
variable (step ok event) in
/-- A run and its events. -/
inductive Run (s : σ) : List (τ × Event ο ρ) → σ → Prop
  | refl : Run s [] s
  | tail {events : List (τ × Event ο ρ)} {b : β} {s' s'' : σ} (h : Run s events s') (hb : step s' b = some s'')
    (hok : ok s' b s'') : Run s (events ++ event s' b s'') s''

variable (step event) in
/-- The steps labelled `l`: their events, and the state they lead to. -/
def trace (s : σ) : List β → Option (List (τ × Event ο ρ) × σ)
  | [] => some ([], s)
  | b :: l => (step s b).bind fun s' => (trace s' l).map fun x => (event s b s' ++ x.1, x.2)

omit [DecidableEq τ] in
theorem Run.of_trace (hok : ∀ s b s', ok s b s') {l : List β} {s₀ : σ} {past : List (τ × Event ο ρ)}
    (h : Run step ok event s₀ past s) (hl : trace step event s l = some (events, s')) :
    Run step ok event s₀ (past ++ events) s' := by
  induction l generalizing s past events with
  | nil =>
    cases hl
    rwa [List.append_nil]
  | cons b l ih =>
    obtain ⟨s₁, hb, hl⟩ := Option.bind_eq_some_iff.mp hl
    obtain ⟨⟨events', s₂⟩, hl', heq⟩ := Option.map_eq_some_iff.mp hl
    cases heq
    rw [← List.append_assoc]
    exact ih (h.tail hb (hok ..)) hl'

variable (step ok event spec) in
/-- Every step is one of the object, or several, or none. -/
def Simulates (R : σ → Object τ ς ο ρ → Prop) : Prop :=
  ∀ s a b s', R s a → step s b = some s' → ok s b s' →
    ∃ log a', Object.Steps spec a (event s b s') log a' ∧ R s' a'

theorem Simulates.run (h : Simulates step ok event spec R) (hs : R s (.new q)) (hrun : Run step ok event s events s') :
    ∃ log a, Object.Steps spec (.new q) events log a ∧ R s' a := by
  induction hrun with
  | refl => exact ⟨[], _, .refl, hs⟩
  | tail _ hb hok ih =>
    obtain ⟨log, a, ha, hR⟩ := ih
    obtain ⟨log', a', ha', hR'⟩ := h _ a _ _ hR hb hok
    exact ⟨log ++ log', a', ha.trans ha', hR'⟩

/-- A machine whose steps are steps of another one, with the same events, or are not noticed there. -/
theorem Simulates.of_refines {σ' β' : Type} {step' : σ' → β' → Option σ'} {ok' : σ' → β' → σ' → Prop}
    {event' : σ' → β' → σ' → List (τ × Event ο ρ)} (h : Simulates step ok event spec R) (φ : σ' → σ)
    (href : ∀ s b s', step' s b = some s' → ok' s b s' →
      (∃ c, step (φ s) c = some (φ s') ∧ ok (φ s) c (φ s') ∧ event' s b s' = event (φ s) c (φ s')) ∨
        φ s' = φ s ∧ event' s b s' = []) :
    Simulates step' ok' event' spec fun s a => R (φ s) a := by
  intro s a b s' hR hb hok
  rcases href s b s' hb hok with ⟨c, hc, hokc, hevent⟩ | ⟨hsame, hevent⟩
  · rw [hevent]
    exact h _ a c _ hR hc hokc
  · rw [hevent]
    refine ⟨[], a, .refl, ?_⟩
    show R (φ s') a
    rwa [hsame]

theorem Simulates.linearizable (h : Simulates step ok event spec R) (hs : R s (.new q))
    (hrun : Run step ok event s events s') : ∃ a, R s' a ∧ Linearizable spec q events a.state := by
  obtain ⟨log, a, ha, hR⟩ := h.run hs hrun
  exact ⟨a, hR, ha.linearizable⟩

end Simulation

end Threads

end Linear
