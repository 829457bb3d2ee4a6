import Mathlib.Data.List.Induction
import Mathlib.Logic.Relation

/-!
# Machines with labelled partial steps

`step s b` is the state after the step labelled `b`, `none` when that step is not possible in `s`.
`Steps step ok` is a run of any length all of whose steps meet `ok`, a condition on the state before
the step, its label and the state after it.
-/

namespace Machine

variable {σ β : Type} {step : σ → β → Option σ} {ok ok' : σ → β → σ → Prop} {s s' s'' : σ}

/-- One step that meets `ok`. -/
def Step (step : σ → β → Option σ) (ok : σ → β → σ → Prop) (s s' : σ) : Prop :=
  ∃ b, step s b = some s' ∧ ok s b s'

/-- A run of any length. -/
abbrev Steps (step : σ → β → Option σ) (ok : σ → β → σ → Prop) : σ → σ → Prop :=
  Relation.ReflTransGen (Step step ok)

theorem Steps.mono (h : ∀ s b s', ok s b s' → ok' s b s') (hs : Steps step ok s s') :
    Steps step ok' s s' :=
  Relation.ReflTransGen.mono (fun _ _ ⟨b, hb, hok⟩ => ⟨b, hb, h _ b _ hok⟩) _ _ hs

/-- What every step keeps, every run keeps. -/
theorem Steps.invariant {I : σ → Prop} (hI : ∀ s b s', I s → step s b = some s' → ok s b s' → I s')
    (hs : Steps step ok s s') (h : I s) : I s' := by
  induction hs with
  | refl => exact h
  | tail _ hstep ih =>
    obtain ⟨b, hb, hok⟩ := hstep
    exact hI _ b _ ih hb hok

/-- A condition that holds of all steps from states satisfying an invariant holds along the run. -/
theorem Steps.strengthen {I : σ → Prop} (hI : ∀ s b s', I s → step s b = some s' → ok s b s' → I s')
    (hok : ∀ s b s', I s → I s' → step s b = some s' → ok s b s' → ok' s b s') (hs : Steps step ok s s') (h : I s) :
    Steps step ok' s s' := by
  induction hs with
  | refl => exact .refl
  | tail hs hstep ih =>
    obtain ⟨b, hb, hok₁⟩ := hstep
    have hI₁ := Steps.invariant hI hs h
    exact ih.tail ⟨b, hb, hok _ b _ hI₁ (hI _ b _ hI₁ hb hok₁) hb hok₁⟩

/-- A relation to the first state that every step keeps, under an invariant of the run. -/
theorem Steps.invariant_rel {I : σ → Prop} {R : σ → σ → Prop}
    (hI : ∀ s b s', I s → step s b = some s' → ok s b s' → I s')
    (hrefl : ∀ s, R s s) (hR : ∀ r s b s', I s → R r s → step s b = some s' → ok s b s' → R r s')
    (hs : Steps step ok s s') (h : I s) : I s' ∧ R s s' := by
  induction hs with
  | refl => exact ⟨h, hrefl _⟩
  | tail _ hstep ih =>
    obtain ⟨b, hb, hok⟩ := hstep
    exact ⟨hI _ b _ ih.1 hb hok, hR _ _ b _ ih.1 ih.2 hb hok⟩

/-- If a step can be taken that keeps the invariant and lessens the variant for as long as `P` does not hold, it can be
made to hold. -/
theorem exists_steps_of_variant {I P : σ → Prop} (w : σ → Nat)
    (h : ∀ s, I s → ¬ P s → ∃ b s', step s b = some s' ∧ ok s b s' ∧ I s' ∧ w s' < w s) (hs : I s) :
    ∃ s', Steps step ok s s' ∧ P s' := by
  induction hn : w s using Nat.strongRecOn generalizing s with
  | _ n ih =>
    by_cases hP : P s
    · exact ⟨s, .refl, hP⟩
    · obtain ⟨b, s₁, hb, hok, hI, hlt⟩ := h s hs hP
      obtain ⟨s', hsteps, hP'⟩ := ih (w s₁) (hn ▸ hlt) hI rfl
      exact ⟨s', .head ⟨b, hb, hok⟩ hsteps, hP'⟩

/-- The state after the steps labelled `l`. -/
def exec (step : σ → β → Option σ) (s : σ) (l : List β) : Option σ := l.foldlM step s

theorem exec_cons (b : β) (l : List β) : exec step s (b :: l) = (step s b).bind (exec step · l) := rfl

theorem exec_append (l l' : List β) : exec step s (l ++ l') = (exec step s l).bind (exec step · l') :=
  List.foldlM_append

/-- A step that commutes with a change of states and labels does so along a run. -/
theorem exec_map {σ' β' : Type} {step' : σ' → β' → Option σ'} {φ : σ → σ'} {ψ : β' → β}
    (h : ∀ s b, step' (φ s) b = (step s (ψ b)).map φ) (s : σ) (l : List β') :
    exec step' (φ s) l = (exec step s (l.map ψ)).map φ := by
  induction l generalizing s with
  | nil => rfl
  | cons b l ih =>
    rw [List.map_cons, exec_cons, exec_cons, h]
    cases step s (ψ b) with
    | none => rfl
    | some s' => exact ih s'

/-- The run whose steps are labelled `l`, all of them meeting `ok`. -/
inductive Path (step : σ → β → Option σ) (ok : σ → β → σ → Prop) : σ → List β → σ → Prop
  | nil (s : σ) : Path step ok s [] s
  | cons {s s' s'' : σ} {b : β} {l : List β} (hb : step s b = some s') (hok : ok s b s')
    (h : Path step ok s' l s'') : Path step ok s (b :: l) s''

namespace Path
variable {l l' : List β}

theorem steps (h : Path step ok s l s') : Steps step ok s s' := by
  induction h with
  | nil => exact .refl
  | cons hb hok _ ih => exact .head ⟨_, hb, hok⟩ ih

theorem exec_eq (h : Path step ok s l s') : exec step s l = some s' := by
  induction h with
  | nil => rfl
  | cons hb _ _ ih => rw [exec_cons, hb]; exact ih

theorem of_exec (h : exec step s l = some s') : Path step (fun _ _ _ => True) s l s' := by
  induction l generalizing s with
  | nil => cases h; exact .nil _
  | cons b l ih =>
    rw [exec_cons, Option.bind_eq_some_iff] at h
    obtain ⟨s₁, hb, hl⟩ := h
    exact .cons hb trivial (ih hl)

theorem of_exec_of_forall {P : β → Prop} (h : exec step s l = some s') (hP : ∀ b ∈ l, P b) :
    Path step (fun _ b _ => P b) s l s' := by
  induction l generalizing s with
  | nil => cases h; exact .nil _
  | cons b l ih =>
    rw [exec_cons, Option.bind_eq_some_iff] at h
    obtain ⟨s₁, hb, hl⟩ := h
    exact .cons hb (hP b List.mem_cons_self) (ih hl fun c hc => hP c (List.mem_cons_of_mem _ hc))

/-- If `P` holds at the end of a run but not at its start, some step of the run established it. -/
theorem exists_enter {P : σ → Prop} (h : Path step ok s l s') (h₁ : ¬ P s) (h₂ : P s') :
    ∃ l₁ b l₂ u u', l = l₁ ++ b :: l₂ ∧ Path step ok s l₁ u ∧ step u b = some u' ∧ ok u b u' ∧
      ¬ P u ∧ P u' ∧ Path step ok u' l₂ s' := by
  induction h with
  | nil => exact absurd h₂ h₁
  | @cons s m s'' b l hb hok h ih =>
    by_cases hm : P m
    · exact ⟨[], b, l, s, m, rfl, .nil s, hb, hok, h₁, hm, h⟩
    · obtain ⟨l₁, b', l₂, u, u', rfl, hu, hu'⟩ := ih hm h₂
      exact ⟨b :: l₁, b', l₂, u, u', rfl, .cons hb hok hu, hu'⟩

end Path

/-- The steps of `step` that meet a decidable condition. -/
def restrict (step : σ → β → Option σ) (ok : σ → β → σ → Bool) (s : σ) (b : β) : Option σ :=
  (step s b).filter (ok s b)

theorem Path.of_exec_restrict {okb : σ → β → σ → Bool} (hok : ∀ s b s', okb s b s' = true → ok s b s')
    {l : List β} (h : exec (restrict step okb) s l = some s') : Path step ok s l s' := by
  induction l generalizing s with
  | nil => cases h; exact .nil _
  | cons b l ih =>
    rw [exec_cons, Option.bind_eq_some_iff] at h
    obtain ⟨s₁, hb, hl⟩ := h
    rw [restrict, Option.filter_eq_some_iff] at hb
    exact .cons hb.1 (hok _ _ _ hb.2) (ih hl)

/-! ### The states on the way of a sequence of labels -/

section Way
variable {l : List β} {b : β}

/-- The state is reached by carrying out the first labels of `l`. -/
def Reached (step : σ → β → Option σ) (s : σ) (l : List β) (u : σ) : Prop := ∃ l', l' <+: l ∧ exec step s l' = some u

/-- The step from `u` to `u'` labelled `b` is one of those of `l`. -/
def Occurs (step : σ → β → Option σ) (s : σ) (l : List β) (u : σ) (b : β) (u' : σ) : Prop :=
  ∃ l', l' ++ [b] <+: l ∧ exec step s l' = some u ∧ step u b = some u'

theorem Reached.of_exec (h : exec step s l = some s') : Reached step s l s' := ⟨l, List.prefix_rfl, h⟩

theorem Occurs.before (h : Occurs step s l s' b s'') : Reached step s l s' := by
  obtain ⟨l', hl, h, -⟩ := h
  exact ⟨l', (List.prefix_append l' [b]).trans hl, h⟩

theorem Occurs.after (h : Occurs step s l s' b s'') : Reached step s l s'' := by
  obtain ⟨l', hl, h, hb⟩ := h
  refine ⟨l' ++ [b], hl, ?_⟩
  rw [exec_append, h]
  exact (exec_cons b []).trans (by rw [hb]; rfl)

theorem Occurs.exists_exec (h : Occurs step s l s' b s'') {u : σ} (hu : exec step s l = some u) :
    ∃ l', exec step s'' l' = some u := by
  obtain ⟨l₁, ⟨l₂, rfl⟩, h, hb⟩ := h
  refine ⟨l₂, ?_⟩
  rw [List.append_assoc, exec_append, h] at hu
  have hcons : (step s' b).bind (exec step · l₂) = some u := hu
  rwa [hb] at hcons

theorem Reached.invariant {I : σ → Prop} (hI : ∀ u b u', Reached step s l u → I u → Occurs step s l u b u' → I u')
    (h : I s) (hu : Reached step s l s') : I s' := by
  obtain ⟨l', hl, hexec⟩ := hu
  induction l' using List.reverseRecOn generalizing s' with
  | nil => cases hexec; exact h
  | append_singleton l' b ih =>
    rw [exec_append, Option.bind_eq_some_iff] at hexec
    obtain ⟨u, hu, hb⟩ := hexec
    have hl' : l' <+: l := (List.prefix_append l' [b]).trans hl
    rw [exec_cons, Option.bind_eq_some_iff] at hb
    obtain ⟨u', hstep, hu'⟩ := hb
    cases hu'
    exact hI u b s' ⟨l', hl', hu⟩ (ih hl' hu) ⟨l', hl, hu, hstep⟩

end Way

/-- If the test `okb` lets a sequence pass, each of its steps passes it. -/
theorem Occurs.of_exec_restrict {okb : σ → β → σ → Bool} {l : List β} {u u' t : σ} {b : β}
    (h : exec (restrict step okb) s l = some t) (ho : Occurs step s l u b u') : okb u b u' = true := by
  obtain ⟨l', hl, hu, hb⟩ := ho
  induction l' generalizing s l with
  | nil =>
    obtain ⟨l, rfl⟩ := hl
    cases hu
    rw [List.nil_append, List.singleton_append, exec_cons, Option.bind_eq_some_iff] at h
    obtain ⟨s₁, hs₁, -⟩ := h
    rw [restrict, Option.filter_eq_some_iff] at hs₁
    rw [hb] at hs₁
    cases hs₁.1
    exact hs₁.2
  | cons c l' ih =>
    obtain ⟨l, rfl⟩ := hl
    rw [List.cons_append, List.cons_append, exec_cons, Option.bind_eq_some_iff] at h
    obtain ⟨s₁, hs₁, hrest⟩ := h
    rw [restrict, Option.filter_eq_some_iff] at hs₁
    rw [exec_cons, hs₁.1] at hu
    exact ih hrest (List.prefix_append _ _) hu

end Machine
