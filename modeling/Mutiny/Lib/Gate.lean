import Mathlib.Logic.Function.Basic

/-!
# Waiting behind a binary lock

Threads that find a resource missing go inside, and end up waiting for a lock; a thread that makes the
resource available owes them an unlock. `Heard` says that nobody waits in vain: while the resource is
available, at most one thread is inside, and if it waits for the locked lock, an unlock is owed.

One thread at a time takes a step, `o` being its state afterwards; `step` says what has to be known of
that step.
-/

namespace Gate
variable {τ σ : Type} {inside waiting owing : σ → Bool} {avail avail' : Prop} {locked locked' : Bool} {f : τ → σ}

/-- At most one thread is inside. -/
def AtMostOne (inside : σ → Bool) (f : τ → σ) : Prop :=
  ∀ t u, inside (f t) = true → inside (f u) = true → t = u

structure Heard (inside waiting owing : σ → Bool) (avail : Prop) (locked : Bool) (f : τ → σ) : Prop where
  one : avail → AtMostOne inside f
  heard : avail → locked = true → ∀ t, waiting (f t) = true → ∃ u, owing (f u) = true

theorem Heard.of_none (hw : ∀ o, waiting o = true → inside o = true) (h : ∀ t, inside (f t) = false) :
    Heard inside waiting owing avail locked f := by
  refine ⟨fun _ t u ht => ?_, fun _ _ t ht => ?_⟩
  · rw [h t] at ht; cases ht
  · have := hw _ ht
    rw [h t] at this
    cases this

theorem Heard.of_not (h : ¬ avail) : Heard inside waiting owing avail locked f :=
  ⟨fun ha => absurd ha h, fun ha => absurd ha h⟩

section Step
variable [DecidableEq τ] {t : τ} {o : σ}

/-- The thread that takes a step does not enter while the resource is available. -/
theorem AtMostOne.update (h : AtMostOne inside f) (hin : inside o = true → inside (f t) = true) :
    AtMostOne inside (Function.update f t o) := by
  have hmem : ∀ u, inside (Function.update f t o u) = true → inside (f u) = true := by
    intro u hu
    by_cases hut : u = t
    · subst hut; rw [Function.update_self] at hu; exact hin hu
    · rwa [Function.update_of_ne hut] at hu
  exact fun u v hu hv => h u v (hmem u hu) (hmem v hv)

theorem exists_owing_of_ne {u : τ} (hut : u ≠ t) (hu : owing (f u) = true) :
    ∃ v, owing (Function.update f t o v) = true :=
  ⟨u, by rw [Function.update_of_ne hut]; exact hu⟩

/-- What has to be known of a step: the resource becomes available to at most one thread; nobody enters while
it is; and afterwards an unlock is owed, or the lock is not locked, or the only thread inside has left. -/
theorem Heard.step (h : Heard inside waiting owing avail locked f) (hone : avail' → avail ∨ AtMostOne inside f)
    (hin : avail' → inside o = true → inside (f t) = true)
    (hheard : avail' → locked' = true → owing o = true ∨ (∃ u, u ≠ t ∧ owing (f u) = true) ∨
      (∀ u, waiting (Function.update f t o u) = false) ∨
      (avail ∧ locked = true ∧ owing (f t) = false ∧ (waiting o = true → waiting (f t) = true))) :
    Heard inside waiting owing avail' locked' (Function.update f t o) := by
  refine ⟨fun ha => ?_, fun ha hl u hu => ?_⟩
  · have h₁ : AtMostOne inside f := (hone ha).elim h.one id
    exact h₁.update (hin ha)
  · rcases hheard ha hl with ho | ⟨v, hv, hov⟩ | hnone | ⟨ha', hl', hot, hwt⟩
    · exact ⟨t, by rw [Function.update_self]; exact ho⟩
    · exact exists_owing_of_ne hv hov
    · rw [hnone u] at hu
      cases hu
    · -- the one who owed the unlock before still does
      have hw : ∃ v, waiting (f v) = true := by
        by_cases hut : u = t
        · subst hut; rw [Function.update_self] at hu; exact ⟨u, hwt hu⟩
        · rw [Function.update_of_ne hut] at hu; exact ⟨u, hu⟩
      obtain ⟨v, hv⟩ := hw
      obtain ⟨w, how⟩ := h.heard ha' hl' v hv
      refine exists_owing_of_ne (u := w) ?_ how
      rintro rfl
      rw [hot] at how
      cases how

theorem Heard.outside (h : Heard inside waiting owing avail locked f) (hw : ∀ o, waiting o = true → inside o = true)
    (ha : avail' → avail) (hl : locked' = true → locked = true) (hin : inside o = false) (ho : owing (f t) = false) :
    Heard inside waiting owing avail' locked' (Function.update f t o) := by
  have hwait : waiting o = true → waiting (f t) = true := by
    intro hwo
    rw [hw o hwo] at hin
    cases hin
  refine h.step (fun h' => .inl (ha h')) (fun _ hi => ?_) fun h' hl' => .inr (.inr (.inr ⟨ha h', hl hl', ho, hwait⟩))
  rw [hin] at hi
  cases hi

theorem Heard.leave (h : Heard inside waiting owing avail locked f) (hw : ∀ o, waiting o = true → inside o = true)
    (ha : avail' → avail) (hin : inside (f t) = true) (ho : inside o = false) :
    Heard inside waiting owing avail' locked' (Function.update f t o) := by
  refine h.step (fun h' => .inl (ha h')) (fun _ hi => by rw [ho] at hi; cases hi) fun h' _ => .inr (.inr (.inl fun u => ?_))
  by_contra hu
  have hu' := hw _ (by simpa using hu)
  by_cases hut : u = t
  · subst hut; rw [Function.update_self, ho] at hu'; cases hu'
  · rw [Function.update_of_ne hut] at hu'
    exact hut (h.one (ha h') u t hu' hin)

theorem Heard.unlock (h : Heard inside waiting owing avail locked f) (ha : avail' → avail) (hl : locked' = false)
    (hin : inside o = true → inside (f t) = true) :
    Heard inside waiting owing avail' locked' (Function.update f t o) :=
  h.step (fun h' => .inl (ha h')) (fun _ => hin) fun _ hl' => by rw [hl] at hl'; cases hl'

/-- The lock is locked, perhaps, by a thread that owes nothing, while somebody owes an unlock. -/
theorem Heard.tryLock (h : Heard inside waiting owing avail locked f) (ha : avail' → avail)
    (hin : inside o = true → inside (f t) = true) (ho : owing (f t) = false)
    (hu : avail' → ∃ u, owing (f u) = true) : Heard inside waiting owing avail' locked' (Function.update f t o) := by
  refine h.step (fun h' => .inl (ha h')) (fun _ => hin) fun h' _ => ?_
  obtain ⟨u, hou⟩ := hu h'
  refine .inr (.inl ⟨u, ?_, hou⟩)
  rintro rfl
  rw [ho] at hou
  cases hou

theorem Heard.nobody (hw : ∀ o, waiting o = true → inside o = true) (h : ∀ u, inside (f u) = false)
    (ho : inside o = false) : Heard inside waiting owing avail locked (Function.update f t o) := by
  refine .of_none hw fun u => ?_
  by_cases hut : u = t
  · subst hut; rw [Function.update_self]; exact ho
  · rw [Function.update_of_ne hut]; exact h u

theorem Heard.owe (h : Heard inside waiting owing avail locked f) (hone : avail' → avail ∨ AtMostOne inside f)
    (hin : inside o = true → inside (f t) = true) (ho : owing o = true) :
    Heard inside waiting owing avail' locked' (Function.update f t o) :=
  h.step hone (fun _ => hin) fun _ _ => .inl ho

end Step
end Gate
