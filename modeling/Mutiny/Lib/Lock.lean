import Mathlib.Logic.Function.Basic

/-!
# Critical sections

Threads go through a critical section one at a time, guarded by a lock. `inside` says of a thread's state whether it is in
there; `locked` is the state of the lock.
-/

namespace Lock

variable {τ γ : Type} {inside : γ → Bool} {op : τ → γ} {locked : Bool} {t : τ} {o : γ}

/-- One thread at a time is inside, and somebody is as long as the lock is held. -/
structure Exclusive (inside : γ → Bool) (op : τ → γ) (locked : Bool) : Prop where
  one : ∀ t u, inside (op t) = true → inside (op u) = true → t = u
  held : locked = true ↔ ∃ t, inside (op t) = true

namespace Exclusive

theorem start (h : ∀ t, inside (op t) = false) : Exclusive inside op false where
  one t _ ht := by rw [h t] at ht; cases ht
  held := ⟨nofun, fun ⟨t, ht⟩ => by rw [h t] at ht; cases ht⟩

theorem others (h : Exclusive inside op locked) (ht : inside (op t) = true) : ∀ u ≠ t, inside (op u) = false := by
  intro u hu
  by_contra hin
  exact hu (h.one u t (by simpa using hin) ht)

theorem nobody (h : Exclusive inside op false) (u : τ) : inside (op u) = false := by
  by_contra hin
  exact Bool.false_ne_true (h.held.mpr ⟨u, by simpa using hin⟩)

section Update
variable [DecidableEq τ]

theorem alone (h : ∀ u ≠ t, inside (op u) = false) (hl : locked = inside o) :
    Exclusive inside (Function.update op t o) locked := by
  have hin : ∀ u, inside (Function.update op t o u) = true → u = t := by
    intro u hu
    by_contra hut
    rw [Function.update_of_ne hut, h u hut] at hu
    cases hu
  refine ⟨fun u v hu hv => (hin u hu).trans (hin v hv).symm, fun hlock => ⟨t, ?_⟩, fun ⟨u, hu⟩ => ?_⟩
  · rwa [Function.update_self, ← hl]
  · obtain rfl := hin u hu
    rwa [Function.update_self, ← hl] at hu

theorem acquire (h : Exclusive inside op false) (ho : inside o = true) :
    Exclusive inside (Function.update op t o) true := alone (fun u _ => h.nobody u) ho.symm

theorem release (h : Exclusive inside op locked) (ht : inside (op t) = true) (ho : inside o = false) :
    Exclusive inside (Function.update op t o) false := alone (h.others ht) ho.symm

theorem stay (h : Exclusive inside op locked) (ho : inside o = inside (op t)) :
    Exclusive inside (Function.update op t o) locked := by
  have hin : ∀ u, inside (Function.update op t o u) = inside (op u) := by
    intro u
    by_cases hut : u = t
    · subst hut
      rw [Function.update_self, ho]
    · rw [Function.update_of_ne hut]
  refine ⟨fun u v hu hv => ?_, h.held.trans ?_⟩
  · rw [hin] at hu hv
    exact h.one u v hu hv
  · exact exists_congr fun u => by rw [hin]

end Update

end Exclusive

end Lock
