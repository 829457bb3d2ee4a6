import Mathlib.Algebra.BigOperators.Finprod

/-!
# Counting threads

Any number of threads, finitely many of which count: `total w f` adds up what each thread contributes
in its state. When a thread takes a step, the total changes by the difference of its contributions.
-/

namespace Tally
variable {τ σ : Type} {w : σ → Nat} {f : τ → σ}

/-- Only finitely many threads count. -/
def Small (w : σ → Nat) (f : τ → σ) : Prop := {t | w (f t) ≠ 0}.Finite

noncomputable def total (w : σ → Nat) (f : τ → σ) : Nat := ∑ᶠ t, w (f t)

theorem total_eq_zero (h : ∀ t, w (f t) = 0) : total w f = 0 := by
  unfold total
  simp only [h, finsum_zero]

theorem total_eq_length {l : List τ} (hl : l.Nodup) (h₁ : ∀ t ∈ l, w (f t) = 1) (h₀ : ∀ t, t ∉ l → w (f t) = 0) :
    total w f = l.length := by
  classical
  have hsub : (Function.support fun t => w (f t)) ⊆ ↑l.toFinset := by
    intro t ht
    by_contra hn
    exact ht (h₀ t (by simpa using hn))
  unfold total
  rw [finsum_eq_sum_of_support_subset _ hsub, Finset.sum_congr rfl fun t ht => h₁ t (List.mem_toFinset.mp ht),
    Finset.sum_const, List.toFinset_card_of_nodup hl, smul_eq_mul, Nat.mul_one]

theorem Small.of_forall (h : ∀ t, w (f t) = 0) : Small w f := by
  unfold Small
  simp [h]

section Update
variable [DecidableEq τ]

theorem Small.update (h : Small w f) (t : τ) (m : σ) : Small w (Function.update f t m) := by
  refine (Set.Finite.insert t h).subset fun u hu => ?_
  by_cases hut : u = t
  · exact .inl hut
  · have hu' : w (Function.update f t m u) ≠ 0 := hu
    rw [Function.update_of_ne hut] at hu'
    exact .inr hu'

theorem total_update (h : Small w f) (t : τ) (m : σ) : total w (Function.update f t m) + w (f t) = total w f + w m := by
  have hsum : ∀ g : τ → σ, (∀ u, u ≠ t → g u = f u) →
      total w g = w (g t) + ∑ u ∈ (Set.Finite.toFinset h).erase t, w (f u) := by
    intro g hg
    have hsub : (Function.support fun u => w (g u)) ⊆ ↑(insert t ((Set.Finite.toFinset h).erase t)) := by
      intro u hu
      by_cases hut : u = t
      · simp [hut]
      · have hu' : w (f u) ≠ 0 := by rw [← hg u hut]; exact hu
        exact Finset.mem_coe.mpr (Finset.mem_insert_of_mem
          (Finset.mem_erase.mpr ⟨hut, (Set.Finite.mem_toFinset h).mpr hu'⟩))
    unfold total
    rw [finsum_eq_sum_of_support_subset _ hsub, Finset.sum_insert (Finset.notMem_erase t _)]
    congr 1
    exact Finset.sum_congr rfl fun u hu => by rw [hg u (Finset.ne_of_mem_erase hu)]
  rw [hsum _ fun u hu => Function.update_of_ne hu _ _, hsum f fun _ _ => rfl, Function.update_self]
  omega

end Update

theorem sum_set {w : σ → Nat} {l : List σ} {i : Nat} {a : σ} (h : l[i]? = some a) (b : σ) :
    ((l.set i b).map w).sum + w a = (l.map w).sum + w b := by
  induction l generalizing i with
  | nil => simp at h
  | cons x l ih =>
    cases i with
    | zero =>
      cases h
      simp only [List.set_cons_zero, List.map_cons, List.sum_cons]
      omega
    | succ i =>
      have := ih h
      simp only [List.set_cons_succ, List.map_cons, List.sum_cons]
      omega

theorem sum_le_length {w : σ → Nat} {l : List σ} (h : ∀ a, w a ≤ 1) : (l.map w).sum ≤ l.length := by
  induction l with
  | nil => simp
  | cons x l ih =>
    have := h x
    simp
    omega

theorem eq_one_of_sum {w : σ → Nat} {l : List σ} (h : ∀ a, w a ≤ 1) (hl : (l.map w).sum = l.length) :
    ∀ a ∈ l, w a = 1 := by
  induction l with
  | nil => simp
  | cons x l ih =>
    have := h x
    have := sum_le_length (l := l) h
    simp only [List.map_cons, List.sum_cons, List.length_cons] at hl
    simp only [List.mem_cons, forall_eq_or_imp]
    exact ⟨by omega, ih (by omega)⟩

end Tally
