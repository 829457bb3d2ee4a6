import Mathlib.Data.Finset.Card
import Mathlib.Order.Interval.Finset.Nat

/-!
# Ticket windows

Consecutive ids are handed out at the top of a window `[lo, hi)`, completed at its bottom, and may
be given back at the top. `Window lo hi hold` says that the holders carve up the window: every id of
it has exactly one holder and no id outside has one.
-/

namespace Ticket

variable {τ : Type} {lo hi n : Nat} {hold : τ → Option Nat}

/-- Each id of `[lo, hi)` is held by exactly one `t`, and nothing else is held. -/
structure Window (lo hi : Nat) (hold : τ → Option Nat) : Prop where
  le : lo ≤ hi
  range : ∀ t n, hold t = some n → lo ≤ n ∧ n < hi
  inj : ∀ t t' n, hold t = some n → hold t' = some n → t = t'
  cover : ∀ n, lo ≤ n → n < hi → ∃ t, hold t = some n

theorem Window.empty (n : Nat) : Window n n (fun _ : τ => none) :=
  ⟨le_refl n, fun _ _ h => (Option.some_ne_none _ h.symm).elim, fun _ _ _ h => (Option.some_ne_none _ h.symm).elim,
    fun _ h₁ h₂ => absurd h₂ (Nat.not_lt.mpr h₁)⟩

theorem Window.exists_holders (h : Window lo hi hold) :
    ∃ F : Finset τ, F.card = hi - lo ∧ ∀ t ∈ F, (hold t).isSome := by
  classical
  choose f hf using h.cover
  let g : {x // x ∈ Finset.Ico lo hi} → τ := fun n =>
    f n.1 (Finset.mem_Ico.mp n.2).1 (Finset.mem_Ico.mp n.2).2
  have hg : ∀ n, hold (g n) = some n.1 := fun n => hf ..
  refine ⟨(Finset.Ico lo hi).attach.image g, ?_, ?_⟩
  · rw [Finset.card_image_of_injective, Finset.card_attach, Nat.card_Ico]
    intro a b hab
    have := hg a
    rw [hab, hg b] at this
    exact Subtype.ext (Option.some.inj this).symm
  · intro t ht
    obtain ⟨a, -, rfl⟩ := Finset.mem_image.mp ht
    rw [hg a]; rfl

/-- If every finite set of holders is smaller than `k`, the window is shorter than `k`. -/
theorem Window.length_lt (h : Window lo hi hold) {k : Nat}
    (hk : ∀ F : Finset τ, (∀ t ∈ F, (hold t).isSome) → F.card < k) : hi < lo + k := by
  obtain ⟨F, hF, hsome⟩ := h.exists_holders
  have := hk F hsome
  have := h.le
  omega

section Update
variable [DecidableEq τ] {t : τ}

theorem Window.acquire (h : Window lo hi hold) (ht : hold t = none) :
    Window lo (hi + 1) (Function.update hold t (some hi)) := by
  refine ⟨Nat.le_succ_of_le h.le, fun u n hu => ?_, fun u v n hu hv => ?_, fun n h₁ h₂ => ?_⟩
  · by_cases hut : u = t
    · subst hut
      simp only [Function.update_self, Option.some.injEq] at hu
      have := h.le
      omega
    · rw [Function.update_of_ne hut] at hu
      have := h.range u n hu
      omega
  · by_cases hut : u = t <;> by_cases hvt : v = t
    · rw [hut, hvt]
    · subst hut
      simp only [Function.update_self, Option.some.injEq] at hu
      rw [Function.update_of_ne hvt] at hv
      have := h.range v n hv
      omega
    · subst hvt
      simp only [Function.update_self, Option.some.injEq] at hv
      rw [Function.update_of_ne hut] at hu
      have := h.range u n hu
      omega
    · rw [Function.update_of_ne hut] at hu
      rw [Function.update_of_ne hvt] at hv
      exact h.inj u v n hu hv
  · by_cases hn : n = hi
    · exact ⟨t, by rw [Function.update_self, hn]⟩
    · obtain ⟨u, hu⟩ := h.cover n h₁ (by omega)
      have hut : u ≠ t := by rintro rfl; rw [ht] at hu; cases hu
      exact ⟨u, by rw [Function.update_of_ne hut, hu]⟩

/-- Dropping the id of `t` when it is not inside the new window `[lo', hi')`. -/
theorem Window.drop {lo' hi' : Nat} (h : Window lo hi hold) (ht : hold t = some n) (hle : lo' ≤ hi')
    (hr : ∀ m, lo' ≤ m ∧ m < hi' ↔ (lo ≤ m ∧ m < hi) ∧ m ≠ n) :
    Window lo' hi' (Function.update hold t none) := by
  refine ⟨hle, fun u m hu => ?_, fun u v m hu hv => ?_, fun m h₁ h₂ => ?_⟩
  · by_cases hut : u = t
    · subst hut; rw [Function.update_self] at hu; cases hu
    · rw [Function.update_of_ne hut] at hu
      exact (hr m).2 ⟨h.range u m hu, fun hmn => hut (h.inj u t n (hmn ▸ hu) ht)⟩
  · have hut : u ≠ t := by rintro rfl; rw [Function.update_self] at hu; cases hu
    have hvt : v ≠ t := by rintro rfl; rw [Function.update_self] at hv; cases hv
    rw [Function.update_of_ne hut] at hu
    rw [Function.update_of_ne hvt] at hv
    exact h.inj u v m hu hv
  · obtain ⟨hm, hne⟩ := (hr m).1 ⟨h₁, h₂⟩
    obtain ⟨u, hu⟩ := h.cover m hm.1 hm.2
    have hut : u ≠ t := by rintro rfl; exact hne (Option.some.inj (hu.symm.trans ht))
    exact ⟨u, by rw [Function.update_of_ne hut, hu]⟩

theorem Window.giveBack (h : Window lo (n + 1) hold) (ht : hold t = some n) :
    Window lo n (Function.update hold t none) :=
  h.drop ht (h.range t n ht).1 fun m => by omega

theorem Window.pass {u : τ} (h : Window lo hi hold) (ht : hold t = some n) (hu : hold u = none) :
    Window lo hi (Function.update (Function.update hold t none) u (some n)) := by
  have hut : t ≠ u := by rintro rfl; rw [ht] at hu; cases hu
  have hcase : ∀ {v m}, Function.update (Function.update hold t none) u (some n) v = some m →
      (v = u ∧ m = n) ∨ (v ≠ u ∧ v ≠ t ∧ hold v = some m) := by
    intro v m hv
    by_cases hvu : v = u
    · subst hvu
      rw [Function.update_self, Option.some.injEq] at hv
      exact .inl ⟨rfl, hv.symm⟩
    · rw [Function.update_of_ne hvu] at hv
      by_cases hvt : v = t
      · subst hvt; rw [Function.update_self] at hv; cases hv
      · rw [Function.update_of_ne hvt] at hv
        exact .inr ⟨hvu, hvt, hv⟩
  refine ⟨h.le, fun v m hv => ?_, fun v w m hv hw => ?_, fun m h₁ h₂ => ?_⟩
  · rcases hcase hv with ⟨-, rfl⟩ | ⟨-, -, hv⟩
    · exact h.range t m ht
    · exact h.range v m hv
  · rcases hcase hv with ⟨hvu, hmn⟩ | ⟨-, hvt, hv'⟩ <;> rcases hcase hw with ⟨hwu, hmn'⟩ | ⟨-, hwt, hw'⟩
    · rw [hvu, hwu]
    · exact absurd (h.inj w t m hw' (hmn ▸ ht)) hwt
    · exact absurd (h.inj v t m hv' (hmn' ▸ ht)) hvt
    · exact h.inj v w m hv' hw'
  · by_cases hmn : m = n
    · exact ⟨u, by rw [Function.update_self, hmn]⟩
    · obtain ⟨v, hv⟩ := h.cover m h₁ h₂
      have hvt : v ≠ t := by rintro rfl; exact hmn (Option.some.inj (hv.symm.trans ht))
      have hvu : v ≠ u := by rintro rfl; rw [hu] at hv; cases hv
      exact ⟨v, by rw [Function.update_of_ne hvu, Function.update_of_ne hvt, hv]⟩

theorem Window.complete (h : Window lo hi hold) (ht : hold t = some lo) :
    Window (lo + 1) hi (Function.update hold t none) := by
  have := h.range t lo ht
  exact h.drop ht (by omega) fun m => by omega

end Update

end Ticket
