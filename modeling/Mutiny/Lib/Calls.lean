/-!
# Sequences of calls and their answers

A component that answers every call, one call at a time. If two components answer alike from related
states and stay related, no sequence of calls tells them apart.
-/

namespace Calls
variable {σ σ' β ρ : Type} {call : σ → β → σ × ρ} {call' : σ' → β → σ' × ρ}

/-- The state after the calls, and the answers to them. -/
def run (call : σ → β → σ × ρ) (s : σ) : List β → σ × List ρ
  | [] => (s, [])
  | b :: bs => ((run call (call s b).1 bs).1, (call s b).2 :: (run call (call s b).1 bs).2)

theorem run_concat (call : σ → β → σ × ρ) (s : σ) (bs : List β) (b : β) : run call s (bs ++ [b]) =
    ((call (run call s bs).1 b).1, (run call s bs).2 ++ [(call (run call s bs).1 b).2]) := by
  induction bs generalizing s with
  | nil => rfl
  | cons c cs ih => rw [List.cons_append, run, ih]; rfl

/-- `R` relates states that answer alike and stays true. -/
def Simulates (call : σ → β → σ × ρ) (call' : σ' → β → σ' × ρ) (R : σ → σ' → Prop) : Prop :=
  ∀ s s' b, R s s' → R (call s b).1 (call' s' b).1 ∧ (call s b).2 = (call' s' b).2

theorem Simulates.run {R : σ → σ' → Prop} (h : Simulates call call' R) {s : σ} {s' : σ'} (hs : R s s') (bs : List β) :
    R (run call s bs).1 (run call' s' bs).1 ∧ (run call s bs).2 = (run call' s' bs).2 := by
  induction bs generalizing s s' with
  | nil => exact ⟨hs, rfl⟩
  | cons b bs ih =>
    obtain ⟨hr, hb⟩ := h s s' b hs
    obtain ⟨h₁, h₂⟩ := ih hr
    refine ⟨h₁, ?_⟩
    show (call s b).2 :: _ = (call' s' b).2 :: _
    rw [hb, h₂]

end Calls
