import Mathlib.Data.Nat.ModEq

/-!
# Plain arithmetic

The operators `+`, `-` and `*` on `u32`, and any operation on `u64`, given its exact value: with `checks` an overflow
panics (`none`), without them it wraps. A call made of such operations and of loops returns, panics or goes on spinning.
-/

namespace Plain

inductive Outcome (ρ : Type)
  | returned (r : ρ)
  | panicked
  | spinning
deriving DecidableEq

def Outcome.map {ρ ρ' : Type} (f : ρ → ρ') : Outcome ρ → Outcome ρ'
  | .returned r => .returned (f r)
  | .panicked => .panicked
  | .spinning => .spinning

def Outcome.bind {ρ ρ' : Type} (o : Outcome ρ) (f : ρ → Outcome ρ') : Outcome ρ' :=
  match o with
  | .returned r => f r
  | .panicked => .panicked
  | .spinning => .spinning

theorem Outcome.of_map_eq {ρ ρ' : Type} {o : Outcome ρ} {f : ρ → ρ'} {r : ρ'} (h : o.map f = .returned r) :
    ∃ x, o = .returned x ∧ f x = r := by
  cases o with
  | returned x => exact ⟨x, rfl, by simpa [Outcome.map] using h⟩
  | panicked | spinning => simp [Outcome.map] at h

/-- What a computation that may have panicked goes on with. -/
def andThen {ρ : Type} (o : Option UInt32) (f : UInt32 → Outcome ρ) : Outcome ρ :=
  match o with
  | some n => f n
  | none => .panicked

def add (checks : Bool) (a b : UInt32) : Option UInt32 :=
  if checks = true ∧ 2 ^ 32 ≤ a.toNat + b.toNat then none else some (a + b)

def sub (checks : Bool) (a b : UInt32) : Option UInt32 :=
  if checks = true ∧ a.toNat < b.toNat then none else some (a - b)

def mul (checks : Bool) (a b : UInt32) : Option UInt32 :=
  if checks = true ∧ 2 ^ 32 ≤ a.toNat * b.toNat then none else some (a * b)

/-- The result of an operation on `u64` whose exact value is `v`. -/
def word (checks : Bool) (v : Int) : Option Nat :=
  if 0 ≤ v ∧ v < 2 ^ 64 then some v.toNat else if checks then none else some (v % 2 ^ 64).toNat

variable {checks : Bool} {a b : UInt32}

theorem add_of_lt (h : a.toNat + b.toNat < 2 ^ 32) : add checks a b = some (a + b) :=
  if_neg fun hc => absurd hc.2 (by omega)

theorem sub_of_le (h : b.toNat ≤ a.toNat) : sub checks a b = some (a - b) :=
  if_neg fun hc => absurd hc.2 (by omega)

theorem mul_of_lt (h : a.toNat * b.toNat < 2 ^ 32) : mul checks a b = some (a * b) :=
  if_neg fun hc => absurd hc.2 (by omega)

@[simp] theorem sub_unchecked (a b : UInt32) : sub false a b = some (a - b) := rfl

theorem sub_checked_eq_none (h : a.toNat < b.toNat) : sub true a b = none :=
  if_pos ⟨rfl, h⟩

theorem add_checked_eq_none (h : 2 ^ 32 ≤ a.toNat + b.toNat) : add true a b = none :=
  if_pos ⟨rfl, h⟩

@[simp] theorem add_unchecked (a b : UInt32) : add false a b = some (a + b) := rfl

theorem word_of_lt {n : Nat} (h : n < 2 ^ 64) : word checks n = some n := by
  rw [word, if_pos (by omega), Int.toNat_natCast]

end Plain
