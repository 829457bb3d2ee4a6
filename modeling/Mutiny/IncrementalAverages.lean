import Mathlib.Algebra.BigOperators.Group.List.Basic
import Mathlib.Algebra.Order.Field.Rat
import Mathlib.Tactic.FieldSimp
import Mathlib.Tactic.Linarith
import Mathlib.Tactic.NormNum
import Mathlib.Tactic.Ring
import Mutiny.Lib.CasLoop
import Mutiny.Lib.Plain
import Mutiny.Lib.Wrap

/-!
# `AtomicIncrementalAverage64`

The counter and the average share one word, which `inc` updates in the compare-exchange loop of `atomic_compute` and
`probe` loads. The average is a rational number here, so that it is not rounded.

For fewer than `2 ^ 32` calls the word is the number of the measurements and their mean (`foldlM_inc`). At the type limit
the counter starts over from 100, so that `counter + 1` never overflows; the average stays between the bounds of the
measurements all the same (`inc_bounds`).
-/

namespace Mutiny
open Machine

structure IncrementalAveragePair32 where
  counter : UInt32
  average : ℚ
deriving DecidableEq

/-- The word with the threads that call `inc`, an operation being its measurement. -/
abbrev AtomicIncrementalAverage64 (τ : Type) := CasLoop.State τ IncrementalAveragePair32 ℚ

namespace AtomicIncrementalAverage64
variable {τ : Type}

def new : AtomicIncrementalAverage64 τ := CasLoop.start ⟨0, 0⟩

def resetCounter (counter : UInt32) : UInt32 := if counter = 0xFFFFFFFF then 100 else counter

def inc (checks : Bool) (current : IncrementalAveragePair32) (measurement : ℚ) : Option IncrementalAveragePair32 :=
  let counter := resetCounter current.counter
  let weight : ℚ := counter.toNat
  (Plain.add checks counter 1).map fun newCounter =>
    ⟨newCounter, weight / (1 + weight) * current.average + measurement / (1 + weight)⟩

def probe (s : AtomicIncrementalAverage64 τ) : UInt32 × ℚ := (s.word.counter, s.word.average)

def step [DecidableEq τ] (checks : Bool) :
    AtomicIncrementalAverage64 τ → CasLoop.Act τ ℚ → Option (AtomicIncrementalAverage64 τ) :=
  CasLoop.step (inc checks)

abbrev measurements (l : List (CasLoop.Act τ ℚ)) : List ℚ := CasLoop.ops l

/-! ### One computation -/

section Inc
variable {checks : Bool} {current new : IncrementalAveragePair32} {measurement : ℚ}

theorem resetCounter_lt (counter : UInt32) : (resetCounter counter).toNat + 1 < 2 ^ 32 := by
  unfold resetCounter
  split_ifs with h
  · decide
  · have := counter.toNat_lt
    have hne : counter.toNat ≠ 2 ^ 32 - 1 := fun he => h (UInt32.toNat_inj.mp he)
    omega

theorem inc_eq (checks : Bool) (current : IncrementalAveragePair32) (measurement : ℚ) :
    inc checks current measurement = some ⟨resetCounter current.counter + 1,
      (resetCounter current.counter).toNat / (1 + (resetCounter current.counter).toNat) * current.average +
        measurement / (1 + (resetCounter current.counter).toNat)⟩ := by
  have hlt : (resetCounter current.counter).toNat + (1 : UInt32).toNat < 2 ^ 32 := resetCounter_lt _
  unfold inc
  dsimp only
  rw [Plain.add_of_lt hlt]
  rfl

theorem inc_ne_none (checks : Bool) (current : IncrementalAveragePair32) (measurement : ℚ) :
    inc checks current measurement ≠ none := by
  rw [inc_eq]
  simp

theorem inc_bounds {lo hi : ℚ} (hnew : inc checks current measurement = some new)
    (hm : lo ≤ measurement ∧ measurement ≤ hi) (hc : lo ≤ current.average ∧ current.average ≤ hi) :
    lo ≤ new.average ∧ new.average ≤ hi := by
  rw [inc_eq, Option.some.injEq] at hnew
  subst hnew
  generalize ((resetCounter current.counter).toNat) = n
  have hpos : (0 : ℚ) < 1 + n := by positivity
  have hn : (0 : ℚ) ≤ n := by positivity
  have havg : (n : ℚ) / (1 + n) * current.average + measurement / (1 + n) =
      (n * current.average + measurement) / (1 + n) := by ring
  rw [havg, le_div_iff₀ hpos, div_le_iff₀ hpos]
  have hlo := mul_le_mul_of_nonneg_left hc.1 hn
  have hhi := mul_le_mul_of_nonneg_left hc.2 hn
  constructor
  · linarith
  · linarith

end Inc

/-! ### Many computations -/

def mean (l : List ℚ) : ℚ := l.sum / l.length

theorem mean_concat (l : List ℚ) (m : ℚ) :
    mean (l ++ [m]) = (l.length : ℚ) / (1 + l.length) * mean l + m / (1 + l.length) := by
  have hpos : (1 : ℚ) + l.length ≠ 0 := by positivity
  rw [mean, mean, List.sum_append, List.sum_singleton, List.length_append, List.length_singleton, Nat.cast_add,
    Nat.cast_one]
  cases l with
  | nil => simp
  | cons x l =>
    have hlen : ((x :: l).length : ℚ) ≠ 0 := by
      rw [List.length_cons]
      positivity
    field_simp
    ring

theorem resetCounter_ofNat {n : Nat} (h : n + 1 < 2 ^ 32) : resetCounter (UInt32.ofNat n) = UInt32.ofNat n := by
  refine if_neg fun he => ?_
  have hn := congrArg UInt32.toNat he
  rw [Wrap.toNat_ofNat_of_lt (by omega)] at hn
  have : (0xFFFFFFFF : UInt32).toNat = 2 ^ 32 - 1 := rfl
  omega

theorem foldlM_inc (checks : Bool) {l : List ℚ} (h : l.length < 2 ^ 32) :
    l.foldlM (inc checks) ⟨0, 0⟩ = some ⟨UInt32.ofNat l.length, mean l⟩ := by
  induction l using List.reverseRecOn with
  | nil => simp [mean]
  | append_singleton l m ih =>
    rw [List.length_append, List.length_singleton] at h ⊢
    have hinc : inc checks ⟨UInt32.ofNat l.length, mean l⟩ m =
        some ⟨UInt32.ofNat (l.length + 1), mean (l ++ [m])⟩ := by
      rw [inc_eq, resetCounter_ofNat h, Wrap.toNat_ofNat_of_lt (by omega), mean_concat, Wrap.ofNat_succ]
    rw [List.foldlM_append, ih (by omega)]
    show (inc checks ⟨UInt32.ofNat l.length, mean l⟩ m).bind some = _
    rw [hinc]
    rfl

theorem mean_perm {l l' : List ℚ} (h : l.Perm l') : mean l = mean l' := by
  rw [mean, mean, h.sum_eq, h.length_eq]

/-! ### Many threads -/

section Run
variable [DecidableEq τ] {checks : Bool} {l : List (CasLoop.Act τ ℚ)} {s : AtomicIncrementalAverage64 τ}

theorem word_of_exec (h : exec (step checks) new l = some s) (hn : s.taken.length < 2 ^ 32) :
    s.word = ⟨UInt32.ofNat s.taken.length, mean s.taken⟩ := by
  have hf : CasLoop.Folds (inc checks) ⟨0, 0⟩ s := (CasLoop.Folds.start _ _).exec h
  rw [CasLoop.Folds, foldlM_inc checks hn, Option.some.injEq] at hf
  exact hf.symm

theorem exists_accounts (h : exec (step checks) new l = some s) : ∃ busy, CasLoop.Accounts (measurements l) s busy :=
  (CasLoop.Accounts.start _).exec h

theorem taken_subperm_of_reached {u : AtomicIncrementalAverage64 τ} (hu : Reached (step checks) new l u) :
    u.taken.Subperm (measurements l) := by
  obtain ⟨l', hl, hexec⟩ := hu
  obtain ⟨busy, hacc⟩ := exists_accounts hexec
  exact hacc.taken_subperm.trans (hl.sublist.filterMap _).subperm

/-- `n` calls leave the word with the counter `n` and the mean of their measurements, and `probe` finds those of the calls
that took effect before. -/
theorem no_update_lost (h : exec (step checks) new l = some s) :
    ((measurements l).length < 2 ^ 32 →
      ((∀ t, s.calls t = .idle) → (probe s).1.toNat = (measurements l).length ∧ (probe s).2 = mean (measurements l)) ∧
      ∀ t u u', Occurs (step checks) new l u (.probe t) u' →
        u.taken.Subperm (measurements l) ∧ (probe u).1.toNat = u.taken.length ∧ (probe u).2 = mean u.taken) ∧
    ∀ u, Reached (step checks) new l u → ∀ t m,
      u.calls t ≠ .panicked m ∧
      ∀ current, u.calls t = .computing m current → (resetCounter current.counter).toNat + 1 < 2 ^ 32 := by
  refine ⟨fun hn => ⟨fun hi => ?_, fun t u u' ho => ?_⟩, fun u hu t m => ⟨?_, fun current _ => resetCounter_lt _⟩⟩
  · obtain ⟨busy, hacc⟩ := exists_accounts h
    have hp := hacc.perm_of_idle hi
    have hlen := hp.length_eq
    rw [probe, word_of_exec h (by omega), mean_perm hp, hlen]
    exact ⟨Wrap.toNat_ofNat_of_lt (by omega), rfl⟩
  · have hsub := taken_subperm_of_reached ho.before
    have hlt : u.taken.length < 2 ^ 32 := hsub.length_le.trans_lt hn
    obtain ⟨l', -, hexec⟩ := ho.before
    rw [probe, word_of_exec hexec hlt]
    exact ⟨hsub, Wrap.toNat_ofNat_of_lt hlt, rfl⟩
  · obtain ⟨l', -, hexec⟩ := hu
    exact CasLoop.not_panicked_of_exec (inc_ne_none checks) hexec t m

end Run

/-- Both threads load the first word, so that the exchange of the second one fails once. -/
def conflict : List (CasLoop.Act Bool ℚ) :=
  [.call false 2, .call true 4, .go false, .go true, .go false, .probe false, .go true, .go true]

theorem no_update_lost_conflict :
    ∃ s, exec (step true) new conflict = some s ∧ (probe s).1.toNat = 2 ∧ (probe s).2 = 3 := by
  have hsome : (exec (step true) new conflict).isSome := by decide +kernel
  have hidle : ∀ s ∈ exec (step true) new conflict, ∀ t, s.calls t = .idle := by decide +kernel
  obtain ⟨s, hs⟩ := Option.isSome_iff_exists.mp hsome
  have hlen : (measurements conflict).length < 2 ^ 32 := by decide
  obtain ⟨hn, hmean⟩ := ((no_update_lost hs).1 hlen).1 (hidle s hs)
  refine ⟨s, hs, hn, hmean.trans ?_⟩
  show mean [2, 4] = 3
  norm_num [mean]

end AtomicIncrementalAverage64

end Mutiny
