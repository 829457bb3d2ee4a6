import Mathlib.Logic.Function.Basic
import Mutiny.Lib.Machine
import Mutiny.Lib.Wrap

/-!
# A length read in two loads

A machine counts what enters and what leaves, and keeps the 32-bit images of both counts in `tail` and `head`. Its
observers load `tail` first and `head` afterwards, and take the difference for the length. In between the machine goes
on, so that is the length of no moment. It is no more than the capacity as long as what has left since then had entered
before the first load, and close to `2 ^ 32` otherwise.
-/

namespace TwoLoads
variable {σ β ω : Type}

/-- What has entered and what has left, under the invariant `inv`. -/
structure Counts (step : σ → β → Option σ) (ok : σ → β → σ → Prop) (inv : σ → Prop) (tail head : σ → UInt32)
    (entered left : σ → Nat) (b : Nat) : Prop where
  keep : ∀ {s l s'}, inv s → step s l = some s' → ok s l s' → inv s'
  tail : ∀ {s}, inv s → tail s = UInt32.ofNat (entered s)
  head : ∀ {s}, inv s → head s = UInt32.ofNat (left s)
  cap : ∀ {s}, inv s → entered s ≤ left s + b
  entered_le : ∀ {s l s'}, inv s → step s l = some s' → ok s l s' → entered s ≤ entered s'
  left_le : ∀ {s l s'}, inv s → step s l = some s' → ok s l s' → left s ≤ left s'

/-- The machine and its observers. `loaded` is the `tail` an observer has loaded, and what had entered by then, which
nobody reads; `returned` is what its last observation came to. -/
structure Observed (σ ω : Type) where
  sys : σ
  loaded : ω → Option (UInt32 × Nat)
  returned : ω → Option UInt32

inductive Label (β ω : Type)
  | sys (l : β)
  | loadTail (o : ω)
  | loadHead (o : ω)

def start (s : σ) : Observed σ ω := ⟨s, fun _ => none, fun _ => none⟩

section Step
variable [DecidableEq ω] (step : σ → β → Option σ) (tail head : σ → UInt32) (entered left : σ → Nat)

def observe (x : Observed σ ω) : Label β ω → Option (Observed σ ω)
  | .sys l => (step x.sys l).map fun s => { x with sys := s }
  | .loadTail o => some { x with loaded := Function.update x.loaded o (some (tail x.sys, entered x.sys)) }
  | .loadHead o =>
    match x.loaded o with
    | some (t, _) => some { x with loaded := Function.update x.loaded o none,
                                   returned := Function.update x.returned o (some (t - head x.sys)) }
    | none => none

/-- The steps of the machine meet `ok`; and no observer loads `head` when more has left than had entered by its first
load. -/
def InTime (ok : σ → β → σ → Prop) (x : Observed σ ω) (l : Label β ω) (x' : Observed σ ω) : Prop :=
  match l with
  | .sys l => ok x.sys l x'.sys
  | .loadTail _ => True
  | .loadHead o => ∀ t n, x.loaded o = some (t, n) → left x.sys ≤ n

/-- The test of `InTime` for the observers. -/
def onTime (x : Observed σ ω) : Label β ω → Bool
  | .loadHead o => (x.loaded o).all fun p => decide (left x.sys ≤ p.2)
  | .sys _ | .loadTail _ => true

end Step

theorem inTime_of_onTime {left : σ → Nat} {ok : σ → β → σ → Prop} {x x' : Observed σ ω} {l : Label β ω}
    (hok : ∀ s l s', ok s l s') (h : onTime left x l = true) : InTime left ok x l x' := by
  cases l with
  | sys l => exact hok ..
  | loadTail o => trivial
  | loadHead o =>
    intro t n ho
    rw [onTime, ho, Option.all_some] at h
    exact of_decide_eq_true h

/-- A `tail` loaded in the past, and lengths no more than the capacity. -/
structure Ok (inv : σ → Prop) (entered left : σ → Nat) (b : Nat) (x : Observed σ ω) : Prop where
  inv : inv x.sys
  loaded : ∀ o t n, x.loaded o = some (t, n) → t = UInt32.ofNat n ∧ n ≤ entered x.sys ∧ n ≤ left x.sys + b
  returned : ∀ o v, x.returned o = some v → v.toNat ≤ b

variable {step : σ → β → Option σ} {ok : σ → β → σ → Prop} {inv : σ → Prop} {tail head : σ → UInt32}
  {entered left : σ → Nat} {b : Nat} {x x' : Observed σ ω}

theorem Ok.start {s : σ} (h : inv s) : Ok inv entered left b (start s : Observed σ ω) := ⟨h, nofun, nofun⟩

theorem toNat_diff_le {n m : Nat} (hle : m ≤ n) (hcap : n ≤ m + b) :
    (UInt32.ofNat n - UInt32.ofNat m).toNat ≤ b := by
  by_cases hb : b < 2 ^ 32
  · rw [Wrap.toNat_ofNat_sub hle (by omega)]
    omega
  · have := (UInt32.ofNat n - UInt32.ofNat m).toNat_lt
    omega

theorem toNat_diff_of_lt {n m : Nat} (hlt : n < m) (hm : m < n + 2 ^ 32) :
    (UInt32.ofNat n - UInt32.ofNat m).toNat = 2 ^ 32 - (m - n) := by
  rw [UInt32.toNat_sub, UInt32.toNat_ofNat', UInt32.toNat_ofNat']
  omega

section Run
variable [DecidableEq ω]

theorem Ok.observed {l : Label β ω} (hc : Counts step ok inv tail head entered left b) (h : Ok inv entered left b x)
    (hs : observe step tail head entered x l = some x') (hok : InTime left ok x l x') : Ok inv entered left b x' := by
  cases l with
  | sys l =>
    obtain ⟨s, hl, rfl⟩ := Option.map_eq_some_iff.mp hs
    refine ⟨hc.keep h.inv hl hok, ?_, h.returned⟩
    intro o t n hn
    obtain ⟨h₁, h₂, h₃⟩ := h.loaded o t n hn
    have hleft : left x.sys ≤ left s := hc.left_le h.inv hl hok
    have hentered : entered x.sys ≤ entered s := hc.entered_le h.inv hl hok
    exact ⟨h₁, h₂.trans hentered, h₃.trans (Nat.add_le_add_right hleft b)⟩
  | loadTail o =>
    cases hs
    refine ⟨h.inv, ?_, h.returned⟩
    intro u t n hn
    change Function.update x.loaded o _ u = _ at hn
    by_cases hu : u = o
    · subst hu
      rw [Function.update_self] at hn
      cases hn
      exact ⟨hc.tail h.inv, le_refl _, hc.cap h.inv⟩
    · rw [Function.update_of_ne hu] at hn
      exact h.loaded u t n hn
  | loadHead o =>
    unfold observe at hs
    dsimp only at hs
    rcases ho : x.loaded o with _ | ⟨t, n⟩
    · simp [ho] at hs
    · simp only [ho] at hs
      cases hs
      refine ⟨h.inv, ?_, ?_⟩
      · intro u t' m hm
        change Function.update x.loaded o none u = _ at hm
        by_cases hu : u = o
        · subst hu
          rw [Function.update_self] at hm
          cases hm
        · rw [Function.update_of_ne hu] at hm
          exact h.loaded u t' m hm
      · intro u v hv
        change Function.update x.returned o _ u = _ at hv
        by_cases hu : u = o
        · subst hu
          rw [Function.update_self] at hv
          cases hv
          obtain ⟨h₁, -, h₃⟩ := h.loaded u t n ho
          rw [h₁, hc.head h.inv]
          exact toNat_diff_le (hok t n ho) h₃
        · rw [Function.update_of_ne hu] at hv
          exact h.returned u v hv

theorem Counts.ok_of_steps {s : σ} (hc : Counts step ok inv tail head entered left b) (hs : inv s)
    (h : Machine.Steps (observe step tail head entered) (InTime left ok) (start s) x) :
    Ok inv entered left b x := by
  refine h.invariant (I := Ok inv entered left b) ?_ (.start hs)
  intro x l x' hi hs hok
  exact hi.observed hc hs hok

/-- A length returned too late is more than the capacity, unless the counts have gone round since. -/
theorem Ok.late {o : ω} {t : UInt32} {n : Nat} (hc : Counts step ok inv tail head entered left b)
    (h : Ok inv entered left b x) (ho : x.loaded o = some (t, n)) (hlt : n < left x.sys)
    (hround : left x.sys + b < n + 2 ^ 32) (hs : observe step tail head entered x (.loadHead o) = some x') :
    ∃ v, x'.returned o = some v ∧ b < v.toNat := by
  simp only [observe, ho, Option.some.injEq] at hs
  subst hs
  refine ⟨_, Function.update_self .., ?_⟩
  rw [(h.loaded o t n ho).1, hc.head h.inv, toNat_diff_of_lt hlt (by omega)]
  omega

end Run
end TwoLoads
