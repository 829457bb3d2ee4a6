import Mathlib.Logic.Function.Basic
import Mutiny.Lib.Machine

/-!
# Listeners of a broadcast

A broadcast answers each call with a `Reply`: a listener has joined, an item was sent to all
listeners, a listener has consumed an item, or nothing of the kind. `History` records, for every
listener, what was sent since it joined and what it has seen of that.

If each listener has a queue of its own (`Lawful`), and joins with an empty one, then what it has seen
is a prefix of what was sent to it (`Lawful.prefix_of_steps`).
-/

namespace Broadcast

inductive Reply (ι α : Type)
  | joined (i : ι)
  | sent (item : α)
  | consumed (i : ι) (item : α)
  | done

structure History (σ ι α : Type) where
  state : σ
  sent : ι → List α
  seen : ι → List α

variable {σ β ι α : Type} [DecidableEq ι]

/-- The histories after a reply. -/
def record (h : History σ ι α) (s : σ) : Reply ι α → History σ ι α
  | .joined i => ⟨s, Function.update h.sent i [], Function.update h.seen i []⟩
  | .sent item => ⟨s, fun i => h.sent i ++ [item], h.seen⟩
  | .consumed i item => ⟨s, h.sent, Function.update h.seen i (h.seen i ++ [item])⟩
  | .done => ⟨s, h.sent, h.seen⟩

def step (call : σ → β → Option (σ × Reply ι α)) (h : History σ ι α) (b : β) : Option (History σ ι α) :=
  (call h.state b).map fun (s, reply) => record h s reply

def start (s : σ) : History σ ι α := ⟨s, fun _ => [], fun _ => []⟩

/-- Every listener in `live` has its own queue `pending`, as long as the invariant `inv` holds; `fresh`
says that who joins next has an empty queue. -/
structure Lawful (call : σ → β → Option (σ × Reply ι α)) (live : σ → List ι) (pending : σ → ι → List α)
    (inv : σ → Prop) (fresh : σ → β → Prop) : Prop where
  keep : ∀ {s b s' r}, inv s → call s b = some (s', r) → inv s'
  joined : ∀ {s b s' i}, inv s → fresh s b → call s b = some (s', .joined i) → pending s' i = [] ∧
    ∀ j ∈ live s', j ≠ i → j ∈ live s ∧ pending s' j = pending s j
  sent : ∀ {s b s' x}, inv s → call s b = some (s', .sent x) →
    ∀ j ∈ live s', j ∈ live s ∧ pending s' j = pending s j ++ [x]
  consumed : ∀ {s b s' i x}, inv s → call s b = some (s', .consumed i x) →
    ∀ j ∈ live s', j ∈ live s ∧ pending s j = if j = i then x :: pending s' j else pending s' j
  done : ∀ {s b s'}, inv s → call s b = some (s', .done) →
    ∀ j ∈ live s', j ∈ live s ∧ pending s' j = pending s j

namespace Lawful
variable {call : σ → β → Option (σ × Reply ι α)} {live : σ → List ι} {pending : σ → ι → List α} {inv : σ → Prop}
  {fresh : σ → β → Prop} {h h' : History σ ι α} {b : β}

/-- What was sent to a listener is what it has seen and what it has still to see. -/
def Balanced (live : σ → List ι) (pending : σ → ι → List α) (inv : σ → Prop) (h : History σ ι α) : Prop :=
  inv h.state ∧ ∀ i ∈ live h.state, h.sent i = h.seen i ++ pending h.state i

theorem balanced_step (hl : Lawful call live pending inv fresh) (hb : Balanced live pending inv h)
    (hs : step call h b = some h') (hf : fresh h.state b) : Balanced live pending inv h' := by
  obtain ⟨hinv, hbal⟩ := hb
  obtain ⟨⟨s, r⟩, hc, rfl⟩ := Option.map_eq_some_iff.mp hs
  have hinv' := hl.keep hinv hc
  cases r with
  | joined i =>
    obtain ⟨hempty, hrest⟩ := hl.joined hinv hf hc
    refine ⟨hinv', fun j hj => ?_⟩
    show Function.update h.sent i [] j = Function.update h.seen i [] j ++ pending s j
    by_cases hji : j = i
    · subst hji; simp [hempty]
    · obtain ⟨hj', hp⟩ := hrest j hj hji
      rw [Function.update_of_ne hji, Function.update_of_ne hji, hp]
      exact hbal j hj'
  | sent x =>
    refine ⟨hinv', fun j hj => ?_⟩
    obtain ⟨hj', hp⟩ := hl.sent hinv hc j hj
    show h.sent j ++ [x] = h.seen j ++ pending s j
    rw [hp, hbal j hj', List.append_assoc]
  | consumed i x =>
    refine ⟨hinv', fun j hj => ?_⟩
    obtain ⟨hj', hp⟩ := hl.consumed hinv hc j hj
    show h.sent j = Function.update h.seen i (h.seen i ++ [x]) j ++ pending s j
    rw [hbal j hj', hp]
    by_cases hji : j = i
    · subst hji; simp
    · simp [hji]
  | done =>
    refine ⟨hinv', fun j hj => ?_⟩
    obtain ⟨hj', hp⟩ := hl.done hinv hc j hj
    show h.sent j = h.seen j ++ pending s j
    rw [hp]
    exact hbal j hj'

theorem prefix_of_steps (hl : Lawful call live pending inv fresh) {s : σ} (hs : inv s) (hlive : live s = [])
    (h' : Machine.Steps (step call) (fun h b _ => fresh h.state b) (start s) h) :
    ∀ i ∈ live h.state, h.seen i <+: h.sent i := by
  have hb := h'.invariant (I := Balanced live pending inv) (fun _ _ _ hi hs hok => hl.balanced_step hi hs hok)
    ⟨hs, fun i hi => by rw [start, hlive] at hi; cases hi⟩
  intro i hi
  exact ⟨_, (hb.2 i hi).symm⟩

end Lawful
end Broadcast
