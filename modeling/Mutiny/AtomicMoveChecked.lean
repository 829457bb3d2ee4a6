import Mutiny.AtomicMoveIndex

/-!
# `AtomicMove` in a build with overflow checks

The calls of one user who may keep several slots leaked, each of which it publishes or gives up by index. The only
plain operator that ever overflows is the subtraction in `try_unleak_slot_index_internal`, when `enqueuer_tail` is
back at 0.
-/

namespace Mutiny.AtomicMove
open Plain (Outcome)
variable {α : Type} {B : Nat} {q : AtomicMove α} {checks : Bool}

def fill (B : Nat) (q : AtomicMove α) (slotId : UInt32) (f : α → α) : AtomicMove α :=
  { q with buffer := Function.update q.buffer (slotIndex B slotId) (f (q.buffer (slotIndex B slotId))) }

/-- `publish(setter_fn, || false, report_len_after_enqueueing_fn)`: the length reported, if any. It spins while slots
leaked before are unpublished. -/
def publishChecked (checks : Bool) (B : Nat) (q : AtomicMove α) (setterFn : α → α) :
    Outcome (AtomicMove α × Option UInt32) :=
  let lenBefore := q.enqueuerTail - q.head
  match q.leakSlotInternal B with
  | (q', some slotId) =>
    match (q'.fill B slotId setterFn).publishLeakedInternal slotId with
    | some q'' => Plain.andThen (Plain.add checks lenBefore 1) fun len => .returned (q'', some len)
    | none => .spinning
  | (q', none) => .returned (q', none)

/-- `publish_movable(item)` -/
def publishMovableChecked (checks : Bool) (B : Nat) (q : AtomicMove α) (item : α) :
    Outcome (AtomicMove α × Option UInt32 × Option α) :=
  (q.publishChecked checks B fun _ => item).map fun (q', len) =>
    (q', len.bind FullSyncMove.nonZeroU32, if len.isSome then none else some item)

/-- A queue, the slots its user has leaked, and whether a call has panicked. -/
structure Leaking (α : Type) where
  q : AtomicMove α
  leaked : List UInt32
  panicked : Bool

inductive IndexCall (α : Type)
  | publishMovable (item : α)
  | publish (setterFn : α → α)
  | consumeMovable
  -- `leak_slot_internal(|| false)`
  | leakSlot
  -- a write to a leaked slot
  | fill (slotId : UInt32) (f : α → α)
  | tryPublishIndex (slotId : UInt32)
  | tryUnleakIndex (slotId : UInt32)

namespace Leaking

def init (buffer : Nat → α) : Leaking α := ⟨.withInitializer buffer, [], false⟩

def after {ρ : Type} (s : Leaking α) (o : Outcome ρ) (f : ρ → Leaking α) : Option (Leaking α) :=
  match o with
  | .returned r => some (f r)
  | .panicked => some { s with panicked := true }
  | .spinning => none

/-- A call, unless it spins or names a slot that is not leaked. -/
def call (B fuel : Nat) (s : Leaking α) : IndexCall α → Option (Leaking α)
  | .publishMovable item => s.after (s.q.publishMovableChecked true B item) fun r => { s with q := r.1 }
  | .publish setterFn => s.after (s.q.publishChecked true B setterFn) fun r => { s with q := r.1 }
  | .consumeMovable => some { s with q := (s.q.consumeMovable B).1 }
  | .leakSlot =>
    let (q, slotId) := s.q.leakSlotInternal B
    some { s with q := q, leaked := s.leaked ++ slotId.toList }
  | .fill slotId f =>
    if slotId ∈ s.leaked then some { s with q := s.q.fill B slotId f } else none
  | .tryPublishIndex slotId =>
    if slotId ∈ s.leaked then
      s.after (s.q.tryPublishLeakedInternalIndex true B fuel (UInt32.ofNat (slotIndex B slotId))) fun r =>
        { s with q := r.1, leaked := if r.2.isSome then s.leaked.erase slotId else s.leaked }
    else none
  | .tryUnleakIndex slotId =>
    if slotId ∈ s.leaked then
      s.after (s.q.tryUnleakSlotIndexInternal true B fuel (UInt32.ofNat (slotIndex B slotId))) fun r =>
        { s with q := r.1, leaked := if r.2 then s.leaked.erase slotId else s.leaked }
    else none

def step (B fuel : Nat) (s : Leaking α) (c : IndexCall α) : Option (Leaking α) :=
  if s.panicked then none else s.call B fuel c

/-- `enqueuer_tail` is not 0 when a slot is to be given up. -/
def Meets (s : Leaking α) : IndexCall α → Prop
  | .tryUnleakIndex _ => s.q.enqueuerTail ≠ 0
  | _ => True

instance (s : Leaking α) : (c : IndexCall α) → Decidable (s.Meets c)
  | .tryUnleakIndex _ => inferInstanceAs (Decidable (s.q.enqueuerTail ≠ 0))
  | .publishMovable _ | .publish _ | .consumeMovable | .leakSlot | .fill .. | .tryPublishIndex _ => .isTrue trivial

end Leaking

/-! ### Where it panics -/

/-- Unless the counter it computes the cycle from overflows, the loop does not panic. -/
theorem guessLoop_ne_panicked (hB : RingSize B) {hit : UInt32 → Bool} {x index : UInt32} (hlt : index.toNat < B)
    (fuel : Nat) (slotId : UInt32) : guessLoop checks B hit (some x) index fuel slotId ≠ .panicked := by
  induction fuel generalizing slotId with
  | zero => simp [guessLoop]
  | succ fuel ih =>
    rw [guessLoop]
    split
    · simp
    · simp only [Plain.andThen]
      split
      · rw [slotOfCycle_of_lt hB.fits hlt]
        exact ih _
      · simp

theorem index_lt (hB : RingSize B) (slotId : UInt32) : (UInt32.ofNat (slotIndex B slotId)).toNat < B := by
  rw [toNat_index hB.fits]
  exact Nat.mod_lt _ hB.pos

theorem map_ne_panicked {ρ ρ' : Type} {o : Outcome ρ} (h : o ≠ .panicked) (f : ρ → ρ') : o.map f ≠ .panicked := by
  cases o with
  | panicked => exact absurd rfl h
  | returned | spinning => simp [Outcome.map]

theorem tryPublishIndex_ne_panicked (hB : RingSize B) (fuel : Nat) (slotId : UInt32) :
    q.tryPublishLeakedInternalIndex checks B fuel (UInt32.ofNat (slotIndex B slotId)) ≠ .panicked :=
  map_ne_panicked (guessLoop_ne_panicked hB (index_lt hB slotId) fuel _) _

theorem tryUnleakIndex_panicked_iff (hB : RingSize B) (fuel : Nat) (slotId : UInt32) :
    q.tryUnleakSlotIndexInternal true B (fuel + 1) (UInt32.ofNat (slotIndex B slotId)) = .panicked ↔
      q.enqueuerTail = 0 := by
  unfold tryUnleakSlotIndexInternal
  by_cases h : q.enqueuerTail = 0
  · have hfail : ¬ q.enqueuerTail = UInt32.ofNat (slotIndex B slotId) + 1 := by
      rw [h, ← UInt32.toNat_inj, UInt32.toNat_add, UInt32.toNat_one, UInt32.toNat_zero]
      have := index_lt hB slotId
      have := hB.le
      omega
    rw [guessLoop, if_neg (by rw [decide_eq_true_iff]; exact hfail), Plain.sub_checked_eq_none (by rw [h]; decide)]
    simp only [h, Plain.andThen, Outcome.map]
  · have hle : (1 : UInt32).toNat ≤ q.enqueuerTail.toNat := by
      rw [UInt32.toNat_one]
      exact Nat.pos_of_ne_zero fun h₀ => h (UInt32.toNat_inj.mp h₀)
    rw [Plain.sub_of_le hle]
    simp only [h, iff_false]
    exact map_ne_panicked (guessLoop_ne_panicked hB (index_lt hB slotId) _ _) _

theorem publishChecked_ne_panicked (hB : RingSize B) (setterFn : α → α) :
    q.publishChecked checks B setterFn ≠ .panicked := by
  unfold publishChecked leakSlotInternal
  have hle := hB.le
  by_cases hlt : q.enqueuerTail - q.head < UInt32.ofNat B
  · have hadd : (q.enqueuerTail - q.head).toNat + (1 : UInt32).toNat < 2 ^ 32 := by
      rw [UInt32.lt_iff_toNat_lt, toNat_size hB.fits] at hlt
      rw [UInt32.toNat_one]
      omega
    simp only [hlt, if_true, Plain.add_of_lt hadd, Plain.andThen]
    split <;> simp
  · simp only [hlt, if_false]
    simp

namespace Leaking
variable {s s' : Leaking α} {c : IndexCall α} {fuel : Nat}

theorem after_of_ne {ρ : Type} {o : Outcome ρ} {f : ρ → Leaking α} (h : s.after o f = some s') (ho : o ≠ .panicked)
    (hf : ∀ r, (f r).panicked = false) : s'.panicked = false := by
  cases o with
  | returned r =>
    cases h
    exact hf r
  | panicked => exact absurd rfl ho
  | spinning => cases h

theorem step_eq (hs : s.step B fuel c = some s') : s.panicked = false ∧ s.call B fuel c = some s' := by
  unfold step at hs
  cases hp : s.panicked with
  | true => simp [hp] at hs
  | false => simpa [hp] using hs

theorem step_ok (hB : RingSize B) (hs : s.step B fuel c = some s') (hc : s.Meets c) : s'.panicked = false := by
  obtain ⟨hp, hs⟩ := step_eq hs
  cases c with
  | publishMovable x => exact after_of_ne hs (map_ne_panicked (publishChecked_ne_panicked hB _) _) fun _ => hp
  | publish f => exact after_of_ne hs (publishChecked_ne_panicked hB f) fun _ => hp
  | consumeMovable | leakSlot =>
    cases hs
    exact hp
  | fill slotId f =>
    obtain ⟨-, hs⟩ := Option.ite_none_right_eq_some.mp hs
    cases hs
    exact hp
  | tryPublishIndex slotId =>
    obtain ⟨-, hs⟩ := Option.ite_none_right_eq_some.mp hs
    exact after_of_ne hs (tryPublishIndex_ne_panicked hB fuel slotId) fun _ => hp
  | tryUnleakIndex slotId =>
    obtain ⟨-, hs⟩ := Option.ite_none_right_eq_some.mp hs
    refine after_of_ne hs ?_ fun _ => hp
    cases fuel with
    | zero => simp [tryUnleakSlotIndexInternal, guessLoop, Outcome.map]
    | succ fuel => exact mt (tryUnleakIndex_panicked_iff hB fuel slotId).mp hc

theorem step_panics (hB : RingSize B) (hs : s.step B fuel c = some s') (hc : ¬ s.Meets c) : s'.panicked = true := by
  obtain ⟨hp, hs⟩ := step_eq hs
  cases c with
  | tryUnleakIndex slotId =>
    have henq : s.q.enqueuerTail = 0 := not_not.mp hc
    obtain ⟨-, hs⟩ := Option.ite_none_right_eq_some.mp hs
    cases fuel with
    | zero => cases hs
    | succ fuel =>
      rw [(tryUnleakIndex_panicked_iff hB fuel slotId).mpr henq] at hs
      cases hs
      rfl
  | _ => exact absurd trivial hc

/-- No plain operator overflows in a run whose slots are given up only while `enqueuer_tail` is not 0, and one does
when a slot is given up while it is. -/
theorem panics_iff (hB : RingSize B) (buffer : Nat → α) (fuel : Nat)
    (h : Machine.Steps (step B fuel) (fun s c _ => s.Meets c) (init buffer) s) :
    s.panicked = false ∧ ∀ c s', s.step B fuel c = some s' → (s'.panicked = false ↔ s.Meets c) := by
  constructor
  · refine h.invariant (I := fun s => s.panicked = false) ?_ rfl
    intro s c s' _ hs hc
    exact step_ok hB hs hc
  · intro c s' hs
    constructor
    · intro hp
      by_contra hc
      rw [step_panics hB hs hc] at hp
      cases hp
    · exact step_ok hB hs

/-- A ring of two: a slot is leaked, another one is given up, and the first one is published, both by index. -/
theorem panics_iff_leaked : ∃ s : Leaking Nat, s.q.tail = 1 ∧ s.leaked = [] ∧ s.panicked = false := by
  have hrun : (Machine.exec (Machine.restrict (step 2 2) fun s c _ => decide (s.Meets c))
      (init fun _ => 0 : Leaking Nat) [.leakSlot, .fill 0 fun _ => 7, .leakSlot, .tryUnleakIndex 1, .tryPublishIndex 0]).map
      (fun s => decide (s.q.tail = 1 ∧ s.leaked = [])) = some true := by
    decide +kernel
  obtain ⟨s, hs, ht⟩ := Option.map_eq_some_iff.mp hrun
  rw [decide_eq_true_iff] at ht
  have hsteps : Machine.Steps (step 2 2) (fun s c _ => s.Meets c) (init fun _ => 0) s :=
    (Machine.Path.of_exec_restrict (fun _ _ _ hok => of_decide_eq_true hok) hs).steps
  exact ⟨s, ht.1, ht.2, (panics_iff ⟨1, by decide, rfl⟩ (fun _ => 0) 2 hsteps).1⟩

theorem steps_rounds (n : Nat) : ∃ buffer, Machine.Steps (step 2 2) (fun _ _ _ => True) (init fun _ => 0 : Leaking Nat)
    ⟨⟨UInt32.ofNat n, UInt32.ofNat n, buffer, UInt32.ofNat n, UInt32.ofNat n⟩, [], false⟩ := by
  induction n with
  | zero => exact ⟨_, .refl⟩
  | succ n ih =>
    obtain ⟨buffer, h⟩ := ih
    rw [Wrap.ofNat_succ]
    generalize UInt32.ofNat n = x at *
    refine ⟨Function.update buffer (slotIndex 2 x) 7, ?_⟩
    have hpublish : step 2 2 (⟨⟨x, x, buffer, x, x⟩, [], false⟩ : Leaking Nat) (.publish fun _ => 7) =
        some ⟨⟨x, x + 1, Function.update buffer (slotIndex 2 x) 7, x, x + 1⟩, [], false⟩ := by
      simp [step, call, publishChecked, leakSlotInternal, publishLeakedInternal, fill, after, Plain.add, Plain.andThen]
    have hlen : 0 < (x + 1 - x).toInt32 := by
      rw [UInt32.add_comm, UInt32.add_sub_cancel]
      decide
    have hconsume : step 2 2 (⟨⟨x, x + 1, Function.update buffer (slotIndex 2 x) 7, x, x + 1⟩, [], false⟩ : Leaking Nat)
        .consumeMovable =
        some ⟨⟨x + 1, x + 1, Function.update buffer (slotIndex 2 x) 7, x + 1, x + 1⟩, [], false⟩ := by
      simp only [step, call, consumeMovable, hlen, if_true, Bool.false_eq_true, if_false]
    exact (h.tail ⟨_, hpublish, trivial⟩).tail ⟨_, hconsume, trivial⟩

/-- A ring of two: the last id before `enqueuer_tail` is back at 0 is leaked and to be given up. -/
theorem unleak_panics : ∃ s s' : Leaking Nat,
    Machine.Steps (step 2 2) (fun _ _ _ => True) (init fun _ => 0) s ∧ s.leaked = [4294967295] ∧ s.panicked = false ∧
    s.step 2 2 (.tryUnleakIndex 4294967295) = some s' ∧ s'.panicked = true := by
  obtain ⟨buffer, h⟩ := steps_rounds 4294967295
  have hlast : UInt32.ofNat 4294967295 = 4294967295 := rfl
  rw [hlast] at h
  have hleak : step 2 2 (⟨⟨4294967295, 4294967295, buffer, 4294967295, 4294967295⟩, [], false⟩ : Leaking Nat) .leakSlot =
      some ⟨⟨4294967295, 0, buffer, 4294967295, 4294967295⟩, [4294967295], false⟩ := by
    simp [step, call, leakSlotInternal]
  have hstep : step 2 2 (⟨⟨4294967295, 0, buffer, 4294967295, 4294967295⟩, [4294967295], false⟩ : Leaking Nat)
      (.tryUnleakIndex 4294967295) =
      some ⟨⟨4294967295, 0, buffer, 4294967295, 4294967295⟩, [4294967295], true⟩ := by
    have hpanic := (tryUnleakIndex_panicked_iff (q := ⟨4294967295, 0, buffer, 4294967295, 4294967295⟩) (B := 2)
      ⟨1, by decide, rfl⟩ 1 4294967295).mpr rfl
    simp only [Nat.reduceAdd] at hpanic
    simp [step, call, hpanic, after]
  exact ⟨_, _, h.tail ⟨_, hleak, trivial⟩, rfl, rfl, hstep, rfl⟩

end Leaking

end Mutiny.AtomicMove
