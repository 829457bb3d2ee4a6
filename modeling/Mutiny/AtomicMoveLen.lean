import Mutiny.AtomicMoveChecked

/-!
# The lengths reported by the publishing functions of `AtomicMove`

One user who publishes in all the ways there are: the length reported should be `available_elements_count()` after the
call. It is for `publish_movable` and `publish`. `try_publish_leaked_internal_index` takes what its compare-exchange of
`tail` returns for the new `tail`, but that is the old one.
-/

namespace Mutiny.AtomicMove
open Plain (Outcome)
variable {α : Type} {B : Nat} {q : AtomicMove α} {checks : Bool} {fuel : Nat}

/-- `leak_slot_internal(|| false)`, a write to the slot and `try_publish_leaked_internal_index`. -/
def leakPublishIndex (checks : Bool) (B fuel : Nat) (q : AtomicMove α) (setterFn : α → α) :
    Outcome (AtomicMove α × Option UInt32) :=
  match q.leakSlotInternal B with
  | (q', some slotId) =>
    (q'.fill B slotId setterFn).tryPublishLeakedInternalIndex checks B fuel (UInt32.ofNat (slotIndex B slotId))
  | (q', none) => .returned (q', none)

inductive LenCall (α : Type)
  | publishMovable (item : α)
  | publish (setterFn : α → α)
  | leakPublishIndex (setterFn : α → α)
  | consumeMovable

/-- The state after the call and the length it reports, if any. -/
def lenCall (checks : Bool) (B fuel : Nat) (q : AtomicMove α) : LenCall α → Outcome (AtomicMove α × Option UInt32)
  | .publishMovable item => (q.publishMovableChecked checks B item).map fun r => (r.1, r.2.1)
  | .publish setterFn => q.publishChecked checks B setterFn
  | .leakPublishIndex setterFn => q.leakPublishIndex checks B fuel setterFn
  | .consumeMovable => .returned ((q.consumeMovable B).1, none)

def lenStep (checks : Bool) (B fuel : Nat) (q : AtomicMove α) (c : LenCall α) : Option (AtomicMove α) :=
  match q.lenCall checks B fuel c with
  | .returned r => some r.1
  | .panicked | .spinning => none

/-- A slot is published by index only into an empty queue. -/
def LenMeets (q : AtomicMove α) : LenCall α → Prop
  | .leakPublishIndex _ => q.availableElementsCount = 0
  | _ => True

/-! ### Between two calls -/

/-- Nothing is reserved and there are at most `BUFFER_SIZE` elements. -/
structure Settled (B : Nat) (q : AtomicMove α) : Prop where
  quiet : q.Quiet
  wf : q.sync.WellFormed B

theorem room_eq (hB : Ring.Fits B) : Ring.room B = B := toNat_size hB

/-- The state after publishing, in whatever way. -/
def published (B : Nat) (q : AtomicMove α) (setterFn : α → α) : AtomicMove α :=
  { q.fill B q.tail setterFn with enqueuerTail := q.tail + 1, tail := q.tail + 1 }

theorem available_published (q : AtomicMove α) (setterFn : α → α) :
    (q.published B setterFn).availableElementsCount = q.availableElementsCount + 1 := by
  show q.tail + 1 - q.head = q.tail - q.head + 1
  rw [UInt32.sub_eq_add_neg, UInt32.sub_eq_add_neg, UInt32.add_assoc, UInt32.add_comm 1, UInt32.add_assoc]

theorem Settled.published (h : Settled B q) (hB : Ring.Fits B) (hlt : q.availableElementsCount.toNat < B) (setterFn : α → α) :
    Settled B (q.published B setterFn) := by
  refine ⟨⟨rfl, h.quiet.2⟩, ?_⟩
  exact (FullSyncMove.publishLeaked_spec (q := q.sync) hB.powerOfTwo (by rw [room_eq hB]; exact hlt) setterFn).1

theorem Settled.consumed (h : Settled B q) (hB : RingSize B) : Settled B (q.consumeMovable B).1 := by
  obtain ⟨h₁, h₂, -⟩ := h.quiet.consumeMovable (B := B)
  refine ⟨h₁, ?_⟩
  rw [h₂]
  exact (FullSyncMove.consumeMovable_len hB.fits.powerOfTwo (by have := hB.le; omega) h.wf).1

theorem Settled.leak_room (h : Settled B q) (hB : Ring.Fits B) (hlt : q.availableElementsCount.toNat < B) :
    q.leakSlotInternal B = ({ q with enqueuerTail := q.tail + 1 }, some q.tail) := by
  have hlen : q.tail - q.head < UInt32.ofNat B := by
    rw [UInt32.lt_iff_toNat_lt, toNat_size hB]
    exact hlt
  simp [leakSlotInternal, h.quiet.1, hlen]

theorem Settled.leak_full (h : Settled B q) (hB : Ring.Fits B) (hlt : ¬ q.availableElementsCount.toNat < B) :
    q.leakSlotInternal B = (q, none) := by
  have hlen : ¬ q.enqueuerTail - q.head < UInt32.ofNat B := by
    rw [h.quiet.1, UInt32.lt_iff_toNat_lt, toNat_size hB]
    exact hlt
  unfold leakSlotInternal
  exact if_neg hlen

/-! ### What is reported -/

theorem Settled.publishChecked_room (h : Settled B q) (hB : Ring.Fits B) (hlt : q.availableElementsCount.toNat < B)
    (setterFn : α → α) : q.publishChecked checks B setterFn =
      .returned (q.published B setterFn, some (q.availableElementsCount + 1)) := by
  have hadd : q.availableElementsCount.toNat + (1 : UInt32).toNat < 2 ^ 32 := by
    have := hB.le
    rw [UInt32.toNat_one]
    omega
  have hadd' : Plain.add checks (q.tail - q.head) 1 = some (q.tail - q.head + 1) := Plain.add_of_lt hadd
  simp only [publishChecked, h.leak_room hB hlt, h.quiet.1, hadd', Plain.andThen, publishLeakedInternal, fill, if_true]
  rfl

theorem tryPublishIndex_tail (hB : Ring.Fits B) (hfuel : 2 ≤ fuel) (q : AtomicMove α) :
    q.tryPublishLeakedInternalIndex checks B fuel (UInt32.ofNat (slotIndex B q.tail)) =
      .returned ({ q with tail := q.tail + 1 }, FullSyncMove.nonZeroU32 (max 1 q.availableElementsCount)) := by
  unfold tryPublishLeakedInternalIndex
  rw [guessLoop_eq (x := q.tail) hB (fun i => by rw [decide_eq_true_iff, eq_comm]) (fun _ => rfl) hfuel, if_pos rfl]
  rfl

theorem Settled.leakPublishIndex_room (h : Settled B q) (hB : Ring.Fits B) (hlt : q.availableElementsCount.toNat < B)
    (hfuel : 2 ≤ fuel) (setterFn : α → α) : q.leakPublishIndex checks B fuel setterFn =
      .returned (q.published B setterFn, FullSyncMove.nonZeroU32 (max 1 q.availableElementsCount)) := by
  simp only [leakPublishIndex, h.leak_room hB hlt]
  exact tryPublishIndex_tail hB hfuel _

theorem succ_ne_zero (hB : Ring.Fits B) {n : UInt32} (hlt : n.toNat < B) : n + 1 ≠ 0 := by
  intro h
  have hnat := congrArg UInt32.toNat h
  rw [UInt32.toNat_add, UInt32.toNat_one, UInt32.toNat_zero] at hnat
  have := hB.le
  omega

/-- The length before is the one after only if there was nothing before. -/
theorem len_before_iff (hB : Ring.Fits B) {n m : UInt32} (hlt : n.toNat < B)
    (hm : FullSyncMove.nonZeroU32 (max 1 n) = some m) : m = n + 1 ↔ n = 0 := by
  have hmax : (if 1 ≤ n then n else 1) = m := by
    unfold FullSyncMove.nonZeroU32 at hm
    exact Option.some.inj (Option.ite_none_left_eq_some.mp hm).2
  rw [← hmax]
  constructor
  · intro h
    by_contra hn
    have hle : 1 ≤ n := by
      rw [UInt32.le_iff_toNat_le, UInt32.toNat_one]
      exact Nat.pos_of_ne_zero fun h₀ => hn (UInt32.toNat_inj.mp h₀)
    rw [if_pos hle] at h
    have hnat := congrArg UInt32.toNat h
    rw [UInt32.toNat_add, UInt32.toNat_one] at hnat
    have := hB.le
    omega
  · rintro rfl
    rfl

/-- A call of this kind returns: with room it publishes and reports `len`, otherwise it does nothing. -/
theorem Settled.lenCall_of {c : LenCall α} (setterFn : α → α) {len : Option UInt32} (h : Settled B q) (hB : Ring.Fits B)
    (hroom : q.availableElementsCount.toNat < B → q.lenCall checks B fuel c = .returned (q.published B setterFn, len))
    (hfull : ¬ q.availableElementsCount.toNat < B → q.lenCall checks B fuel c = .returned (q, none))
    (hlen : ∀ n, q.availableElementsCount.toNat < B → len = some n →
      (n = q.availableElementsCount + 1 ↔ LenMeets q c)) :
    ∃ q' len, q.lenCall checks B fuel c = .returned (q', len) ∧ Settled B q' ∧
      ∀ n, len = some n → (n = q'.availableElementsCount ↔ LenMeets q c) := by
  by_cases hlt : q.availableElementsCount.toNat < B
  · refine ⟨_, _, hroom hlt, h.published hB hlt setterFn, ?_⟩
    intro n hn
    rw [available_published]
    exact hlen n hlt hn
  · exact ⟨_, _, hfull hlt, h, by simp⟩

/-- Every call returns, and the length it reports is the one after it, except that a slot published by index has to
be the first one in the queue. -/
theorem Settled.lenCall (checks : Bool) (h : Settled B q) (hB : RingSize B) (hfuel : 2 ≤ fuel) (c : LenCall α) :
    ∃ q' len, q.lenCall checks B fuel c = .returned (q', len) ∧ Settled B q' ∧
      ∀ n, len = some n → (n = q'.availableElementsCount ↔ LenMeets q c) := by
  cases c with
  | publishMovable x =>
    have hlen : ∀ n, q.availableElementsCount.toNat < B → some (q.availableElementsCount + 1) = some n →
        (n = q.availableElementsCount + 1 ↔ LenMeets q (.publishMovable x)) := by
      intro n _ hn
      cases hn
      exact iff_of_true rfl trivial
    refine h.lenCall_of (fun _ => x) hB.fits ?_ ?_ hlen
    · intro hlt
      simp only [AtomicMove.lenCall, publishMovableChecked, h.publishChecked_room hB.fits hlt, Outcome.map, Option.bind_some,
        FullSyncMove.nonZeroU32, if_neg (succ_ne_zero hB.fits hlt)]
    · intro hlt
      simp only [AtomicMove.lenCall, publishMovableChecked, publishChecked, h.leak_full hB.fits hlt, Outcome.map,
        Option.bind_none]
  | publish f =>
    refine h.lenCall_of f hB.fits (h.publishChecked_room hB.fits · f) ?_ ?_
    · intro hlt
      simp only [AtomicMove.lenCall, publishChecked, h.leak_full hB.fits hlt]
    · intro n hlt hn
      cases hn
      exact iff_of_true rfl trivial
  | leakPublishIndex f =>
    refine h.lenCall_of f hB.fits (h.leakPublishIndex_room hB.fits · hfuel f) ?_ ?_
    · intro hlt
      simp only [AtomicMove.lenCall, leakPublishIndex, h.leak_full hB.fits hlt]
    · intro n hlt hn
      exact len_before_iff hB.fits hlt hn
  | consumeMovable => exact ⟨_, _, rfl, h.consumed hB, by simp⟩

/-- In every run, whatever the slot ids have come to. -/
theorem reported_len_iff (checks : Bool) (hB : RingSize B) (hfuel : 2 ≤ fuel) (buffer : Nat → α)
    (h : Machine.Steps (lenStep checks B fuel) (fun _ _ _ => True) (.withInitializer buffer) q) (c : LenCall α) :
    ∃ q' len, q.lenCall checks B fuel c = .returned (q', len) ∧
      ∀ n, len = some n → (n = q'.availableElementsCount ↔ LenMeets q c) := by
  have hsettled : Settled B q := by
    refine h.invariant (I := Settled B) ?_ ?_
    · intro q c q' hi hs _
      obtain ⟨q₁, len, hq₁, hi', -⟩ := hi.lenCall checks hB hfuel c
      unfold lenStep at hs
      rw [hq₁] at hs
      cases hs
      exact hi'
    · exact ⟨⟨rfl, rfl⟩, LawfulMoveContainer.init_wf (C := FullSyncMove) buffer⟩
  obtain ⟨q', len, hcall, -, hlen⟩ := hsettled.lenCall checks hB hfuel c
  exact ⟨q', len, hcall, hlen⟩

/-- A ring of two: one slot is published by index, the next one by `publish`. -/
theorem reported_len_iff_two : ∃ q : AtomicMove Nat, q.availableElementsCount = 1 ∧
    ∃ q' len, q.lenCall true 2 2 (.publish fun _ => 8) = .returned (q', len) ∧
      ∀ n, len = some n → n = q'.availableElementsCount := by
  have hsteps : Machine.Steps (lenStep true 2 2) (fun _ _ _ => True) (.withInitializer fun _ => 0)
      (published 2 (.withInitializer fun _ => 0) fun _ => 7) := .single ⟨.leakPublishIndex fun _ => 7, rfl, trivial⟩
  obtain ⟨q', len, hcall, hlen⟩ := reported_len_iff true ⟨1, by decide, rfl⟩ (le_refl 2) (fun _ => 0) hsteps
    (.publish fun _ => 8)
  exact ⟨_, rfl, q', len, hcall, fun n hn => (hlen n hn).mpr trivial⟩

/-- A ring of two with one element: the second one is published by index, and 1 reported. -/
theorem reported_len_before : ∃ q q' : AtomicMove Nat,
    Machine.Steps (lenStep true 2 2) (fun _ _ _ => True) (.withInitializer fun _ => 0) q ∧
    q.lenCall true 2 2 (.leakPublishIndex fun _ => 8) = .returned (q', some 1) ∧ q'.availableElementsCount = 2 :=
  ⟨published 2 (.withInitializer fun _ => 0) fun _ => 7, _, .single ⟨.publish fun _ => 7, rfl, trivial⟩, rfl, rfl⟩

end Mutiny.AtomicMove
