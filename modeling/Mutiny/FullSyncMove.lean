import Mutiny.MoveContainer

/-!
# `FullSyncMove`

The queue of `ogre_queues/full_sync/full_sync_move.rs`. Every operation is one critical section of
`concurrency_guard`, so an operation is one function on the state; the guard itself, which is free
between two operations, is left out. The `report_full_fn` of all callers answers `false`.
-/

namespace Mutiny

structure FullSyncMove (α : Type) where
  head : UInt32
  tail : UInt32
  buffer : Nat → α

namespace FullSyncMove
variable {α : Type} {B : Nat} {q : FullSyncMove α}

def withInitializer (buffer : Nat → α) : FullSyncMove α := ⟨0, 0, buffer⟩

def availableElementsCount (q : FullSyncMove α) : UInt32 := q.tail - q.head

/-- `leak_slot_internal(|| false)`: the slot id and the length before. -/
def leakSlot (B : Nat) (q : FullSyncMove α) : Option (UInt32 × UInt32) :=
  let lenBefore := q.tail - q.head
  if lenBefore < UInt32.ofNat B then some (q.tail, lenBefore) else none

/-- The slot is filled and `publish_leaked_internal()` makes it available. -/
def publishLeaked (B : Nat) (q : FullSyncMove α) (slotId : UInt32) (setterFn : α → α) : FullSyncMove α :=
  { q with buffer := Function.update q.buffer (slotId.toNat % B) (setterFn (q.buffer (slotId.toNat % B))),
           tail := q.tail + 1 }

def nonZeroU32 (n : UInt32) : Option UInt32 := if n = 0 then none else some n

def publishMovable (B : Nat) (q : FullSyncMove α) (item : α) : FullSyncMove α × Option UInt32 × Option α :=
  match q.leakSlot B with
  | some (slotId, lenBefore) => (q.publishLeaked B slotId fun _ => item, nonZeroU32 (lenBefore + 1), none)
  | none => (q, none, some item)

/-- `publish(setter_fn, || false, report_len_after_enqueueing_fn)`: the length reported, if any. -/
def publish (B : Nat) (q : FullSyncMove α) (setterFn : α → α) : FullSyncMove α × Option UInt32 :=
  match q.leakSlot B with
  | some (slotId, lenBefore) => (q.publishLeaked B slotId setterFn, some (lenBefore + 1))
  | none => (q, none)

def consumeMovable (B : Nat) (q : FullSyncMove α) : FullSyncMove α × Option α :=
  let lenBefore := q.availableElementsCount.toInt32
  if 0 < lenBefore then ({ q with head := q.head + 1 }, some (q.buffer (q.head.toNat % B))) else (q, none)

def peekRemaining (B : Nat) (q : FullSyncMove α) : List α :=
  let headIndex := q.head.toNat % B
  let tailIndex := q.tail.toNat % B
  if q.head = q.tail then []
  else if headIndex < tailIndex then (List.range (tailIndex - headIndex)).map fun i => q.buffer (headIndex + i)
  else ((List.range (B - headIndex)).map fun i => q.buffer (headIndex + i)) ++ (List.range tailIndex).map q.buffer

def len (q : FullSyncMove α) : Nat := q.availableElementsCount.toNat

def WellFormed (B : Nat) (q : FullSyncMove α) : Prop := q.len ≤ Ring.room B

/-- The elements, the next one to be consumed first. -/
def elems (B : Nat) (q : FullSyncMove α) : List α := Ring.view B q.buffer q.head q.len

@[simp] theorem length_elems : (q.elems B).length = q.len := Ring.length_view ..

theorem tail_eq (q : FullSyncMove α) : q.tail = q.head + UInt32.ofNat q.len := by
  unfold len availableElementsCount
  rw [UInt32.ofNat_toNat, UInt32.add_comm, UInt32.sub_add_cancel]

theorem cell_len (q : FullSyncMove α) : Ring.cell B q.head q.len = q.tail.toNat % B := by
  rw [tail_eq]; rfl

theorem len_ne_zero_iff (q : FullSyncMove α) : q.len ≠ 0 ↔ q.head ≠ q.tail := by
  unfold len availableElementsCount
  rw [Ne, Ne, ← UInt32.toNat_inj, UInt32.toNat_sub]
  have := q.head.toNat_lt
  have := q.tail.toNat_lt
  omega

theorem len_succ_tail (h : q.len < 2 ^ 31) (buffer : Nat → α) :
    len { q with buffer := buffer, tail := q.tail + 1 } = q.len + 1 := by
  unfold len availableElementsCount at *
  simp only [UInt32.toNat_sub, UInt32.toNat_add, UInt32.toNat_one] at *
  have := q.head.toNat_lt
  omega

theorem len_succ_head (h : 0 < q.len) : len { q with head := q.head + 1 } + 1 = q.len := by
  unfold len availableElementsCount at *
  simp only [UInt32.toNat_sub, UInt32.toNat_add, UInt32.toNat_one] at *
  have := q.head.toNat_lt
  have := q.tail.toNat_lt
  omega

theorem leakSlot_eq (B : Nat) (q : FullSyncMove α) :
    q.leakSlot B = if q.len < Ring.room B then some (q.tail, UInt32.ofNat q.len) else none := by
  unfold leakSlot len availableElementsCount
  simp only [UInt32.lt_iff_toNat_lt, UInt32.ofNat_toNat]
  rfl

theorem publishLeaked_spec (hB : Ring.PowerOfTwo B) (h : q.len < Ring.room B) (setterFn : α → α) :
    WellFormed B (q.publishLeaked B q.tail setterFn) ∧
      (q.publishLeaked B q.tail setterFn).len = q.len + 1 ∧
      (q.publishLeaked B q.tail setterFn).elems B =
        q.elems B ++ [setterFn (q.buffer (q.tail.toNat % B))] := by
  have hle := hB.room_le
  have hlen : (q.publishLeaked B q.tail setterFn).len = q.len + 1 := len_succ_tail (by omega) _
  refine ⟨by unfold WellFormed; omega, hlen, ?_⟩
  unfold elems
  rw [hlen]
  unfold publishLeaked
  rw [← cell_len]
  exact Ring.view_push (hB.dvd_of_lt_room h) q.buffer q.head (Nat.lt_of_lt_of_le h hB.room_le_self) _

theorem publishMovable_room (hB : Ring.PowerOfTwo B) (h : q.len < Ring.room B) (x : α) :
    WellFormed B (q.publishMovable B x).1 ∧ (q.publishMovable B x).1.elems B = q.elems B ++ [x] ∧
      (q.publishMovable B x).2 = (some (UInt32.ofNat (q.len + 1)), none) := by
  obtain ⟨h₁, -, h₂⟩ := publishLeaked_spec hB h fun _ => x
  have hne : UInt32.ofNat (q.len + 1) ≠ 0 := by
    intro h0
    have := congrArg UInt32.toNat h0
    rw [Wrap.toNat_ofNat_of_lt (by have := hB.room_le; omega)] at this
    simp at this
  simp only [publishMovable, leakSlot_eq, if_pos h, ← Wrap.ofNat_succ, nonZeroU32, if_neg hne]
  exact ⟨h₁, h₂, trivial⟩

theorem publishMovable_full (h : ¬ q.len < Ring.room B) (x : α) : q.publishMovable B x = (q, none, some x) := by
  simp only [publishMovable, leakSlot_eq, if_neg h]

theorem zero_lt_count_iff (q : FullSyncMove α) : 0 < q.availableElementsCount.toInt32 ↔ 0 < q.len ∧ q.len < 2 ^ 31 := by
  rw [Int32.lt_iff_toInt_lt, Wrap.toInt_toInt32, Int32.toInt_zero]
  have := q.availableElementsCount.toNat_lt
  unfold len
  split <;> omega

theorem consumeMovable_some {x : α} {xs : List α} (h : WellFormed B q) (hq : q.elems B = x :: xs)
    (hlt : xs.length + 1 < 2 ^ 31) : WellFormed B (q.consumeMovable B).1 ∧
      (q.consumeMovable B).1.elems B = xs ∧ (q.consumeMovable B).2 = some x := by
  have hlen : q.len = xs.length + 1 := by rw [← length_elems (B := B), hq, List.length_cons]
  have hlen' : len { q with head := q.head + 1 } = xs.length := by
    have := len_succ_head (q := q) (by omega)
    omega
  simp only [consumeMovable, (zero_lt_count_iff q).mpr ⟨by omega, by omega⟩, if_true]
  unfold elems at hq ⊢
  rw [hlen, Ring.view_succ_cons] at hq
  rw [hlen']
  refine ⟨?_, (List.cons.inj hq).2, congrArg some (List.cons.inj hq).1⟩
  unfold WellFormed at *
  omega

theorem consumeMovable_none (hq : q.elems B = [] ∨ 2 ^ 31 ≤ (q.elems B).length) :
    q.consumeMovable B = (q, none) := by
  have hlen : q.len = 0 ∨ 2 ^ 31 ≤ q.len := by
    rw [length_elems, ← List.length_eq_zero_iff, length_elems] at hq
    exact hq
  have : ¬ 0 < q.availableElementsCount.toInt32 := by
    rw [zero_lt_count_iff]
    omega
  simp only [consumeMovable, this, if_false]

/-- Short of `2 ^ 31` elements, only an empty queue yields nothing. -/
theorem consumeMovable_len (hB : Ring.PowerOfTwo B) (hne : B ≠ 2 ^ 31) (h : WellFormed B q) :
    WellFormed B (q.consumeMovable B).1 ∧ (q.len = 0 → (q.consumeMovable B).1.len = 0) ∧
      ((q.consumeMovable B).2 = none → (q.consumeMovable B).1.len = 0) := by
  have hle : q.len ≤ Ring.room B := h
  have hlt : q.len < 2 ^ 31 := by rcases hB.room_cases with ⟨h₁, h₂, -⟩ | h₁ <;> omega
  cases hel : q.elems B with
  | nil =>
    have hlen : q.len = 0 := by rw [← length_elems (B := B), hel]; rfl
    rw [consumeMovable_none (.inl hel)]
    exact ⟨h, fun _ => hlen, fun _ => hlen⟩
  | cons x xs =>
    have hlen : q.len = xs.length + 1 := by rw [← length_elems (B := B), hel, List.length_cons]
    obtain ⟨h₁, -, h₂⟩ := consumeMovable_some h hel (by omega)
    exact ⟨h₁, fun h0 => by omega, fun hn => by rw [h₂] at hn; cases hn⟩

/-- The slices handed out by `peek_remaining` are the elements in order. -/
theorem peekRemaining_eq (hB : Ring.PowerOfTwo B) (h : WellFormed B q) : q.peekRemaining B = q.elems B := by
  have hlen : q.len = 0 ↔ q.head = q.tail := not_iff_not.mp q.len_ne_zero_iff
  unfold peekRemaining elems
  split
  case isTrue heq => rw [hlen.mpr heq]; rfl
  case isFalse hne =>
    have hpos : 0 < q.len := Nat.pos_of_ne_zero fun h0 => hne (hlen.mp h0)
    have hdvd := hB.dvd_of_lt_room (Nat.lt_of_lt_of_le hpos h)
    have hle : q.len ≤ B := Nat.le_trans h hB.room_le_self
    have htail : q.tail.toNat % B = (q.head.toNat % B + q.len) % B := by
      rw [tail_eq, UInt32.toNat_add, Nat.mod_mod_of_dvd _ hdvd, Nat.add_mod, Wrap.toNat_ofNat_mod hdvd]
      simp
    have hlt := Nat.mod_lt q.head.toNat hB.pos
    rw [Ring.view_slices hdvd q.buffer q.head hle]
    by_cases hsum : q.head.toNat % B + q.len < B
    · rw [Nat.mod_eq_of_lt hsum] at htail
      rw [if_pos (by omega), if_pos (by omega), htail, Nat.add_sub_cancel_left]
    · have hwrap : (q.head.toNat % B + q.len) % B = q.head.toNat % B + q.len - B := by
        rw [Nat.mod_eq_sub_mod (by omega), Nat.mod_eq_of_lt (by omega)]
      rw [hwrap] at htail
      rw [if_neg (by omega), htail]
      split
      case isTrue hB' =>
        have : B - q.head.toNat % B = q.len := by omega
        rw [this, show q.head.toNat % B + q.len - B = 0 by omega]
        simp
      case isFalse => rw [show q.len - (B - q.head.toNat % B) = q.head.toNat % B + q.len - B by omega]

instance : LawfulMoveContainer FullSyncMove where
  withInitializer := withInitializer
  publishMovable B q := q.publishMovable B
  consumeMovable B q := q.consumeMovable B
  WellFormed := WellFormed
  elems := elems
  init_wf buffer := by simp [WellFormed, withInitializer, len, availableElementsCount]
  init_elems buffer := by simp [elems, withInitializer, len, availableElementsCount, Ring.view]
  length_le h := by rw [length_elems]; exact h
  publish_room hB _ h := by
    rw [length_elems] at h ⊢
    exact publishMovable_room hB h _
  publish_full _ h := publishMovable_full (by rwa [length_elems] at h) _
  consume_some := consumeMovable_some
  consume_none _ h := consumeMovable_none h

end FullSyncMove
end Mutiny
