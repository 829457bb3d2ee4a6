import Mathlib.Logic.Function.Basic
import Mutiny.Lib.Ring

/-!
# The traits `MoveContainer`, `MovePublisher` and `MoveSubscriber`

What the channels use of their queues, one call at a time, and what they may rely on: a bounded FIFO
of `BUFFER_SIZE as u32` elements. The one exception is a queue of `2 ^ 31` elements, whose length is
negative as an `i32`: it reports itself empty (`consume_none`).
-/

namespace Mutiny

/-- `MoveContainer<SlotType>` with its super-traits; the const parameter `BUFFER_SIZE` is `B`. -/
class MoveContainer (C : Type → Type) where
  /-- `with_initializer(slot_initializer)` -/
  withInitializer {α : Type} (buffer : Nat → α) : C α
  /-- `publish_movable(item)`: the length after publishing, or the item back -/
  publishMovable {α : Type} (B : Nat) (q : C α) (item : α) : C α × Option UInt32 × Option α
  /-- `consume_movable()` -/
  consumeMovable {α : Type} (B : Nat) (q : C α) : C α × Option α

open MoveContainer

/-- Publish `item` into the queues of `ids`, one after the other; `none` if one of them is full. -/
def publishEach {C : Type → Type} [MoveContainer C] {ι α : Type} [DecidableEq ι] (B : Nat) (item : α) :
    List ι → (ι → C α) → Option (ι → C α)
  | [], d => some d
  | i :: ids, d =>
    match publishMovable B (d i) item with
    | (q, some _, _) => publishEach B item ids (Function.update d i q)
    | (_, none, _) => none

/-- A queue that behaves as the list `elems` of its elements. -/
class LawfulMoveContainer (C : Type → Type) extends MoveContainer C where
  WellFormed {α : Type} (B : Nat) (q : C α) : Prop
  elems {α : Type} (B : Nat) (q : C α) : List α
  init_wf {α : Type} {B : Nat} (buffer : Nat → α) : WellFormed B (withInitializer buffer : C α)
  init_elems {α : Type} {B : Nat} (buffer : Nat → α) : elems B (withInitializer buffer : C α) = []
  length_le {α : Type} {B : Nat} {q : C α} : WellFormed B q → (elems B q).length ≤ Ring.room B
  publish_room {α : Type} {B : Nat} {q : C α} {x : α} : Ring.PowerOfTwo B → WellFormed B q →
    (elems B q).length < Ring.room B → WellFormed B (publishMovable B q x).1 ∧
      elems B (publishMovable B q x).1 = elems B q ++ [x] ∧
      (publishMovable B q x).2 = (some (UInt32.ofNat ((elems B q).length + 1)), none)
  publish_full {α : Type} {B : Nat} {q : C α} {x : α} : WellFormed B q →
    ¬ (elems B q).length < Ring.room B → publishMovable B q x = (q, none, some x)
  consume_some {α : Type} {B : Nat} {q : C α} {x : α} {xs : List α} : WellFormed B q →
    elems B q = x :: xs → xs.length + 1 < 2 ^ 31 → WellFormed B (consumeMovable B q).1 ∧
      elems B (consumeMovable B q).1 = xs ∧ (consumeMovable B q).2 = some x
  consume_none {α : Type} {B : Nat} {q : C α} : WellFormed B q →
    elems B q = [] ∨ 2 ^ 31 ≤ (elems B q).length → consumeMovable B q = (q, none)

namespace LawfulMoveContainer
variable {C : Type → Type} [LawfulMoveContainer C] {α : Type} {B : Nat} {q : C α}

theorem publish_cases (hB : Ring.PowerOfTwo B) (h : WellFormed B q) (x : α) :
    (∃ q', publishMovable B q x = (q', some (UInt32.ofNat ((elems B q).length + 1)), none) ∧ WellFormed B q' ∧
      elems B q' = elems B q ++ [x] ∧ (elems B q).length < Ring.room B) ∨
    (publishMovable B q x = (q, none, some x) ∧ (elems B q).length = Ring.room B) := by
  by_cases hlt : (elems B q).length < Ring.room B
  · obtain ⟨h₁, h₂, h₃⟩ := publish_room (x := x) hB h hlt
    exact .inl ⟨_, by rw [← h₃], h₁, h₂, hlt⟩
  · have := length_le h
    exact .inr ⟨publish_full h hlt, by omega⟩

theorem foldl_publish (hB : Ring.PowerOfTwo B) (l : List α) (h : WellFormed B q)
    (hl : (elems B q).length + l.length ≤ Ring.room B) :
    WellFormed B (l.foldl (fun q x => (publishMovable B q x).1) q) ∧
      elems B (l.foldl (fun q x => (publishMovable B q x).1) q) = elems B q ++ l := by
  induction l generalizing q with
  | nil => exact ⟨h, by simp⟩
  | cons x l ih =>
    rw [List.length_cons] at hl
    obtain ⟨h₁, h₂, -⟩ := publish_room (x := x) hB h (by omega)
    obtain ⟨h₃, h₄⟩ := ih h₁ (by rw [h₂, List.length_append, List.length_singleton]; omega)
    exact ⟨h₃, by rw [List.foldl_cons, h₄, h₂, List.append_assoc]; rfl⟩

section PublishEach
variable {ι : Type} [DecidableEq ι] {ids : List ι} {d d' : ι → C α} {x : α}

theorem wellFormed_update {i : ι} (hwf : ∀ j, WellFormed B (d j)) (hq : WellFormed B q) (j : ι) :
    WellFormed B (Function.update d i q j) := by
  by_cases hj : j = i
  · subst hj; rw [Function.update_self]; exact hq
  · rw [Function.update_of_ne hj]; exact hwf j

/-- The queues of `ids`, each of them once, get one element more. -/
theorem publishEach_spec (hB : Ring.PowerOfTwo B) (hnd : ids.Nodup) (hwf : ∀ i, WellFormed B (d i))
    (h : publishEach B x ids d = some d') : (∀ i, WellFormed B (d' i)) ∧
      ∀ i, elems B (d' i) = if i ∈ ids then elems B (d i) ++ [x] else elems B (d i) := by
  induction ids generalizing d with
  | nil =>
    cases h
    exact ⟨hwf, fun _ => by simp⟩
  | cons i ids ih =>
    rw [List.nodup_cons] at hnd
    rw [publishEach] at h
    rcases publish_cases hB (hwf i) x with ⟨q, hq, hqwf, hqel, -⟩ | ⟨hq, -⟩
    · rw [hq] at h
      obtain ⟨h₁, h₂⟩ := ih hnd.2 (wellFormed_update hwf hqwf) h
      refine ⟨h₁, fun j => ?_⟩
      rw [h₂ j]
      by_cases hj : j = i
      · subst hj; simp [hnd.1, hqel]
      · simp [hj]
    · rw [hq] at h
      cases h

theorem exists_publishEach (hB : Ring.PowerOfTwo B) (hnd : ids.Nodup) (hwf : ∀ i, WellFormed B (d i))
    (hroom : ∀ i ∈ ids, (elems B (d i)).length < Ring.room B) (x : α) : ∃ d', publishEach B x ids d = some d' := by
  induction ids generalizing d with
  | nil => exact ⟨d, rfl⟩
  | cons i ids ih =>
    rw [List.nodup_cons] at hnd
    rw [publishEach]
    rcases publish_cases hB (hwf i) x with ⟨q, hq, hqwf, -⟩ | ⟨-, hfull⟩
    · rw [hq]
      refine ih hnd.2 (wellFormed_update hwf hqwf) fun j hj => ?_
      have hne : j ≠ i := by rintro rfl; exact hnd.1 hj
      rw [Function.update_of_ne hne]
      exact hroom j (List.mem_cons_of_mem _ hj)
    · have := hroom i List.mem_cons_self
      omega

end PublishEach

theorem consume_cases (h : WellFormed B q) :
    (∃ q' x xs, consumeMovable B q = (q', some x) ∧ elems B q = x :: xs ∧ WellFormed B q' ∧ elems B q' = xs) ∨
    (consumeMovable B q = (q, none) ∧ (elems B q = [] ∨ 2 ^ 31 ≤ (elems B q).length)) := by
  cases hq : elems B q with
  | nil => exact .inr ⟨consume_none h (.inl hq), .inl rfl⟩
  | cons x xs =>
    by_cases hlt : xs.length + 1 < 2 ^ 31
    · obtain ⟨h₁, h₂, h₃⟩ := consume_some h hq hlt
      exact .inl ⟨_, x, xs, by rw [← h₃], rfl, h₁, h₂⟩
    · have hle : 2 ^ 31 ≤ (elems B q).length := by rw [hq, List.length_cons]; omega
      exact .inr ⟨consume_none h (.inr hle), .inr (by rw [← hq]; exact hle)⟩

end LawfulMoveContainer
end Mutiny
