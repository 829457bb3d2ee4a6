import Mutiny.AtomicMoveSolo
import Mutiny.Lib.Calls

/-!
# The queues as a bounded FIFO

What the two `Move` queues are for: `Fifo` is a list of at most `BUFFER_SIZE` elements. Whatever calls
are made, one at a time, both queues answer as the list does, and dropping them takes out the elements
of the list (`queues_refine_fifo`). A full queue of `2 ^ 31` elements would already report itself empty.
-/

namespace Mutiny
open MoveContainer
open LawfulMoveContainer (elems WellFormed)

/-- The calls of a sequential user; the setter of `publish` overwrites the slot with `value`. -/
inductive QueueCall (α : Type)
  | publishMovable (item : α)
  | publish (value : α)
  | consumeMovable
  | availableElementsCount
  | peekRemaining

inductive QueueAnswer (α : Type)
  -- `publish_movable`: the length after publishing, and the item given back
  | published (len : Option Nat) (back : Option α)
  -- `publish`: the length reported, and the setter given back
  | set (len : Option Nat) (back : Option (α → α))
  | consumed (item : Option α)
  | count (n : Nat)
  | remaining (items : List α)

def Fifo.call {α : Type} (B : Nat) (l : List α) : QueueCall α → List α × QueueAnswer α
  | .publishMovable item =>
    if l.length < B then (l ++ [item], .published (some (l.length + 1)) none) else (l, .published none (some item))
  | .publish value =>
    if l.length < B then (l ++ [value], .set (some (l.length + 1)) none) else (l, .set none (some fun _ => value))
  | .consumeMovable => (l.tail, .consumed l.head?)
  | .availableElementsCount => (l, .count l.length)
  | .peekRemaining => (l, .remaining l)

/-- `drop()`: the items taken out until there are none, if that is reached in `fuel` rounds. -/
def dropItems {C : Type → Type} [MoveContainer C] {α : Type} (B : Nat) : Nat → C α → Option (List α)
  | 0, _ => none
  | fuel + 1, q =>
    match consumeMovable B q with
    | (q, some item) => (dropItems B fuel q).map (item :: ·)
    | (_, none) => some []

theorem dropItems_eq {C : Type → Type} [LawfulMoveContainer C] {α : Type} {B fuel : Nat} {q : C α} (hwf : WellFormed B q)
    (hlt : (elems B q).length < 2 ^ 31) (hfuel : (elems B q).length < fuel) : dropItems B fuel q = some (elems B q) := by
  induction fuel generalizing q with
  | zero => exact absurd hfuel (Nat.not_lt_zero _)
  | succ fuel ih =>
    rw [dropItems]
    cases hel : elems B q with
    | nil => rw [LawfulMoveContainer.consume_none hwf (.inl hel)]
    | cons x xs =>
      rw [hel, List.length_cons] at hlt hfuel
      obtain ⟨hwf', hel', hx⟩ := LawfulMoveContainer.consume_some hwf hel hlt
      rcases hc : consumeMovable B q with ⟨q', o⟩
      rw [hc] at hwf' hel' hx
      have hel'' : elems B q' = xs := hel'
      cases hx
      show (dropItems B fuel q').map (x :: ·) = _
      rw [ih hwf' (by rw [hel'']; omega) (by rw [hel'']; omega), hel'']
      rfl

namespace FullSyncMove
variable {α : Type} {B : Nat} {q : FullSyncMove α}

def call (B : Nat) (q : FullSyncMove α) : QueueCall α → FullSyncMove α × QueueAnswer α
  | .publishMovable item =>
    match q.publishMovable B item with
    | (q, len, back) => (q, .published (len.map UInt32.toNat) back)
  | .publish value =>
    match q.publish B fun _ => value with
    | (q, some len) => (q, .set (some len.toNat) none)
    | (q, none) => (q, .set none (some fun _ => value))
  | .consumeMovable =>
    match q.consumeMovable B with
    | (q, item) => (q, .consumed item)
  | .availableElementsCount => (q, .count q.availableElementsCount.toNat)
  | .peekRemaining => (q, .remaining (q.peekRemaining B))

theorem publish_room (hB : Ring.PowerOfTwo B) (h : q.len < Ring.room B) (x : α) :
    WellFormed B (q.publish B fun _ => x).1 ∧ (q.publish B fun _ => x).1.elems B = q.elems B ++ [x] ∧
      (q.publish B fun _ => x).2 = some (UInt32.ofNat (q.len + 1)) := by
  obtain ⟨h₁, -, h₂⟩ := publishLeaked_spec hB h fun _ => x
  simp only [publish, leakSlot_eq, if_pos h, ← Wrap.ofNat_succ]
  exact ⟨h₁, h₂, trivial⟩

theorem publish_full (h : ¬ q.len < Ring.room B) (setterFn : α → α) : q.publish B setterFn = (q, none) := by
  simp only [publish, leakSlot_eq, if_neg h]

def Holds (B : Nat) (q : FullSyncMove α) (l : List α) : Prop := q.WellFormed B ∧ q.elems B = l

theorem simulates (hB : Ring.PowerOfTwo B) (hle : B ≤ 2 ^ 30) :
    Calls.Simulates (call B : FullSyncMove α → _) (Fifo.call B) (Holds B) := by
  have hroom : Ring.room B = B := by
    unfold Ring.room
    exact Wrap.toNat_ofNat_of_lt (by omega)
  rintro q l c ⟨hwf, rfl⟩
  have hlen : q.len ≤ B := hroom ▸ hwf
  have hnat : ∀ n, n ≤ B → (UInt32.ofNat n).toNat = n := fun n hn => Wrap.toNat_ofNat_of_lt (by omega)
  cases c with
  | publishMovable x =>
    by_cases hlt : q.len < B
    · obtain ⟨h₁, h₂, h₃⟩ := publishMovable_room hB (hroom.symm ▸ hlt) x
      rcases hp : q.publishMovable B x with ⟨q', r⟩
      rw [hp] at h₁ h₂ h₃
      cases h₃
      simp only [call, hp, Fifo.call, length_elems, if_pos hlt, Option.map_some, hnat _ hlt]
      exact ⟨⟨h₁, h₂⟩, trivial⟩
    · simp only [call, publishMovable_full (hroom.symm ▸ hlt), Fifo.call, length_elems, if_neg hlt, Option.map_none]
      exact ⟨⟨hwf, rfl⟩, trivial⟩
  | publish x =>
    by_cases hlt : q.len < B
    · obtain ⟨h₁, h₂, h₃⟩ := publish_room hB (hroom.symm ▸ hlt) x
      rcases hp : q.publish B fun _ => x with ⟨q', r⟩
      rw [hp] at h₁ h₂ h₃
      cases h₃
      simp only [call, hp, Fifo.call, length_elems, if_pos hlt, hnat _ hlt]
      exact ⟨⟨h₁, h₂⟩, trivial⟩
    · simp only [call, publish_full (hroom.symm ▸ hlt), Fifo.call, length_elems, if_neg hlt]
      exact ⟨⟨hwf, rfl⟩, trivial⟩
  | consumeMovable =>
    cases hel : q.elems B with
    | nil =>
      simp only [call, consumeMovable_none (.inl hel), Fifo.call]
      exact ⟨⟨hwf, hel⟩, rfl⟩
    | cons x xs =>
      have hxs : q.len = xs.length + 1 := by rw [← length_elems (B := B), hel, List.length_cons]
      obtain ⟨h₁, h₂, h₃⟩ := consumeMovable_some hwf hel (by omega)
      simp only [call, Fifo.call, List.tail_cons, List.head?_cons, h₃]
      exact ⟨⟨h₁, h₂⟩, trivial⟩
  | availableElementsCount =>
    refine ⟨⟨hwf, rfl⟩, ?_⟩
    show QueueAnswer.count q.len = .count (q.elems B).length
    rw [length_elems]
  | peekRemaining =>
    refine ⟨⟨hwf, rfl⟩, ?_⟩
    show QueueAnswer.remaining (q.peekRemaining B) = .remaining (q.elems B)
    rw [peekRemaining_eq hB hwf]

theorem call_of_full (h : ¬ q.len < Ring.room B) (x : α) :
    (q.call B (.publishMovable x)).1 = q ∧ (q.call B (.publish x)).1 = q := by
  simp only [call, publishMovable_full h, publish_full h]
  exact ⟨trivial, trivial⟩

end FullSyncMove

namespace AtomicMove
variable {α : Type} {B : Nat} {q : AtomicMove α}

def call (B : Nat) (q : AtomicMove α) : QueueCall α → AtomicMove α × QueueAnswer α
  | .publishMovable item =>
    match q.publishMovable B item with
    | (q, len, back) => (q, .published (len.map UInt32.toNat) back)
  | .publish value =>
    match q.publish B fun _ => value with
    | (q, some len) => (q, .set (some len.toNat) none)
    | (q, none) => (q, .set none (some fun _ => value))
  | .consumeMovable =>
    match q.consumeMovable B with
    | (q, item) => (q, .consumed item)
  | .availableElementsCount => (q, .count q.availableElementsCount.toNat)
  | .peekRemaining => (q, .remaining (q.peekRemaining B))

theorem call_ofSync (q : FullSyncMove α) (c : QueueCall α) :
    (ofSync q).call B c = (ofSync (q.call B c).1, (q.call B c).2) := by
  cases c with
  | publishMovable x => simp only [call, publishMovable_ofSync, FullSyncMove.call]
  | publish x =>
    rcases hp : q.publish B fun _ => x with ⟨q', len⟩
    simp only [call, publish_ofSync, FullSyncMove.call, hp]
    cases len <;> rfl
  | consumeMovable => simp only [call, consumeMovable_ofSync, FullSyncMove.call]
  | availableElementsCount | peekRemaining => rfl

theorem simulates_sync : Calls.Simulates (call B : AtomicMove α → _) (FullSyncMove.call B) fun q q' => q = ofSync q' := by
  rintro q q' c rfl
  rw [call_ofSync]
  exact ⟨rfl, rfl⟩

end AtomicMove

/-- Both queues refine the bounded FIFO, and their `drop()` takes out what the FIFO holds. -/
theorem queues_refine_fifo {α : Type} {B : Nat} (hB : Ring.PowerOfTwo B) (hle : B ≤ 2 ^ 30) (buffer : Nat → α)
    (calls : List (QueueCall α)) :
    let fifo := Calls.run (Fifo.call B) [] calls
    let fullSync := Calls.run (FullSyncMove.call B) (.withInitializer buffer) calls
    let atomic := Calls.run (AtomicMove.call B) (.withInitializer buffer) calls
    fullSync.2 = fifo.2 ∧ atomic.2 = fifo.2 ∧
    (¬ fifo.1.length < B → ∀ x,
      (fullSync.1.call B (.publishMovable x)).1 = fullSync.1 ∧ (fullSync.1.call B (.publish x)).1 = fullSync.1 ∧
      (atomic.1.call B (.publishMovable x)).1 = atomic.1 ∧ (atomic.1.call B (.publish x)).1 = atomic.1) ∧
    ∀ fuel, fifo.1.length < fuel →
      dropItems B fuel fullSync.1 = some fifo.1 ∧ dropItems B fuel atomic.1 = some fifo.1 := by
  intro fifo fullSync atomic
  have hroom : Ring.room B = B := by
    unfold Ring.room
    exact Wrap.toNat_ofNat_of_lt (by omega)
  have hinit : FullSyncMove.Holds B (.withInitializer buffer) [] :=
    ⟨LawfulMoveContainer.init_wf (C := FullSyncMove) buffer, LawfulMoveContainer.init_elems (C := FullSyncMove) buffer⟩
  obtain ⟨⟨hwf, hel⟩, hans⟩ := (FullSyncMove.simulates hB hle).run hinit calls
  have hquiet : AtomicMove.withInitializer buffer = .ofSync (.withInitializer buffer) := rfl
  obtain ⟨hsync, hans'⟩ := (AtomicMove.simulates_sync (B := B)).run hquiet calls
  have hsync' : atomic.1 = .ofSync fullSync.1 := hsync
  have hlen : fullSync.1.len = fifo.1.length := by rw [← FullSyncMove.length_elems (B := B), hel]
  have hlen' : fifo.1.length ≤ B := by rw [← hlen]; exact hroom ▸ hwf
  refine ⟨hans, hans'.trans hans, fun hfull x => ?_, fun fuel hfuel => ⟨?_, ?_⟩⟩
  · obtain ⟨h₁, h₂⟩ := FullSyncMove.call_of_full (B := B) (q := fullSync.1) (by rw [hlen, hroom]; exact hfull) x
    refine ⟨h₁, h₂, ?_, ?_⟩
    · rw [hsync', AtomicMove.call_ofSync, h₁]
    · rw [hsync', AtomicMove.call_ofSync, h₂]
  · have hel' : elems B fullSync.1 = fifo.1 := hel
    rw [dropItems_eq hwf (by rw [hel']; omega) (by rw [hel']; exact hfuel), hel']
  · have hel' : elems B atomic.1 = fifo.1 := by rw [hsync']; exact hel
    have hwf' : WellFormed B atomic.1 := by rw [hsync']; exact ⟨⟨rfl, rfl⟩, hwf⟩
    rw [dropItems_eq hwf' (by rw [hel']; omega) (by rw [hel']; exact hfuel), hel']

/-- A buffer of two: the third item comes back, and the last one is left to `drop()`. -/
theorem queues_refine_fifo_full :
    (Calls.run (FullSyncMove.call 2) (.withInitializer fun _ => 0)
      [.publishMovable 7, .publish 8, .publishMovable 9, .consumeMovable, .peekRemaining]).2 =
      [.published (some 1) none, .set (some 2) none, .published none (some 9), .consumed (some 7), .remaining [8]] ∧
    dropItems 2 2 (Calls.run (AtomicMove.call 2) (.withInitializer fun _ => 0)
      [.publishMovable 7, .publish 8, .publishMovable 9, .consumeMovable, .peekRemaining]).1 = some [8] := by
  obtain ⟨h₁, -, -, h₂⟩ := queues_refine_fifo (B := 2) ⟨1, rfl⟩ (by decide) (fun _ => 0)
    [.publishMovable 7, .publish 8, .publishMovable 9, .consumeMovable, .peekRemaining]
  exact ⟨h₁, (h₂ 2 (by decide)).2⟩

end Mutiny
