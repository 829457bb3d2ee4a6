import Mutiny.AbandonedSend
import Mutiny.Lib.Calls

/-!
# Giving up a leaked slot of `FullSyncMove`

A slot got from `leak_slot_internal` is filled and published, or given up with `unleak_internal`. The queue should
then be the bounded FIFO, for which giving up is no operation at all. It is not: `leak_slot_internal` leaves `tail`
alone, `unleak_internal` moves it back by one.
-/

namespace Mutiny

/-- The calls of a sequential user of the leaking functions. -/
inductive LeakCall (α : Type)
  -- `leak_slot_internal(|| false)`, a write to the slot, `publish_leaked_internal()`
  | publish (item : α)
  -- `leak_slot_internal(|| false)`, `unleak_internal()`
  | giveUp
  -- `consume_movable()`
  | consume
  deriving DecidableEq

inductive LeakAnswer (α : Type)
  -- no slot was leaked
  | full
  | published (item : α)
  | givenUp
  | consumed (item : Option α)
  deriving DecidableEq

def LeakAnswer.item {α : Type} : LeakAnswer α → Option α
  | .published item => some item
  | _ => none

def LeakAnswer.taken {α : Type} : LeakAnswer α → Option α
  | .consumed item => item
  | _ => none

/-- The bounded FIFO; all of its calls return. -/
def Fifo.leakCall {α : Type} (B : Nat) (l : List α) : LeakCall α → List α × Option (LeakAnswer α)
  | .publish item => if l.length < B then (l ++ [item], some (.published item)) else (l, some .full)
  | .giveUp => if l.length < B then (l, some .givenUp) else (l, some .full)
  | .consume => (l.tail, some (.consumed l.head?))

namespace GuardedMove
variable {α : Type} {B : Nat} {q : GuardedMove α}

def withInitializer (buffer : Nat → α) : GuardedMove α := ⟨.withInitializer buffer, false⟩

def unleakInternal (q : GuardedMove α) : GuardedMove α :=
  ⟨{ q.queue with tail := q.queue.tail - 1 }, false⟩

def fill (B : Nat) (q : GuardedMove α) (slotId : UInt32) (item : α) : GuardedMove α :=
  { q with queue.buffer := Function.update q.queue.buffer (slotId.toNat % B) item }

/-- `consume_movable()`, which spins while the lock is held and unlocks it whatever it found. -/
def consumeMovable (B : Nat) (q : GuardedMove α) : Option (GuardedMove α × Option α) :=
  if q.concurrencyGuard then none
  else some (⟨(q.queue.consumeMovable B).1, false⟩, (q.queue.consumeMovable B).2)

/-- The state after the call and its answer, none if it spins for the lock. -/
def leakCall (B : Nat) (q : GuardedMove α) : LeakCall α → GuardedMove α × Option (LeakAnswer α)
  | .publish item =>
    match q.leakSlotInternal B with
    | some (q', some slotId) => ((q'.fill B slotId item).publishLeakedInternal, some (.published item))
    | some (q', none) => (q', some .full)
    | none => (q, none)
  | .giveUp =>
    match q.leakSlotInternal B with
    | some (q', some _) => (q'.unleakInternal, some .givenUp)
    | some (q', none) => (q', some .full)
    | none => (q, none)
  | .consume =>
    match q.consumeMovable B with
    | some (q', item) => (q', some (.consumed item))
    | none => (q, none)

/-- The state after the calls and their answers. -/
def afterCalls (B : Nat) (buffer : Nat → α) (calls : List (LeakCall α)) :
    GuardedMove α × List (Option (LeakAnswer α)) :=
  Calls.run (leakCall B) (withInitializer buffer) calls

/-- After the calls the queue is the FIFO: it has answered alike and holds the same elements, its lock is free, what
was published is what was consumed and what is still there, in order, and a slot given up has changed nothing. -/
structure AsFifo (B : Nat) (buffer : Nat → α) (calls : List (LeakCall α)) : Prop where
  answers : (afterCalls B buffer calls).2 = (Calls.run (Fifo.leakCall B) [] calls).2
  elems : (afterCalls B buffer calls).1.queue.elems B = (Calls.run (Fifo.leakCall B) [] calls).1
  unlocked : (afterCalls B buffer calls).1.concurrencyGuard = false
  once : (afterCalls B buffer calls).2.filterMap (·.bind LeakAnswer.item) =
    (afterCalls B buffer calls).2.filterMap (·.bind LeakAnswer.taken) ++ (afterCalls B buffer calls).1.queue.elems B
  undone : ∀ before, calls = before ++ [.giveUp] →
    (afterCalls B buffer calls).1.queue.head = (afterCalls B buffer before).1.queue.head ∧
      (afterCalls B buffer calls).1.queue.tail = (afterCalls B buffer before).1.queue.tail ∧
      (afterCalls B buffer calls).1.queue.elems B = (afterCalls B buffer before).1.queue.elems B

/-- When a call does what the FIFO does: there is no slot to give up, there are fewer than `2 ^ 31` elements to
consume from, and `BUFFER_SIZE` fits the counters. -/
def Meets (B : Nat) (q : GuardedMove α) : LeakCall α → Prop
  | .publish _ => B < 2 ^ 32
  | .giveUp => B < 2 ^ 32 ∧ q.queue.leakSlot B = none
  | .consume => q.queue.len < 2 ^ 31

/-! ### One call -/

section Call
variable {l : List α} {c : LeakCall α}

theorem leakSlotInternal_room (hg : q.concurrencyGuard = false) (h : q.queue.len < Ring.room B) :
    q.leakSlotInternal B = some ({ q with concurrencyGuard := true }, some q.queue.tail) := by
  simp [leakSlotInternal, hg, FullSyncMove.leakSlot_eq, h]

theorem leakSlotInternal_full (hg : q.concurrencyGuard = false) (h : ¬ q.queue.len < Ring.room B) :
    q.leakSlotInternal B = some (q, none) := by
  obtain ⟨queue, guard⟩ := q
  cases hg
  simp [leakSlotInternal, FullSyncMove.leakSlot_eq, h]

/-- The queue is unlocked and has the elements of the list. -/
structure Holds (B : Nat) (q : GuardedMove α) (l : List α) : Prop where
  unlocked : q.concurrencyGuard = false
  wf : q.queue.WellFormed B
  elems : q.queue.elems B = l

theorem Holds.len (h : Holds B q l) : q.queue.len = l.length := by
  rw [← FullSyncMove.length_elems (B := B), h.elems]

/-- A call that meets the condition keeps the queue and the list together and is answered alike. -/
theorem Holds.call (hB : Ring.PowerOfTwo B) (h : Holds B q l) (hc : Meets B q c) :
    Holds B (q.leakCall B c).1 (Fifo.leakCall B l c).1 ∧ (q.leakCall B c).2 = (Fifo.leakCall B l c).2 := by
  have hlen := h.len
  cases c with
  | publish x =>
    have hroom : Ring.room B = B := Wrap.toNat_ofNat_of_lt hc
    by_cases hlt : l.length < B
    · have hlt' : q.queue.len < Ring.room B := by rw [hroom, hlen]; exact hlt
      obtain ⟨h₁, -, h₂⟩ := FullSyncMove.publishLeaked_spec hB hlt' fun _ => x
      simp only [leakCall, leakSlotInternal_room h.unlocked hlt', Fifo.leakCall, if_pos hlt]
      exact ⟨⟨rfl, h₁, by rw [← h.elems]; exact h₂⟩, trivial⟩
    · have hlt' : ¬ q.queue.len < Ring.room B := by rw [hroom, hlen]; exact hlt
      simp only [leakCall, leakSlotInternal_full h.unlocked hlt', Fifo.leakCall, if_neg hlt]
      exact ⟨h, trivial⟩
  | giveUp =>
    have hroom : Ring.room B = B := Wrap.toNat_ofNat_of_lt hc.1
    have hlt' : ¬ q.queue.len < Ring.room B := by
      intro hlt
      have := hc.2
      rw [FullSyncMove.leakSlot_eq, if_pos hlt] at this
      cases this
    have hlt : ¬ l.length < B := by rwa [hroom, hlen] at hlt'
    simp only [leakCall, leakSlotInternal_full h.unlocked hlt', Fifo.leakCall, if_neg hlt]
    exact ⟨h, trivial⟩
  | consume =>
    have hlt : q.queue.len < 2 ^ 31 := hc
    have hg := h.unlocked
    cases l with
    | nil =>
      simp only [leakCall, consumeMovable, hg, FullSyncMove.consumeMovable_none (.inl h.elems), Fifo.leakCall]
      exact ⟨⟨rfl, h.wf, h.elems⟩, rfl⟩
    | cons x xs =>
      rw [hlen, List.length_cons] at hlt
      obtain ⟨h₁, h₂, h₃⟩ := FullSyncMove.consumeMovable_some h.wf h.elems hlt
      simp only [leakCall, consumeMovable, hg, h₃, Fifo.leakCall]
      exact ⟨⟨rfl, h₁, h₂⟩, rfl⟩

theorem leakCall_giveUp_full (hg : q.concurrencyGuard = false) (h : q.queue.leakSlot B = none) :
    (q.leakCall B .giveUp).1 = q := by
  have hlt : ¬ q.queue.len < Ring.room B := by
    intro hlt
    rw [FullSyncMove.leakSlot_eq, if_pos hlt] at h
    cases h
  simp only [leakCall, leakSlotInternal_full hg hlt]

/-- Otherwise the two answer differently, or the slot given up has moved `tail`. -/
theorem differs (hB : Ring.PowerOfTwo B) (hg : q.concurrencyGuard = false) (hel : q.queue.elems B = l)
    (hc : ¬ Meets B q c) : (q.leakCall B c).2 ≠ (Fifo.leakCall B l c).2 ∨
      c = .giveUp ∧ (q.leakCall B c).1.queue.tail ≠ q.queue.tail := by
  have hlen : q.queue.len = l.length := by rw [← FullSyncMove.length_elems (B := B), hel]
  have hlt32 : l.length < 2 ^ 32 := by rw [← hlen]; exact UInt32.toNat_lt _
  have hbig : ¬ B < 2 ^ 32 → l.length < B ∧ ¬ q.queue.len < Ring.room B := by
    intro hB'
    have h₀ : Ring.room B = 0 := by
      rcases hB.room_cases with ⟨-, hle, -⟩ | h₀
      · omega
      · exact h₀
    exact ⟨by omega, by omega⟩
  cases c with
  | publish x =>
    obtain ⟨h₁, h₂⟩ := hbig hc
    left
    simp only [leakCall, leakSlotInternal_full hg h₂, Fifo.leakCall, if_pos h₁]
    nofun
  | giveUp =>
    by_cases hlt : q.queue.len < Ring.room B
    · right
      simp only [leakCall, leakSlotInternal_room hg hlt, unleakInternal]
      refine ⟨trivial, fun he => ?_⟩
      have := UInt32.sub_eq_iff_eq_add.mp he
      have := congrArg UInt32.toNat this
      rw [UInt32.toNat_add, UInt32.toNat_one] at this
      have := q.queue.tail.toNat_lt
      omega
    · have hB' : ¬ B < 2 ^ 32 := by
        intro hB'
        exact hc ⟨hB', by rw [FullSyncMove.leakSlot_eq, if_neg hlt]⟩
      obtain ⟨h₁, h₂⟩ := hbig hB'
      left
      simp only [leakCall, leakSlotInternal_full hg h₂, Fifo.leakCall, if_pos h₁]
      nofun
  | consume =>
    have hle : 2 ^ 31 ≤ l.length := by
      rw [← hlen]
      exact Nat.le_of_not_lt hc
    left
    simp only [leakCall, consumeMovable, hg, FullSyncMove.consumeMovable_none (.inr (by rw [hel]; exact hle)),
      Fifo.leakCall]
    cases l with
    | nil => rw [List.length_nil] at hle; omega
    | cons x xs => simp

end Call

/-! ### Every run -/

section Run
variable {buffer : Nat → α} {calls : List (LeakCall α)} {c : LeakCall α}

theorem afterCalls_concat : afterCalls B buffer (calls ++ [c]) =
    (((afterCalls B buffer calls).1.leakCall B c).1,
      (afterCalls B buffer calls).2 ++ [((afterCalls B buffer calls).1.leakCall B c).2]) :=
  Calls.run_concat ..

theorem once_of_fifo (calls : List (LeakCall α)) :
    (Calls.run (Fifo.leakCall B) [] calls).2.filterMap (·.bind LeakAnswer.item) =
      (Calls.run (Fifo.leakCall B) [] calls).2.filterMap (·.bind LeakAnswer.taken) ++
        (Calls.run (Fifo.leakCall B) [] calls).1 := by
  induction calls using List.reverseRecOn with
  | nil => rfl
  | append_singleton calls c ih =>
    simp only [Calls.run_concat, List.filterMap_append]
    rw [ih]
    cases c with
    | publish x =>
      simp only [Fifo.leakCall]
      split <;> simp [List.filterMap_cons, LeakAnswer.item, LeakAnswer.taken]
    | giveUp =>
      simp only [Fifo.leakCall]
      split <;> simp [List.filterMap_cons, LeakAnswer.item, LeakAnswer.taken]
    | consume =>
      cases hl : (Calls.run (Fifo.leakCall B) [] calls).1 <;>
        simp [Fifo.leakCall, List.filterMap_cons, LeakAnswer.item, LeakAnswer.taken]

theorem holds_of_meets (hB : Ring.PowerOfTwo B) (n : Nat) (hn : n ≤ calls.length)
    (h : ∀ i (hi : i < calls.length), Meets B (afterCalls B buffer (calls.take i)).1 calls[i]) :
    Holds B (afterCalls B buffer (calls.take n)).1 (Calls.run (Fifo.leakCall B) [] (calls.take n)).1 ∧
      (afterCalls B buffer (calls.take n)).2 = (Calls.run (Fifo.leakCall B) [] (calls.take n)).2 := by
  induction n with
  | zero => exact ⟨⟨rfl, LawfulMoveContainer.init_wf (C := FullSyncMove) buffer,
      LawfulMoveContainer.init_elems (C := FullSyncMove) buffer⟩, rfl⟩
  | succ n ih =>
    obtain ⟨hh, ha⟩ := ih (by omega)
    obtain ⟨hh', ha'⟩ := hh.call hB (h n hn)
    rw [← List.take_append_getElem hn, afterCalls_concat, Calls.run_concat, ha, ha']
    exact ⟨hh', rfl⟩

/-- Giving up leaked slots goes unnoticed in exactly the runs that never give one up. -/
theorem asFifo_iff (hB : Ring.PowerOfTwo B) (buffer : Nat → α) (calls : List (LeakCall α)) :
    (∀ n ≤ calls.length, AsFifo B buffer (calls.take n)) ↔
      ∀ n (hn : n < calls.length), Meets B (afterCalls B buffer (calls.take n)).1 calls[n] := by
  constructor
  · intro h n hn
    by_contra hc
    have h₀ := h n (by omega)
    have h₁ := h (n + 1) hn
    rw [← List.take_append_getElem hn] at h₁
    rcases differs hB h₀.unlocked h₀.elems hc with hne | ⟨hc', hne⟩
    · have ha := h₁.answers
      rw [afterCalls_concat, Calls.run_concat, h₀.answers] at ha
      exact hne (List.cons.inj (List.append_cancel_left ha)).1
    · have hu := (h₁.undone _ (by rw [hc'])).2.1
      rw [afterCalls_concat] at hu
      exact hne hu
  · intro h n hn
    obtain ⟨hh, ha⟩ := holds_of_meets hB n hn h
    refine ⟨ha, hh.elems, hh.unlocked, ?_, fun before hb => ?_⟩
    · rw [ha, hh.elems]
      exact once_of_fifo _
    · obtain ⟨m, rfl⟩ : ∃ m, n = m + 1 := by
        refine ⟨before.length, ?_⟩
        have := congrArg List.length hb
        rw [List.length_take, List.length_append, List.length_singleton] at this
        omega
      rw [← List.take_append_getElem hn] at hb ⊢
      obtain ⟨rfl, hc⟩ := List.append_inj' hb rfl
      have hc' := h m hn
      rw [List.singleton_inj.mp hc] at hc' ⊢
      obtain ⟨hm, -⟩ := holds_of_meets hB m (by omega) h
      rw [afterCalls_concat, leakCall_giveUp_full hm.unlocked hc'.2]
      exact ⟨rfl, rfl, rfl⟩

/-- A buffer of one: the slot is taken when the producer would give one up. -/
theorem asFifo_iff_full :
    AsFifo 1 (fun _ => 0) ([.publish 7, .giveUp, .consume, .publish 8] : List (LeakCall Nat)) := by
  refine (asFifo_iff ⟨0, rfl⟩ (fun _ => 0) [.publish 7, .giveUp, .consume, .publish 8]).mpr ?_ 4 (Nat.le_refl 4)
  intro n hn
  match n, hn with
  | 0, _ => exact (by decide : 1 < 2 ^ 32)
  | 1, _ => exact ⟨by decide, by decide⟩
  | 2, _ => exact (by decide : 1 < 2 ^ 31)
  | 3, _ => exact (by decide : 1 < 2 ^ 32)

/-- A buffer of two, the only element of which is lost by giving up a slot; on a new queue it would block for good. -/
theorem giveUp_loses : ¬ AsFifo 2 (fun _ => 0) ([.publish 7, .giveUp] : List (LeakCall Nat)) ∧
    (afterCalls 2 (fun _ => 0) ([.publish 7, .giveUp, .consume] : List (LeakCall Nat))).2 =
      [some (.published 7), some .givenUp, some (.consumed none)] ∧
    (afterCalls 2 (fun _ => 0) ([.giveUp, .publish 7, .consume] : List (LeakCall Nat))).2 =
      [some .givenUp, some .full, some (.consumed none)] := by
  refine ⟨fun h => ?_, by decide, by decide⟩
  have := h.elems
  exact absurd this (by decide)

end Run

end GuardedMove
end Mutiny
