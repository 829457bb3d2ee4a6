import Mutiny.AbandonedSend
import Mutiny.Lib.Calls
import Mutiny.Lib.Plain
import Mutiny.SlotReserve

/-!
# Publishing and cancelling by ring index

`try_publish_leaked_internal_index` and `try_unleak_slot_index_internal`, undisturbed, next to the two functions
that take the slot id. From the index alone they start in cycle 0 and take the cycle from the counter they failed to
exchange; the second guess is right if there is a right one.

The arithmetic is that of the source: `overflowing_add` and `overflowing_sub` wrap, the plain operators panic in a
build with overflow checks (`checks`).
-/

namespace Mutiny.AtomicMove
open Plain (Outcome)
variable {α : Type} {B : Nat} {q : AtomicMove α}

def tryPublishLeakedInternal (q : AtomicMove α) (slotId : UInt32) : AtomicMove α × Bool :=
  if q.tail = slotId then ({ q with tail := slotId + 1 }, true) else (q, false)

def tryUnleakSlotInternal (q : AtomicMove α) (slotId : UInt32) : AtomicMove α × Bool :=
  if q.enqueuerTail = slotId + 1 then ({ q with enqueuerTail := slotId }, true) else (q, false)

/-- `slot_index + cycle * BUFFER_SIZE` -/
def slotOfCycle (checks : Bool) (B : Nat) (slotIndex cycle : UInt32) : Option UInt32 :=
  (Plain.mul checks cycle (UInt32.ofNat B)).bind (Plain.add checks slotIndex)

/-- The loop of both functions: the slot id at which the compare-exchange (`hit`) succeeds. After a failure the cycle is
that of `reloaded`, the computation of which may panic. -/
def guessLoop (checks : Bool) (B : Nat) (hit : UInt32 → Bool) (reloaded : Option UInt32) (slotIndex : UInt32) :
    Nat → UInt32 → Outcome (Option UInt32)
  | 0, _ => .spinning
  | fuel + 1, slotId =>
    if hit slotId then .returned (some slotId)
    else Plain.andThen reloaded fun n =>
      if n / UInt32.ofNat B > slotId / UInt32.ofNat B then
        Plain.andThen (slotOfCycle checks B slotIndex (n / UInt32.ofNat B)) (guessLoop checks B hit reloaded slotIndex fuel)
      else .returned none

/-- `tail`, exchanged at the given slot id, if any. -/
def exchangeTail (q : AtomicMove α) (slotId : Option UInt32) : AtomicMove α :=
  slotId.elim q fun slotId => { q with tail := slotId + 1 }

/-- `enqueuer_tail`, exchanged at the given slot id, if any. -/
def exchangeEnqueuerTail (q : AtomicMove α) (slotId : Option UInt32) : AtomicMove α :=
  slotId.elim q fun slotId => { q with enqueuerTail := slotId }

/-- `try_publish_leaked_internal_index(slot_index)`. What a compare-exchange returns is the value it replaces. -/
def tryPublishLeakedInternalIndex (checks : Bool) (B fuel : Nat) (q : AtomicMove α) (slotIndex : UInt32) :
    Outcome (AtomicMove α × Option UInt32) :=
  (guessLoop checks B (fun slotId => q.tail = slotId) (some q.tail) slotIndex fuel slotIndex).map fun r =>
    (q.exchangeTail r, r.bind fun slotId => FullSyncMove.nonZeroU32 (max 1 (slotId - q.head)))

/-- `try_unleak_slot_index_internal(slot_index)` -/
def tryUnleakSlotIndexInternal (checks : Bool) (B fuel : Nat) (q : AtomicMove α) (slotIndex : UInt32) :
    Outcome (AtomicMove α × Bool) :=
  (guessLoop checks B (fun slotId => q.enqueuerTail = slotId + 1) (Plain.sub checks q.enqueuerTail 1) slotIndex fuel
    slotIndex).map fun r => (q.exchangeEnqueuerTail r, r.isSome)

/-! ### The guess -/

section Guess
variable {checks : Bool} {hit : UInt32 → Bool} {x slotId index : UInt32} {fuel : Nat}

theorem toNat_size (hB : Ring.Fits B) : (UInt32.ofNat B).toNat = B :=
  Wrap.toNat_ofNat_of_lt (by have := hB.le; omega)

theorem toNat_cycle (hB : Ring.Fits B) (x : UInt32) : (x / UInt32.ofNat B).toNat = x.toNat / B := by
  rw [UInt32.toNat_div, toNat_size hB]

theorem cycle_le (hB : Ring.Fits B) (x : UInt32) : x.toNat / B * B + B ≤ 2 ^ 32 := by
  obtain ⟨m, hm⟩ := hB.dvd
  have hlt : x.toNat / B < m := by
    rw [Nat.div_lt_iff_lt_mul hB.pos, Nat.mul_comm, ← hm]
    exact x.toNat_lt
  calc x.toNat / B * B + B = (x.toNat / B + 1) * B := by rw [Nat.add_mul, Nat.one_mul]
    _ ≤ m * B := Nat.mul_le_mul_right B hlt
    _ = 2 ^ 32 := by rw [hm, Nat.mul_comm]

theorem slotOfCycle_of_lt (hB : Ring.Fits B) (hlt : index.toNat < B) (x : UInt32) :
    slotOfCycle checks B index (x / UInt32.ofNat B) = some (SlotReserve.Chan.cycled B index x) := by
  have hle := cycle_le hB x
  have hmul : (x / UInt32.ofNat B * UInt32.ofNat B).toNat = x.toNat / B * B := by
    rw [UInt32.toNat_mul, toNat_cycle hB, toNat_size hB, Nat.mod_eq_of_lt (by omega)]
  unfold slotOfCycle
  rw [Plain.mul_of_lt (by rw [toNat_cycle hB, toNat_size hB]; omega), Option.bind_some,
    Plain.add_of_lt (by rw [hmul]; omega)]
  rfl

theorem toNat_cycled (hB : Ring.Fits B) (hlt : index.toNat < B) (x : UInt32) :
    (SlotReserve.Chan.cycled B index x).toNat = index.toNat + x.toNat / B * B := by
  have hle := cycle_le hB x
  unfold SlotReserve.Chan.cycled
  rw [UInt32.toNat_add, UInt32.toNat_mul, toNat_cycle hB, toNat_size hB, Nat.mod_eq_of_lt (by omega),
    Nat.mod_eq_of_lt (by omega)]

theorem toNat_index (hB : Ring.Fits B) (slotId : UInt32) :
    (UInt32.ofNat (slotIndex B slotId)).toNat = slotId.toNat % B := by
  have := Nat.mod_lt slotId.toNat hB.pos
  have := hB.le
  exact Wrap.toNat_ofNat_of_lt (by unfold slotIndex; omega)

/-- Two rounds find the id exchanged, if that is the one with the index. -/
theorem guessLoop_eq (hB : Ring.Fits B) (hhit : ∀ i, hit i = true ↔ i = x)
    (hmod : slotId.toNat % B = x.toNat % B → slotId = x) (hfuel : 2 ≤ fuel) :
    guessLoop checks B hit (some x) (UInt32.ofNat (slotIndex B slotId)) fuel (UInt32.ofNat (slotIndex B slotId)) =
      .returned (if slotId = x then some x else none) := by
  obtain ⟨fuel, rfl⟩ := Nat.exists_eq_add_of_le' hfuel
  have hi := toNat_index hB slotId
  generalize UInt32.ofNat (slotIndex B slotId) = index at *
  have hpos := hB.pos
  have hlt : index.toNat < B := by rw [hi]; exact Nat.mod_lt _ hpos
  have hfirst : index = x ↔ slotId = x ∧ x.toNat < B := by
    rw [← UInt32.toNat_inj, hi]
    constructor
    · intro h
      have hx : x.toNat < B := by rw [← h, ← hi]; exact hlt
      exact ⟨hmod (by rw [h, Nat.mod_eq_of_lt hx]), hx⟩
    · rintro ⟨rfl, h⟩
      exact Nat.mod_eq_of_lt h
  have hcycle : ∀ i : UInt32, x / UInt32.ofNat B > i / UInt32.ofNat B ↔ i.toNat / B < x.toNat / B := by
    intro i
    rw [gt_iff_lt, UInt32.lt_iff_toNat_lt, toNat_cycle hB, toNat_cycle hB]
  rw [guessLoop]
  by_cases h₁ : index = x
  · rw [if_pos ((hhit index).mpr h₁), if_pos (hfirst.mp h₁).1, h₁]
  · rw [if_neg (mt (hhit index).mp h₁)]
    simp only [Plain.andThen, hcycle, Nat.div_eq_of_lt hlt]
    by_cases hx : x.toNat < B
    · rw [if_neg (by rw [Nat.div_eq_of_lt hx]; omega), if_neg fun hs => h₁ (hfirst.mpr ⟨hs, hx⟩)]
    · rw [if_pos (Nat.div_pos (by omega) hpos), slotOfCycle_of_lt hB hlt]
      have hg := toNat_cycled hB hlt x
      generalize SlotReserve.Chan.cycled B index x = guess at *
      have hguess : guess = x ↔ slotId = x := by
        have hx' := Nat.div_add_mod' x.toNat B
        rw [← UInt32.toNat_inj, hg, hi]
        constructor
        · intro h
          exact hmod (by omega)
        · rintro rfl
          omega
      have hsame : guess.toNat / B = x.toNat / B := by
        rw [hg, Nat.add_mul_div_right _ _ hpos, Nat.div_eq_of_lt hlt, Nat.zero_add]
      simp only [guessLoop, Plain.andThen, hcycle]
      by_cases h₂ : guess = x
      · rw [if_pos ((hhit guess).mpr h₂), if_pos (hguess.mp h₂), h₂]
      · rw [if_neg (mt (hhit guess).mp h₂), if_neg (mt hguess.mpr h₂), if_neg (by omega)]

end Guess

/-- The ids reserved, none of which is `BUFFER_SIZE` away from another. -/
theorem mod_inj_of_window {lo hi s t : UInt32} (hdvd : B ∣ 2 ^ 32) (hle : (hi - lo).toNat ≤ B) (hs : s - lo < hi - lo)
    (ht : t - lo < hi - lo) (h : s.toNat % B = t.toNat % B) : s = t := by
  rw [UInt32.lt_iff_toNat_lt] at hs ht
  by_contra hne
  have hoff : ∀ i : UInt32, (lo.toNat + (i - lo).toNat) % B = i.toNat % B := by
    intro i
    have : i.toNat = (lo.toNat + (i - lo).toNat) % 2 ^ 32 := by
      rw [← UInt32.toNat_add, UInt32.add_comm, UInt32.sub_add_cancel]
    rw [this, Nat.mod_mod_of_dvd _ hdvd]
  refine Wrap.mod_ne_of_window (b := B) (m := lo.toNat + (s - lo).toNat) (n := lo.toNat + (t - lo).toNat)
    lo.toNat (Nat.le_add_right ..) (by omega) (Nat.le_add_right ..) (by omega) ?_ (by rw [hoff, hoff, h])
  intro he
  exact hne ((UInt32.sub_left_inj lo).mp (UInt32.toNat_inj.mp (Nat.add_left_cancel he)))

theorem isSome_len (n : UInt32) : (FullSyncMove.nonZeroU32 (max 1 n)).isSome = true := by
  have h : max 1 n ≠ 0 := by
    show (if 1 ≤ n then n else 1) ≠ 0
    split
    · rintro rfl
      exact absurd ‹(1 : UInt32) ≤ 0› (by decide)
    · decide
  unfold FullSyncMove.nonZeroU32
  rw [if_neg h]
  rfl

/-- By index as by id. -/
theorem index_agrees (hB : RingSize B) (hroom : q.enqueuerTail - q.head ≤ UInt32.ofNat B)
    (hle : q.tail - q.head ≤ q.enqueuerTail - q.head) {slotId : UInt32}
    (hs : Wrap.InSpan slotId q.tail q.enqueuerTail) :
    (∃ len, (len.isSome = (q.tryPublishLeakedInternal slotId).2) ∧ ∀ fuel, 2 ≤ fuel →
      q.tryPublishLeakedInternalIndex false B fuel (UInt32.ofNat (slotIndex B slotId)) =
        .returned ((q.tryPublishLeakedInternal slotId).1, len)) ∧
    ∀ fuel, 2 ≤ fuel → q.tryUnleakSlotIndexInternal false B fuel (UInt32.ofNat (slotIndex B slotId)) =
      .returned (q.tryUnleakSlotInternal slotId) := by
  have hwin : (q.enqueuerTail - q.tail).toNat ≤ B := by
    have hb := toNat_size hB.fits
    rw [UInt32.le_iff_toNat_le] at hroom hle
    rw [hb] at hroom
    simp only [UInt32.toNat_sub] at *
    have := q.head.toNat_lt
    have := q.tail.toNat_lt
    omega
  have hne : q.tail - q.tail < q.enqueuerTail - q.tail := by
    rw [UInt32.sub_self]
    exact UInt32.lt_of_le_of_lt (UInt32.zero_le) hs
  have hlast : q.enqueuerTail - 1 - q.tail < q.enqueuerTail - q.tail := by
    rw [UInt32.lt_iff_toNat_lt] at hne ⊢
    simp only [UInt32.toNat_sub, UInt32.toNat_one] at *
    have := q.enqueuerTail.toNat_lt
    have := q.tail.toNat_lt
    omega
  have hpred : ∀ i : UInt32, q.enqueuerTail = i + 1 ↔ i = q.enqueuerTail - 1 := by
    intro i
    rw [eq_comm, UInt32.eq_sub_iff_add_eq]
  constructor
  · refine ⟨(if slotId = q.tail then FullSyncMove.nonZeroU32 (max 1 (q.tail - q.head)) else none), ?_, ?_⟩
    · unfold tryPublishLeakedInternal
      by_cases h : slotId = q.tail
      · rw [if_pos h, if_pos h.symm, isSome_len]
      · rw [if_neg h, if_neg (Ne.symm h)]
        rfl
    · intro fuel hfuel
      unfold tryPublishLeakedInternalIndex tryPublishLeakedInternal
      rw [guessLoop_eq hB.fits (fun i => by rw [decide_eq_true_iff, eq_comm])
        (mod_inj_of_window hB.dvd hwin hs hne) hfuel]
      by_cases h : slotId = q.tail
      · rw [if_pos h, if_pos h, if_pos h.symm, h]
        rfl
      · rw [if_neg h, if_neg h, if_neg (Ne.symm h)]
        rfl
  · intro fuel hfuel
    unfold tryUnleakSlotIndexInternal tryUnleakSlotInternal
    rw [Plain.sub_unchecked, guessLoop_eq hB.fits (fun i => by rw [decide_eq_true_iff, hpred])
      (mod_inj_of_window hB.dvd hwin hs hlast) hfuel]
    by_cases h : slotId = q.enqueuerTail - 1
    · rw [if_pos h, if_pos ((hpred slotId).mpr h), h]
      rfl
    · rw [if_neg h, if_neg (mt (hpred slotId).mp h)]
      rfl

/-- A ring of two, `enqueuer_tail` back at 0 and the last id before that reserved: published and cancelled by its
index, which is 1. -/
theorem index_agrees_wrapped :
    let q : AtomicMove Nat := ⟨4294967294, 0, fun _ => 0, 4294967294, 4294967295⟩
    (∃ len, len.isSome = true ∧ q.tryPublishLeakedInternalIndex false 2 2 1 =
      .returned (⟨4294967294, 0, fun _ => 0, 4294967294, 0⟩, len)) ∧
    q.tryUnleakSlotIndexInternal false 2 2 1 =
      .returned (⟨4294967294, 4294967295, fun _ => 0, 4294967294, 4294967295⟩, true) := by
  intro q
  obtain ⟨⟨len, hlen, hpublish⟩, hunleak⟩ := index_agrees (q := q) ⟨1, by decide, rfl⟩ (by decide) (by decide)
    (by decide : Wrap.InSpan 4294967295 4294967295 0)
  exact ⟨⟨len, hlen, hpublish 2 (by decide)⟩, hunleak 2 (by decide)⟩

/-! ### The rounds of the loops as atomic operations -/

section Alone
open SlotReserve (Chan Phase)
variable {τ : Type} [DecidableEq τ] {s : Chan τ α} {t : τ} {p : AtomicMove.Payload α} {slotId lenBefore guess : UInt32}
  {fuel : Nat} {r : Option UInt32}

theorem slotOfCycle_unchecked (index n : UInt32) :
    slotOfCycle false B index (n / UInt32.ofNat B) = some (Chan.cycled B index n) := rfl

/-- `try_send_reserved`, alone: its atomic operations add up to what the loop returns. -/
theorem send_alone (hphase : s.phase t = .sending guess) (ho : s.queue.op t = .slotWrite p slotId lenBefore)
    (h : guessLoop false B (fun i => s.queue.q.tail = i) (some s.queue.q.tail) (UInt32.ofNat (slotIndex B slotId)) fuel
      guess = .returned r) :
    ∃ k, (Machine.exec (Chan.step B) s (List.replicate k (.run t false false))).map
      (fun s' => (s'.queue.q, s'.phase t)) =
      some (s.queue.q.exchangeTail r, r.elim .reserved fun _ => .free) := by
  induction fuel generalizing s guess with
  | zero => cases h
  | succ fuel ih =>
    have hstep : s.step B (.run t false false) = some (s.runSend B t slotId lenBefore guess false) := by
      simp only [Chan.step, Chan.run, hphase, ho]
    rw [guessLoop] at h
    by_cases hcas : s.queue.q.tail = guess
    · rw [if_pos (by rw [decide_eq_true_iff]; exact hcas)] at h
      cases h
      refine ⟨1, ?_⟩
      rw [List.replicate_one, Machine.exec_cons, hstep]
      simp [Machine.exec, Chan.runSend, hcas, Chan.setPhase, AtomicMove.Sys.setOp, exchangeTail]
    · rw [if_neg (by rw [decide_eq_true_iff]; exact hcas)] at h
      simp only [Plain.andThen, slotOfCycle_unchecked] at h
      by_cases hc : s.queue.q.tail / UInt32.ofNat B > guess / UInt32.ofNat B
      · rw [if_pos hc] at h
        obtain ⟨k, hk⟩ := ih (s := s.setPhase t (.sending (Chan.cycled B (UInt32.ofNat (slotIndex B slotId))
          s.queue.q.tail))) (Function.update_self ..) ho h
        have hnext : s.runSend B t slotId lenBefore guess false =
            s.setPhase t (.sending (Chan.cycled B (UInt32.ofNat (slotIndex B slotId)) s.queue.q.tail)) := by
          simp [Chan.runSend, hcas, hc]
        refine ⟨k + 1, ?_⟩
        rw [List.replicate_succ, Machine.exec_cons, hstep, hnext]
        exact hk
      · rw [if_neg hc] at h
        cases h
        refine ⟨1, ?_⟩
        rw [List.replicate_one, Machine.exec_cons, hstep]
        simp [Machine.exec, Chan.runSend, hcas, hc, Chan.setPhase, exchangeTail]

theorem cancel_alone (hphase : s.phase t = .cancelling guess) (ho : s.queue.op t = .slotWrite p slotId lenBefore)
    (h : guessLoop false B (fun i => s.queue.q.enqueuerTail = i + 1) (Plain.sub false s.queue.q.enqueuerTail 1)
      (UInt32.ofNat (slotIndex B slotId)) fuel guess = .returned r) :
    ∃ k, (Machine.exec (Chan.step B) s (List.replicate k (.run t false false))).map
      (fun s' => (s'.queue.q, s'.phase t)) =
      some (s.queue.q.exchangeEnqueuerTail r, r.elim .reserved fun _ => .free) := by
  induction fuel generalizing s guess with
  | zero => cases h
  | succ fuel ih =>
    have hstep : s.step B (.run t false false) = some (s.runCancel B t slotId guess false) := by
      simp only [Chan.step, Chan.run, hphase, ho]
    rw [guessLoop] at h
    by_cases hcas : s.queue.q.enqueuerTail = guess + 1
    · rw [if_pos (by rw [decide_eq_true_iff]; exact hcas)] at h
      cases h
      refine ⟨1, ?_⟩
      rw [List.replicate_one, Machine.exec_cons, hstep]
      simp [Machine.exec, Chan.runCancel, hcas, Chan.setPhase, AtomicMove.Sys.setOp, exchangeEnqueuerTail]
    · rw [if_neg (by rw [decide_eq_true_iff]; exact hcas)] at h
      simp only [Plain.sub_unchecked, Plain.andThen, slotOfCycle_unchecked] at h
      by_cases hc : (s.queue.q.enqueuerTail - 1) / UInt32.ofNat B > guess / UInt32.ofNat B
      · rw [if_pos hc] at h
        obtain ⟨k, hk⟩ := ih (s := s.setPhase t (.cancelling (Chan.cycled B (UInt32.ofNat (slotIndex B slotId))
          (s.queue.q.enqueuerTail - 1)))) (Function.update_self ..) ho h
        have hnext : s.runCancel B t slotId guess false = s.setPhase t
            (.cancelling (Chan.cycled B (UInt32.ofNat (slotIndex B slotId)) (s.queue.q.enqueuerTail - 1))) := by
          simp [Chan.runCancel, hcas, hc]
        refine ⟨k + 1, ?_⟩
        rw [List.replicate_succ, Machine.exec_cons, hstep, hnext]
        exact hk
      · rw [if_neg hc] at h
        cases h
        refine ⟨1, ?_⟩
        rw [List.replicate_one, Machine.exec_cons, hstep]
        simp [Machine.exec, Chan.runCancel, hcas, hc, Chan.setPhase, exchangeEnqueuerTail]

end Alone

end Mutiny.AtomicMove
