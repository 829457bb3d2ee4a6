import Mutiny.AtomicMoveLen
import Mutiny.ZeroCopySolo

/-!
# `reserve_slot` and `try_send_reserved` against `send_with`

Of the movable `Atomic` and of the zero-copy `Atomic` and `FullSync` Uni channels, between any two operations. Both
ways to send are accepted alike and leave the same elements. They choose the stream to wake by different rules,
`len_after % MAX_STREAMS` or `len_after - 1`, and only one of the two knows the case of one element more than streams.
-/

namespace Mutiny.ReservedSend
open Plain (Outcome)
open ZeroCopy (Channel HasSlot queuedIds)

structure Seen (α : Type) where
  accepted : Bool
  contents : List α
  woken : List UInt32
deriving DecidableEq

/-- The streams woken by `wake_stream(stream_id)`. -/
def wake (sm : StreamsManagerBase) (streamId : UInt32) : List UInt32 :=
  if (sm.wakeStream streamId).isSome then [streamId] else []

/-- The streams woken by `send_with`; `1 + MAX_STREAMS as u32` is a constant. -/
def sendWithWakes (checks : Bool) (M : Nat) (c : Channel) (sm : StreamsManagerBase) (lenAfter : UInt32) :
    Outcome (List UInt32) :=
  if lenAfter ≤ UInt32.ofNat M then Plain.andThen (Plain.sub checks lenAfter 1) fun j => .returned (wake sm j)
  else match c with
    | .atomic =>
      if lenAfter = 1 + UInt32.ofNat M then Plain.andThen (Plain.sub checks lenAfter 2) fun j => .returned (wake sm j)
      else .returned []
    | .fullSync => .returned []

/-- The streams woken by `try_send_reserved`. -/
def reservedWakes (M : Nat) (sm : StreamsManagerBase) (lenAfter : UInt32) : List UInt32 :=
  if lenAfter ≤ UInt32.ofNat M then wake sm (lenAfter % UInt32.ofNat M) else []

/-! ### The two ways to send -/

section Movable
variable {α : Type}

/-- `send_with(setter)` of the movable channel: the queue, whether it was accepted, and the streams woken. -/
def movableSendWith (checks : Bool) (B M : Nat) (sm : StreamsManagerBase) (q : AtomicMove α) (setter : α → α) :
    Outcome (AtomicMove α × Bool × List UInt32) :=
  (q.publishChecked checks B setter).bind fun
    | (q, some lenAfter) => (sendWithWakes checks M .atomic sm lenAfter).map fun woken => (q, true, woken)
    | (q, none) => .returned (q, false, [])

/-- `reserve_slot()`, a write to the slot if there is one, and `try_send_reserved(slot)`. -/
def movableReserved (checks : Bool) (B M fuel : Nat) (sm : StreamsManagerBase) (q : AtomicMove α) (setter : α → α) :
    Outcome (AtomicMove α × Bool × List UInt32) :=
  (q.leakPublishIndex checks B fuel setter).map fun
    | (q, some lenAfter) => (q, true, reservedWakes M sm lenAfter)
    | (q, none) => (q, false, [])

def movableSeen (B : Nat) (r : AtomicMove α × Bool × List UInt32) : Seen α :=
  ⟨r.2.1, LawfulMoveContainer.elems B r.1, r.2.2⟩

def MovableAgrees (checks : Bool) (B M fuel : Nat) (sm : StreamsManagerBase) (q : AtomicMove α) (setter : α → α) : Prop :=
  (movableReserved checks B M fuel sm q setter).map (movableSeen B) =
    (movableSendWith checks B M sm q setter).map (movableSeen B)

end Movable

section ZeroCopy
variable {C D : Type → Type} {α : Type} [LawfulMoveContainer C] [LawfulMoveContainer D]

/-- `send_with(setter)` of a zero-copy channel. -/
def zeroCopySendWith (checks : Bool) (B M : Nat) (c : Channel) (sm : StreamsManagerBase) (z : ZeroCopy C D α)
    (setter : α → α) : Outcome (ZeroCopy C D α × Bool × List UInt32) :=
  match z.leakSlot B with
  | (z, some slotId) =>
    match (z.write slotId setter).publishLeakedId B slotId with
    | (z, some lenAfter) => (sendWithWakes checks M c sm lenAfter).map fun woken => (z, true, woken)
    -- `some_setter.expect(..)`
    | (_, none) => .panicked
  | (z, none) => .returned (z, false, [])

/-- `reserve_slot()`, a write to the slot if there is one, and `try_send_reserved(slot)`. -/
def zeroCopyReserved (B M : Nat) (sm : StreamsManagerBase) (z : ZeroCopy C D α) (setter : α → α) :
    ZeroCopy C D α × Bool × List UInt32 :=
  match z.leakSlot B with
  | (z, some slotId) =>
    match (z.write slotId setter).publishLeakedId B (idFromRef slotId.toNat) with
    | (z, some lenAfter) => (z, true, reservedWakes M sm lenAfter)
    | (z, none) => (z, false, [])
  | (z, none) => (z, false, [])

def zeroCopySeen (B : Nat) (r : ZeroCopy C D α × Bool × List UInt32) : Seen α :=
  ⟨r.2.1, (queuedIds B r.1).map (r.1.allocator.refFromId B), r.2.2⟩

def ZeroCopyAgrees (checks : Bool) (B M : Nat) (c : Channel) (sm : StreamsManagerBase) (z : ZeroCopy C D α)
    (setter : α → α) : Prop :=
  .returned (zeroCopySeen B (zeroCopyReserved B M sm z setter)) =
    (zeroCopySendWith checks B M c sm z setter).map (zeroCopySeen B)

end ZeroCopy

/-! ### When they agree -/

/-- Nobody waits on the stream. -/
def Unheard (sm : StreamsManagerBase) (streamId : UInt32) : Prop := sm.wakers streamId = none

instance (sm : StreamsManagerBase) (streamId : UInt32) : Decidable (Unheard sm streamId) :=
  inferInstanceAs (Decidable (sm.wakers streamId = none))

/-- For the movable channel, with `n` elements ahead. -/
structure MovableMeets (checks : Bool) (M : Nat) (sm : StreamsManagerBase) (n : UInt32) : Prop where
  first : n = 0 → 2 ≤ UInt32.ofNat M → Unheard sm 0 ∧ Unheard sm 1
  next : n = UInt32.ofNat M → 2 ≤ UInt32.ofNat M → Unheard sm 0 ∧ Unheard sm (UInt32.ofNat M - 1)
  castZero : n = 0 → UInt32.ofNat M = 0 → checks = false ∧ Unheard sm u32Max

/-- For the zero-copy channels, with `n` elements ahead. -/
structure ZeroCopyMeets (checks : Bool) (M : Nat) (c : Channel) (sm : StreamsManagerBase) (n : UInt32) : Prop where
  within : n < UInt32.ofNat M → 2 ≤ UInt32.ofNat M → Unheard sm n ∧ Unheard sm ((n + 1) % UInt32.ofNat M)
  next : c = .atomic → n = UInt32.ofNat M → 1 ≤ UInt32.ofNat M → Unheard sm (UInt32.ofNat M - 1)
  castZero : c = .atomic → n = 0 → UInt32.ofNat M = 0 → checks = false ∧ Unheard sm u32Max

/-! ### The streams woken -/

section Wakes
variable {checks : Bool} {M : Nat} {c : Channel} {sm : StreamsManagerBase} {n a b : UInt32}

theorem wake_eq_nil : wake sm a = [] ↔ Unheard sm a := by
  unfold wake Unheard StreamsManagerBase.wakeStream
  cases sm.wakers a with
  | none => simp
  | some w => simp

theorem wake_eq_iff (h : a ≠ b) : wake sm a = wake sm b ↔ Unheard sm a ∧ Unheard sm b := by
  rw [← wake_eq_nil, ← wake_eq_nil]
  unfold wake
  split <;> split <;> simp [h]

theorem returned_inj {ρ : Type} {r r' : ρ} : Outcome.returned r = .returned r' ↔ r = r' :=
  ⟨fun h => by cases h; rfl, fun h => h ▸ rfl⟩

/-- No more elements than a ring has room for. -/
def Few (n : UInt32) : Prop := n < 0x80000000

theorem sub_one_of_few (hn : Few n) : Plain.sub checks (n + 1) 1 = some n := by
  unfold Few at hn
  have hle : (1 : UInt32) ≤ n + 1 := by grind
  rw [Plain.sub_of_le (UInt32.le_iff_toNat_le.mp hle)]
  exact congrArg some (by grind)

theorem sendWithWakes_lt (hn : Few n) (h : n < UInt32.ofNat M) :
    sendWithWakes checks M c sm (n + 1) = .returned (wake sm n) := by
  have hle : n + 1 ≤ UInt32.ofNat M := by grind
  unfold sendWithWakes
  rw [if_pos hle, sub_one_of_few hn]
  rfl

theorem sendWithWakes_eq (hn : Few n) (h : n = UInt32.ofNat M) (hM : 1 ≤ UInt32.ofNat M) :
    sendWithWakes checks M .atomic sm (n + 1) = .returned (wake sm (UInt32.ofNat M - 1)) := by
  unfold Few at hn
  have hle : ¬ n + 1 ≤ UInt32.ofNat M := by grind
  have hnext : n + 1 = 1 + UInt32.ofNat M := by grind
  have htwo : (2 : UInt32) ≤ n + 1 := by grind
  have hsub : n + 1 - 2 = UInt32.ofNat M - 1 := by grind
  rw [sendWithWakes, if_neg hle, if_pos hnext, Plain.sub_of_le (UInt32.le_iff_toNat_le.mp htwo), hsub]
  rfl

theorem sendWithWakes_castZero_iff (hM : UInt32.ofNat M = 0) :
    .returned [] = sendWithWakes checks M .atomic sm (0 + 1) ↔ checks = false ∧ Unheard sm u32Max := by
  rw [sendWithWakes, hM]
  cases checks with
  | true => exact iff_of_false nofun nofun
  | false =>
    have hwake : Outcome.returned [] = .returned (wake sm u32Max) ↔ Unheard sm u32Max := by
      rw [returned_inj, eq_comm, wake_eq_nil]
    exact hwake.trans (and_iff_right rfl).symm

theorem sendWithWakes_gt (hn : Few n) (h : UInt32.ofNat M < n) :
    sendWithWakes checks M c sm (n + 1) = .returned [] := by
  unfold Few at hn
  have hle : ¬ n + 1 ≤ UInt32.ofNat M := by grind
  have hnext : ¬ n + 1 = 1 + UInt32.ofNat M := by grind
  unfold sendWithWakes
  rw [if_neg hle]
  cases c with
  | atomic => exact if_neg hnext
  | fullSync => rfl

theorem sendWithWakes_fullSync (hn : Few n) (h : ¬ n < UInt32.ofNat M) :
    sendWithWakes checks M .fullSync sm (n + 1) = .returned [] := by
  unfold Few at hn
  have hle : ¬ n + 1 ≤ UInt32.ofNat M := by grind
  rw [sendWithWakes, if_neg hle]

theorem reservedWakes_lt (h : n < UInt32.ofNat M) : reservedWakes M sm n = wake sm n := by
  have hle : n ≤ UInt32.ofNat M := by grind
  have hmod : n % UInt32.ofNat M = n := by
    rw [← UInt32.toNat_inj, UInt32.toNat_mod]
    exact Nat.mod_eq_of_lt (UInt32.lt_iff_toNat_lt.mp h)
  rw [reservedWakes, if_pos hle, hmod]

theorem reservedWakes_eq : reservedWakes M sm (UInt32.ofNat M) = wake sm 0 := by
  have hmod : UInt32.ofNat M % UInt32.ofNat M = 0 := by
    rw [← UInt32.toNat_inj, UInt32.toNat_mod, Nat.mod_self]
    rfl
  rw [reservedWakes, if_pos (UInt32.le_refl _), hmod]

theorem reservedWakes_gt (h : UInt32.ofNat M < n) : reservedWakes M sm n = [] :=
  if_neg (by grind)

/-- By index the first element is reported as 1 and each further one as one less than there are. -/
theorem movableWakes_iff (hn : Few n) {l : UInt32} (hl : l = if 1 ≤ n then n else 1) :
    .returned (reservedWakes M sm l) = sendWithWakes checks M .atomic sm (n + 1) ↔ MovableMeets checks M sm n := by
  by_cases hzero : n = 0
  · subst hzero
    obtain rfl : l = 1 := hl
    by_cases hM₀ : UInt32.ofNat M = 0
    · rw [reservedWakes_gt (by rw [hM₀]; decide), sendWithWakes_castZero_iff hM₀]
      constructor
      · intro h
        exact ⟨by grind, by grind, fun _ _ => h⟩
      · intro h
        exact h.castZero rfl hM₀
    · have hpos : (0 : UInt32) < UInt32.ofNat M := by grind
      rw [sendWithWakes_lt hn hpos, returned_inj]
      by_cases hM₁ : UInt32.ofNat M = 1
      · rw [← hM₁, reservedWakes_eq]
        exact iff_of_true rfl ⟨by grind, by grind, by grind⟩
      · have hM₂ : 1 < UInt32.ofNat M := by grind
        rw [reservedWakes_lt hM₂, wake_eq_iff (by decide)]
        constructor
        · intro h
          exact ⟨fun _ _ => h.symm, by grind, by grind⟩
        · intro h
          exact (h.first rfl (by grind)).symm
  · obtain rfl : l = n := hl.trans (if_pos (by grind))
    have hcases : l < UInt32.ofNat M ∨ l = UInt32.ofNat M ∨ UInt32.ofNat M < l := by grind
    rcases hcases with hlt | heq | hgt
    · rw [reservedWakes_lt hlt, sendWithWakes_lt hn hlt]
      exact iff_of_true rfl ⟨by grind, by grind, by grind⟩
    · have hpos : 1 ≤ UInt32.ofNat M := by grind
      rw [sendWithWakes_eq hn heq hpos, heq, reservedWakes_eq, returned_inj]
      by_cases hM₁ : UInt32.ofNat M = 1
      · rw [hM₁]
        exact iff_of_true rfl ⟨by grind, by grind, by grind⟩
      · rw [wake_eq_iff (by grind)]
        constructor
        · intro h
          exact ⟨by grind, fun _ _ => h, by grind⟩
        · intro h
          exact h.next rfl (by grind)
    · rw [reservedWakes_gt hgt, sendWithWakes_gt hn hgt]
      exact iff_of_true rfl ⟨by grind, by grind, by grind⟩

theorem zeroCopyWakes_iff (hn : Few n) : .returned (reservedWakes M sm (n + 1)) =
    sendWithWakes checks M c sm (n + 1) ↔ ZeroCopyMeets checks M c sm n := by
  have hcases : n < UInt32.ofNat M ∨ (n = UInt32.ofNat M ∧ 1 ≤ UInt32.ofNat M) ∨ (n = 0 ∧ UInt32.ofNat M = 0) ∨
      UInt32.ofNat M < n := by grind
  rcases hcases with hlt | ⟨heq, hpos⟩ | ⟨rfl, hM₀⟩ | hgt
  · have hle : n + 1 ≤ UInt32.ofNat M := by grind
    rw [sendWithWakes_lt hn hlt, returned_inj, reservedWakes, if_pos hle]
    by_cases hM₁ : UInt32.ofNat M = 1
    · obtain rfl : n = 0 := by grind
      rw [hM₁]
      exact iff_of_true rfl ⟨by grind, by grind, by grind⟩
    · have hne : (n + 1) % UInt32.ofNat M ≠ n := by
        by_cases hnext : n + 1 = UInt32.ofNat M
        · rw [hnext, UInt32.mod_self]
          grind
        · rw [UInt32.mod_eq_of_lt (by grind)]
          grind
      rw [wake_eq_iff hne]
      constructor
      · intro h
        exact ⟨fun _ _ => h.symm, by grind, by grind⟩
      · intro h
        exact (h.within hlt (by grind)).symm
  · have hgt : UInt32.ofNat M < n + 1 := by
      unfold Few at hn
      grind
    rw [reservedWakes_gt hgt]
    cases c with
    | atomic =>
      rw [sendWithWakes_eq hn heq hpos, returned_inj, eq_comm, wake_eq_nil]
      constructor
      · intro h
        exact ⟨by grind, fun _ _ _ => h, by grind⟩
      · intro h
        exact h.next rfl heq hpos
    | fullSync =>
      rw [sendWithWakes_fullSync hn (by grind)]
      exact iff_of_true rfl ⟨by grind, nofun, nofun⟩
  · rw [reservedWakes_gt (by rw [hM₀]; decide)]
    cases c with
    | atomic =>
      rw [sendWithWakes_castZero_iff hM₀]
      constructor
      · intro h
        exact ⟨by grind, by grind, fun _ _ _ => h⟩
      · intro h
        exact h.castZero rfl rfl hM₀
    | fullSync =>
      rw [sendWithWakes_fullSync hn (by grind)]
      exact iff_of_true rfl ⟨by grind, nofun, nofun⟩
  · have hgt' : UInt32.ofNat M < n + 1 := by
      unfold Few at hn
      grind
    rw [reservedWakes_gt hgt', sendWithWakes_gt hn hgt]
    exact iff_of_true rfl ⟨by grind, by grind, by grind⟩

end Wakes

/-! ### The channels -/

/-- Once the queue and the acceptance are the same, it is the streams woken that have to be. -/
theorem seen_eq_iff {ρ α : Type} {seen : ρ × Bool × List UInt32 → Seen α} (hseen : ∀ r, (seen r).woken = r.2.2) (q : ρ)
    {woken : List UInt32} {o : Outcome (List UInt32)} :
    .returned (seen (q, true, woken)) = (o.map fun woken => (q, true, woken)).map seen ↔ .returned woken = o := by
  constructor
  · intro h
    cases o with
    | returned woken' =>
      have hwoken := congrArg Seen.woken (returned_inj.mp h)
      rw [hseen, hseen] at hwoken
      exact congrArg _ hwoken
    | panicked => cases h
    | spinning => cases h
  · rintro rfl
    rfl

section Channels
variable {C D : Type → Type} {α : Type} [LawfulMoveContainer C] [LawfulMoveContainer D] {checks : Bool} {B M fuel : Nat}
  {sm : StreamsManagerBase} {q : AtomicMove α} {c : Channel} {z : ZeroCopy C D α}

theorem few_of_lt (hB : Ring.PowerOfTwo B) {n : Nat} (h : n < Ring.room B) : Few (UInt32.ofNat n) := by
  have := hB.room_le
  unfold Few
  rw [UInt32.lt_iff_toNat_lt, Wrap.toNat_ofNat_of_lt (by omega)]
  exact Nat.lt_of_lt_of_le h this

theorem leak_refused (hquiet : q.Quiet) (h : ¬ q.availableElementsCount < UInt32.ofNat B) :
    q.leakSlotInternal B = (q, none) := by
  have hlen : ¬ q.enqueuerTail - q.head < UInt32.ofNat B := hquiet.1 ▸ h
  unfold AtomicMove.leakSlotInternal
  exact if_neg hlen

/-- When it is not refused, the first two streams and the last one must agree. -/
theorem movable_agrees_iff (hB : Ring.PowerOfTwo B) (hfuel : 2 ≤ fuel) (h : q.Settled B) (setter : α → α) :
    MovableAgrees checks B M fuel sm q setter ↔
      (q.availableElementsCount < UInt32.ofNat B → MovableMeets checks M sm q.availableElementsCount) := by
  unfold MovableAgrees movableReserved movableSendWith
  by_cases hlt : q.availableElementsCount < UInt32.ofNat B
  · have hroom : q.availableElementsCount.toNat < Ring.room B := UInt32.lt_iff_toNat_lt.mp hlt
    have hring := hB.fits_of_lt_room hroom
    have hltB : q.availableElementsCount.toNat < B := by rwa [AtomicMove.room_eq hring] at hroom
    have hfew : Few q.availableElementsCount := by
      have := few_of_lt hB hroom
      rwa [UInt32.ofNat_toNat] at this
    have hlen : FullSyncMove.nonZeroU32 (max 1 q.availableElementsCount) =
        some (if 1 ≤ q.availableElementsCount then q.availableElementsCount else 1) := by
      refine if_neg ?_
      show (if 1 ≤ q.availableElementsCount then q.availableElementsCount else 1) ≠ 0
      grind
    rw [h.publishChecked_room hring hltB, h.leakPublishIndex_room hring hltB hfuel, hlen]
    refine Iff.trans ?_ (forall_prop_of_true hlt).symm
    exact (seen_eq_iff (fun _ => rfl) _).trans (movableWakes_iff hfew rfl)
  · refine iff_of_true ?_ (absurd · hlt)
    simp only [AtomicMove.publishChecked, AtomicMove.leakPublishIndex, leak_refused h.quiet hlt, Outcome.bind,
      Outcome.map]

/-- When it is not refused, all streams but the last one must agree, and for `Atomic` also the element after it. -/
theorem zeroCopy_agrees_iff (hB : Ring.PowerOfTwo B) {held : List UInt32} (h : z.Settled B held) (setter : α → α) :
    ZeroCopyAgrees checks B M c sm z setter ↔
      (HasSlot B z → ZeroCopyMeets checks M c sm (UInt32.ofNat (queuedIds B z).length)) := by
  unfold ZeroCopyAgrees zeroCopyReserved zeroCopySendWith
  rcases h.leakSlot_cases with ⟨freeList, slotId, hleak, hsettled, hslot, -⟩ | ⟨hleak, hslot⟩
  · have hroom : (queuedIds B z).length < Ring.room B := by
      have hlen := h.length_eq
      have hfree := List.length_pos_of_ne_nil hslot.1
      omega
    obtain ⟨queue, hpublish, -⟩ := (hsettled.write slotId setter).publishLeakedId hB List.mem_cons_self
    rw [hleak]
    dsimp only
    rw [idFromRef_toNat, hpublish, Wrap.ofNat_succ]
    refine Iff.trans ?_ (forall_prop_of_true hslot).symm
    exact (seen_eq_iff (fun _ => rfl) _).trans (zeroCopyWakes_iff (few_of_lt hB hroom))
  · rw [hleak]
    exact iff_of_true rfl (absurd · hslot)

end Channels

/-- Wakers are registered on all the streams. -/
def awaited (M : Nat) : StreamsManagerBase := { StreamsManagerBase.new M with wakers := fun _ => some 7 }

end Mutiny.ReservedSend
