import Mutiny.AtomicMove
import Mutiny.Lib.Machine
import Mutiny.Lib.Ring
import Mutiny.Lib.Ticket
import Mutiny.Lib.Wrap

/-!
# The invariant of `AtomicMove`

Each counter is the 32-bit image of an unbounded one: `tail` counts the publications, `head` the
releases, and `enqueuer_tail` / `dequeuer_head` lie ahead of them by the ids in flight. The ids
between `tail` and `enqueuer_tail` are a ticket window (`Ticket.Window`) held by the publishers in
progress, those between `head` and `dequeuer_head` one held by the consumers. Reserving takes the
next id at the top of a window, receding gives the topmost one back, publishing and releasing
complete the lowest one. A successful bound check pins a publisher's id below `head + BUFFER_SIZE`
and a consumer's id below `tail`.
-/

namespace Mutiny

/-- A `BUFFER_SIZE` of at most `2 ^ 30`. -/
def RingSize (B : Nat) : Prop := ∃ k ≤ 30, B = 2 ^ k

namespace RingSize
variable {B : Nat}

theorem pos (h : RingSize B) : 0 < B := by
  obtain ⟨k, -, rfl⟩ := h; exact Nat.two_pow_pos k

theorem le (h : RingSize B) : B ≤ 2 ^ 30 := by
  obtain ⟨k, hk, rfl⟩ := h; exact Nat.pow_le_pow_right (by decide) hk

theorem fits (h : RingSize B) : Ring.Fits B := by
  obtain ⟨k, hk, rfl⟩ := h; exact ⟨k, by omega, rfl⟩

theorem dvd (h : RingSize B) : B ∣ 2 ^ 32 := h.fits.dvd

end RingSize

namespace AtomicMove
variable {α τ : Type}

/-- The unbounded counters behind `enqueuer_tail` and `dequeuer_head`, and the unbounded ids held. -/
structure Ghost (τ : Type) where
  enq : Nat
  deq : Nat
  pid : τ → Option Nat
  cid : τ → Option Nat

/-- What holds of a thread at `o` holding the ids `pid`, `cid`, after `H` releases. -/
def ThreadOk (B H : Nat) (pubs : List (Put τ α)) (buffer : Nat → α) (pid cid : Option Nat) : Op α → Prop
  | .leakCheck _ i | .leakRecede _ i => (∃ n, pid = some n ∧ i = UInt32.ofNat n) ∧ cid = none
  | .slotWrite _ i _ => (∃ n, pid = some n ∧ i = UInt32.ofNat n ∧ n < H + B) ∧ cid = none
  | .publishLeaked p i _ v => (∃ n, pid = some n ∧ i = UInt32.ofNat n ∧ n < H + B ∧ buffer (n % B) = v) ∧
      cid = none ∧ ∃ old, v = p.store old
  | .consumeCheck i | .consumeRecede i => pid = none ∧ ∃ n, cid = some n ∧ i = UInt32.ofNat n
  | .slotRead i => pid = none ∧ ∃ n, cid = some n ∧ i = UInt32.ofNat n ∧ n < pubs.length
  | .releaseLeaked i v => pid = none ∧ ∃ n, cid = some n ∧ i = UInt32.ofNat n ∧
      (pubs[n]?).map Put.value = some v
  | .idle | .leakReserve _ | .leakReport _ | .published _ | .refused _ | .consumeReserve | .taken _ | .empty =>
      pid = none ∧ cid = none

namespace ThreadOk
variable {B H H' : Nat} {pubs : List (Put τ α)} {buffer : Nat → α} {pid cid : Option Nat} {o : Op α}

theorem mono (h : ThreadOk B H pubs buffer pid cid o) (hH : H ≤ H') :
    ThreadOk B H' pubs buffer pid cid o := by
  cases o with
  | slotWrite =>
    obtain ⟨⟨n, h₁, h₂, h₃⟩, hc⟩ := h
    exact ⟨⟨n, h₁, h₂, by omega⟩, hc⟩
  | publishLeaked =>
    obtain ⟨⟨n, h₁, h₂, h₃, h₄⟩, hc⟩ := h
    exact ⟨⟨n, h₁, h₂, by omega, h₄⟩, hc⟩
  | _ => exact h

theorem append (h : ThreadOk B H pubs buffer pid cid o) (e : Put τ α) :
    ThreadOk B H (pubs ++ [e]) buffer pid cid o := by
  cases o with
  | slotRead =>
    obtain ⟨hp, n, h₁, h₂, h₃⟩ := h
    exact ⟨hp, n, h₁, h₂, by rw [List.length_append]; omega⟩
  | releaseLeaked =>
    obtain ⟨hp, n, h₁, h₂, h₃⟩ := h
    refine ⟨hp, n, h₁, h₂, ?_⟩
    obtain ⟨e', he', hv⟩ := Option.map_eq_some_iff.mp h₃
    rw [List.getElem?_append_left (List.getElem?_eq_some_iff.mp he').1, he', Option.map_some, hv]
  | _ => exact h

theorem write (h : ThreadOk B H pubs buffer pid cid o) (i : Nat) (v : α)
    (hi : ∀ n, pid = some n → o.writing.isSome → n % B ≠ i) :
    ThreadOk B H pubs (Function.update buffer i v) pid cid o := by
  cases o with
  | publishLeaked =>
    obtain ⟨⟨n, h₁, h₂, h₃, h₄⟩, hc⟩ := h
    exact ⟨⟨n, h₁, h₂, h₃, by rw [Function.update_of_ne (hi n h₁ rfl), h₄]⟩, hc⟩
  | _ => exact h

theorem prodSlot (h : ThreadOk B H pubs buffer pid cid o) : o.prodSlot = pid.map UInt32.ofNat := by
  cases o with
  | leakCheck | leakRecede => obtain ⟨⟨n, h₁, h₂⟩, -⟩ := h; rw [h₁, h₂]; rfl
  | slotWrite => obtain ⟨⟨n, h₁, h₂, -⟩, -⟩ := h; rw [h₁, h₂]; rfl
  | publishLeaked => obtain ⟨⟨n, h₁, h₂, -⟩, -⟩ := h; rw [h₁, h₂]; rfl
  | _ => rw [h.1]; rfl

theorem consSlot (h : ThreadOk B H pubs buffer pid cid o) : o.consSlot = cid.map UInt32.ofNat := by
  cases o with
  | consumeCheck | consumeRecede => obtain ⟨-, n, h₁, h₂⟩ := h; rw [h₁, h₂]; rfl
  | slotRead => obtain ⟨-, n, h₁, h₂, -⟩ := h; rw [h₁, h₂]; rfl
  | releaseLeaked => obtain ⟨-, n, h₁, h₂, -⟩ := h; rw [h₁, h₂]; rfl
  | publishLeaked => rw [h.2.1]; rfl
  | _ => rw [h.2]; rfl

/-- A publisher entitled to its slot holds an id below `head + BUFFER_SIZE`. -/
theorem lt_of_writing (h : ThreadOk B H pubs buffer pid cid o) (hw : o.writing.isSome) :
    ∃ n, pid = some n ∧ o.writing = some (UInt32.ofNat n) ∧ n < H + B := by
  cases o with
  | slotWrite => obtain ⟨⟨n, h₁, h₂, h₃⟩, -⟩ := h; exact ⟨n, h₁, by rw [h₂]; rfl, h₃⟩
  | publishLeaked => obtain ⟨⟨n, h₁, h₂, h₃, -⟩, -⟩ := h; exact ⟨n, h₁, by rw [h₂]; rfl, h₃⟩
  | _ => cases hw

theorem lt_of_reading (h : ThreadOk B H pubs buffer pid cid o) (hr : o.reading.isSome) :
    ∃ n, cid = some n ∧ o.reading = some (UInt32.ofNat n) ∧ n < pubs.length := by
  cases o with
  | slotRead => obtain ⟨-, n, h₁, h₂, h₃⟩ := h; exact ⟨n, h₁, by rw [h₂]; rfl, h₃⟩
  | releaseLeaked =>
    obtain ⟨-, n, h₁, h₂, h₃⟩ := h
    obtain ⟨e, he, -⟩ := Option.map_eq_some_iff.mp h₃
    exact ⟨n, h₁, by rw [h₂]; rfl, (List.getElem?_eq_some_iff.mp he).1⟩
  | _ => cases hr

end ThreadOk

/-- The invariant of the queue and its threads. -/
structure Inv (B : Nat) (s : Sys τ α) (g : Ghost τ) : Prop where
  prod : Ticket.Window s.published.length g.enq g.pid
  cons : Ticket.Window s.consumed.length g.deq g.cid
  head : s.q.head = UInt32.ofNat s.consumed.length
  tail : s.q.tail = UInt32.ofNat s.published.length
  enq : s.q.enqueuerTail = UInt32.ofNat g.enq
  deq : s.q.dequeuerHead = UInt32.ofNat g.deq
  le : s.consumed.length ≤ s.published.length
  cap : s.published.length ≤ s.consumed.length + B
  thread : ∀ t, ThreadOk B s.consumed.length s.published s.q.buffer (g.pid t) (g.cid t) (s.op t)
  /-- The slots of published and not yet released ids hold what was published. -/
  slots : ∀ n e, s.consumed.length ≤ n → s.published[n]? = some e → s.q.buffer (n % B) = e.value
  puts : ∀ n e, s.published[n]? = some e → e.slotId = UInt32.ofNat n ∧ ∃ old, e.value = e.payload.store old
  tooks : ∀ n e, s.consumed[n]? = some e →
    e.slotId = UInt32.ofNat n ∧ (s.published[n]?).map Put.value = some e.value

/-- The ids in flight are close enough to the counters: the wrapped ones can be told apart, and a consumer
that is ahead of `tail` sees that it is. -/
structure Close (B : Nat) (s : Sys τ α) (g : Ghost τ) : Prop where
  lt : B < 2 ^ 32
  dvd : B ∣ 2 ^ 32
  enq : g.enq ≤ s.consumed.length + 2 ^ 32
  deq : g.deq ≤ s.consumed.length + 2 ^ 32
  ahead : g.deq ≤ s.published.length + 2 ^ 31 + 1

theorem Close.of_logs {B : Nat} {s s' : Sys τ α} {g : Ghost τ} (h : Close B s g) (hp : s'.published = s.published)
    (hc : s'.consumed = s.consumed) : Close B s' g := by
  refine ⟨h.lt, h.dvd, ?_, ?_, ?_⟩
  · rw [hc]; exact h.enq
  · rw [hc]; exact h.deq
  · rw [hp]; exact h.ahead

/-- The ids in flight do not go round the 32-bit counters. -/
structure Sys.FewIds (B : Nat) (s : Sys τ α) : Prop where
  prod : ∀ F : Finset τ, (∀ t ∈ F, (s.op t).prodSlot.isSome) → F.card + Ring.room B < 2 ^ 32
  cons : ∀ F : Finset τ, (∀ t ∈ F, (s.op t).consSlot.isSome) → F.card ≤ 2 ^ 31 + 1

theorem Sys.FewIds.init {B : Nat} (hB : Ring.PowerOfTwo B) (buffer : Nat → α) : (Sys.init buffer : Sys τ α).FewIds B := by
  have hroom := hB.room_le
  constructor
  · intro F hF
    obtain rfl : F = ∅ := Finset.eq_empty_of_forall_notMem fun t ht => by cases hF t ht
    rw [Finset.card_empty]
    omega
  · intro F hF
    obtain rfl : F = ∅ := Finset.eq_empty_of_forall_notMem fun t ht => by cases hF t ht
    rw [Finset.card_empty]
    omega

theorem Sys.FewIds.of_card {B : Nat} [Fintype τ] (s : Sys τ α) (h₁ : Fintype.card τ + Ring.room B < 2 ^ 32)
    (h₂ : Fintype.card τ ≤ 2 ^ 31 + 1) : s.FewIds B := by
  constructor
  · intro F _
    have := Finset.card_le_univ F
    omega
  · intro F _
    have := Finset.card_le_univ F
    omega

namespace Inv
variable {B : Nat} {s s' : Sys τ α} {g : Ghost τ} {t : τ}

theorem init (B : Nat) (buffer : Nat → α) :
    Inv B (.init buffer : Sys τ α) ⟨0, 0, fun _ => none, fun _ => none⟩ where
  prod := .empty 0
  cons := .empty 0
  head := rfl
  tail := rfl
  enq := rfl
  deq := rfl
  le := Nat.le_refl 0
  cap := Nat.zero_le _
  thread _ := ⟨rfl, rfl⟩
  slots _ _ _ h := by cases h
  puts _ _ h := by cases h
  tooks _ _ h := by cases h

/-- The two windows are short: the comparisons of wrapped ids are comparisons of ids. -/
theorem windows_lt (h : Inv B s g) (hB : RingSize B) (hf : s.InFlightBelow (2 ^ 31 - B)) :
    g.enq + B < s.published.length + 2 ^ 31 ∧ g.deq + B < s.consumed.length + 2 ^ 31 := by
  have hle := hB.le
  have hp : g.enq < s.published.length + (2 ^ 31 - B) := by
    refine h.prod.length_lt fun F hF => hf F fun t ht => ?_
    have := (h.thread t).prodSlot
    obtain ⟨n, hn⟩ := Option.isSome_iff_exists.mp (hF t ht)
    rw [hn] at this
    cases ho : s.op t <;> rw [ho] at this <;> first | rfl | cases this
  have hc : g.deq < s.consumed.length + (2 ^ 31 - B) := by
    refine h.cons.length_lt fun F hF => hf F fun t ht => ?_
    have := (h.thread t).consSlot
    obtain ⟨n, hn⟩ := Option.isSome_iff_exists.mp (hF t ht)
    rw [hn] at this
    cases ho : s.op t <;> rw [ho] at this <;> first | rfl | cases this
  omega

theorem close (h : Inv B s g) (hB : RingSize B) (hf : s.InFlightBelow (2 ^ 31 - B)) : Close B s g := by
  have hw := h.windows_lt hB hf
  have hle := hB.le
  have := h.le
  have := h.cap
  exact ⟨by omega, hB.dvd, by omega, by omega, by omega⟩

theorem windows_of_few {R : Nat} (h : Inv B s g) (hf : s.FewIds R) :
    g.enq + Ring.room R < s.published.length + 2 ^ 32 ∧ g.deq ≤ s.consumed.length + 2 ^ 31 + 1 := by
  have hp : g.enq < s.published.length + (2 ^ 32 - Ring.room R) := by
    refine h.prod.length_lt fun F hF => ?_
    have := hf.prod F fun t ht => by
      rw [(h.thread t).prodSlot, Option.isSome_map]
      exact hF t ht
    omega
  have hc : g.deq < s.consumed.length + (2 ^ 31 + 2) := by
    refine h.cons.length_lt fun F hF => ?_
    have := hf.cons F fun t ht => by
      rw [(h.thread t).consSlot, Option.isSome_map]
      exact hF t ht
    omega
  have hroom : Ring.room R < 2 ^ 32 := UInt32.toNat_lt _
  omega

theorem close_of_few (h : Inv B s g) (hlt : B < 2 ^ 32) (hdvd : B ∣ 2 ^ 32) (hf : s.FewIds B) : Close B s g := by
  have hw := h.windows_of_few hf
  have hroom : Ring.room B = B := Wrap.toNat_ofNat_of_lt hlt
  have hle := h.le
  have hcap := h.cap
  exact ⟨hlt, hdvd, by omega, by omega, by omega⟩

/-- The bound check of a publisher: its slot id is compared with the true `head`. -/
theorem leakCheck_iff {p : Payload α} {i : UInt32} (h : Inv B s g) (hw : Close B s g)
    (ho : s.op t = .leakCheck p i) :
    ∃ n, g.pid t = some n ∧ i = UInt32.ofNat n ∧ (i - s.q.head < UInt32.ofNat B ↔ n < s.consumed.length + B) := by
  obtain ⟨⟨n, hn, hi⟩, -⟩ : (∃ n, g.pid t = some n ∧ i = UInt32.ofNat n) ∧ g.cid t = none := by
    simpa [ho, ThreadOk] using h.thread t
  have hr := h.prod.range t n hn
  have hle := h.le
  have henq := hw.enq
  exact ⟨n, hn, hi, by rw [h.head, hi, Wrap.ofNat_sub_lt_iff (by omega) (by omega) hw.lt]⟩

/-- The emptiness check of a consumer: its slot id is compared with the true `tail`. -/
theorem consumeCheck_iff {i : UInt32} (h : Inv B s g) (hB : RingSize B)
    (hf : s.InFlightBelow (2 ^ 31 - B)) (ho : s.op t = .consumeCheck i) :
    ∃ n, g.cid t = some n ∧ i = UInt32.ofNat n ∧ (0 < (s.q.tail - i).toInt32 ↔ n < s.published.length) := by
  obtain ⟨-, n, hn, hi⟩ : g.pid t = none ∧ ∃ n, g.cid t = some n ∧ i = UInt32.ofNat n := by
    simpa [ho, ThreadOk] using h.thread t
  have hw := h.windows_lt hB hf
  have hr := h.cons.range t n hn
  have hle := hB.le
  have := h.le
  have := h.cap
  exact ⟨n, hn, hi, by rw [h.tail, hi, Wrap.zero_lt_toInt32_sub_iff (by omega) (by omega)]⟩

theorem consumeCheck_lt {i : UInt32} (h : Inv B s g) (hw : Close B s g) (ho : s.op t = .consumeCheck i)
    (hlen : 0 < (s.q.tail - i).toInt32) :
    ∃ n, g.cid t = some n ∧ i = UInt32.ofNat n ∧ n < s.published.length := by
  obtain ⟨-, n, hn, hi⟩ : g.pid t = none ∧ ∃ n, g.cid t = some n ∧ i = UInt32.ofNat n := by
    simpa [ho, ThreadOk] using h.thread t
  have hr := h.cons.range t n hn
  have hahead := hw.ahead
  rw [h.tail, hi] at hlen
  exact ⟨n, hn, hi, Wrap.lt_of_zero_lt_toInt32_sub (by omega) hlen⟩

/-- The compare-exchange on `tail` succeeds only for the lowest id in flight. -/
theorem publish_id {p : Payload α} {i l : UInt32} {v : α} (h : Inv B s g) (hw : Close B s g)
    (ho : s.op t = .publishLeaked p i l v) (hcas : s.q.tail = i) :
    g.pid t = some s.published.length ∧ s.published.length < s.consumed.length + B ∧
      s.q.buffer (s.published.length % B) = v ∧ g.cid t = none ∧ ∃ old, v = p.store old := by
  have ht := h.thread t
  rw [ho] at ht
  obtain ⟨⟨n, hn, hi, hlt, hbuf⟩, hc, hold⟩ := ht
  have hr := h.prod.range t n hn
  have hle := h.le
  have henq := hw.enq
  obtain rfl : s.published.length = n := by
    rwa [h.tail, hi, Wrap.ofNat_inj_of_near (by omega) (by omega)] at hcas
  exact ⟨hn, hlt, hbuf, hc, hold⟩

/-- The compare-exchange on `head` succeeds only for the lowest id being consumed. -/
theorem release_id {i : UInt32} {v : α} (h : Inv B s g) (hw : Close B s g)
    (ho : s.op t = .releaseLeaked i v) (hcas : s.q.head = i) :
    g.cid t = some s.consumed.length ∧ (s.published[s.consumed.length]?).map Put.value = some v ∧
      g.pid t = none := by
  obtain ⟨hp, n, hn, hi, hv⟩ : g.pid t = none ∧ ∃ n, g.cid t = some n ∧ i = UInt32.ofNat n ∧
      (s.published[n]?).map Put.value = some v := by
    have := h.thread t
    rwa [ho] at this
  have hr := h.cons.range t n hn
  have hdeq := hw.deq
  obtain rfl : s.consumed.length = n := by
    rwa [h.head, hi, Wrap.ofNat_inj_of_near (by omega) (by omega)] at hcas
  exact ⟨hn, hv, hp⟩

section Step
variable [DecidableEq τ]

/-- A thread moves on, keeping its ids and leaving the queue alone. -/
theorem setOp {o : Op α} (h : Inv B s g)
    (ho : ThreadOk B s.consumed.length s.published s.q.buffer (g.pid t) (g.cid t) o) :
    Inv B (s.setOp t o) g := by
  refine { h with thread := fun u => ?_ }
  by_cases hu : u = t
  · subst hu
    show ThreadOk _ _ _ _ _ _ (Function.update s.op u o u)
    rw [Function.update_self]; exact ho
  · show ThreadOk _ _ _ _ _ _ (Function.update s.op t o u)
    rw [Function.update_of_ne hu]; exact h.thread u

theorem leakReserve {p : Payload α} (h : Inv B s g) (ho : s.op t = .leakReserve p) :
    Inv B ({ s with q := { s.q with enqueuerTail := s.q.enqueuerTail + 1 } }.setOp t
      (.leakCheck p s.q.enqueuerTail)) { g with enq := g.enq + 1, pid := Function.update g.pid t (some g.enq) } := by
  have ht : g.pid t = none ∧ g.cid t = none := by simpa [ho, ThreadOk] using h.thread t
  refine { h with prod := h.prod.acquire ht.1, enq := ?_, thread := fun u => ?_ }
  · show s.q.enqueuerTail + 1 = _
    rw [h.enq, Wrap.ofNat_succ]
  · by_cases hu : u = t
    · subst hu
      simp only [Sys.setOp, Function.update_self, ThreadOk, Option.some.injEq, exists_eq_left']
      exact ⟨h.enq, ht.2⟩
    · simp only [Sys.setOp, Function.update_of_ne hu]
      exact h.thread u

theorem leakRecede {p : Payload α} {i : UInt32} (h : Inv B s g) (hw : Close B s g)
    (ho : s.op t = .leakRecede p i) (hcas : s.q.enqueuerTail = i + 1) :
    ∃ n, g.pid t = some n ∧ Inv B ({ s with q := { s.q with enqueuerTail := i } }.setOp t (.leakReport p))
      { g with enq := n, pid := Function.update g.pid t none } := by
  obtain ⟨⟨n, hn, hi⟩, hc⟩ : (∃ n, g.pid t = some n ∧ i = UInt32.ofNat n) ∧ g.cid t = none := by
    simpa [ho, ThreadOk] using h.thread t
  have hr := h.prod.range t n hn
  have hle := h.le
  have henq := hw.enq
  -- the compare-exchange succeeds only for the topmost id
  have htop : g.enq = n + 1 := by
    rw [h.enq, hi, ← Wrap.ofNat_succ, Wrap.ofNat_inj_of_near (by omega) (by omega)] at hcas
    exact hcas
  refine ⟨n, hn, { h with prod := (htop ▸ h.prod).giveBack hn, enq := hi, thread := fun u => ?_ }⟩
  by_cases hu : u = t
  · subst hu
    simp only [Sys.setOp, Function.update_self, ThreadOk, true_and]
    exact hc
  · simp only [Sys.setOp, Function.update_of_ne hu]
    exact h.thread u

theorem consumeReserve (h : Inv B s g) (ho : s.op t = .consumeReserve) :
    Inv B ({ s with q := { s.q with dequeuerHead := s.q.dequeuerHead + 1 } }.setOp t
      (.consumeCheck s.q.dequeuerHead)) { g with deq := g.deq + 1, cid := Function.update g.cid t (some g.deq) } := by
  have ht : g.pid t = none ∧ g.cid t = none := by simpa [ho, ThreadOk] using h.thread t
  refine { h with cons := h.cons.acquire ht.2, deq := ?_, thread := fun u => ?_ }
  · show s.q.dequeuerHead + 1 = _
    rw [h.deq, Wrap.ofNat_succ]
  · by_cases hu : u = t
    · subst hu
      simp only [Sys.setOp, Function.update_self, ThreadOk, Option.some.injEq, exists_eq_left']
      exact ⟨ht.1, h.deq⟩
    · simp only [Sys.setOp, Function.update_of_ne hu]
      exact h.thread u

theorem consumeRecede {i : UInt32} (h : Inv B s g) (hw : Close B s g)
    (ho : s.op t = .consumeRecede i) (hcas : s.q.dequeuerHead = i + 1) :
    ∃ n, g.cid t = some n ∧ Inv B ({ s with q := { s.q with dequeuerHead := i } }.setOp t .empty)
      { g with deq := n, cid := Function.update g.cid t none } := by
  obtain ⟨hp, n, hn, hi⟩ : g.pid t = none ∧ ∃ n, g.cid t = some n ∧ i = UInt32.ofNat n := by
    simpa [ho, ThreadOk] using h.thread t
  have hr := h.cons.range t n hn
  have hdeq := hw.deq
  have htop : g.deq = n + 1 := by
    rw [h.deq, hi, ← Wrap.ofNat_succ, Wrap.ofNat_inj_of_near (by omega) (by omega)] at hcas
    exact hcas
  refine ⟨n, hn, { h with cons := (htop ▸ h.cons).giveBack hn, deq := hi, thread := fun u => ?_ }⟩
  by_cases hu : u = t
  · subst hu
    simp only [Sys.setOp, Function.update_self, ThreadOk, and_true]
    exact hp
  · simp only [Sys.setOp, Function.update_of_ne hu]
    exact h.thread u

theorem write {p : Payload α} {i l : UInt32} {v : α} (h : Inv B s g) (hB : B ∣ 2 ^ 32)
    (ho : s.op t = .slotWrite p i l) (hv : v = p.store (s.q.buffer (slotIndex B i))) :
    Inv B ({ s with q := { s.q with buffer := Function.update s.q.buffer (slotIndex B i) v } }.setOp t
      (.publishLeaked p i l v)) g := by
  obtain ⟨⟨n, hn, hi, hlt⟩, hc⟩ :
      (∃ n, g.pid t = some n ∧ i = UInt32.ofNat n ∧ n < s.consumed.length + B) ∧ g.cid t = none := by
    simpa [ho, ThreadOk] using h.thread t
  have hidx : slotIndex B i = n % B := by rw [slotIndex, hi, Wrap.toNat_ofNat_mod hB]
  have hr := h.prod.range t n hn
  have hle := h.le
  rw [hidx]
  refine { h with thread := fun u => ?_, slots := fun m e hm he => ?_ }
  · by_cases hu : u = t
    · subst hu
      simp only [Sys.setOp, Function.update_self, ThreadOk]
      exact ⟨⟨n, hn, hi, hlt, Function.update_self ..⟩, hc, _, hv⟩
    · simp only [Sys.setOp, Function.update_of_ne hu]
      refine (h.thread u).write _ _ fun m hm hw => ?_
      obtain ⟨m', hm', -, hlt'⟩ := (h.thread u).lt_of_writing hw
      obtain rfl : m = m' := Option.some.inj (hm.symm.trans hm')
      have hr' := h.prod.range u m hm
      exact Wrap.mod_ne_of_window s.consumed.length (by omega) hlt' (by omega) hlt
        fun hmn => hu (h.prod.inj u t n (hmn ▸ hm) hn)
  · change s.consumed.length ≤ m at hm
    change s.published[m]? = some e at he
    have hm' := (List.getElem?_eq_some_iff.mp he).1
    have hcap := h.cap
    show Function.update s.q.buffer (n % B) v (m % B) = e.value
    rw [Function.update_of_ne (Wrap.mod_ne_of_window _ hm (by omega) (by omega) hlt (by omega))]
    exact h.slots m e hm he

theorem publish {p : Payload α} {i l : UInt32} {v : α} (h : Inv B s g) (hw : Close B s g)
    (ho : s.op t = .publishLeaked p i l v) (hcas : s.q.tail = i) :
    Inv B ({ s with q := { s.q with tail := i + 1 },
                    published := s.published ++ [Put.mk t (s.calls t) i p v] }.setOp t (.published l))
      { g with pid := Function.update g.pid t none } := by
  obtain ⟨hn, hlt, hbuf, hc, hold⟩ := h.publish_id hw ho hcas
  have hi : i = UInt32.ofNat s.published.length := hcas ▸ h.tail
  have hlen : (s.published ++ [Put.mk t (s.calls t) i p v]).length = s.published.length + 1 := by simp
  -- an entry of the longer log is an old one or the new one
  have hget : ∀ m e, (s.published ++ [Put.mk t (s.calls t) i p v])[m]? = some e →
      s.published[m]? = some e ∨ (m = s.published.length ∧ e = Put.mk t (s.calls t) i p v) := by
    intro m e he
    rcases Nat.lt_trichotomy m s.published.length with hm | rfl | hm
    · exact .inl (by rwa [List.getElem?_append_left hm] at he)
    · exact .inr ⟨rfl, by simpa using he.symm⟩
    · have := (List.getElem?_eq_some_iff.mp he).1
      omega
  refine { h with
    prod := ?_, tail := ?_, le := ?_, cap := ?_, thread := fun u => ?_, slots := fun m e hm he => ?_
    puts := fun m e he => ?_, tooks := fun m e he => ?_ }
  · show Ticket.Window (s.published ++ [_]).length _ _
    rw [hlen]; exact h.prod.complete hn
  · show i + 1 = UInt32.ofNat (s.published ++ [_]).length
    rw [hlen, hi, Wrap.ofNat_succ]
  · show s.consumed.length ≤ (s.published ++ [_]).length
    rw [hlen]; exact Nat.le_succ_of_le h.le
  · show (s.published ++ [_]).length ≤ _
    rw [hlen]; exact hlt
  · by_cases hu : u = t
    · subst hu
      simp only [Sys.setOp, Function.update_self, ThreadOk, true_and]
      exact hc
    · simp only [Sys.setOp, Function.update_of_ne hu]
      exact (h.thread u).append _
  · rcases hget m e he with he | ⟨rfl, rfl⟩
    · exact h.slots m e hm he
    · exact hbuf
  · rcases hget m e he with he | ⟨rfl, rfl⟩
    · exact h.puts m e he
    · exact ⟨hi, hold⟩
  · obtain ⟨h₁, h₂⟩ := h.tooks m e he
    have hm := (List.getElem?_eq_some_iff.mp he).1
    refine ⟨h₁, ?_⟩
    show Option.map Put.value (s.published ++ [_])[m]? = _
    rw [List.getElem?_append_left (Nat.lt_of_lt_of_le hm h.le), h₂]

theorem read {i : UInt32} (h : Inv B s g) (hB : B ∣ 2 ^ 32) (ho : s.op t = .slotRead i) :
    Inv B (s.setOp t (.releaseLeaked i (s.q.buffer (slotIndex B i)))) g := by
  obtain ⟨hp, n, hn, hi, hlt⟩ :
      g.pid t = none ∧ ∃ n, g.cid t = some n ∧ i = UInt32.ofNat n ∧ n < s.published.length := by
    simpa [ho, ThreadOk] using h.thread t
  refine h.setOp ⟨hp, n, hn, hi, ?_⟩
  have hr := h.cons.range t n hn
  rw [List.getElem?_eq_getElem hlt, Option.map_some, slotIndex, hi, Wrap.toNat_ofNat_mod hB]
  exact congrArg some (h.slots n _ hr.1 (List.getElem?_eq_getElem hlt)).symm

theorem release {i : UInt32} {v : α} (h : Inv B s g) (hw : Close B s g)
    (ho : s.op t = .releaseLeaked i v) (hcas : s.q.head = i) :
    Inv B ({ s with q := { s.q with head := i + 1 },
                    consumed := s.consumed ++ [Took.mk t (s.calls t) i v] }.setOp t (.taken v))
      { g with cid := Function.update g.cid t none } := by
  obtain ⟨hn, hv, hp⟩ := h.release_id hw ho hcas
  have hi : i = UInt32.ofNat s.consumed.length := hcas ▸ h.head
  have hlen : (s.consumed ++ [Took.mk t (s.calls t) i v]).length = s.consumed.length + 1 := by simp
  obtain ⟨e₀, he₀, -⟩ := Option.map_eq_some_iff.mp hv
  have hlt := (List.getElem?_eq_some_iff.mp he₀).1
  refine { h with
    cons := ?_, head := ?_, le := ?_, cap := ?_, thread := fun u => ?_
    slots := fun m e hm he => ?_, tooks := fun m e he => ?_ }
  · show Ticket.Window (s.consumed ++ [_]).length _ _
    rw [hlen]; exact h.cons.complete hn
  · show i + 1 = UInt32.ofNat (s.consumed ++ [_]).length
    rw [hlen, hi, Wrap.ofNat_succ]
  · show (s.consumed ++ [_]).length ≤ _
    rw [hlen]; exact hlt
  · show _ ≤ (s.consumed ++ [_]).length + B
    rw [hlen]; exact Nat.le_trans h.cap (by omega)
  · by_cases hu : u = t
    · subst hu
      simp only [Sys.setOp, Function.update_self, ThreadOk, and_true]
      exact hp
    · simp only [Sys.setOp, Function.update_of_ne hu]
      exact (h.thread u).mono (by rw [hlen]; omega)
  · refine h.slots m e ?_ he
    have : (s.consumed ++ [_]).length ≤ m := hm
    omega
  · change (s.consumed ++ [_])[m]? = some e at he
    rcases Nat.lt_trichotomy m s.consumed.length with hm | rfl | hm
    · exact h.tooks m e (by rwa [List.getElem?_append_left hm] at he)
    · obtain rfl : Took.mk t (s.calls t) i v = e := by simpa using he
      exact ⟨hi, hv⟩
    · have := (List.getElem?_eq_some_iff.mp he).1
      omega

theorem moves (h : Inv B s g) (hw : Close B s g) (hm : Sys.Moves B s t s') : ∃ g', Inv B s' g' := by
  have ht := h.thread t
  cases hm with
  | leakReserve ho => exact ⟨_, h.leakReserve ho⟩
  | leakOk ho hlen =>
    obtain ⟨n, hn, hi, hiff⟩ := h.leakCheck_iff hw ho
    rw [ho] at ht
    exact ⟨g, h.setOp ⟨⟨n, hn, hi, hiff.mp hlen⟩, ht.2⟩⟩
  | leakFull ho | leakRetry ho | leakAgain ho | leakRefuse ho =>
    rw [ho] at ht
    exact ⟨g, h.setOp ht⟩
  | leakRecede ho hcas =>
    obtain ⟨n, -, h'⟩ := h.leakRecede hw ho hcas
    exact ⟨_, h'⟩
  | write ho v hv => exact ⟨g, h.write hw.dvd ho hv⟩
  | publish ho hcas => exact ⟨_, h.publish hw ho hcas⟩
  | consumeReserve ho => exact ⟨_, h.consumeReserve ho⟩
  | consumeOk ho hlen =>
    obtain ⟨n, hn, hi, hlt⟩ := h.consumeCheck_lt hw ho hlen
    rw [ho] at ht
    exact ⟨g, h.setOp ⟨ht.1, n, hn, hi, hlt⟩⟩
  | consumeNone ho | consumeRetry ho =>
    rw [ho] at ht
    exact ⟨g, h.setOp ht⟩
  | consumeRecede ho hcas =>
    obtain ⟨n, -, h'⟩ := h.consumeRecede hw ho hcas
    exact ⟨_, h'⟩
  | read ho => exact ⟨g, h.read hw.dvd ho⟩
  | release ho hcas => exact ⟨_, h.release hw ho hcas⟩
  | spin => exact ⟨g, h⟩

theorem call {o : Op α} (h : Inv B s g) (ht : (s.op t).atRest = true)
    (ho : o = .consumeReserve ∨ ∃ p, o = .leakReserve p) (c : τ → Nat) :
    Inv B { s.setOp t o with calls := c } g := by
  have hrest : g.pid t = none ∧ g.cid t = none := by
    have := h.thread t
    cases hop : s.op t <;> rw [hop] at this ht <;> first | exact this | cases ht
  have h' : Inv B (s.setOp t o) g := h.setOp (by rcases ho with rfl | ⟨p, rfl⟩ <;> exact hrest)
  exact { h' with }

theorem step {l : Label τ α} (h : Inv B s g) (hw : Close B s g) (hs : s.step B l = some s') :
    ∃ g', Inv B s' g' := by
  rcases Sys.step_cases hs with ⟨t, o, ho, ht, rfl⟩ | ⟨t, hm⟩
  · exact ⟨g, h.call ht ho _⟩
  · exact h.moves hw hm

end Step

end Inv

structure NoSlots (s : Sys τ α) : Prop where
  published : s.published = []
  writing : ∀ t, (s.op t).writing = none

namespace NoSlots
variable {B R : Nat} {s s' : Sys τ α} {g : Ghost τ} {t : τ}

theorem init (buffer : Nat → α) : NoSlots (.init buffer : Sys τ α) := ⟨rfl, fun _ => rfl⟩

theorem not_reading (h : NoSlots s) (hi : Inv R s g) : (s.op t).reading = none := by
  cases hr : (s.op t).reading with
  | none => rfl
  | some i =>
    obtain ⟨n, -, -, hn⟩ := (hi.thread t).lt_of_reading (by rw [hr]; rfl)
    rw [h.published] at hn
    cases hn

theorem close (h : NoSlots s) (hi : Inv 1 s g) (hf : s.FewIds B) : Close 1 s g := by
  have hw := hi.windows_of_few hf
  have hle := hi.le
  have hpub : s.published.length = 0 := by rw [h.published]; rfl
  exact ⟨by decide, Nat.one_dvd _, by omega, by omega, by omega⟩

variable [DecidableEq τ]

theorem setOp {o : Op α} (h : NoSlots s) (ho : o.writing = none) (q : AtomicMove α) (calls : τ → Nat)
    (consumed : List (Took τ α)) : NoSlots { ({ s with q := q, consumed := consumed }.setOp t o) with calls := calls } := by
  refine ⟨h.published, fun u => ?_⟩
  by_cases hu : u = t
  · subst hu
    show (Function.update s.op u o u).writing = none
    rw [Function.update_self]
    exact ho
  · show (Function.update s.op t o u).writing = none
    rw [Function.update_of_ne hu]
    exact h.writing u

/-- Where `BUFFER_SIZE as u32` is zero the bound test never succeeds. -/
theorem moves (hB : UInt32.ofNat B = 0) (h : NoSlots s) (hm : Sys.Moves B s t s') : NoSlots s' := by
  have hw := h.writing t
  cases hm with
  | leakOk ho hlen =>
    rw [hB, UInt32.lt_iff_toNat_lt] at hlen
    exact absurd hlen (Nat.not_lt_zero _)
  | write ho => rw [ho] at hw; cases hw
  | publish ho => rw [ho] at hw; cases hw
  | spin => exact h
  | _ => exact h.setOp rfl _ _ _

theorem step {l : Label τ α} (hB : UInt32.ofNat B = 0) (h : NoSlots s) (hs : s.step B l = some s') : NoSlots s' := by
  rcases Sys.step_cases hs with ⟨t, o, ho, -, rfl⟩ | ⟨t, hm⟩
  · refine h.setOp ?_ _ _ _
    rcases ho with rfl | ⟨p, rfl⟩ <;> rfl
  · exact h.moves hB hm

theorem inv_step {l : Label τ α} (hB : UInt32.ofNat B = 0) (h : NoSlots s) (hi : Inv R s g) (hw : Close R s g)
    (hs : s.step B l = some s') : ∃ g', Inv R s' g' := by
  rcases Sys.step_cases hs with ⟨t, o, ho, hrest, rfl⟩ | ⟨t, hm⟩
  · exact ⟨g, hi.call hrest ho _⟩
  · have hwriting := h.writing t
    have hreading := h.not_reading (t := t) hi
    have ht := hi.thread t
    cases hm with
    | leakReserve ho => exact ⟨_, hi.leakReserve ho⟩
    | leakOk ho hlen =>
      rw [hB, UInt32.lt_iff_toNat_lt] at hlen
      exact absurd hlen (Nat.not_lt_zero _)
    | leakFull ho | leakRetry ho | leakAgain ho | leakRefuse ho | consumeNone ho | consumeRetry ho =>
      rw [ho] at ht
      exact ⟨g, hi.setOp ht⟩
    | leakRecede ho hcas =>
      obtain ⟨n, -, h'⟩ := hi.leakRecede hw ho hcas
      exact ⟨_, h'⟩
    | write ho => rw [ho] at hwriting; cases hwriting
    | publish ho => rw [ho] at hwriting; cases hwriting
    | consumeReserve ho => exact ⟨_, hi.consumeReserve ho⟩
    | consumeOk ho hlen =>
      obtain ⟨n, -, -, hn⟩ := hi.consumeCheck_lt hw ho hlen
      rw [h.published] at hn
      cases hn
    | consumeRecede ho hcas =>
      obtain ⟨n, -, h'⟩ := hi.consumeRecede hw ho hcas
      exact ⟨_, h'⟩
    | read ho => rw [ho] at hreading; cases hreading
    | release ho => rw [ho] at hreading; cases hreading
    | spin => exact ⟨g, hi⟩

end NoSlots
end AtomicMove
end Mutiny
