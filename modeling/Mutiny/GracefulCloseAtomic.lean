import Mathlib.Data.Finset.Sum
import Mutiny.GracefulClose
import Mutiny.UniAtomic

/-!
# `end_all_streams(Duration::ZERO)` and the movable `Atomic` channel

The argument of `Closer.Ok` needs that a slot is written by one publisher only until it is consumed, and the
32-bit slot ids can be told apart for as long as at most `2 ^ 32 - BUFFER_SIZE` sends are in progress
(`FewSends`). One send more may overwrite an event that has been published (`overwritten_run`). The streams
need no such bound: there are at most `2 ^ 31` of them.
-/

namespace Mutiny

namespace UniAtomic
open AtomicMove (Op Payload Sys Put Took NoSlots)
variable {σ α : Type} {B M : Nat}

structure Closing (σ α : Type) where
  chan : Chan σ α
  closer : Closer
  before : Nat

namespace Closing

def init (M : Nat) (buffer : Nat → α) : Closing σ α := ⟨.init M buffer, .idle, 0⟩

def step [DecidableEq σ] (B M : Nat) (s : Closing σ α) : ClosingLabel (Label σ α) → Option (Closing σ α)
  -- nobody else cancels
  | .chan (.cancel _) => none
  | .chan l => (s.chan.step B M l).map fun chan => { s with chan }
  | .dropEnded j => (s.chan.rt.dropEnded M j).map fun rt => { s with chan.rt := rt }
  | .endAllStreams =>
    if s.closer = .idle then some { s with closer := .loadTail, before := s.chan.queue.published.length } else none
  | .close => (s.closer.step M s.chan.queue.q.tail s.chan.queue.q.head s.chan.rt).map fun (closer, rt) =>
    { s with closer, chan.rt := rt }

/-- Where a stream has returned `Ready(None)`, the events published before the call have been returned by the
`consume` of some stream. -/
def Delivered (s : Closing σ α) : Prop :=
  ∀ j k, s.chan.rt.task j = some k → k.phase = .ended → ∀ n put, n < s.before →
    s.chan.queue.published[n]? = some put →
    ∃ i took, s.chan.queue.consumed[n]? = some took ∧ took.thread = .inr i ∧ took.value = put.value

/-- At most `2 ^ 32 - BUFFER_SIZE` sends are in progress; a queue with no room at all takes any number. -/
def FewSends (B : Nat) (s : Closing σ α) : Prop :=
  B < 2 ^ 32 → ∀ F : Finset σ, (∀ t ∈ F, (s.chan.queue.op (.inl t)).atRest = false) → F.card + B ≤ 2 ^ 32

end Closing

section Step
variable {s s' : Chan σ α} {l : Label σ α} {g : AtomicMove.Ghost (σ ⊕ UInt32)}

/-- With few sends in progress the ids in flight are close to the counters: there are at most `2 ^ 31` streams. -/
theorem Base.close (hB : Ring.PowerOfTwo B) (hlt : B < 2 ^ 32) (hM : Ring.PowerOfTwo M) (h : Base M s)
    (hi : AtomicMove.Inv B s.queue g)
    (hf : ∀ F : Finset σ, (∀ t ∈ F, (s.queue.op (.inl t)).atRest = false) → F.card + B ≤ 2 ^ 32) :
    AtomicMove.Close B s.queue g := by
  have henq : g.enq + B ≤ s.queue.published.length + 2 ^ 32 := by
    obtain ⟨F, hcard, hF⟩ := hi.prod.exists_holders
    have hop : ∀ u ∈ F, (s.queue.op u).isPublish = true ∧ (s.queue.op u).atRest = false := by
      intro u hu
      have hp := (hi.thread u).prodSlot
      obtain ⟨n, hn⟩ := Option.isSome_iff_exists.mp (hF u hu)
      rw [hn] at hp
      cases ho : s.queue.op u <;> rw [ho] at hp <;> first | exact ⟨rfl, rfl⟩ | cases hp
    have hright : F.toRight = ∅ := by
      refine Finset.eq_empty_of_forall_notMem fun j hj => ?_
      have := (hop _ (Finset.mem_toRight.mp hj)).1
      rw [h.stream j] at this
      cases this
    have hle := hf F.toLeft fun t ht => (hop _ (Finset.mem_toLeft.mp ht)).2
    have hsum := Finset.card_toLeft_add_card_toRight (u := F)
    rw [hright, Finset.card_empty] at hsum
    have := hi.prod.le
    omega
  have hdeq : g.deq ≤ s.queue.consumed.length + 2 ^ 31 := by
    obtain ⟨F, hcard, hF⟩ := hi.cons.exists_holders
    have hop : ∀ u ∈ F, (s.queue.op u).isConsume = true ∧ (s.queue.op u).atRest = false := by
      intro u hu
      have hp := (hi.thread u).consSlot
      obtain ⟨n, hn⟩ := Option.isSome_iff_exists.mp (hF u hu)
      rw [hn] at hp
      cases ho : s.queue.op u <;> rw [ho] at hp <;> first | exact ⟨rfl, rfl⟩ | cases hp
    have hleft : F.toLeft = ∅ := by
      refine Finset.eq_empty_of_forall_notMem fun t ht => ?_
      have := (hop _ (Finset.mem_toLeft.mp ht)).1
      rw [h.sender t] at this
      cases this
    have hsub : F.toRight ⊆ (idRange 0 (UInt32.ofNat M)).toFinset := by
      intro j hj
      obtain ⟨k, hk, -⟩ := h.polling j (hop _ (Finset.mem_toRight.mp hj)).2
      have := h.rt.lt j (by rw [hk]; rfl)
      simp [mem_idRange, this]
    have hcard' := Finset.card_le_card hsub
    have hlen := List.toFinset_card_le (idRange 0 (UInt32.ofNat M))
    rw [length_idRange] at hlen
    have hroom : (UInt32.ofNat M).toNat ≤ 2 ^ 31 := hM.room_le
    have hsum := Finset.card_toLeft_add_card_toRight (u := F)
    rw [hleft, Finset.card_empty] at hsum
    have := hi.cons.le
    omega
  have := hi.le
  have := hi.cap
  exact ⟨hlt, hB.dvd_of_lt hlt, by omega, by omega, by omega⟩

variable [DecidableEq σ]

theorem Chan.queue_cases (hs : s.step B M l = some s') :
    s'.queue = s.queue ∨ ∃ l', s.queue.step B l' = some s'.queue := by
  have hsend : ∀ t f p, s.startSend B t f p = some s' → ∃ l', s.queue.step B l' = some s'.queue := by
    intro t f p h
    simp only [startSend, Option.ite_none_right_eq_some, Option.map_eq_some_iff] at h
    obtain ⟨-, queue, hq, rfl⟩ := h
    exact ⟨_, hq⟩
  cases l with
  | send t item => exact .inr (hsend _ _ _ hs)
  | sendWith t setter => exact .inr (hsend _ _ _ hs)
  | sendWithAsync t setter => exact .inr (hsend _ _ _ hs)
  | run u spurious =>
    obtain ⟨queue, hq, rfl⟩ := Option.map_eq_some_iff.mp hs
    exact .inr ⟨_, hq⟩
  | finish t =>
    obtain ⟨f, -, ⟨len, -, hs'⟩ | ⟨p, -, hs'⟩⟩ := Base.finish_cases hs <;> exact .inl (by rw [hs'])
  | create =>
    obtain ⟨rt, -, rfl⟩ := Option.map_eq_some_iff.mp hs
    exact .inl rfl
  | cancel j =>
    obtain ⟨rt, -, rfl⟩ := Option.map_eq_some_iff.mp hs
    exact .inl rfl
  | poll j w =>
    simp only [step, Option.bind_eq_bind, Option.bind_eq_some_iff, Option.pure_def, Option.some.injEq] at hs
    obtain ⟨rt, -, queue, hq, rfl⟩ := hs
    exact .inr ⟨_, hq⟩
  | pollNext j =>
    left
    simp only [step, pollNext] at hs
    split at hs <;> first | cases hs | (obtain ⟨rt, -, rfl⟩ := Option.map_eq_some_iff.mp hs; rfl)

theorem Chan.allKept_step (hb : Base M s) (hl : ∀ j, l ≠ .cancel j) (hs : s.step B M l = some s')
    (h : s.rt.AllKept) : s'.rt.AllKept := by
  have hsend : ∀ t f p, s.startSend B t f p = some s' → s'.rt.AllKept := by
    intro t f p hs
    simp only [startSend, Option.ite_none_right_eq_some, Option.map_eq_some_iff] at hs
    obtain ⟨-, queue, -, rfl⟩ := hs
    exact h
  cases l with
  | send t item => exact hsend _ _ _ hs
  | sendWith t setter => exact hsend _ _ _ hs
  | sendWithAsync t setter => exact hsend _ _ _ hs
  | run u spurious =>
    obtain ⟨queue, -, rfl⟩ := Option.map_eq_some_iff.mp hs
    exact h
  | finish t =>
    obtain ⟨f, -, ⟨len, -, rfl⟩ | ⟨p, -, rfl⟩⟩ := Base.finish_cases hs
    · cases wakeTarget M f len with
      | none => exact h
      | some i => exact h.wake i
    · exact h
  | create =>
    obtain ⟨rt, hc, rfl⟩ := Option.map_eq_some_iff.mp hs
    exact h.create hb.rt hc
  | cancel j => exact absurd rfl (hl j)
  | poll j w =>
    simp only [step, Option.bind_eq_bind, Option.bind_eq_some_iff, Option.pure_def, Option.some.injEq] at hs
    obtain ⟨rt, hp, queue, -, rfl⟩ := hs
    exact h.of_same (Runtime.sameStreams_poll hp) (Runtime.keep_of_poll hp)
  | pollNext j =>
    obtain ⟨-, rt, rfl, ⟨b, hc, -⟩ | hc⟩ := hb.pollNext_cases hs
    · exact h.of_same (Runtime.sameStreams_consumed hc) (Runtime.keep_of_consumed hc)
    · exact h.of_same (Runtime.sameStreams_pollRest hc) (Runtime.keep_of_pollRest hc)

theorem Chan.logs_step (hb : Base M s) (hs : s.step B M l = some s') :
    s.queue.published.length ≤ s'.queue.published.length ∧ s.queue.consumed.length ≤ s'.queue.consumed.length ∧
      ((∀ took ∈ s.queue.consumed, ∃ i, took.thread = .inr i) → ∀ took ∈ s'.queue.consumed, ∃ i, took.thread = .inr i) := by
  rcases Chan.queue_cases hs with hq | ⟨l', hq⟩
  · rw [hq]
    exact ⟨Nat.le_refl _, Nat.le_refl _, id⟩
  · rcases Sys.step_cases hq with ⟨t, o, -, -, he⟩ | ⟨u, hm⟩
    · rw [he]
      exact ⟨Nat.le_refl _, Nat.le_refl _, id⟩
    · refine ⟨hm.published_prefix.length_le, hm.consumed_prefix.length_le, fun hall took ht => ?_⟩
      rcases hm.consumed_cases with he | ⟨i, v, ho, -, -, he⟩
      · rw [he] at ht
        exact hall took ht
      · rw [he, List.mem_append, List.mem_singleton] at ht
        rcases ht with ht | rfl
        · exact hall took ht
        · cases u with
          | inl t =>
            have := hb.sender t
            rw [ho] at this
            cases this
          | inr j => exact ⟨j, rfl⟩

end Step

theorem Closing.chan_cases [DecidableEq σ] {s s' : Closing σ α} {l : Label σ α} (hs : s.step B M (.chan l) = some s') :
    (∀ j, l ≠ .cancel j) ∧ ∃ chan, s.chan.step B M l = some chan ∧ s' = { s with chan } := by
  cases l with
  | cancel j => cases hs
  | _ =>
    obtain ⟨chan, hc, rfl⟩ := Option.map_eq_some_iff.mp hs
    exact ⟨fun j he => (by cases he), chan, hc, rfl⟩

/-- What a run with few sends in progress keeps. -/
structure ClosingInv (B M : Nat) (s : Closing σ α) : Prop where
  base : Base M s.chan
  queue : ∃ g, AtomicMove.Inv B s.chan.queue g
  streams : ∀ took ∈ s.chan.queue.consumed, ∃ i, took.thread = .inr i
  closer : s.closer.Ok B s.before s.chan.queue.published.length s.chan.queue.consumed.length s.chan.rt

namespace ClosingInv
variable {s s' : Closing σ α}

theorem init (hM : Ring.PowerOfTwo M) (buffer : Nat → α) : ClosingInv B M (.init M buffer : Closing σ α) :=
  ⟨.init hM buffer, ⟨_, .init B buffer⟩, fun _ h => (by cases h), fun _ h => (by cases h), Nat.zero_le _⟩

theorem delivered (h : ClosingInv B M s) : s.Delivered := by
  intro j k hj hk n put hn hput
  obtain ⟨g, hg⟩ := h.queue
  have hle := h.closer.ended h.base.rt hj hk
  have hlt : n < s.chan.queue.consumed.length := by omega
  have htook : s.chan.queue.consumed[n]? = some s.chan.queue.consumed[n] := List.getElem?_eq_getElem hlt
  obtain ⟨i, hi⟩ := h.streams _ (List.getElem_mem hlt)
  have hv := (hg.tooks n _ htook).2
  rw [hput, Option.map_some, Option.some.injEq] at hv
  exact ⟨i, _, htook, hi, hv.symm⟩

/-- The tasks of the streams, and the flags, take a step that the queue does not see. -/
theorem of_rt {rt : Runtime} (h : ClosingInv B M s) (hok : rt.Ok M)
    (hpoll : ∀ j k, s.chan.rt.task j = some k → (s.chan.queue.op (.inr j)).atRest = false →
      ∃ k', rt.task j = some k' ∧ k'.phase = k.phase) {c : Closer}
    (hc : c.Ok B s.before s.chan.queue.published.length s.chan.queue.consumed.length rt) :
    ClosingInv B M { s with closer := c, chan.rt := rt } :=
  ⟨h.base.of_rt hok hpoll, h.queue, h.streams, hc⟩

theorem step [DecidableEq σ] {l : ClosingLabel (Label σ α)} (hB : Ring.PowerOfTwo B) (hlt : B < 2 ^ 32)
    (hM : Ring.PowerOfTwo M) (h : ClosingInv B M s) (hf : s.FewSends B) (hs : s.step B M l = some s') :
    ClosingInv B M s' := by
  obtain ⟨g, hg⟩ := h.queue
  cases l with
  | chan l =>
    obtain ⟨hl, chan, hc, rfl⟩ := Closing.chan_cases hs
    obtain ⟨hp, hr, hstreams⟩ := Chan.logs_step h.base hc
    refine ⟨h.base.step hc, ?_, hstreams h.streams, h.closer.mono hp hr (Chan.allKept_step h.base hl hc)⟩
    show ∃ g, AtomicMove.Inv B chan.queue g
    rcases Chan.queue_cases hc with hq | ⟨l', hq⟩
    · rw [hq]
      exact ⟨g, hg⟩
    · exact hg.step (h.base.close hB hlt hM hg (hf hlt)) hq
  | dropEnded j =>
    obtain ⟨rt, hd, rfl⟩ := Option.map_eq_some_iff.mp hs
    refine h.of_rt (h.base.rt.dropEnded hM hd) (fun i k hi hrest => ?_)
      (h.closer.mono (Nat.le_refl _) (Nat.le_refl _) fun hk => hk.dropEnded hd)
    obtain ⟨⟨k', hk', hended⟩, rfl⟩ := Runtime.dropEnded_cases hd
    refine ⟨k, (Function.update_of_ne ?_ _ _).trans hi, rfl⟩
    -- a stream inside `consume` has not ended
    rintro rfl
    obtain ⟨k₁, hk₁, hconsuming⟩ := h.base.polling i hrest
    cases hk₁.symm.trans hk'
    rw [hended] at hconsuming
    cases hconsuming
  | endAllStreams =>
    simp only [Closing.step, Option.ite_none_right_eq_some, Option.some.injEq] at hs
    obtain ⟨hidle, rfl⟩ := hs
    have hc := h.closer
    rw [hidle] at hc
    exact ⟨h.base, h.queue, h.streams, hc.1, Nat.le_refl _⟩
  | close =>
    obtain ⟨⟨closer, rt⟩, hc, rfl⟩ := Option.map_eq_some_iff.mp hs
    obtain ⟨hok, hph⟩ := Closer.step_rt h.base.rt hc
    refine h.of_rt hok (fun j k hj _ => hph j k hj) ?_
    rw [hg.tail, hg.head] at hc
    exact h.closer.step hlt hg.cap hc

end ClosingInv

theorem Closing.noSlots_step [DecidableEq σ] {s s' : Closing σ α} {l : ClosingLabel (Label σ α)} (hB : UInt32.ofNat B = 0)
    (h : NoSlots s.chan.queue) (hs : s.step B M l = some s') : NoSlots s'.chan.queue := by
  cases l with
  | chan l =>
    obtain ⟨-, chan, hc, rfl⟩ := Closing.chan_cases hs
    show NoSlots chan.queue
    rcases Chan.queue_cases hc with hq | ⟨l', hq⟩
    · rw [hq]
      exact h
    · exact h.step hB hq
  | dropEnded j =>
    obtain ⟨rt, -, rfl⟩ := Option.map_eq_some_iff.mp hs
    exact h
  | endAllStreams =>
    simp only [Closing.step, Option.ite_none_right_eq_some, Option.some.injEq] at hs
    obtain ⟨-, rfl⟩ := hs
    exact h
  | close =>
    obtain ⟨⟨closer, rt⟩, -, rfl⟩ := Option.map_eq_some_iff.mp hs
    exact h

theorem Closing.delivered_of_steps [DecidableEq σ] {s : Closing σ α} {buffer : Nat → α} (hB : Ring.PowerOfTwo B)
    (hM : Ring.PowerOfTwo M) (h : Machine.Steps (Closing.step B M) (fun _ _ s' => s'.FewSends B) (.init M buffer) s) :
    s.Delivered := by
  by_cases hlt : B < 2 ^ 32
  · have hinit : (Closing.init M buffer : Closing σ α).FewSends B := by
      intro _ F hF
      have hempty : F = ∅ := by
        refine Finset.eq_empty_of_forall_notMem fun t ht => ?_
        cases hF t ht
      rw [hempty, Finset.card_empty]
      omega
    have hI : ClosingInv B M s ∧ s.FewSends B := by
      refine h.invariant (I := fun s => ClosingInv B M s ∧ s.FewSends B) ?_ ⟨.init hM buffer, hinit⟩
      intro s l s' hi hs hf
      exact ⟨hi.1.step hB hlt hM hi.2 hs, hf⟩
    exact hI.1.delivered
  · have hzero := hB.ofNat_eq_zero (Nat.not_lt.mp hlt)
    have hI : NoSlots s.chan.queue := by
      refine h.invariant (I := fun s => NoSlots s.chan.queue) ?_ (.init buffer)
      intro s l s' hi hs _
      exact Closing.noSlots_step hzero hi hs
    intro j k _ _ n put _ hput
    rw [hI.published] at hput
    cases hput

end UniAtomic

/-! ### A graceful close delivers everything sent before it -/

theorem gracefulClose_delivers {σ α : Type} [DecidableEq σ] {B M : Nat} (hB : Ring.PowerOfTwo B) (hM : Ring.PowerOfTwo M)
    (buffer : Nat → α) :
    (∀ s : UniFullSync.Closing σ α,
      Machine.Steps (UniFullSync.Closing.step B M) (fun _ _ _ => True) (.init M buffer) s → s.Delivered) ∧
    (∀ s : UniAtomic.Closing σ α,
      Machine.Steps (UniAtomic.Closing.step B M) (fun _ _ s' => s'.FewSends B) (.init M buffer) s → s.Delivered) := by
  constructor
  · intro s hs
    exact (UniFullSync.ClosingInv.of_steps hB hM hs).delivered
  · intro s hs
    exact UniAtomic.Closing.delivered_of_steps hB hM hs

theorem UniAtomic.Closing.fewSends_of_card {σ α : Type} [Fintype σ] {B : Nat} (s : Closing σ α)
    (h : Fintype.card σ + B ≤ 2 ^ 32) : s.FewSends B := by
  intro _ F _
  have := Finset.card_le_univ F
  omega

/-- Two events are sent; the call finds them pending, and the only stream ends after it has taken both. -/
theorem gracefulClose_delivers_two :
    (∃ s : UniFullSync.Closing (Fin 2) Nat, (s.chan.rt.task 0).map Task.phase = some .ended ∧ s.before = 2 ∧
      s.taken = [7, 8] ∧ s.Delivered) ∧
    (∃ s : UniAtomic.Closing (Fin 2) Nat, (s.chan.rt.task 0).map Task.phase = some .ended ∧ s.before = 2 ∧
      s.chan.queue.consumed.map AtomicMove.Took.value = [7, 8] ∧ s.Delivered) := by
  constructor
  · have hrun : (Machine.exec (UniFullSync.Closing.step 2 1) (.init 1 fun _ => 0 : UniFullSync.Closing (Fin 2) Nat)
        [.chan .create, .chan (.send 0 7), .chan (.wake 0), .chan (.send 1 8), .endAllStreams, .close, .close, .close,
         .close, .chan (.poll 0 1), .chan (.pollNext 0), .chan (.poll 0 1), .chan (.pollNext 0), .close, .close, .close,
         .close, .chan (.poll 0 1), .chan (.pollNext 0), .chan (.pollNext 0)]).map
        (fun s => decide ((s.chan.rt.task 0).map Task.phase = some .ended ∧ s.before = 2 ∧ s.taken = [7, 8])) =
        some true := by decide +kernel
    obtain ⟨s, hs, ht⟩ := Option.map_eq_some_iff.mp hrun
    rw [decide_eq_true_iff] at ht
    have hd := (gracefulClose_delivers (σ := Fin 2) (B := 2) (M := 1) ⟨1, rfl⟩ ⟨0, rfl⟩ fun _ => (0 : Nat)).1 s
      (Machine.Path.of_exec hs).steps
    exact ⟨s, ht.1, ht.2.1, ht.2.2, hd⟩
  · have hrun : (Machine.exec (UniAtomic.Closing.step 2 1) (.init 1 fun _ => 0 : UniAtomic.Closing (Fin 2) Nat)
        [.chan .create, .chan (.send 0 7), .chan (.run (.inl 0) false), .chan (.run (.inl 0) false),
         .chan (.run (.inl 0) false), .chan (.run (.inl 0) false), .chan (.finish 0), .chan (.send 1 8),
         .chan (.run (.inl 1) false), .chan (.run (.inl 1) false), .chan (.run (.inl 1) false),
         .chan (.run (.inl 1) false), .chan (.finish 1), .endAllStreams, .close, .close, .close, .close,
         .chan (.poll 0 1), .chan (.run (.inr 0) false), .chan (.run (.inr 0) false), .chan (.run (.inr 0) false),
         .chan (.run (.inr 0) false), .chan (.pollNext 0), .chan (.poll 0 1), .chan (.run (.inr 0) false),
         .chan (.run (.inr 0) false), .chan (.run (.inr 0) false), .chan (.run (.inr 0) false),
         .chan (.pollNext 0), .close, .close, .close, .close, .chan (.poll 0 1), .chan (.run (.inr 0) false),
         .chan (.run (.inr 0) false), .chan (.run (.inr 0) false), .chan (.pollNext 0), .chan (.pollNext 0)]).map
        (fun s => decide ((s.chan.rt.task 0).map Task.phase = some .ended ∧ s.before = 2 ∧
          s.chan.queue.consumed.map AtomicMove.Took.value = [7, 8])) = some true := by decide +kernel
    obtain ⟨s, hs, ht⟩ := Option.map_eq_some_iff.mp hrun
    rw [decide_eq_true_iff] at ht
    have hd := (gracefulClose_delivers (σ := Fin 2) (B := 2) (M := 1) ⟨1, rfl⟩ ⟨0, rfl⟩ fun _ => (0 : Nat)).2 s
      ((Machine.Path.of_exec hs).steps.mono fun _ _ s' _ => s'.fewSends_of_card (by simp))
    exact ⟨s, ht.1, ht.2.1, ht.2.2, hd⟩

/-! ### Forgetting threads -/

namespace AtomicMove
variable {α τ τ' : Type} {f : τ' → τ} {g : τ → τ'}

def Put.map (g : τ → τ') (e : Put τ α) : Put τ' α := ⟨g e.thread, e.call, e.slotId, e.payload, e.value⟩

def Took.map (g : τ → τ') (e : Took τ α) : Took τ' α := ⟨g e.thread, e.call, e.slotId, e.value⟩

/-- The threads `f t` only, which the logs call `g (f t)`. -/
def Sys.comap (f : τ' → τ) (g : τ → τ') (s : Sys τ α) : Sys τ' α where
  q := s.q
  op t := s.op (f t)
  calls t := s.calls (f t)
  published := s.published.map (Put.map g)
  consumed := s.consumed.map (Took.map g)

def Label.map (f : τ' → τ) : Label τ' α → Label τ α
  | .publish t p => .publish (f t) p
  | .consume t => .consume (f t)
  | .run t spurious answer => .run (f t) spurious answer

section Comap
variable [DecidableEq τ] [DecidableEq τ']

theorem update_comap (hg : ∀ t, g (f t) = t) {γ : Type} (x : τ → γ) (t : τ') (v : γ) :
    (fun u => Function.update x (f t) v (f u)) = Function.update (fun u => x (f u)) t v := by
  have hf : Function.Injective f := Function.LeftInverse.injective hg
  exact Function.update_comp_eq_of_injective x hf t v

theorem Sys.step_comap (hg : ∀ t, g (f t) = t) (B : Nat) (s : Sys τ α) (l : Label τ' α) :
    (s.comap f g).step B l = (s.step B (l.map f)).map (Sys.comap f g) := by
  have hcall : ∀ t o, (s.comap f g).call t o = (s.call (f t) o).map (Sys.comap f g) := by
    intro t o
    unfold Sys.call
    by_cases ht : (s.op (f t)).atRest = true
    · simp only [Sys.comap, ht, if_true, Option.map_some, Sys.setOp, update_comap hg]
    · simp only [Sys.comap, ht, if_false, Option.map_none, Bool.false_eq_true]
  cases l with
  | publish t p => exact hcall t _
  | consume t => exact hcall t _
  | run t spurious answer =>
    show Sys.run B (s.comap f g) t spurious answer = (Sys.run B s (f t) spurious answer).map _
    have hop : (s.comap f g).op t = s.op (f t) := rfl
    unfold Sys.run
    rw [hop]
    cases s.op (f t) <;>
      simp only [Sys.comap, apply_ite (Option.map _), Option.map_some, Option.map_none, Sys.setOp, update_comap hg,
        List.map_append, List.map_cons, List.map_nil, Put.map, Took.map, hg] <;> rfl

end Comap
end AtomicMove

namespace UniAtomic
open AtomicMove (Op Payload Sys Put Took)
variable {σ σ' α : Type} {B M : Nat} {f : σ' → σ} {g : σ → σ'}

def Chan.comap (f : σ' → σ) (g : σ → σ') (s : Chan σ α) : Chan σ' α :=
  ⟨s.queue.comap (Sum.map f id) (Sum.map g id), fun t => s.sending (f t), s.rt⟩

def Label.map (f : σ' → σ) : Label σ' α → Label σ α
  | .send t item => .send (f t) item
  | .sendWith t setter => .sendWith (f t) setter
  | .sendWithAsync t setter => .sendWithAsync (f t) setter
  | .run u spurious => .run (Sum.map f id u) spurious
  | .finish t => .finish (f t)
  | .create => .create
  | .cancel j => .cancel j
  | .poll j w => .poll j w
  | .pollNext j => .pollNext j

theorem sum_map_map (hg : ∀ t, g (f t) = t) (u : σ' ⊕ UInt32) : Sum.map g id (Sum.map f id u) = u := by
  cases u with
  | inl t => exact congrArg Sum.inl (hg t)
  | inr j => rfl

section Comap
variable [DecidableEq σ] [DecidableEq σ']

theorem Chan.step_comap (hg : ∀ t, g (f t) = t) (s : Chan σ α) (l : Label σ' α) :
    (s.comap f g).step B M l = (s.step B M (l.map f)).map (Chan.comap f g) := by
  have hq := AtomicMove.Sys.step_comap (sum_map_map (f := f) hg) B s.queue
  have hsend : ∀ t fn p, (s.comap f g).startSend B t fn p = (s.startSend B (f t) fn p).map (Chan.comap f g) := by
    intro t fn p
    have hp := hq (.publish (.inl t) p)
    unfold startSend
    by_cases ht : s.sending (f t) = none
    · have ht' : (s.comap f g).sending t = none := ht
      rw [if_pos ht, if_pos ht']
      show (Sys.step B (s.queue.comap _ _) _).map _ = _
      rw [hp, Option.map_map, Option.map_map]
      show Option.map _ (s.queue.step B (.publish (.inl (f t)) p)) = _
      refine congrArg (Option.map · _) (funext fun queue => ?_)
      simp only [Function.comp, Chan.comap, AtomicMove.update_comap hg]
    · have ht' : ¬ (s.comap f g).sending t = none := ht
      rw [if_neg ht, if_neg ht']
      rfl
  cases l with
  | send t item => exact hsend t _ _
  | sendWith t setter => exact hsend t _ _
  | sendWithAsync t setter => exact hsend t _ _
  | run u spurious =>
    show (Sys.step B (s.queue.comap _ _) _).map _ = _
    rw [hq, Option.map_map]
    show _ = ((s.queue.step B _).map _).map _
    rw [Option.map_map]
    rfl
  | finish t =>
    show Chan.finish M (s.comap f g) t = (Chan.finish M s (f t)).map _
    have hop : (s.comap f g).queue.op (.inl t) = s.queue.op (.inl (f t)) := rfl
    unfold Chan.finish
    rw [hop]
    show ((s.sending (f t)).bind _) = ((s.sending (f t)).bind _).map _
    cases s.sending (f t) with
    | none => rfl
    | some fn =>
      simp only [Option.bind_some]
      cases s.queue.op (.inl (f t)) <;> simp [Chan.comap, AtomicMove.update_comap hg]
  | create => 
    show (s.rt.create M).map _ = ((s.rt.create M).map _).map _
    rw [Option.map_map]
    rfl
  | cancel j =>
    show (s.rt.cancel j).map _ = ((s.rt.cancel j).map _).map _
    rw [Option.map_map]
    rfl
  | poll j w =>
    have hc := hq (.consume (.inr j))
    show ((s.rt.poll j w).bind fun rt => (Sys.step B (s.queue.comap _ _) _).bind fun queue => some _) =
      Option.map _ ((s.rt.poll j w).bind fun rt => (s.queue.step B (.consume (.inr j))).bind fun queue => some _)
    rw [hc]
    cases s.rt.poll j w with
    | none => rfl
    | some rt =>
      show ((s.queue.step B (.consume (.inr j))).map _).bind _ = ((s.queue.step B (.consume (.inr j))).bind _).map _
      cases s.queue.step B (.consume (.inr j)) with
      | none => rfl
      | some queue => rfl
  | pollNext j =>
    show Chan.pollNext (s.comap f g) j = (Chan.pollNext s j).map _
    have hop : (s.comap f g).queue.op (.inr j) = s.queue.op (.inr j) := rfl
    have hrt : (s.comap f g).rt = s.rt := rfl
    unfold Chan.pollNext
    rw [hop, hrt]
    split <;> first | rfl | (rw [Option.map_map]; rfl)

def Closing.comap (f : σ' → σ) (g : σ → σ') (s : Closing σ α) : Closing σ' α :=
  ⟨s.chan.comap f g, s.closer, s.before⟩

theorem Closing.step_comap (hg : ∀ t, g (f t) = t) (s : Closing σ α)
    (l : ClosingLabel (Label σ' α)) :
    (s.comap f g).step B M l = (s.step B M (l.map (Label.map f))).map (Closing.comap f g) := by
  cases l with
  | chan l =>
    have hc := Chan.step_comap (B := B) (M := M) hg s.chan l
    cases l with
    | cancel j => rfl
    | _ =>
      show (Chan.step B M (s.chan.comap f g) _).map _ = Option.map _ ((s.chan.step B M _).map _)
      rw [hc, Option.map_map, Option.map_map]
      rfl
  | dropEnded j =>
    show (s.chan.rt.dropEnded M j).map _ = ((s.chan.rt.dropEnded M j).map _).map _
    rw [Option.map_map]
    rfl
  | endAllStreams =>
    show (if s.closer = .idle then _ else _) = Option.map _ (if s.closer = .idle then _ else _)
    by_cases hidle : s.closer = .idle
    · rw [if_pos hidle, if_pos hidle, Option.map_some]
      simp [Closing.comap, Chan.comap, AtomicMove.Sys.comap]
    · rw [if_neg hidle, if_neg hidle, Option.map_none]
  | close =>
    show (s.closer.step M s.chan.queue.q.tail s.chan.queue.q.head s.chan.rt).map _ =
      ((s.closer.step M s.chan.queue.q.tail s.chan.queue.q.head s.chan.rt).map _).map _
    rw [Option.map_map]
    rfl

end Comap

/-! ### One send too many -/

namespace Closing

def opening : List (ClosingLabel (Label Nat Nat)) :=
  [.chan .create, .chan (.send 0 7), .chan (.run (.inl 0) false), .chan (.run (.inl 0) false), .chan (.run (.inl 0) false),
   .chan (.run (.inl 0) false), .chan (.finish 0), .endAllStreams]

/-- Thread 0 has sent 7 and `end_all_streams` was invoked. -/
def opened : Closing Nat Nat := (Machine.exec (Closing.step 1 1) (.init 1 fun _ => 0) opening).getD (.init 1 fun _ => 0)

theorem opened_eq : Machine.exec (Closing.step 1 1) (.init 1 fun _ => 0) opening = some opened := by
  have hsome : (Machine.exec (Closing.step 1 1) (.init 1 fun _ => 0) opening).isSome = true := by decide +kernel
  obtain ⟨s, hs⟩ := Option.isSome_iff_exists.mp hsome
  rw [opened, hs]
  rfl

def waits (n : Nat) : Nat ⊕ UInt32 → Bool
  | .inl t => 0 < t && t ≤ n
  | .inr _ => false

/-- The threads `1, .., n` have called `send(8)` and reserved the ids `1, .., n`. -/
def crowd (n : Nat) : Closing Nat Nat :=
  { opened with chan := { opened.chan with
      queue := { opened.chan.queue with
        q := { opened.chan.queue.q with enqueuerTail := UInt32.ofNat (n + 1) }
        op := fun u =>
          if waits n u then .leakCheck (.movable 8) (UInt32.ofNat (u.elim id fun _ => 0)) else opened.chan.queue.op u
        calls := fun u => if waits n u then 1 else opened.chan.queue.calls u }
      sending := fun t => if waits n (.inl t) then some .send else opened.chan.sending t } }

theorem crowd_zero : crowd 0 = opened := by
  have hw : ∀ u, waits 0 u = false := by
    rintro (t | j)
    · simp only [waits, Bool.and_eq_false_iff, decide_eq_false_iff_not]
      omega
    · rfl
  simp only [crowd, hw, Bool.false_eq_true, if_false]
  rfl

theorem waits_succ (n : Nat) (u : Nat ⊕ UInt32) : waits (n + 1) u = true ↔ u = .inl (n + 1) ∨ waits n u = true := by
  rcases u with t | j
  · simp only [waits, Bool.and_eq_true, decide_eq_true_eq, Sum.inl.injEq]
    omega
  · simp [waits]

theorem update_ite {ι γ : Type} [DecidableEq ι] {p r : ι → Bool} {i : ι} (h : ∀ u, r u = true ↔ u = i ∨ p u = true)
    (a b : ι → γ) : Function.update (fun u => if p u then a u else b u) i (a i) = fun u => if r u then a u else b u := by
  funext u
  by_cases hu : u = i
  · subst hu
    rw [Function.update_self, if_pos ((h u).mpr (.inl rfl))]
  · rw [Function.update_of_ne hu]
    exact if_congr (by rw [h]; simp [hu]) rfl rfl

theorem reserves {s : Closing Nat Nat} {t : Nat} (ho : s.chan.queue.op (.inl t) = .idle) (hs : s.chan.sending t = none) :
    Machine.exec (Closing.step 1 1) s [.chan (.send t 8), .chan (.run (.inl t) false)] =
      some { s with chan := { s.chan with
        queue := { s.chan.queue with
          q := { s.chan.queue.q with enqueuerTail := s.chan.queue.q.enqueuerTail + 1 }
          op := Function.update s.chan.queue.op (.inl t) (.leakCheck (.movable 8) s.chan.queue.q.enqueuerTail)
          calls := Function.update s.chan.queue.calls (.inl t) (s.chan.queue.calls (.inl t) + 1) }
        sending := Function.update s.chan.sending t (some .send) } } := by
  simp only [Machine.exec_cons, Closing.step, Chan.step, Chan.startSend, hs, if_true, Sys.step, Sys.call, ho, Op.atRest,
    Option.map_some, Option.bind_some, Sys.run, Sys.setOp, Function.update_self, Function.update_idem]
  rfl

theorem crowd_succ (n : Nat) : Machine.exec (Closing.step 1 1) (crowd n)
    [.chan (.send (n + 1) 8), .chan (.run (.inl (n + 1)) false)] = some (crowd (n + 1)) := by
  have hw : ¬ waits n (.inl (n + 1)) = true := by simp [waits]
  have hcalls : (crowd n).chan.queue.calls (.inl (n + 1)) = 0 := if_neg hw
  have henq : (crowd n).chan.queue.q.enqueuerTail = UInt32.ofNat (n + 1) := rfl
  have hop : Function.update (crowd n).chan.queue.op (.inl (n + 1)) (.leakCheck (.movable 8) (UInt32.ofNat (n + 1))) =
      (crowd (n + 1)).chan.queue.op :=
    update_ite (waits_succ n) (fun u => Op.leakCheck (.movable 8) (UInt32.ofNat (u.elim id fun _ => 0)))
      opened.chan.queue.op
  have hcalls' : Function.update (crowd n).chan.queue.calls (.inl (n + 1)) (0 + 1) =
      (crowd (n + 1)).chan.queue.calls := update_ite (waits_succ n) (fun _ => 1) _
  have hsending : Function.update (crowd n).chan.sending (n + 1) (some .send) = (crowd (n + 1)).chan.sending := by
    refine update_ite (p := fun t => waits n (.inl t)) (r := fun t => waits (n + 1) (.inl t)) (fun t => ?_)
      (fun _ => some SendFn.send) opened.chan.sending
    rw [waits_succ, Sum.inl.injEq]
  rw [reserves (if_neg hw) (if_neg hw), hcalls, henq, hop, hcalls', hsending, ← Wrap.ofNat_succ]
  rfl

theorem steps_crowd (n : Nat) : Machine.Steps (Closing.step 1 1) (fun _ _ _ => True) opened (crowd n) := by
  induction n with
  | zero => rw [crowd_zero]
  | succ n ih => exact ih.trans (Machine.Path.of_exec (crowd_succ n)).steps

/-- The last thread of the crowd finds slot 0 free and writes to it; the stream takes what it wrote and, once the
call has counted and cancelled, ends. -/
def closing {σ : Type} (last : σ) : List (ClosingLabel (Label σ Nat)) :=
  [.chan (.run (.inl last) false), .chan (.run (.inl last) false), .chan (.poll 0 1), .chan (.run (.inr 0) false),
   .chan (.run (.inr 0) false), .chan (.run (.inr 0) false), .chan (.run (.inr 0) false), .chan (.pollNext 0),
   .close, .close, .close, .close, .chan (.poll 0 1), .chan (.run (.inr 0) false), .chan (.run (.inr 0) false),
   .chan (.run (.inr 0) false), .chan (.pollNext 0), .chan (.pollNext 0)]

def senders : Fin 2 → Nat
  | 0 => 0
  | 1 => 2 ^ 32

def ofSender {σ : Type} (first last : σ) (t : Nat) : σ := if t = 0 then first else last

theorem closing_run : (Machine.exec (step 1 1) ((crowd (2 ^ 32)).comap senders (ofSender 0 1)) (closing 1)).map
    (fun s => decide ((s.chan.rt.task 0).map Task.phase = some .ended ∧ s.before = 1 ∧
      s.chan.queue.published.map Put.value = [7] ∧ s.chan.queue.consumed.map Took.value = [8])) = some true := by
  decide +kernel

end Closing
end UniAtomic

/-- With `2 ^ 32` sends in progress after it, an event is overwritten before it is consumed: the only stream ends
and the event was never returned. -/
theorem overwritten_run : ∃ s : UniAtomic.Closing Nat Nat,
    Machine.Steps (UniAtomic.Closing.step 1 1) (fun _ _ _ => True) (.init 1 fun _ => 0) s ∧ ¬ s.Delivered := by
  obtain ⟨s', hs', ht⟩ := Option.map_eq_some_iff.mp UniAtomic.Closing.closing_run
  rw [decide_eq_true_iff] at ht
  obtain ⟨hended, hbefore, hpublished, hconsumed⟩ := ht
  have hnames : ∀ t, UniAtomic.Closing.ofSender 0 1 (UniAtomic.Closing.senders t) = t := by decide
  rw [Machine.exec_map (UniAtomic.Closing.step_comap hnames)] at hs'
  obtain ⟨s, hs, rfl⟩ := Option.map_eq_some_iff.mp hs'
  refine ⟨s, ?_, fun hd => ?_⟩
  · have h₁ := (Machine.Path.of_exec UniAtomic.Closing.opened_eq).steps
    have h₂ := (Machine.Path.of_exec hs).steps
    exact (h₁.trans (UniAtomic.Closing.steps_crowd (2 ^ 32))).trans h₂
  · have hput : s.chan.queue.published.map AtomicMove.Put.value = [7] :=
      (List.map_map (f := AtomicMove.Put.map _) (l := s.chan.queue.published)).symm.trans hpublished
    have htook : s.chan.queue.consumed.map AtomicMove.Took.value = [8] :=
      (List.map_map (f := AtomicMove.Took.map _) (l := s.chan.queue.consumed)).symm.trans hconsumed
    obtain ⟨k, hk, hph⟩ := Option.map_eq_some_iff.mp hended
    obtain ⟨put, hput', hp⟩ := List.map_eq_singleton_iff.mp hput
    obtain ⟨took, htook', ht⟩ := List.map_eq_singleton_iff.mp htook
    have hlt : 0 < s.before := Nat.lt_of_lt_of_eq Nat.zero_lt_one hbefore.symm
    obtain ⟨i, took', he, -, hv⟩ := hd 0 k hk hph 0 put hlt (by rw [hput']; rfl)
    rw [htook'] at he
    cases he
    rw [hp, ht] at hv
    cases hv

end Mutiny
