import Mutiny.AtomicMoveSafety
import Mutiny.FullSyncSteps
import Mutiny.Lib.TwoLoads

/-!
# `available_elements_count()` while others publish and consume

Both queues answer with the difference of two loads, of `tail` and then of `head`, between which any number of other
calls may run; `FullSyncMove` does not take its lock for it.
-/

namespace Mutiny
open TwoLoads (Counts Observed InTime)

namespace AtomicMove
variable {α τ : Type} {B : Nat} {s s' : Sys τ α}

/-- The invariant, with room for elements or without. -/
structure Counting (B : Nat) (s : Sys τ α) : Prop where
  few : s.FewIds B
  inv : (B < 2 ^ 32 ∧ B ∣ 2 ^ 32 ∧ ∃ g, Inv B s g) ∨ (UInt32.ofNat B = 0 ∧ (∃ g, Inv 1 s g) ∧ NoSlots s)

theorem Counting.init (hB : Ring.PowerOfTwo B) (buffer : Nat → α) : Counting B (.init buffer : Sys τ α) := by
  refine ⟨.init hB buffer, ?_⟩
  rcases hB.room_cases with ⟨-, hle, hdvd⟩ | hroom
  · exact .inl ⟨by omega, hdvd, _, .init B buffer⟩
  · exact .inr ⟨UInt32.toNat_inj.mp hroom, ⟨_, .init 1 buffer⟩, .init buffer⟩

theorem Counting.counters (h : Counting B s) : s.q.tail = UInt32.ofNat s.published.length ∧
    s.q.head = UInt32.ofNat s.consumed.length ∧ s.published.length ≤ s.consumed.length + B := by
  rcases h.inv with ⟨-, -, g, hg⟩ | ⟨-, ⟨g, hg⟩, hno⟩
  · exact ⟨hg.tail, hg.head, hg.cap⟩
  · refine ⟨hg.tail, hg.head, ?_⟩
    rw [hno.published]
    exact Nat.zero_le _

variable [DecidableEq τ]

theorem Counting.step {l : Label τ α} (h : Counting B s) (hs : s.step B l = some s') (hf : s'.FewIds B) :
    Counting B s' := by
  refine ⟨hf, ?_⟩
  rcases h.inv with ⟨hlt, hdvd, g, hg⟩ | ⟨hB, ⟨g, hg⟩, hno⟩
  · exact .inl ⟨hlt, hdvd, hg.step (hg.close_of_few hlt hdvd h.few) hs⟩
  · exact .inr ⟨hB, hno.inv_step hB hg (hno.close hg h.few) hs, hno.step hB hs⟩

theorem logs_of_step {l : Label τ α} (hs : s.step B l = some s') :
    s.published.length ≤ s'.published.length ∧ s.consumed.length ≤ s'.consumed.length := by
  rcases Sys.step_cases hs with ⟨t, o, -, -, rfl⟩ | ⟨t, hm⟩
  · exact ⟨le_refl _, le_refl _⟩
  · exact ⟨hm.published_prefix.length_le, hm.consumed_prefix.length_le⟩

theorem counts (B : Nat) : Counts (Sys.step B) (fun _ _ s' => s'.FewIds B) (Counting B) (fun s : Sys τ α => s.q.tail)
    (fun s => s.q.head) (fun s => s.published.length) (fun s => s.consumed.length) B where
  keep h hs hok := h.step hs hok
  tail h := h.counters.1
  head h := h.counters.2.1
  cap h := h.counters.2.2
  entered_le _ hs _ := (logs_of_step hs).1
  left_le _ hs _ := (logs_of_step hs).2

end AtomicMove

namespace FullSyncMove
variable {α τ : Type} [DecidableEq τ] {B : Nat}

theorem counts (hB : Ring.PowerOfTwo B) : Counts (Sys.step B) (fun _ _ _ => True) (Inv B) (fun s : Sys τ α => s.q.tail)
    (fun s => s.q.head) (fun s => s.published) (fun s => s.consumed) B where
  keep h hs _ := h.step hs
  tail h := h.tail
  head h := h.head
  cap h := h.cap.trans (Nat.add_le_add_left hB.room_le_self _)
  entered_le _ hs _ := (Sys.counts_of_step hs).1
  left_le _ hs _ := (Sys.counts_of_step hs).2

end FullSyncMove

/-! ### What the observers are told -/

section Observers
variable {σ β ω : Type} [DecidableEq ω] {step : σ → β → Option σ} {ok : σ → β → σ → Prop} {inv : σ → Prop}
  {tail head : σ → UInt32} {entered left : σ → Nat} {B : Nat}

/-- A length that is at most `BUFFER_SIZE`: it can be taken from the size of the pool, and is not negative as an `i32`,
provided that `BUFFER_SIZE` is not. -/
def SaneLen (B : Nat) (len : UInt32) : Prop := len.toNat ≤ B ∧ (B < 2 ^ 31 → 0 ≤ len.toInt32)

theorem saneLen_of_le {len : UInt32} (h : len.toNat ≤ B) : SaneLen B len := by
  refine ⟨h, fun hB => ?_⟩
  rw [Int32.le_iff_toInt_le, Wrap.toInt_toInt32, Int32.toInt_zero, if_pos (by omega)]
  omega

/-- Lengths returned in time are sane; those returned too late are not, unless the counters have gone round. -/
def Observes (step : σ → β → Option σ) (ok : σ → β → σ → Prop) (tail head : σ → UInt32) (entered left : σ → Nat)
    (B : Nat) (s : σ) (ω : Type) [DecidableEq ω] : Prop :=
  ∀ x : Observed σ ω, Machine.Steps (TwoLoads.observe step tail head entered) (InTime left ok) (TwoLoads.start s) x →
    (∀ o len, x.returned o = some len → SaneLen B len) ∧
    ∀ o t n x', x.loaded o = some (t, n) → n < left x.sys → left x.sys + B < n + 2 ^ 32 →
      TwoLoads.observe step tail head entered x (.loadHead o) = some x' →
      ∃ len, x'.returned o = some len ∧ ¬ SaneLen B len

theorem observes_of_counts {s : σ} (hc : Counts step ok inv tail head entered left B) (hs : inv s) :
    Observes step ok tail head entered left B s ω := by
  intro x h
  have hok := hc.ok_of_steps hs h
  constructor
  · intro o len ho
    exact saneLen_of_le (hok.returned o len ho)
  · intro o t n x' ho hlt hround hs'
    obtain ⟨len, hlen, hB⟩ := hok.late hc ho hlt hround hs'
    exact ⟨len, hlen, fun hsane => absurd hsane.1 (by omega)⟩

end Observers

/-- The length observer of both queues, by any number of threads, while any number of others publish and consume. -/
theorem available_elements_sane {α τ ω : Type} [DecidableEq τ] [DecidableEq ω] {B : Nat} (hB : Ring.PowerOfTwo B)
    (buffer : Nat → α) :
    Observes (AtomicMove.Sys.step B) (fun _ _ s' => s'.FewIds B) (fun s => s.q.tail) (fun s => s.q.head)
      (fun s => s.published.length) (fun s => s.consumed.length) B (.init buffer : AtomicMove.Sys τ α) ω ∧
    Observes (FullSyncMove.Sys.step B) (fun _ _ _ => True) (fun s => s.q.tail) (fun s => s.q.head)
      (fun s => s.published) (fun s => s.consumed) B (.init buffer : FullSyncMove.Sys τ α) ω :=
  ⟨observes_of_counts (AtomicMove.counts B) (.init hB buffer), observes_of_counts (FullSyncMove.counts hB) (.init B buffer)⟩

section Runs
open TwoLoads (observe start)

/-- One observer loads `tail` between two halves of a run, and `head` at the end. -/
def observedRun {β : Type} (l l' : List β) : List (TwoLoads.Label β Unit) :=
  l.map .sys ++ .loadTail () :: (l'.map .sys ++ [.loadHead ()])

/-- Queues of two: an element published, `tail` loaded, the element consumed, `head` loaded. -/
theorem available_elements_sane_one :
    (∃ x : Observed (AtomicMove.Sys (Fin 2) Nat) Unit, x.returned () = some 0 ∧
      ∀ o len, x.returned o = some len → SaneLen 2 len) ∧
    ∃ x : Observed (FullSyncMove.Sys (Fin 2) Nat) Unit, x.returned () = some 0 ∧
      ∀ o len, x.returned o = some len → SaneLen 2 len := by
  obtain ⟨hatomic, hsync⟩ := available_elements_sane (τ := Fin 2) (ω := Unit) (B := 2) ⟨1, rfl⟩ (fun _ => 0)
  constructor
  · have hrun : (Machine.exec (Machine.restrict (observe (AtomicMove.Sys.step 2) (fun s => s.q.tail) (fun s => s.q.head)
          fun s => s.published.length) fun x l _ => TwoLoads.onTime (fun s => s.consumed.length) x l)
        (start (.init fun _ => 0) : Observed (AtomicMove.Sys (Fin 2) Nat) Unit) (observedRun
        [.publish 0 (.movable 7), .run 0 false false, .run 0 false false, .run 0 false false, .run 0 false false]
        [.consume 1, .run 1 false false, .run 1 false false, .run 1 false false, .run 1 false false])).map
        (fun x => decide (x.returned () = some 0)) = some true := by decide +kernel
    obtain ⟨x, hx, ht⟩ := Option.map_eq_some_iff.mp hrun
    rw [decide_eq_true_iff] at ht
    refine ⟨x, ht, (hatomic x (Machine.Path.of_exec_restrict ?_ hx).steps).1⟩
    intro x l x' hok
    exact TwoLoads.inTime_of_onTime (fun _ _ s' => .of_card s' (by decide) (by decide)) hok
  · have hrun : (Machine.exec (Machine.restrict (observe (FullSyncMove.Sys.step 2) (fun s => s.q.tail) (fun s => s.q.head)
          fun s => s.published) fun x l _ => TwoLoads.onTime (fun s => s.consumed) x l)
        (start (.init fun _ => 0) : Observed (FullSyncMove.Sys (Fin 2) Nat) Unit) (observedRun
        [.publish 0 (.movable 7), .run 0 false, .run 0 false, .run 0 false, .run 0 false, .run 0 false]
        [.consume 1, .run 1 false, .run 1 false, .run 1 false, .run 1 false, .run 1 false])).map
        (fun x => decide (x.returned () = some 0)) = some true := by decide +kernel
    obtain ⟨x, hx, ht⟩ := Option.map_eq_some_iff.mp hrun
    rw [decide_eq_true_iff] at ht
    refine ⟨x, ht, (hsync x (Machine.Path.of_exec_restrict ?_ hx).steps).1⟩
    intro x l x' hok
    exact TwoLoads.inTime_of_onTime (fun _ _ _ => trivial) hok

/-- Queues of two: `tail` loaded after an element has been published, `head` after that one and the next have been
consumed. -/
theorem stale_len_run :
    (∃ x : Observed (AtomicMove.Sys (Fin 2) Nat) Unit,
      Machine.Steps (observe (AtomicMove.Sys.step 2) (fun s => s.q.tail) (fun s => s.q.head) fun s => s.published.length)
        (fun _ _ x' => x'.sys.FewIds 2) (start (.init fun _ => 0)) x ∧ x.returned () = some 4294967295) ∧
    (∃ x : Observed (FullSyncMove.Sys (Fin 2) Nat) Unit,
      Machine.Steps (observe (FullSyncMove.Sys.step 2) (fun s => s.q.tail) (fun s => s.q.head) fun s => s.published)
        (fun _ _ _ => True) (start (.init fun _ => 0)) x ∧ x.returned () = some 4294967295) ∧
    2 < (4294967295 : UInt32).toNat ∧ (4294967295 : UInt32).toInt32 = -1 := by
  refine ⟨?_, ?_, by decide, by decide⟩
  · have hrun : (Machine.exec (observe (AtomicMove.Sys.step 2) (fun s => s.q.tail) (fun s => s.q.head)
          fun s => s.published.length)
        (start (.init fun _ => 0) : Observed (AtomicMove.Sys (Fin 2) Nat) Unit) (observedRun
        [.publish 0 (.movable 7), .run 0 false false, .run 0 false false, .run 0 false false, .run 0 false false]
        [.consume 1, .run 1 false false, .run 1 false false, .run 1 false false, .run 1 false false,
         .publish 0 (.movable 8), .run 0 false false, .run 0 false false, .run 0 false false, .run 0 false false,
         .consume 1, .run 1 false false, .run 1 false false, .run 1 false false, .run 1 false false])).map
        (fun x => decide (x.returned () = some 4294967295)) = some true := by decide +kernel
    obtain ⟨x, hx, ht⟩ := Option.map_eq_some_iff.mp hrun
    rw [decide_eq_true_iff] at ht
    exact ⟨x, (Machine.Path.of_exec hx).steps.mono fun _ _ x' _ => .of_card x'.sys (by decide) (by decide), ht⟩
  · have hrun : (Machine.exec (observe (FullSyncMove.Sys.step 2) (fun s => s.q.tail) (fun s => s.q.head)
          fun s => s.published)
        (start (.init fun _ => 0) : Observed (FullSyncMove.Sys (Fin 2) Nat) Unit) (observedRun
        [.publish 0 (.movable 7), .run 0 false, .run 0 false, .run 0 false, .run 0 false, .run 0 false]
        [.consume 1, .run 1 false, .run 1 false, .run 1 false, .run 1 false, .run 1 false,
         .publish 0 (.movable 8), .run 0 false, .run 0 false, .run 0 false, .run 0 false, .run 0 false,
         .consume 1, .run 1 false, .run 1 false, .run 1 false, .run 1 false, .run 1 false])).map
        (fun x => decide (x.returned () = some 4294967295)) = some true := by decide +kernel
    obtain ⟨x, hx, ht⟩ := Option.map_eq_some_iff.mp hrun
    rw [decide_eq_true_iff] at ht
    exact ⟨x, (Machine.Path.of_exec hx).steps, ht⟩

end Runs

end Mutiny
