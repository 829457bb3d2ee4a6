import Mutiny.StreamLife
import Mutiny.UniFullSync

/-!
# `end_all_streams(Duration::ZERO)` and the movable `FullSync` channel

Without a timeout `flush` returns when `pending_items_count` was read as zero, and only then are the streams
cancelled. The count is read in two loads, `tail` first: since `head` only grows, `tail - head = 0` means
that everything published by the time of the first load has been released by the time of the second one
(`Closer.Ok`). A stream that finds its flag cleared therefore ends after that.

`before` is how many events had been published when `end_all_streams` was invoked, those of all the sends
completed by then among them. A critical section of `FullSyncMove` writes `head` or `tail` once, so it is one
step also for `pending_items_count`, which reads them without the lock.
-/

namespace Mutiny

namespace Runtime
variable {M : Nat} {r r' : Runtime} {i j : UInt32} {k : Task}

/-- A stream that has returned `Ready(None)` is dropped. -/
def dropEnded (M : Nat) (r : Runtime) (j : UInt32) : Option Runtime :=
  if (r.task j).map Task.phase = some .ended then
    some ⟨r.streams.reportStreamDropped M j, Function.update r.task j none⟩
  else none

def clearKeep (r : Runtime) (j : UInt32) : Runtime := { r with streams := r.streams.setKeepRunning j false }

theorem Ok.clearKeep (h : r.Ok M) (j : UInt32) : (r.clearKeep j).Ok M := by
  refine ⟨h.wf, h.nodup, h.vacant, h.vacant_lt, h.lt, h.reg, fun i k hi he => ?_⟩
  by_cases hij : i = j
  · subst hij; exact Function.update_self ..
  · exact (Function.update_of_ne hij _ _).trans (h.ended i k hi he)

theorem dropEnded_cases (h : r.dropEnded M j = some r') : (∃ k, r.task j = some k ∧ k.phase = .ended) ∧
    r' = ⟨r.streams.reportStreamDropped M j, Function.update r.task j none⟩ := by
  simp only [dropEnded, Option.map_eq_some_iff, Option.ite_none_right_eq_some, Option.some.injEq] at h
  exact ⟨h.1, h.2.symm⟩

theorem Ok.dropEnded (hM : Ring.PowerOfTwo M) (h : r.Ok M) (hd : r.dropEnded M j = some r') : r'.Ok M := by
  obtain ⟨⟨k, hk, -⟩, rfl⟩ := dropEnded_cases hd
  have hj : (r.task j).isSome := by rw [hk]; rfl
  have hnv : j ∉ r.streams.vacantStreams.elems M := by
    intro hv
    rw [h.vacant j hv] at hk
    cases hk
  -- the id goes back to the vacant ones, unless there is no room for it
  obtain ⟨hwf, hnd, hel⟩ : (r.streams.vacantStreams.publishMovable M j).1.WellFormed M ∧
      ((r.streams.vacantStreams.publishMovable M j).1.elems M).Nodup ∧
      ∀ x ∈ (r.streams.vacantStreams.publishMovable M j).1.elems M,
        Function.update r.task j none x = none ∧ x < UInt32.ofNat M := by
    have hold : ∀ x ∈ r.streams.vacantStreams.elems M, Function.update r.task j none x = none ∧ x < UInt32.ofNat M := by
      intro x hx
      have hne : x ≠ j := by rintro rfl; exact hnv hx
      exact ⟨(Function.update_of_ne hne _ _).trans (h.vacant x hx), h.vacant_lt x hx⟩
    rcases LawfulMoveContainer.publish_cases (C := FullSyncMove) hM h.wf j with ⟨q, hq, hwf, hel, -⟩ | ⟨hq, -⟩
    · have hq' : (r.streams.vacantStreams.publishMovable M j).1 = q := congrArg Prod.fst hq
      have hel' : q.elems M = r.streams.vacantStreams.elems M ++ [j] := hel
      rw [hq', hel']
      refine ⟨hwf, ?_, fun x hx => ?_⟩
      · exact h.nodup.append (List.nodup_singleton j) fun x hx hx' => hnv (List.mem_singleton.mp hx' ▸ hx)
      · rcases List.mem_append.mp hx with hx | hx
        · exact hold x hx
        · rw [List.mem_singleton] at hx
          subst hx
          exact ⟨Function.update_self .., h.lt x hj⟩
    · have hq' : (r.streams.vacantStreams.publishMovable M j).1 = r.streams.vacantStreams := congrArg Prod.fst hq
      rw [hq']
      exact ⟨h.wf, h.nodup, hold⟩
  have hdead : ∀ {i k}, Function.update r.task j none i = some k → i ≠ j ∧ r.task i = some k := by
    intro i k hi
    by_cases hij : i = j
    · subst hij; rw [Function.update_self] at hi; cases hi
    · exact ⟨hij, by rwa [Function.update_of_ne hij] at hi⟩
  refine ⟨hwf, hnd, fun x hx => (hel x hx).1, fun x hx => (hel x hx).2, fun i hi => ?_, fun i k hi => ?_,
    fun i k hi => h.ended i k (hdead hi).2⟩
  · obtain ⟨k, hk⟩ := Option.isSome_iff_exists.mp hi
    exact h.lt i (by rw [(hdead hk).2]; rfl)
  · show k.RegOk (Function.update r.streams.wakers j none i)
    rw [Function.update_of_ne (hdead hi).1]
    exact h.reg i k (hdead hi).2

theorem AllKept.of_same (h : r.AllKept) (hs : SameStreams r r')
    (hk : r'.streams.keepStreamsRunning = r.streams.keepStreamsRunning) : r'.AllKept := by
  intro j hj
  rw [hk]
  exact h j (by rwa [hs.isSome] at hj)

theorem AllKept.wake (h : r.AllKept) (j : UInt32) : (r.wake j).AllKept := h.of_same (sameStreams_wake r j) rfl

theorem AllKept.create (h : r.AllKept) (ho : r.Ok M) (hc : r.create M = some r') : r'.AllKept := by
  obtain ⟨id, -, -, ht, -, hk, -⟩ := create_cases ho hc
  intro j hj
  rw [hk]
  by_cases hid : j = id
  · subst hid; exact Function.update_self ..
  · rw [Function.update_of_ne hid]
    exact h j (by rwa [ht, Function.update_of_ne hid] at hj)

theorem AllKept.dropEnded (h : r.AllKept) (hd : r.dropEnded M j = some r') : r'.AllKept := by
  obtain ⟨-, rfl⟩ := dropEnded_cases hd
  intro i hi
  refine h i ?_
  by_cases hij : i = j
  · subst hij; simp at hi
  · simpa [Function.update_of_ne hij] using hi

end Runtime

/-! ### The call -/

/-- Where the call of `end_all_streams(Duration::ZERO)` stands. -/
inductive Closer
  | idle
  -- `flush`: about to load `tail`
  | loadTail
  -- `flush`: about to load `head`
  | loadHead (tail : UInt32)
  -- `wake_all_streams`, followed by the next round of `flush`
  | wakeAll (streamId : UInt32)
  -- `cancel_all_streams`: about to look at `used_streams[i]`
  | cancelAll (i : Nat)
  -- `cancel_stream(stream_id)`: about to wake the stream
  | wakeCancelled (i : Nat) (streamId : UInt32)
  -- `while running_streams_count() > 0`
  | waiting
  | returned
deriving DecidableEq

namespace Closer

/-- The next step of the call, `tail` and `head` being the counters of the queue. -/
def step (M : Nat) (tail head : UInt32) (rt : Runtime) : Closer → Option (Closer × Runtime)
  | .idle | .returned => none
  | .loadTail => some (.loadHead tail, rt)
  | .loadHead tail =>
    let pendingItemsCount := tail - head
    if pendingItemsCount > 0 then some (.wakeAll 0, rt) else some (.cancelAll 0, rt)
  | .wakeAll streamId =>
    if streamId < UInt32.ofNat M ∧ streamId ≠ u32Max then some (.wakeAll (streamId + 1), rt.wake streamId)
    else some (.loadTail, rt)
  | .cancelAll i =>
    match rt.streams.usedStreams[i]? with
    | some streamId =>
      if streamId = u32Max then some (.waiting, rt) else some (.wakeCancelled i streamId, rt.clearKeep streamId)
    | none => some (.waiting, rt)
  | .wakeCancelled i streamId => some (.cancelAll (i + 1), rt.wake streamId)
  | .waiting => if rt.streams.runningStreamsCount > 0 then some (.waiting, rt) else some (.returned, rt)

/-- What the call is good for, `published` and `released` elements into the life of a queue that holds at most
`room` of them. -/
def Ok (room before published released : Nat) (rt : Runtime) : Closer → Prop
  | .idle | .loadTail | .wakeAll _ => rt.AllKept ∧ before ≤ published
  | .loadHead tail => rt.AllKept ∧ ∃ t, tail = UInt32.ofNat t ∧ before ≤ t ∧ t ≤ published ∧ t ≤ released + room
  | .cancelAll _ | .wakeCancelled _ _ | .waiting | .returned => before ≤ released

variable {M room before published published' released released' : Nat} {rt rt' : Runtime} {c c' : Closer}

theorem Ok.mono (h : c.Ok room before published released rt) (hp : published ≤ published')
    (hr : released ≤ released') (hk : rt.AllKept → rt'.AllKept) : c.Ok room before published' released' rt' := by
  cases c with
  | idle | loadTail | wakeAll => exact ⟨hk h.1, Nat.le_trans h.2 hp⟩
  | loadHead =>
    obtain ⟨h₁, t, ht, h₂, h₃, h₄⟩ := h
    exact ⟨hk h₁, t, ht, h₂, by omega, by omega⟩
  | cancelAll | wakeCancelled | waiting | returned => exact Nat.le_trans h hr

theorem Ok.step (h : c.Ok room before published released rt) (hroom : room < 2 ^ 32) (hle : published ≤ released + room)
    (hs : c.step M (UInt32.ofNat published) (UInt32.ofNat released) rt = some (c', rt')) :
    c'.Ok room before published released rt' := by
  cases c with
  | idle | returned => cases hs
  | loadTail =>
    cases hs
    exact ⟨h.1, published, rfl, h.2, Nat.le_refl _, hle⟩
  | loadHead tail =>
    obtain ⟨hk, t, rfl, h₁, h₂, h₃⟩ := h
    simp only [Closer.step] at hs
    split at hs
    case isTrue => cases hs; exact ⟨hk, by omega⟩
    case isFalse hz =>
      cases hs
      -- otherwise the difference would lie strictly between zero and `2 ^ 32`
      show before ≤ released
      by_contra hlt
      have := Wrap.toNat_ofNat_sub (m := released) (n := t) (by omega) (by omega)
      rw [gt_iff_lt, UInt32.lt_iff_toNat_lt, this, UInt32.toNat_zero] at hz
      omega
  | wakeAll streamId =>
    simp only [Closer.step] at hs
    split at hs
    · cases hs; exact ⟨h.1.wake streamId, h.2⟩
    · cases hs; exact h
  | cancelAll i =>
    simp only [Closer.step] at hs
    split at hs
    · split at hs <;> cases hs <;> exact h
    · cases hs; exact h
  | wakeCancelled i streamId => cases hs; exact h
  | waiting =>
    simp only [Closer.step] at hs
    split at hs <;> cases hs <;> exact h

/-- Once a stream has ended, everything published before the call has been released. -/
theorem Ok.ended {j : UInt32} {k : Task} (h : c.Ok room before published released rt) (ho : rt.Ok M)
    (hj : rt.task j = some k) (hk : k.phase = .ended) : before ≤ released := by
  have hnot : ¬ rt.AllKept := by
    intro hall
    have := hall j (by rw [hj]; rfl)
    rw [ho.ended j k hj hk] at this
    cases this
  cases c with
  | idle | loadTail | wakeAll | loadHead => exact absurd h.1 hnot
  | cancelAll | wakeCancelled | waiting | returned => exact h

/-- The streams of the channel: the same ones, in the same phases. -/
theorem step_rt (ho : rt.Ok M) (hs : c.step M tail head rt = some (c', rt')) : rt'.Ok M ∧
    ∀ j k, rt.task j = some k → ∃ k', rt'.task j = some k' ∧ k'.phase = k.phase := by
  have hsame : rt.Ok M ∧ ∀ j k, rt.task j = some k → ∃ k', rt.task j = some k' ∧ k'.phase = k.phase :=
    ⟨ho, fun j k hj => ⟨k, hj, rfl⟩⟩
  cases c with
  | idle | returned => cases hs
  | loadTail => cases hs; exact hsame
  | loadHead tail =>
    simp only [Closer.step] at hs
    split at hs <;> cases hs <;> exact hsame
  | wakeAll streamId =>
    simp only [Closer.step] at hs
    split at hs
    · cases hs; exact ⟨ho.wake streamId, fun j k hj => Runtime.phase_wake hj streamId⟩
    · cases hs; exact hsame
  | cancelAll i =>
    simp only [Closer.step] at hs
    split at hs
    · split at hs
      · cases hs; exact hsame
      · cases hs; exact ⟨ho.clearKeep _, fun j k hj => ⟨k, hj, rfl⟩⟩
    · cases hs; exact hsame
  | wakeCancelled i streamId => cases hs; exact ⟨ho.wake streamId, fun j k hj => Runtime.phase_wake hj streamId⟩
  | waiting =>
    simp only [Closer.step] at hs
    split at hs <;> cases hs <;> exact hsame

end Closer

/-- The steps of a channel, labelled by `β`, and of the call of `end_all_streams`. -/
inductive ClosingLabel (β : Type)
  | chan (l : β)
  | dropEnded (j : UInt32)
  | endAllStreams
  -- the next step of the call
  | close

def ClosingLabel.map {β γ : Type} (f : β → γ) : ClosingLabel β → ClosingLabel γ
  | .chan l => .chan (f l)
  | .dropEnded j => .dropEnded j
  | .endAllStreams => .endAllStreams
  | .close => .close

/-! ### Movable FullSync -/

namespace UniFullSync
variable {σ α : Type} {B M : Nat}

/-- The channel while it is being closed; `published` and `taken` are its events, in order. -/
structure Closing (σ α : Type) where
  chan : Chan σ α
  closer : Closer
  published : List α
  taken : List α
  before : Nat

def Chan.publishes (B : Nat) (s : Chan σ α) : Label σ α → Option α
  | .send _ item => (s.container.publishMovable B item).2.1.map fun _ => item
  | .sendWith _ setter =>
    (s.container.publish B setter).2.map fun _ => setter (s.container.buffer (s.container.tail.toNat % B))
  | .sendWithAsync _ setter => (s.container.leakSlot B).map fun x => setter (s.container.buffer (x.1.toNat % B))
  | _ => none

/-- The event returned by the `consume` of a step. -/
def Chan.takes (B : Nat) (s : Chan σ α) : Label σ α → Option α
  | .pollNext j => if (s.rt.task j).map Task.phase = some .consuming then (s.container.consumeMovable B).2 else none
  | _ => none

namespace Closing
variable [DecidableEq σ]

def init (M : Nat) (buffer : Nat → α) : Closing σ α := ⟨.init M buffer, .idle, [], [], 0⟩

def step (B M : Nat) (s : Closing σ α) : ClosingLabel (Label σ α) → Option (Closing σ α)
  -- nobody else cancels
  | .chan (.cancel _) => none
  | .chan l => (s.chan.step B M l).map fun chan =>
    { s with chan, published := s.published ++ (s.chan.publishes B l).toList,
             taken := s.taken ++ (s.chan.takes B l).toList }
  | .dropEnded j => (s.chan.rt.dropEnded M j).map fun rt => { s with chan.rt := rt }
  | .endAllStreams =>
    if s.closer = .idle then some { s with closer := .loadTail, before := s.published.length } else none
  | .close => (s.closer.step M s.chan.container.tail s.chan.container.head s.chan.rt).map fun (closer, rt) =>
    { s with closer, chan.rt := rt }

/-- Where a stream has returned `Ready(None)`, the events published before the call have been taken. -/
def Delivered (s : Closing σ α) : Prop :=
  ∀ j k, s.chan.rt.task j = some k → k.phase = .ended → ∀ n v, n < s.before → s.published[n]? = some v →
    s.taken[n]? = some v

end Closing

/-- The queue after `taken` events were taken out of `published`. -/
structure Holds (B : Nat) (q : FullSyncMove α) (published taken : List α) : Prop where
  wf : q.WellFormed B
  head : q.head = UInt32.ofNat taken.length
  events : published = taken ++ q.elems B

namespace Holds
variable {q q' : FullSyncMove α} {published taken : List α}

theorem tail (h : Holds B q published taken) : q.tail = UInt32.ofNat published.length := by
  rw [q.tail_eq, h.head, h.events, List.length_append, FullSyncMove.length_elems, UInt32.ofNat_add]

theorem le (h : Holds B q published taken) : published.length ≤ taken.length + Ring.room B := by
  have := h.wf
  rw [h.events, List.length_append, FullSyncMove.length_elems]
  exact Nat.add_le_add_left this _

theorem publishLeaked (hB : Ring.PowerOfTwo B) (h : Holds B q published taken) (hlt : q.len < Ring.room B)
    (setterFn : α → α) : Holds B (q.publishLeaked B q.tail setterFn)
      (published ++ [setterFn (q.buffer (q.tail.toNat % B))]) taken := by
  obtain ⟨hwf, -, hel⟩ := FullSyncMove.publishLeaked_spec hB hlt setterFn
  exact ⟨hwf, h.head, by rw [hel, h.events, List.append_assoc]⟩

theorem consumeMovable (h : Holds B q published taken) :
    Holds B (q.consumeMovable B).1 published (taken ++ (q.consumeMovable B).2.toList) := by
  rcases LawfulMoveContainer.consume_cases (C := FullSyncMove) h.wf with ⟨q', x, xs, hq, hel, hwf, hel'⟩ | ⟨hq, -⟩
  · have hq' : q.consumeMovable B = (q', some x) := hq
    have hel₁ : q.elems B = x :: xs := hel
    have hel₂ : q'.elems B = xs := hel'
    have hhead : q'.head = q.head + 1 := by
      unfold FullSyncMove.consumeMovable at hq'
      dsimp only at hq'
      split at hq' <;> cases hq'
      rfl
    rw [hq']
    refine ⟨hwf, ?_, ?_⟩
    · rw [hhead, h.head, Option.toList_some, List.length_append, List.length_singleton, Wrap.ofNat_succ]
    · rw [h.events, hel₁, hel₂, Option.toList_some, List.append_assoc]
      rfl
  · have hq' : q.consumeMovable B = (q, none) := hq
    rw [hq', Option.toList_none, List.append_nil]
    exact h

end Holds

section Step
variable [DecidableEq σ] {s s' : Chan σ α} {l : Label σ α} {published taken : List α}

theorem Chan.rt_step (ho : s.rt.Ok M) (hl : ∀ j, l ≠ .cancel j) (hs : s.step B M l = some s') :
    s'.rt.Ok M ∧ (s.rt.AllKept → s'.rt.AllKept) := by
  cases l with
  | send t item =>
    simp only [step, Option.ite_none_right_eq_some] at hs
    obtain ⟨-, hs⟩ := hs
    split at hs <;> cases hs <;> exact ⟨ho, id⟩
  | sendWith t setter =>
    simp only [step, Option.ite_none_right_eq_some] at hs
    obtain ⟨-, hs⟩ := hs
    split at hs <;> cases hs <;> exact ⟨ho, id⟩
  | sendWithAsync t setter =>
    simp only [step, Option.ite_none_right_eq_some] at hs
    obtain ⟨-, hs⟩ := hs
    split at hs <;> cases hs <;> exact ⟨ho, id⟩
  | wake t =>
    obtain ⟨j, -, rfl⟩ := Option.map_eq_some_iff.mp hs
    exact ⟨ho.wake j, fun h => h.wake j⟩
  | create =>
    obtain ⟨rt, hc, rfl⟩ := Option.map_eq_some_iff.mp hs
    exact ⟨(Runtime.create_cases ho hc).choose_spec.2.1, fun h => h.create ho hc⟩
  | cancel j => exact absurd rfl (hl j)
  | poll j w =>
    obtain ⟨rt, hp, rfl⟩ := Option.map_eq_some_iff.mp hs
    exact ⟨ho.poll hp, fun h => h.of_same (Runtime.sameStreams_poll hp) (Runtime.keep_of_poll hp)⟩
  | pollNext j =>
    simp only [step] at hs
    split at hs
    · obtain ⟨rt, hc, rfl⟩ := Option.map_eq_some_iff.mp hs
      exact ⟨ho.consumed hc, fun h => h.of_same (Runtime.sameStreams_consumed hc) (Runtime.keep_of_consumed hc)⟩
    · obtain ⟨rt, hc, rfl⟩ := Option.map_eq_some_iff.mp hs
      exact ⟨ho.pollRest hc, fun h => h.of_same (Runtime.sameStreams_pollRest hc) (Runtime.keep_of_pollRest hc)⟩

/-- Each of the three sends publishes one event, or finds the queue full. -/
theorem Chan.holds_step (hB : Ring.PowerOfTwo B) (h : Holds B s.container published taken)
    (hs : s.step B M l = some s') :
    Holds B s'.container (published ++ (s.publishes B l).toList) (taken ++ (s.takes B l).toList) := by
  have hsame : Holds B s.container (published ++ []) (taken ++ []) := by
    rw [List.append_nil, List.append_nil]
    exact h
  cases l with
  | send t item =>
    simp only [step, Option.ite_none_right_eq_some] at hs
    obtain ⟨-, hs⟩ := hs
    by_cases hlt : s.container.len < Ring.room B
    · have hlen : FullSyncMove.nonZeroU32 (UInt32.ofNat s.container.len + 1) =
          some (UInt32.ofNat (s.container.len + 1)) := by
        have := (FullSyncMove.publishMovable_room hB hlt item).2.2
        simp only [FullSyncMove.publishMovable, FullSyncMove.leakSlot_eq, if_pos hlt, Prod.mk.injEq] at this
        exact this.1
      simp only [FullSyncMove.publishMovable, FullSyncMove.leakSlot_eq, if_pos hlt, hlen, Option.some.injEq] at hs
      subst hs
      simp only [publishes, takes, FullSyncMove.publishMovable, FullSyncMove.leakSlot_eq, if_pos hlt, hlen,
        Option.map_some, Option.toList_some, Option.toList_none, List.append_nil]
      exact h.publishLeaked hB hlt fun _ => item
    · simp only [FullSyncMove.publishMovable_full hlt, Option.some.injEq] at hs
      subst hs
      simp only [publishes, takes, FullSyncMove.publishMovable_full hlt]
      exact hsame
  | sendWith t setter =>
    simp only [step, Option.ite_none_right_eq_some] at hs
    obtain ⟨-, hs⟩ := hs
    by_cases hlt : s.container.len < Ring.room B
    · simp only [FullSyncMove.publish, FullSyncMove.leakSlot_eq, if_pos hlt, Option.some.injEq] at hs
      subst hs
      simp only [publishes, takes, FullSyncMove.publish, FullSyncMove.leakSlot_eq, if_pos hlt, Option.map_some,
        Option.toList_some, Option.toList_none, List.append_nil]
      exact h.publishLeaked hB hlt setter
    · simp only [FullSyncMove.publish, FullSyncMove.leakSlot_eq, if_neg hlt, Option.some.injEq] at hs
      subst hs
      simp only [publishes, takes, FullSyncMove.publish, FullSyncMove.leakSlot_eq, if_neg hlt]
      exact hsame
  | sendWithAsync t setter =>
    simp only [step, Option.ite_none_right_eq_some] at hs
    obtain ⟨-, hs⟩ := hs
    by_cases hlt : s.container.len < Ring.room B
    · simp only [FullSyncMove.leakSlot_eq, if_pos hlt, Option.some.injEq] at hs
      subst hs
      simp only [publishes, takes, FullSyncMove.leakSlot_eq, if_pos hlt, Option.map_some, Option.toList_some,
        Option.toList_none, List.append_nil]
      exact h.publishLeaked hB hlt setter
    · simp only [FullSyncMove.leakSlot_eq, if_neg hlt, Option.some.injEq] at hs
      subst hs
      simp only [publishes, takes, FullSyncMove.leakSlot_eq, if_neg hlt]
      exact hsame
  | wake t => obtain ⟨j, -, rfl⟩ := Option.map_eq_some_iff.mp hs; exact hsame
  | create => obtain ⟨rt, -, rfl⟩ := Option.map_eq_some_iff.mp hs; exact hsame
  | cancel j => obtain ⟨rt, -, rfl⟩ := Option.map_eq_some_iff.mp hs; exact hsame
  | poll j w => obtain ⟨rt, -, rfl⟩ := Option.map_eq_some_iff.mp hs; exact hsame
  | pollNext j =>
    simp only [step] at hs
    split at hs
    case isTrue hph =>
      obtain ⟨rt, -, rfl⟩ := Option.map_eq_some_iff.mp hs
      simp only [publishes, takes, if_pos hph, Option.toList_none, List.append_nil]
      exact h.consumeMovable
    case isFalse hph =>
      obtain ⟨rt, -, rfl⟩ := Option.map_eq_some_iff.mp hs
      simp only [publishes, takes, if_neg hph]
      exact hsame

end Step

structure ClosingInv (B M : Nat) (s : Closing σ α) : Prop where
  rt : s.chan.rt.Ok M
  holds : Holds B s.chan.container s.published s.taken
  closer : s.closer.Ok (Ring.room B) s.before s.published.length s.taken.length s.chan.rt

namespace ClosingInv
variable {s s' : Closing σ α}

theorem init (hM : Ring.PowerOfTwo M) (buffer : Nat → α) : ClosingInv B M (.init M buffer : Closing σ α) := by
  have hel : (FullSyncMove.withInitializer buffer).elems B = [] :=
    LawfulMoveContainer.init_elems (C := FullSyncMove) buffer
  refine ⟨.new hM, ⟨LawfulMoveContainer.init_wf (C := FullSyncMove) buffer, rfl, ?_⟩, ?_, Nat.zero_le _⟩
  · show [] = [] ++ (FullSyncMove.withInitializer buffer).elems B
    rw [hel]
    rfl
  · intro j hj
    cases hj

theorem delivered (h : ClosingInv B M s) : s.Delivered := by
  intro j k hj hk n v hn hv
  have hle := h.closer.ended h.rt hj hk
  rw [h.holds.events, List.getElem?_append_left (by omega)] at hv
  exact hv

theorem step [DecidableEq σ] {l : ClosingLabel (Label σ α)} (hB : Ring.PowerOfTwo B) (hM : Ring.PowerOfTwo M)
    (h : ClosingInv B M s) (hs : s.step B M l = some s') : ClosingInv B M s' := by
  cases l with
  | chan l =>
    by_cases hl : ∃ j, l = .cancel j
    · obtain ⟨j, rfl⟩ := hl
      cases hs
    · have hl' : ∀ j, l ≠ .cancel j := fun j he => hl ⟨j, he⟩
      have hs' : (s.chan.step B M l).map (fun chan => { s with
          chan, published := s.published ++ (s.chan.publishes B l).toList,
          taken := s.taken ++ (s.chan.takes B l).toList }) = some s' := by
        cases l with
        | cancel j => exact absurd rfl (hl' j)
        | _ => exact hs
      obtain ⟨chan, hc, rfl⟩ := Option.map_eq_some_iff.mp hs'
      obtain ⟨hrt, hkept⟩ := Chan.rt_step h.rt hl' hc
      refine ⟨hrt, Chan.holds_step hB h.holds hc, h.closer.mono ?_ ?_ hkept⟩
      · rw [List.length_append]; omega
      · rw [List.length_append]; omega
  | dropEnded j =>
    obtain ⟨rt, hd, rfl⟩ := Option.map_eq_some_iff.mp hs
    exact ⟨h.rt.dropEnded hM hd, h.holds, h.closer.mono (Nat.le_refl _) (Nat.le_refl _) fun hk => hk.dropEnded hd⟩
  | endAllStreams =>
    simp only [Closing.step, Option.ite_none_right_eq_some, Option.some.injEq] at hs
    obtain ⟨hidle, rfl⟩ := hs
    have hc := h.closer
    rw [hidle] at hc
    exact ⟨h.rt, h.holds, hc.1, Nat.le_refl _⟩
  | close =>
    obtain ⟨⟨closer, rt⟩, hc, rfl⟩ := Option.map_eq_some_iff.mp hs
    refine ⟨(Closer.step_rt h.rt hc).1, h.holds, ?_⟩
    rw [h.holds.tail, h.holds.head] at hc
    exact h.closer.step (UInt32.ofNat B).toNat_lt h.holds.le hc

theorem of_steps [DecidableEq σ] {buffer : Nat → α} (hB : Ring.PowerOfTwo B) (hM : Ring.PowerOfTwo M)
    (h : Machine.Steps (Closing.step B M) (fun _ _ _ => True) (.init M buffer) s) : ClosingInv B M s := by
  refine h.invariant (I := ClosingInv B M) ?_ (.init hM buffer)
  intro s l s' hi hs _
  exact hi.step hB hM hs

end ClosingInv
end UniFullSync

end Mutiny
