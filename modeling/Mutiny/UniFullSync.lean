import Mutiny.MutinyStream
import Mutiny.Lib.Machine

/-!
# The Uni movable `FullSync` channel and its wake-ups

Senders `σ` run `send`, `send_with` and `send_with_async` of `uni/channels/movable/full_sync.rs`; every
critical section of the container, every `wake_stream` and every step of a `poll_next` is one step.

Only the element that makes the queue non-empty has to wake a stream, and that is always stream 0,
the first one to be created. The exception is a queue of `2 ^ 31` elements: when it is full its length
is negative as an `i32`, `consume_movable` returns `None` and the streams park (`lostWakeup_full`).
-/

namespace Mutiny.UniFullSync

def wakeTarget (M : Nat) (lenAfter : UInt32) : Option UInt32 :=
  if lenAfter ≤ UInt32.ofNat M then some (lenAfter - 1) else none

def wakeTargetAsync (M : Nat) (lenBefore : UInt32) : Option UInt32 :=
  if lenBefore < UInt32.ofNat M then some lenBefore else none

/-- The channel; `owed t` is the stream that sender `t` has yet to wake. -/
structure Chan (σ α : Type) where
  container : FullSyncMove α
  owed : σ → Option UInt32
  rt : Runtime

inductive Label (σ α : Type)
  | send (t : σ) (item : α)
  | sendWith (t : σ) (setter : α → α)
  | sendWithAsync (t : σ) (setter : α → α)
  -- the `wake_stream` call of sender `t`
  | wake (t : σ)
  | create
  | cancel (j : UInt32)
  | poll (j : UInt32) (w : Waker)
  -- the next step of the `poll_next` of stream `j`
  | pollNext (j : UInt32)

namespace Chan
variable {σ α : Type} [DecidableEq σ]

def init (M : Nat) (buffer : Nat → α) : Chan σ α := ⟨.withInitializer buffer, fun _ => none, .new M⟩

/-- The critical section of a send: the container after it and the stream to wake, if it published. -/
def publish (s : Chan σ α) (t : σ) (container : FullSyncMove α) (target : Option UInt32) : Chan σ α :=
  { s with container, owed := Function.update s.owed t target }

def step (B M : Nat) (s : Chan σ α) : Label σ α → Option (Chan σ α)
  | .send t item =>
    if s.owed t = none then
      match s.container.publishMovable B item with
      | (container, some lenAfter, _) => some (s.publish t container (wakeTarget M lenAfter))
      | (container, none, _) => some { s with container }
    else none
  | .sendWith t setter =>
    if s.owed t = none then
      match s.container.publish B setter with
      | (container, some lenAfter) => some (s.publish t container (wakeTarget M lenAfter))
      | (container, none) => some { s with container }
    else none
  | .sendWithAsync t setter =>
    if s.owed t = none then
      match s.container.leakSlot B with
      | some (slotId, lenBefore) =>
        some (s.publish t (s.container.publishLeaked B slotId setter) (wakeTargetAsync M lenBefore))
      | none => some s
    else none
  | .wake t => (s.owed t).map fun j => { s with rt := s.rt.wake j, owed := Function.update s.owed t none }
  | .create => (s.rt.create M).map fun rt => { s with rt }
  | .cancel j => (s.rt.cancel j).map fun rt => { s with rt }
  | .poll j w => (s.rt.poll j w).map fun rt => { s with rt }
  | .pollNext j =>
    if (s.rt.task j).map Task.phase = some .consuming then
      let (container, event) := s.container.consumeMovable B
      (s.rt.consumed j event.isSome).map fun rt => { s with container, rt }
    else (s.rt.pollRest j).map fun rt => { s with rt }

/-- If no wake-up is under way and the queue holds an element, some stream is not parked. -/
def Awake (s : Chan σ α) : Prop :=
  (∀ t, s.owed t = none) → s.container.head ≠ s.container.tail → s.rt.AllKept →
    (∃ j, (s.rt.task j).isSome) → ∃ j k, s.rt.task j = some k ∧ ¬ k.parked

end Chan

/-- In every reachable state of the channel, whoever its senders are. -/
def NoLostWakeup (B M : Nat) : Prop :=
  ∀ (σ α : Type) [DecidableEq σ] (buffer : Nat → α) (s : Chan σ α),
    Machine.Steps (Chan.step B M) (fun _ _ _ => True) (.init M buffer) s → s.Awake

section Inv
variable {σ α : Type} {B M : Nat} {s s' : Chan σ α} {t : σ} {j : UInt32}

structure Inv (B M : Nat) (s : Chan σ α) : Prop where
  wf : s.container.WellFormed B
  rt : s.rt.Ok M
  /-- stream 0 is the first one to be created -/
  first : (s.rt.task 0).isSome ∨ ((∀ j, s.rt.task j = none) ∧
    s.rt.streams.vacantStreams.elems M = idRange 0 (UInt32.ofNat M))
  covered : (s.rt.task 0).isSome → s.rt.AllKept → s.container.len ≠ 0 →
    (∃ t, s.owed t = some 0) ∨ s.rt.Attentive 0 True

theorem Inv.awake (h : Inv B M s) : s.Awake := by
  intro howe hne hk ⟨j, hj⟩
  have h0 : (s.rt.task 0).isSome := by
    rcases h.first with h0 | ⟨hnone, -⟩
    · exact h0
    · rw [hnone j] at hj; cases hj
  rcases h.covered h0 hk ((FullSyncMove.len_ne_zero_iff _).mpr hne) with ⟨t, ht⟩ | ha
  · rw [howe t] at ht; cases ht
  · exact ha.exists_not_parked

theorem Inv.init (hM : Ring.PowerOfTwo M) (buffer : Nat → α) : Inv B M (.init M buffer : Chan σ α) :=
  ⟨LawfulMoveContainer.init_wf (C := FullSyncMove) buffer, .new hM,
    .inr ⟨fun _ => rfl, (StreamsManagerBase.vacant_new hM).2⟩, fun h => by cases h⟩

theorem Inv.create {rt : Runtime} (h : Inv B M s) (hc : s.rt.create M = some rt) : Inv B M { s with rt } := by
  obtain ⟨id, hid, hok, ht, -, -, rest, hel⟩ := Runtime.create_cases h.rt hc
  rcases h.first with h0 | ⟨hnone, hv⟩
  · have hne : (0 : UInt32) ≠ id := by rintro rfl; rw [hid] at h0; cases h0
    have h0' : (rt.task 0).isSome := by rw [ht, Function.update_of_ne hne]; exact h0
    refine ⟨h.wf, hok, .inl h0', fun _ hk hlen => ?_⟩
    exact (h.covered h0 (hk.of_create h.rt hc) hlen).imp_right (·.create h.rt hc)
  · have hlt := h.rt.vacant_lt id (by rw [hel]; exact List.mem_cons_self)
    have hpos : (0 : UInt32) < UInt32.ofNat M := by
      rw [UInt32.lt_iff_toNat_lt] at hlt ⊢
      simp only [UInt32.toNat_zero]
      omega
    rw [hv, idRange_succ hpos, List.cons.injEq] at hel
    obtain ⟨rfl, -⟩ := hel
    have h0' : rt.task 0 = some .fresh := by rw [ht, Function.update_self]
    exact ⟨h.wf, hok, .inl (by rw [h0']; rfl), fun _ _ _ => .inr ⟨_, h0', trivial⟩⟩

/-- A step of the streams and their tasks, none of which is created. -/
theorem Inv.of_rt {rt : Runtime} (h : Inv B M s) (hok : rt.Ok M) (hsame : s.rt.SameStreams rt)
    (hk : rt.AllKept → s.rt.AllKept)
    (ha : rt.AllKept → s.container.len ≠ 0 → s.rt.Attentive 0 True → rt.Attentive 0 True) :
    Inv B M { s with rt } := by
  refine ⟨h.wf, hok, ?_, fun h0 hk' hlen => ?_⟩
  · refine h.first.imp (fun h0 => (hsame.isSome 0).trans h0) fun ⟨hnone, hel⟩ => ⟨fun j => ?_, ?_⟩
    · rw [← Option.not_isSome_iff_eq_none, hsame.isSome j, hnone j]
      simp
    · rw [hsame.vacant]
      exact hel
  · exact (h.covered ((hsame.isSome 0).symm.trans h0) (hk hk') hlen).imp_right (ha hk' hlen)

/-- What `consume` does to the container does not uncover an element. -/
theorem Inv.consume (h : Inv B M s) (hB : Ring.PowerOfTwo B) (hne : B ≠ 2 ^ 31) :
    Inv B M { s with container := (s.container.consumeMovable B).1 } ∧
    ((s.container.consumeMovable B).2 = none → (s.container.consumeMovable B).1.len = 0) := by
  obtain ⟨hwf, hzero, hnone⟩ := FullSyncMove.consumeMovable_len hB hne h.wf
  exact ⟨⟨hwf, h.rt, h.first, fun h0 hk hlen => h.covered h0 hk fun hz => hlen (hzero hz)⟩, hnone⟩

variable [DecidableEq σ]

theorem Inv.publish {container : FullSyncMove α} {target : Option UInt32} (h : Inv B M s) (howed : s.owed t = none)
    (hwf : container.WellFormed B) (htgt : s.container.len = 0 → 0 < UInt32.ofNat M → target = some 0) :
    Inv B M (s.publish t container target) := by
  refine ⟨hwf, h.rt, h.first, fun h0 hk hlen => ?_⟩
  by_cases hempty : s.container.len = 0
  · exact .inl ⟨t, (Function.update_self ..).trans (htgt hempty (h.rt.lt 0 h0))⟩
  · refine (h.covered h0 hk hempty).imp_left fun ⟨u, hu⟩ => ⟨u, ?_⟩
    have hut : u ≠ t := by rintro rfl; rw [howed] at hu; cases hu
    exact (Function.update_of_ne hut _ _).trans hu

theorem wakeTarget_one (h : 0 < UInt32.ofNat M) : wakeTarget M (UInt32.ofNat (0 + 1)) = some 0 := by
  have hle : UInt32.ofNat (0 + 1) ≤ UInt32.ofNat M := by
    rw [UInt32.lt_iff_toNat_lt] at h
    rw [UInt32.le_iff_toNat_le]
    simp only [UInt32.toNat_zero] at h
    simp only [UInt32.toNat_ofNat', zero_add]
    simp only [UInt32.toNat_ofNat'] at h
    omega
  rw [wakeTarget, if_pos hle]
  rfl

theorem Inv.wake (h : Inv B M s) (ht : s.owed t = some j) :
    Inv B M { s with rt := s.rt.wake j, owed := Function.update s.owed t none } := by
  have hsame := s.rt.sameStreams_wake j
  have h' : Inv B M { s with rt := s.rt.wake j } :=
    h.of_rt (h.rt.wake j) hsame (·.of_wake) fun _ _ ha => ha.wake j
  refine ⟨h'.wf, h'.rt, h'.first, fun h0 hk hlen => ?_⟩
  rcases h'.covered h0 hk hlen with ⟨u, hu⟩ | ha
  · by_cases hut : u = t
    · subst hut
      cases ht.symm.trans hu
      have h0' := (hsame.isSome 0).symm.trans h0
      exact .inr (h.rt.attentive_wake h0' (Runtime.AllKept.of_wake hk 0 h0'))
    · exact .inl ⟨u, (Function.update_of_ne hut _ _).trans hu⟩
  · exact .inr ha

theorem Inv.step {b : Label σ α} (h : Inv B M s) (hB : Ring.PowerOfTwo B) (hne : B ≠ 2 ^ 31)
    (hs : s.step B M b = some s') : Inv B M s' := by
  cases b with
  | send t item =>
    simp only [Chan.step, Option.ite_none_right_eq_some] at hs
    obtain ⟨howed, hs⟩ := hs
    by_cases hlt : s.container.len < Ring.room B
    · obtain ⟨hwf, -, hlen⟩ := FullSyncMove.publishMovable_room hB hlt item
      generalize hr : s.container.publishMovable B item = r at hs hwf hlen
      obtain ⟨q, l, x⟩ := r
      cases hlen
      cases hs
      exact h.publish howed hwf fun h0 hM => by rw [h0]; exact wakeTarget_one hM
    · rw [FullSyncMove.publishMovable_full hlt] at hs
      cases hs
      exact h
  | sendWith t setter =>
    simp only [Chan.step, Option.ite_none_right_eq_some, FullSyncMove.publish, FullSyncMove.leakSlot_eq] at hs
    obtain ⟨howed, hs⟩ := hs
    by_cases hlt : s.container.len < Ring.room B
    · rw [if_pos hlt] at hs
      cases hs
      refine h.publish howed (FullSyncMove.publishLeaked_spec hB hlt setter).1 fun h0 hM => ?_
      rw [h0]
      exact wakeTarget_one hM
    · rw [if_neg hlt] at hs
      cases hs
      exact h
  | sendWithAsync t setter =>
    simp only [Chan.step, Option.ite_none_right_eq_some, FullSyncMove.leakSlot_eq] at hs
    obtain ⟨howed, hs⟩ := hs
    by_cases hlt : s.container.len < Ring.room B
    · rw [if_pos hlt] at hs
      cases hs
      refine h.publish howed (FullSyncMove.publishLeaked_spec hB hlt setter).1 fun h0 hM => ?_
      rw [h0, wakeTargetAsync, show UInt32.ofNat 0 = 0 from rfl, if_pos hM]
    · rw [if_neg hlt] at hs
      cases hs
      exact h
  | wake t =>
    obtain ⟨j, ht, rfl⟩ := Option.map_eq_some_iff.mp hs
    exact h.wake ht
  | create =>
    obtain ⟨rt, hc, rfl⟩ := Option.map_eq_some_iff.mp hs
    exact h.create hc
  | cancel j =>
    obtain ⟨rt, hc, rfl⟩ := Option.map_eq_some_iff.mp hs
    have hnot := Runtime.not_allKept_of_cancel hc
    exact h.of_rt (h.rt.cancel hc) (Runtime.sameStreams_cancel hc) (absurd · hnot) fun hk => absurd hk hnot
  | poll j w =>
    obtain ⟨rt, hp, rfl⟩ := Option.map_eq_some_iff.mp hs
    exact h.of_rt (h.rt.poll hp) (Runtime.sameStreams_poll hp) (·.of_poll hp) fun _ _ ha =>
      (ha.poll hp).imp fun _ => trivial
  | pollNext j =>
    simp only [Chan.step] at hs
    split at hs
    · obtain ⟨hinv, hempty⟩ := h.consume hB hne
      obtain ⟨rt, hc, rfl⟩ := Option.map_eq_some_iff.mp hs
      refine hinv.of_rt (h.rt.consumed hc) (Runtime.sameStreams_consumed hc) (·.of_consumed hc) fun _ hlen ha => ?_
      refine ha.consumed hc fun _ hb => ?_
      rw [Option.isSome_eq_false_iff, Option.isNone_iff_eq_none] at hb
      exact absurd (hempty hb) hlen
    · obtain ⟨rt, hc, rfl⟩ := Option.map_eq_some_iff.mp hs
      exact h.of_rt (h.rt.pollRest hc) (Runtime.sameStreams_pollRest hc) (·.of_pollRest hc) fun hk _ ha =>
        ha.pollRest (hk.of_pollRest hc 0 ha.isSome) hc

theorem Inv.of_steps (hB : Ring.PowerOfTwo B) (hM : Ring.PowerOfTwo M) (hne : B ≠ 2 ^ 31) {buffer : Nat → α}
    (h : Machine.Steps (Chan.step B M) (fun _ _ _ => True) (.init M buffer) s) : Inv B M s :=
  h.invariant (I := Inv B M) (fun _ _ _ hi hs _ => hi.step hB hne hs) (.init hM buffer)

end Inv

/-! ### A full queue of `2 ^ 31` elements -/

section Full
variable {σ α : Type} [DecidableEq σ] {B M : Nat} {s : Chan σ α} {k : Task}

theorem park (hc : s.container.consumeMovable B = (s.container, none)) (hk : s.rt.task 0 = some k)
    (hph : k.phase = .unpolled ∨ k.phase = .pending) (hkeep : s.rt.streams.keepStreamsRunning 0 = true) :
    ∃ rt, Machine.Steps (Chan.step B M) (fun _ _ _ => True) s { s with rt } ∧
      rt.task = Function.update s.rt.task 0 (some ⟨.pending, 0, decide (s.rt.streams.wakers 0 ≠ some 0)⟩) ∧
      rt.streams.wakers 0 = some 0 ∧ rt.streams.keepStreamsRunning = s.rt.streams.keepStreamsRunning := by
  have hpoll : k.poll 0 = some ⟨.consuming, 0, false⟩ := by rcases hph with h | h <;> simp [Task.poll, h]
  have hexec : Machine.exec (Chan.step B M) s [.poll 0 0, .pollNext 0, .pollNext 0, .pollNext 0] =
      some { s with rt := ⟨(s.rt.streams.registerStreamWaker 0 0).1, Function.update s.rt.task 0
        (some ⟨.pending, 0, (s.rt.streams.registerStreamWaker 0 0).2⟩)⟩ } := by
    simp [Machine.exec, Chan.step, Runtime.poll, hk, hpoll, Runtime.setTask, hc, Runtime.consumed, Task.consumed,
      Runtime.pollRest, Task.keep, StreamsManagerBase.keepStreamRunning, hkeep, Task.registered]
  have hself : (s.rt.streams.registerStreamWaker 0 0).2 = decide (s.rt.streams.wakers 0 ≠ some 0) := by
    unfold StreamsManagerBase.registerStreamWaker
    cases hw : s.rt.streams.wakers 0 with
    | none => simp
    | some r => by_cases hr : r = 0 <;> simp [hr]
  have hsm := (s.rt.streams.registerStreamWaker_spec 0 0).2
  refine ⟨_, (Machine.Path.of_exec hexec).steps, ?_, ?_, ?_⟩
  · rw [hself]
  · simp [hsm, StreamsManagerBase.setWaker]
  · simp [hsm, StreamsManagerBase.setWaker]

/-- One sender fills the queue while no stream has registered a waker. -/
theorem fill (hB : Ring.PowerOfTwo B) (r : Runtime) (hw : ∀ j, r.streams.wakers j = none)
    {q : FullSyncMove Unit} (hq : q.len = 0) : ∀ n ≤ Ring.room B, ∃ q' : FullSyncMove Unit, q'.len = n ∧
      Machine.Steps (Chan.step B M) (fun _ _ _ => True) (⟨q, fun _ => none, r⟩ : Chan Unit Unit) ⟨q', fun _ => none, r⟩ := by
  intro n
  induction n with
  | zero => exact fun _ => ⟨q, hq, .refl⟩
  | succ n ih =>
    intro hn
    obtain ⟨q', hlen, hsteps⟩ := ih (by omega)
    obtain ⟨-, hel, hret⟩ := FullSyncMove.publishMovable_room hB (q := q') (by omega) ()
    generalize hr : q'.publishMovable B () = res at hel hret
    obtain ⟨q'', l, x⟩ := res
    cases hret
    have hlen' := congrArg List.length hel
    rw [List.length_append, FullSyncMove.length_elems, FullSyncMove.length_elems, List.length_singleton] at hlen'
    dsimp only at hlen'
    refine ⟨q'', by omega, hsteps.trans ?_⟩
    have hupd : Function.update (fun _ : Unit => (none : Option UInt32)) () none = fun _ => none := by
      funext _; simp
    have hsend : Chan.step B M (⟨q', fun _ => none, r⟩ : Chan Unit Unit) (.send () ()) =
        some (Chan.publish ⟨q', fun _ => none, r⟩ () q'' (wakeTarget M (UInt32.ofNat (q'.len + 1)))) := by
      simp [Chan.step, hr]
    cases htgt : wakeTarget M (UInt32.ofNat (q'.len + 1)) with
    | none =>
      rw [htgt, Chan.publish, hupd] at hsend
      exact .single ⟨_, hsend, trivial⟩
    | some j =>
      rw [htgt] at hsend
      have hwake : r.wake j = r := by
        unfold Runtime.wake StreamsManagerBase.wakeStream
        rw [hw j]
        simp [Task.wakeRegistered]
      have hstep : Chan.step B M (Chan.publish (⟨q', fun _ => none, r⟩ : Chan Unit Unit) () q'' (some j)) (.wake ()) =
          some ⟨q'', fun _ => none, r⟩ := by
        simp [Chan.step, Chan.publish, hwake]
      exact (Relation.ReflTransGen.single ⟨_, hsend, trivial⟩).tail ⟨_, hstep, trivial⟩

/-- With fewer than `2 ^ 31` of them, the first stream can be created and is stream 0. -/
theorem create_first (hM : Ring.PowerOfTwo M) (hle : M ≤ 2 ^ 30) : ∃ r, (Runtime.new M).create M = some r ∧
    r.task = Function.update (fun _ => none) 0 (some .fresh) ∧ (∀ j, r.streams.wakers j = none) ∧
    r.streams.keepStreamsRunning 0 = true := by
  obtain ⟨hwf, hel⟩ := StreamsManagerBase.vacant_new hM
  have hpos : (0 : UInt32) < UInt32.ofNat M := by
    have := hM.pos
    rw [UInt32.lt_iff_toNat_lt, Wrap.toNat_ofNat_of_lt (by omega)]
    simpa using this
  have hlen : (idRange 0 (UInt32.ofNat M)).length < 2 ^ 31 := by
    rw [length_idRange, Wrap.toNat_ofNat_of_lt (by omega)]
    omega
  rw [idRange_succ hpos] at hel hlen
  obtain ⟨-, -, hsome⟩ := FullSyncMove.consumeMovable_some hwf hel (by simpa using hlen)
  have hcreate : ∃ r, (Runtime.new M).create M = some r := by
    generalize hq : (StreamsManagerBase.new M).vacantStreams.consumeMovable M = res at hsome
    obtain ⟨q, x⟩ := res
    cases hsome
    rw [← Option.isSome_iff_exists]
    simp [Runtime.create, StreamsManagerBase.createStreamId, StreamsManagerBase.takeVacant,
      StreamsManagerBase.incUsed, StreamsManagerBase.incCreated, Runtime.new, hq]
  obtain ⟨r, hr⟩ := hcreate
  obtain ⟨id, -, -, ht, hw, hkeep, rest, hel'⟩ := Runtime.create_cases (.new hM) hr
  rw [show (Runtime.new M).streams.vacantStreams.elems M = _ from hel, List.cons.injEq] at hel'
  obtain ⟨rfl, -⟩ := hel'
  exact ⟨r, hr, ht, fun j => by rw [hw]; rfl, by rw [hkeep]; exact Function.update_self ..⟩

/-- A full queue of `2 ^ 31` elements is left alone by its only stream. -/
theorem lostWakeup_full (hM : Ring.PowerOfTwo M) (hle : M ≤ 2 ^ 30) : ∃ s : Chan Unit Unit,
    Machine.Steps (Chan.step (2 ^ 31) M) (fun _ _ _ => True) (.init M fun _ => ()) s ∧ ¬ s.Awake := by
  have hB : Ring.PowerOfTwo (2 ^ 31) := ⟨31, rfl⟩
  have hroom : Ring.room (2 ^ 31) = 2 ^ 31 := by decide
  obtain ⟨r, hr, ht, hw, hkeep⟩ := create_first hM hle
  have hcreate : Chan.step (2 ^ 31) M (.init M fun _ => () : Chan Unit Unit) .create =
      some ⟨.withInitializer fun _ => (), fun _ => none, r⟩ := by
    simp [Chan.step, Chan.init, hr]
  obtain ⟨q, hlen, hfill⟩ := fill (M := M) hB r hw (q := .withInitializer fun _ => ()) rfl (2 ^ 31) (by omega)
  have hnone : q.consumeMovable (2 ^ 31) = (q, none) :=
    FullSyncMove.consumeMovable_none (.inr (by rw [FullSyncMove.length_elems]; omega))
  obtain ⟨r₁, h₁, ht₁, hw₁, hk₁⟩ := park (M := M) (s := (⟨q, fun _ => none, r⟩ : Chan Unit Unit)) (k := .fresh) hnone
    (by rw [ht]; exact Function.update_self ..) (.inl rfl) hkeep
  obtain ⟨r₂, h₂, ht₂, hw₂, hk₂⟩ := park (M := M) (s := (⟨q, fun _ => none, r₁⟩ : Chan Unit Unit)) hnone
    (by rw [ht₁]; exact Function.update_self ..) (.inr rfl) (by rw [hk₁]; exact hkeep)
  refine ⟨⟨q, fun _ => none, r₂⟩, ((Relation.ReflTransGen.head ⟨_, hcreate, trivial⟩ hfill).trans h₁).trans h₂, ?_⟩
  have htask : r₂.task = Function.update (fun _ => none) 0 (some ⟨.pending, 0, false⟩) := by
    rw [ht₂]
    dsimp only
    rw [ht₁, hw₁]
    dsimp only
    rw [ht]
    simp
  intro hawake
  have hzero : ∀ j, (r₂.task j).isSome → j = 0 := by
    intro j hj
    by_contra hne
    rw [htask, Function.update_of_ne hne] at hj
    cases hj
  obtain ⟨j, k, hk, hpark⟩ := hawake (fun _ => rfl) ((FullSyncMove.len_ne_zero_iff q).mp (by omega))
    (fun j hj => by rw [hzero j hj, hk₂, hk₁]; exact hkeep) ⟨0, by rw [htask]; rfl⟩
  obtain rfl := hzero j (by rw [hk]; rfl)
  rw [htask, Function.update_self] at hk
  cases hk
  exact hpark ⟨rfl, rfl⟩

end Full

/-! ### All sizes -/

section All
variable {σ α : Type} [DecidableEq σ] {B M : Nat} {s s' : Chan σ α}

theorem step_streams {b : Label σ α} (hs : s.step B M b = some s') :
    s.rt.SameStreams s'.rt ∨ s.rt.create M = some s'.rt := by
  cases b with
  | send t item =>
    simp only [Chan.step, Option.ite_none_right_eq_some] at hs
    obtain ⟨-, hs⟩ := hs
    split at hs <;> cases hs <;> exact .inl ⟨fun _ => rfl, rfl⟩
  | sendWith t setter =>
    simp only [Chan.step, Option.ite_none_right_eq_some] at hs
    obtain ⟨-, hs⟩ := hs
    split at hs <;> cases hs <;> exact .inl ⟨fun _ => rfl, rfl⟩
  | sendWithAsync t setter =>
    simp only [Chan.step, Option.ite_none_right_eq_some] at hs
    obtain ⟨-, hs⟩ := hs
    split at hs <;> cases hs <;> exact .inl ⟨fun _ => rfl, rfl⟩
  | wake t =>
    obtain ⟨j, -, rfl⟩ := Option.map_eq_some_iff.mp hs
    exact .inl (s.rt.sameStreams_wake j)
  | create =>
    obtain ⟨rt, hc, rfl⟩ := Option.map_eq_some_iff.mp hs
    exact .inr hc
  | cancel j =>
    obtain ⟨rt, hc, rfl⟩ := Option.map_eq_some_iff.mp hs
    exact .inl (Runtime.sameStreams_cancel hc)
  | poll j w =>
    obtain ⟨rt, hp, rfl⟩ := Option.map_eq_some_iff.mp hs
    exact .inl (Runtime.sameStreams_poll hp)
  | pollNext j =>
    simp only [Chan.step] at hs
    split at hs <;> obtain ⟨rt, hc, rfl⟩ := Option.map_eq_some_iff.mp hs
    · exact .inl (Runtime.sameStreams_consumed hc)
    · exact .inl (Runtime.sameStreams_pollRest hc)

/-- With `2 ^ 31` or more of them, `create_stream` panics from the start. -/
theorem no_streams (hM : Ring.PowerOfTwo M) (hlt : 2 ^ 30 < M) {buffer : Nat → α}
    (h : Machine.Steps (Chan.step B M) (fun _ _ _ => True) (.init M buffer) s) (j : UInt32) : s.rt.task j = none := by
  obtain ⟨hwf, hel⟩ := StreamsManagerBase.vacant_new hM
  have hempty : (StreamsManagerBase.new M).vacantStreams.elems M = [] ∨
      2 ^ 31 ≤ ((StreamsManagerBase.new M).vacantStreams.elems M).length := by
    rw [hel, length_idRange]
    obtain ⟨k, rfl⟩ := hM
    rcases Ring.PowerOfTwo.room_cases ⟨k, rfl⟩ with ⟨h₁, -, -⟩ | h₁
    · right
      have hk : 31 ≤ k := by
        by_contra hk
        exact absurd hlt (Nat.not_lt.mpr (Nat.pow_le_pow_right (by decide) (by omega)))
      have := Nat.pow_le_pow_right (show 0 < 2 by decide) hk
      unfold Ring.room at h₁
      rw [h₁]
      simpa using this
    · left
      rw [← List.length_eq_zero_iff, length_idRange]
      unfold Ring.room at h₁
      omega
  have hnone := FullSyncMove.consumeMovable_none hempty
  refine (h.invariant (I := fun s => (∀ j, s.rt.task j = none) ∧
    s.rt.streams.vacantStreams = (StreamsManagerBase.new M).vacantStreams) ?_ ⟨fun _ => rfl, rfl⟩).1 j
  rintro s b s' ⟨ht, hv⟩ hs _
  rcases step_streams hs with hsame | hc
  · refine ⟨fun j => ?_, hsame.vacant.trans hv⟩
    rw [← Option.not_isSome_iff_eq_none, hsame.isSome j, ht j]
    simp
  · simp [Runtime.create, StreamsManagerBase.createStreamId, StreamsManagerBase.takeVacant,
      StreamsManagerBase.incUsed, StreamsManagerBase.incCreated, hv, hnone] at hc

end All

/-- No wake-up is lost unless the queue has `2 ^ 31` slots, and fewer than `2 ^ 31` streams, so that
some can be created. -/
theorem noLostWakeup_iff {B M : Nat} (hB : Ring.PowerOfTwo B) (hM : Ring.PowerOfTwo M) :
    NoLostWakeup B M ↔ ¬ (B = 2 ^ 31 ∧ M ≤ 2 ^ 30) := by
  constructor
  · rintro h ⟨rfl, hle⟩
    obtain ⟨s, hs, hn⟩ := lostWakeup_full hM hle
    exact hn (h Unit Unit _ s hs)
  · intro hn σ α _ buffer s hs
    by_cases hM' : M ≤ 2 ^ 30
    · exact (Inv.of_steps hB hM (fun hB' => hn ⟨hB', hM'⟩) hs).awake
    · rintro - - - ⟨j, hj⟩
      rw [no_streams hM (by omega) hs j] at hj
      cases hj

theorem noLostWakeup_sixteen : NoLostWakeup 1024 16 :=
  (noLostWakeup_iff ⟨10, rfl⟩ ⟨4, rfl⟩).mpr (by decide)

theorem not_noLostWakeup_full : ¬ NoLostWakeup (2 ^ 31) 16 := by
  intro h
  obtain ⟨s, hs, hn⟩ := lostWakeup_full (M := 16) ⟨4, rfl⟩ (by decide)
  exact hn (h Unit Unit _ s hs)

end Mutiny.UniFullSync
