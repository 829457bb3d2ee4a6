import Mutiny.Lib.Machine
import Mutiny.StreamLife

/-!
# The Multi channels over `FullSyncMove` and their wake-ups

`arc::FullSync` and `ogre_arc::FullSync`: any number of senders run `send_derived` while streams are
created, polled and dropped and their ids recycled. A sender wakes a stream when its element is the
only one in the queue.

`ogre_arc::FullSync` copies the id it reads from `used_streams()`. `arc::FullSync` holds a reference
into the list and reads the id anew each time it needs it: when the list is rebuilt between
publishing and waking, it wakes another stream than the one it published to (`movedEntry_run`).
-/

namespace Mutiny.MultiFullSync

/-- What `send_derived` does next with its entry of `used_streams()`. -/
inductive Pc
  -- the head of the loop
  | next
  -- `arc::FullSync`: read the id of the queue
  | select
  | publish (id : UInt32)
  -- `arc::FullSync`: read the id of the stream to wake, after publishing to `id` or because its queue is full
  | target (id : UInt32) (full : Bool)
  | wake (id : UInt32) (full : Bool)
deriving DecidableEq

structure Sending (α : Type) where
  item : α
  /-- `running_streams_count()` as `ogre_arc::FullSync` loaded it -/
  count : UInt32
  /-- the index of the entry -/
  i : Nat
  pc : Pc

structure Chan (σ τ α : Type) where
  queue : UInt32 → FullSyncMove α
  sending : σ → Option (Sending α)
  life : Streams τ

inductive Label (σ τ α : Type)
  -- `send`, `send_with` and `send_derived` all come to `send_derived`
  | sendDerived (t : σ) (item : α)
  -- the next step of the sender `t`
  | send (t : σ)
  | life (l : Streams.Label τ)
  -- the two steps of `cancel_stream(j)`; the second is also the one of `flush`
  | stop (j : UInt32)
  | wakeStream (j : UInt32)
  | poll (j : UInt32) (w : Waker)
  -- the next step of the `poll_next` of stream `j`
  | pollNext (j : UInt32)

namespace Chan
variable {σ τ α : Type}

def init (M : Nat) (buffer : Nat → α) : Chan σ τ α := ⟨fun _ => .withInitializer buffer, fun _ => none, .new M⟩

def setQueue (s : Chan σ τ α) (j : UInt32) (q : FullSyncMove α) : Chan σ τ α :=
  { s with queue := Function.update s.queue j q }

def setRt (s : Chan σ τ α) (rt : Runtime) : Chan σ τ α := { s with life := { s.life with rt } }

/-- The entry of `used_streams()` a sender is at; `none` past the end of the array. -/
def entry (s : Chan σ τ α) (f : Sending α) : Option UInt32 := s.life.rt.streams.usedStreams[f.i]?

/-- The entry as an index into the per-stream arrays. -/
def index (s : Chan σ τ α) (f : Sending α) : Option UInt32 := (s.entry f).filter (· ≠ u32Max)

variable [DecidableEq σ]

def setSending (s : Chan σ τ α) (t : σ) (f : Option (Sending α)) : Chan σ τ α :=
  { s with sending := Function.update s.sending t f }

/-- The next step of `send_derived`. There is none after a panic or an access out of bounds. -/
def send (kind : MultiKind) (B : Nat) (s : Chan σ τ α) (t : σ) : Option (Chan σ τ α) := do
  let f ← s.sending t
  match f.pc, kind with
  | .next, .arc =>
    match s.index f with
    | some _ => some (s.setSending t (some { f with pc := .select }))
    | none => some (s.setSending t none)
  | .next, .ogreArc =>
    if f.i < f.count.toNat then
      let id ← s.entry f
      if id ≠ u32Max then some (s.setSending t (some { f with pc := .publish id }))
      else some (s.setSending t (some { f with i := f.i + 1 }))
    else some (s.setSending t none)
  | .select, _ =>
    let id ← s.index f
    some (s.setSending t (some { f with pc := .publish id }))
  | .publish id, kind =>
    match (s.queue id).publishMovable B f.item, kind with
    | (q, some lenAfter, _), .arc =>
      let g := if lenAfter ≤ 1 then { f with pc := .target id false } else { f with i := f.i + 1, pc := .next }
      some ((s.setQueue id q).setSending t (some g))
    | (q, some lenAfter, _), .ogreArc =>
      let g := if lenAfter ≤ 1 then { f with pc := .wake id false } else { f with i := f.i + 1, pc := .next }
      some ((s.setQueue id q).setSending t (some g))
    | (q, none, _), .arc => some ((s.setQueue id q).setSending t (some { f with pc := .target id true }))
    -- `panic!("BUG! This should never happen! ..")`
    | (_, none, _), .ogreArc => none
  | .target _ full, _ =>
    let id ← s.index f
    some (s.setSending t (some { f with pc := .wake id full }))
  | .wake id full, _ =>
    let g := if full then { f with pc := .select } else { f with i := f.i + 1, pc := .next }
    some ((s.setRt (s.life.rt.wake id)).setSending t (some g))

variable [DecidableEq τ]

def step (kind : MultiKind) (B M : Nat) (s : Chan σ τ α) : Label σ τ α → Option (Chan σ τ α)
  | .sendDerived t item =>
    if (s.sending t).isNone then
      some (s.setSending t (some ⟨item, s.life.rt.streams.runningStreamsCount, 0, .next⟩))
    else none
  | .send t => s.send kind B t
  | .life l => (s.life.step M l).map fun life => { s with life }
  | .stop j => some (s.setRt { s.life.rt with streams := s.life.rt.streams.setKeepRunning j false })
  | .wakeStream j => some (s.setRt (s.life.rt.wake j))
  | .poll j w => (s.life.rt.poll j w).map s.setRt
  | .pollNext j =>
    if (s.life.rt.task j).map Task.phase = some .consuming then
      let (q, event) := (s.queue j).consumeMovable B
      (s.life.rt.consumed j event.isSome).map (s.setQueue j q).setRt
    else (s.life.rt.pollRest j).map s.setRt

/-- Sender `t` has published into the queue of stream `j` and not yet made the `wake_stream(j)` call it owes. -/
def Owes (s : Chan σ τ α) (t : σ) (j : UInt32) : Prop :=
  ∃ f, s.sending t = some f ∧ (f.pc = .target j false ∨ f.pc = .wake j false)

/-- A stream that is not cancelled, whose queue holds an element and whom no sender is about to wake,
is not parked. -/
def Awake (s : Chan σ τ α) : Prop :=
  ∀ j k, s.life.rt.task j = some k → s.life.rt.streams.keepStreamsRunning j = true → (∀ t, ¬ s.Owes t j) →
    (s.queue j).head ≠ (s.queue j).tail → ¬ k.parked

/-- A sender that looks up the stream to wake finds the one it published to. -/
def EntryKept (s : Chan σ τ α) (b : Label σ τ α) (_ : Chan σ τ α) : Prop :=
  match b with
  | .send t => ∀ f id, s.sending t = some f → f.pc = .target id false → s.entry f = some id
  | _ => True

end Chan

section Inv
variable {σ τ α : Type} {kind : MultiKind} {B M : Nat} {s s' : Chan σ τ α} {t : σ} {i j : UInt32}

/-- Somebody sees to the elements of queue `j`. -/
def Chan.Covered (s : Chan σ τ α) (j : UInt32) : Prop := (∃ t, s.Owes t j) ∨ s.life.rt.Attentive j True

structure Inv (B M : Nat) (s : Chan σ τ α) : Prop where
  life : s.life.Ok M
  wf : ∀ j, (s.queue j).WellFormed B
  covered : ∀ j, (s.life.rt.task j).isSome → s.life.rt.streams.keepStreamsRunning j = true →
    (s.queue j).len ≠ 0 → s.Covered j

theorem Inv.awake (h : Inv B M s) : s.Awake := by
  intro j k hk hkeep howe hne
  rcases h.covered j (by rw [hk]; rfl) hkeep ((FullSyncMove.len_ne_zero_iff _).mpr hne) with ⟨t, ho⟩ | ⟨k', hk', ha⟩
  · exact absurd ho (howe t)
  · cases hk.symm.trans hk'
    exact ha.not_parked

theorem Inv.init (hM : Ring.PowerOfTwo M) (buffer : Nat → α) : Inv B M (.init M buffer : Chan σ τ α) :=
  ⟨.new hM, fun _ => LawfulMoveContainer.init_wf (C := FullSyncMove) buffer, fun _ h => by cases h⟩

/-- A step of the streams and their tasks that creates or drops none. -/
theorem Inv.of_rt {rt : Runtime} (h : Inv B M s) (hok : rt.Ok M) (hsame : s.life.rt.SameStreams rt)
    (hk : ∀ j, (s.life.rt.task j).isSome → rt.streams.keepStreamsRunning j = true →
      s.life.rt.streams.keepStreamsRunning j = true)
    (ha : ∀ j, rt.streams.keepStreamsRunning j = true → (s.queue j).len ≠ 0 → s.life.rt.Attentive j True →
      rt.Attentive j True) : Inv B M (s.setRt rt) := by
  refine ⟨h.life.of_rt hok hsame, h.wf, fun j hj hkeep hlen => ?_⟩
  have hj' : (s.life.rt.task j).isSome := by rw [← hsame.isSome j]; exact hj
  exact (h.covered j hj' (hk j hj' hkeep) hlen).imp_right (ha j hkeep hlen)

theorem Inv.wake (h : Inv B M s) (i : UInt32) : Inv B M (s.setRt (s.life.rt.wake i)) :=
  h.of_rt (h.life.rt.wake i) (s.life.rt.sameStreams_wake i) (fun _ _ => id) fun _ _ _ ha => ha.wake i

theorem Inv.stop (h : Inv B M s) (i : UInt32) :
    Inv B M (s.setRt { s.life.rt with streams := s.life.rt.streams.setKeepRunning i false }) := by
  have hupd : ∀ {j}, Function.update s.life.rt.streams.keepStreamsRunning i false j = true →
      s.life.rt.streams.keepStreamsRunning j = true := by
    intro j hj
    by_cases hji : j = i
    · subst hji; rw [Function.update_self] at hj; cases hj
    · rwa [Function.update_of_ne hji] at hj
  refine h.of_rt ?_ ⟨fun _ => rfl, rfl⟩ (fun _ _ => hupd) fun _ _ _ ha => ha
  refine ⟨h.life.rt.wf, h.life.rt.nodup, h.life.rt.vacant, h.life.rt.vacant_lt, h.life.rt.lt, h.life.rt.reg,
    fun j k hj he => ?_⟩
  by_cases hji : j = i
  · subst hji; exact Function.update_self ..
  · exact (Function.update_of_ne hji _ _).trans (h.life.rt.ended j k hj he)

/-- A stream that is new looks at its queue, whatever its former owner left there. -/
theorem Inv.of_life [DecidableEq τ] {l : Streams.Label τ} {life : Streams τ} (h : Inv B M s)
    (hM : Ring.PowerOfTwo M) (hs : s.life.step M l = some life) : Inv B M { s with life } := by
  refine ⟨h.life.step hM hs, h.wf, fun j hj hkeep hlen => ?_⟩
  rcases h.life.step_task hs hj with ⟨-, hnew⟩ | ⟨htask, hw, hk⟩
  · exact .inr ⟨_, hnew, trivial⟩
  · have hj' : (s.life.rt.task j).isSome := by rw [← htask]; exact hj
    refine (h.covered j hj' (by rw [← hk]; exact hkeep) hlen).imp_right fun ⟨k, hk', ha⟩ => ⟨k, ?_, ?_⟩
    · exact htask.trans hk'
    · show k.Attentive (life.rt.streams.wakers j) True
      rw [hw]
      exact ha

/-- What a `consume` does to its queue does not uncover an element. -/
theorem Inv.consume (h : Inv B M s) (hB : Ring.PowerOfTwo B) (hne : B ≠ 2 ^ 31) (i : UInt32) :
    Inv B M (s.setQueue i ((s.queue i).consumeMovable B).1) := by
  obtain ⟨hwf, hzero, -⟩ := FullSyncMove.consumeMovable_len hB hne (h.wf i)
  refine ⟨h.life, fun j => ?_, fun j hj hkeep hlen => h.covered j hj hkeep fun hz => hlen ?_⟩
  · show (Function.update s.queue i _ j).WellFormed B
    by_cases hji : j = i
    · subst hji; rw [Function.update_self]; exact hwf
    · rw [Function.update_of_ne hji]; exact h.wf j
  · show (Function.update s.queue i _ j).len = 0
    by_cases hji : j = i
    · subst hji; rw [Function.update_self]; exact hzero hz
    · rw [Function.update_of_ne hji]; exact hz

theorem Inv.consumed {rt : Runtime} (h : Inv B M s) (hB : Ring.PowerOfTwo B) (hne : B ≠ 2 ^ 31)
    (hc : s.life.rt.consumed i ((s.queue i).consumeMovable B).2.isSome = some rt) :
    Inv B M ((s.setQueue i ((s.queue i).consumeMovable B).1).setRt rt) := by
  obtain ⟨-, -, hnone⟩ := FullSyncMove.consumeMovable_len hB hne (h.wf i)
  have hkeep := Runtime.keep_of_consumed hc
  refine (h.consume hB hne i).of_rt (h.life.rt.consumed hc) (Runtime.sameStreams_consumed hc)
    (fun j _ hk => by rw [hkeep] at hk; exact hk) fun j _ hlen ha => ha.consumed hc ?_
  rintro rfl hb
  rw [Option.isSome_eq_false_iff, Option.isNone_iff_eq_none] at hb
  refine absurd ?_ hlen
  show (Function.update s.queue j _ j).len = 0
  rw [Function.update_self]
  exact hnone hb

theorem Inv.pollNext {M : Nat} [DecidableEq σ] [DecidableEq τ] (h : Inv B M s) (hB : Ring.PowerOfTwo B)
    (hne : B ≠ 2 ^ 31) (hs : s.step kind B M (.pollNext i) = some s') : Inv B M s' := by
  simp only [Chan.step] at hs
  split at hs
  · obtain ⟨rt, hc, rfl⟩ := Option.map_eq_some_iff.mp hs
    exact h.consumed hB hne hc
  · obtain ⟨rt, hc, rfl⟩ := Option.map_eq_some_iff.mp hs
    have hkeep := Runtime.keep_of_pollRest hc
    refine h.of_rt (h.life.rt.pollRest hc) (Runtime.sameStreams_pollRest hc)
      (fun j _ hk => by rw [hkeep] at hk; exact hk) fun j hk _ ha => ha.pollRest ?_ hc
    rw [hkeep] at hk
    exact hk

/-! ### The steps of a sender -/

variable [DecidableEq σ]

theorem send_cases (hs : s.send kind B t = some s') : ∃ f, s.sending t = some f ∧
    ((∃ g, (f.pc = .next ∨ f.pc = .select ∨ ∃ id, f.pc = .target id true) ∧ s' = s.setSending t g) ∨
     (∃ id q l x g, f.pc = .publish id ∧ (s.queue id).publishMovable B f.item = (q, l, x) ∧
       s' = (s.setQueue id q).setSending t (some g) ∧
       (∀ n, l = some n → n ≤ 1 → g.pc = .target id false ∨ g.pc = .wake id false)) ∨
     (∃ id id', f.pc = .target id false ∧ s.entry f = some id' ∧
       s' = s.setSending t (some { f with pc := .wake id' false })) ∨
     (∃ id full g, f.pc = .wake id full ∧ s' = (s.setRt (s.life.rt.wake id)).setSending t g)) := by
  simp only [Chan.send, Option.bind_eq_bind, Option.bind_eq_some_iff] at hs
  obtain ⟨f, hf, hs⟩ := hs
  refine ⟨f, hf, ?_⟩
  cases hpc : f.pc with
  | next =>
    refine .inl ?_
    cases kind with
    | arc =>
      simp only [hpc] at hs
      split at hs <;> cases hs <;> exact ⟨_, .inl rfl, rfl⟩
    | ogreArc =>
      simp only [hpc] at hs
      split at hs
      · obtain ⟨id, -, hs⟩ := Option.bind_eq_some_iff.mp hs
        split at hs <;> cases hs <;> exact ⟨_, .inl rfl, rfl⟩
      · cases hs
        exact ⟨_, .inl rfl, rfl⟩
  | select =>
    simp only [hpc] at hs
    obtain ⟨id, -, hs⟩ := Option.bind_eq_some_iff.mp hs
    cases hs
    exact .inl ⟨_, .inr (.inl rfl), rfl⟩
  | publish id =>
    simp only [hpc] at hs
    refine .inr (.inl ?_)
    rcases heq : (s.queue id).publishMovable B f.item with ⟨q, _ | l, x⟩
    · cases kind with
      | arc =>
        simp only [heq] at hs
        cases hs
        exact ⟨id, q, none, x, _, rfl, heq, rfl, by rintro n ⟨⟩⟩
      | ogreArc => simp [heq] at hs
    · cases kind with
      | arc =>
        simp only [heq] at hs
        cases hs
        exact ⟨id, q, some l, x, _, rfl, heq, rfl, by rintro n ⟨⟩ hn; left; simp [hn]⟩
      | ogreArc =>
        simp only [heq] at hs
        cases hs
        exact ⟨id, q, some l, x, _, rfl, heq, rfl, by rintro n ⟨⟩ hn; right; simp [hn]⟩
  | target id full =>
    simp only [hpc] at hs
    obtain ⟨id', hid, hs⟩ := Option.bind_eq_some_iff.mp hs
    cases hs
    cases full with
    | true => exact .inl ⟨_, .inr (.inr ⟨id, rfl⟩), rfl⟩
    | false => exact .inr (.inr (.inl ⟨id, id', rfl, (Option.filter_eq_some_iff.mp hid).1, rfl⟩))
  | wake id full =>
    simp only [hpc] at hs
    cases hs
    exact .inr (.inr (.inr ⟨id, full, _, rfl, rfl⟩))

theorem Chan.Covered.setSending {f : Option (Sending α)} (h : s.Covered j) (ht : ¬ s.Owes t j) :
    (s.setSending t f).Covered j := by
  refine h.imp_left fun ⟨u, ho⟩ => ?_
  have hut : u ≠ t := by rintro rfl; exact ht ho
  obtain ⟨g, hg, hpc⟩ := ho
  exact ⟨u, g, (Function.update_of_ne hut _ _).trans hg, hpc⟩

theorem Inv.publish {id : UInt32} {q : FullSyncMove α} {l : Option UInt32} {x : Option α} {f g : Sending α}
    (h : Inv B M s) (hB : Ring.PowerOfTwo B) (hf : s.sending t = some f) (hpc : f.pc = .publish id)
    (hq : (s.queue id).publishMovable B f.item = (q, l, x))
    (hg : ∀ n, l = some n → n ≤ 1 → g.pc = .target id false ∨ g.pc = .wake id false) :
    Inv B M ((s.setQueue id q).setSending t (some g)) := by
  have hnot : ∀ j, ¬ s.Owes t j := by
    rintro j ⟨f', hf', hpc'⟩
    cases hf.symm.trans hf'
    rw [hpc] at hpc'
    rcases hpc' with hpc' | hpc' <;> cases hpc'
  -- the queue is well-formed, and it was empty only if `t` now owes a wake-up
  have hspec : q.WellFormed B ∧ (q.len ≠ 0 → (s.queue id).len = 0 → ∃ n, l = some n ∧ n ≤ 1) := by
    by_cases hlt : (s.queue id).len < Ring.room B
    · obtain ⟨hwf, -, hret⟩ := FullSyncMove.publishMovable_room hB hlt f.item
      rw [hq] at hwf hret
      cases hret
      refine ⟨hwf, fun _ h0 => ⟨_, rfl, ?_⟩⟩
      rw [h0]
      decide
    · rw [FullSyncMove.publishMovable_full hlt] at hq
      cases hq
      exact ⟨h.wf id, fun h₁ h₂ => absurd h₂ h₁⟩
  refine ⟨h.life, fun j => ?_, fun j hj hkeep hlen => ?_⟩
  · show (Function.update s.queue id q j).WellFormed B
    by_cases hji : j = id
    · subst hji; rw [Function.update_self]; exact hspec.1
    · rw [Function.update_of_ne hji]; exact h.wf j
  · have hcov : (s.queue j).len ≠ 0 → ((s.setQueue id q).setSending t (some g)).Covered j := fun hne =>
      Chan.Covered.setSending (s := s.setQueue id q) (h.covered j hj hkeep hne) (hnot j)
    change (Function.update s.queue id q j).len ≠ 0 at hlen
    by_cases hji : j = id
    · subst hji
      rw [Function.update_self] at hlen
      by_cases h0 : (s.queue j).len = 0
      · obtain ⟨n, hl, hn⟩ := hspec.2 hlen h0
        exact .inl ⟨t, g, Function.update_self .., hg n hl hn⟩
      · exact hcov h0
    · rw [Function.update_of_ne hji] at hlen
      exact hcov hlen

theorem Inv.send (h : Inv B M s) (hB : Ring.PowerOfTwo B) (hs : s.send kind B t = some s')
    (hkept : ∀ f id, s.sending t = some f → f.pc = .target id false → s.entry f = some id) : Inv B M s' := by
  obtain ⟨f, hf, ⟨g, hpc, rfl⟩ | ⟨id, q, l, x, g, hpc, hq, rfl, hg⟩ | ⟨id, id', hpc, hid, rfl⟩ |
    ⟨id, full, g, hpc, rfl⟩⟩ := send_cases hs
  · refine ⟨h.life, h.wf, fun j hj hkeep hlen => (h.covered j hj hkeep hlen).setSending ?_⟩
    rintro ⟨f', hf', ho⟩
    cases hf.symm.trans hf'
    rcases hpc with hpc | hpc | ⟨id, hpc⟩ <;> simp [hpc] at ho
  · exact h.publish hB hf hpc hq hg
  · -- what `t` owes is a wake-up of `id`, before and after
    cases hid.symm.trans (hkept f id hf hpc)
    refine ⟨h.life, h.wf, fun j hj hkeep hlen => ?_⟩
    by_cases hji : j = id
    · subst hji; exact .inl ⟨t, _, Function.update_self .., .inr rfl⟩
    · refine (h.covered j hj hkeep hlen).setSending ?_
      rintro ⟨f', hf', ho⟩
      cases hf.symm.trans hf'
      rw [hpc] at ho
      rcases ho with ho | ho <;> cases ho
      exact hji rfl
  · have hw := h.wake id
    refine ⟨hw.life, hw.wf, fun j hj hkeep hlen => ?_⟩
    by_cases hji : j = id
    · subst hji
      exact .inr (h.life.rt.attentive_wake (by rw [← Runtime.isSome_wake]; exact hj) hkeep)
    · refine (hw.covered j hj hkeep hlen).setSending ?_
      rintro ⟨f', hf', ho⟩
      cases hf.symm.trans hf'
      rw [hpc] at ho
      rcases ho with ho | ho <;> cases ho
      exact hji rfl

variable [DecidableEq τ]

theorem Inv.step {b : Label σ τ α} (h : Inv B M s) (hB : Ring.PowerOfTwo B) (hM : Ring.PowerOfTwo M)
    (hne : B ≠ 2 ^ 31) (hs : s.step kind B M b = some s') (hok : s.EntryKept b s') : Inv B M s' := by
  cases b with
  | sendDerived t item =>
    simp only [Chan.step, Option.ite_none_right_eq_some, Option.some.injEq] at hs
    obtain ⟨hnone, rfl⟩ := hs
    refine ⟨h.life, h.wf, fun j hj hkeep hlen => (h.covered j hj hkeep hlen).setSending ?_⟩
    rintro ⟨f, hf, -⟩
    rw [hf] at hnone
    cases hnone
  | send t => exact h.send hB hs hok
  | life l =>
    obtain ⟨life, hl, rfl⟩ := Option.map_eq_some_iff.mp hs
    exact h.of_life hM hl
  | stop j =>
    cases hs
    exact h.stop j
  | wakeStream j =>
    cases hs
    exact h.wake j
  | poll j w =>
    obtain ⟨rt, hp, rfl⟩ := Option.map_eq_some_iff.mp hs
    have hkeep := Runtime.keep_of_poll hp
    exact h.of_rt (h.life.rt.poll hp) (Runtime.sameStreams_poll hp) (fun _ _ hk => by rwa [hkeep] at hk)
      fun _ _ _ ha => (ha.poll hp).imp fun _ => trivial
  | pollNext j => exact h.pollNext hB hne hs

/-- No wake-up is lost in a run in which every sender wakes the stream it published to. -/
theorem multiFullSync_awake (hB : Ring.PowerOfTwo B) (hM : Ring.PowerOfTwo M) (hne : B ≠ 2 ^ 31) {buffer : Nat → α}
    (h : Machine.Steps (Chan.step kind B M) Chan.EntryKept (.init M buffer) s) : s.Awake :=
  (h.invariant (I := Inv B M) (fun _ _ _ hi hs hok => hi.step hB hM hne hs hok) (.init hM buffer)).awake

end Inv

/-! ### Concrete runs -/

def Chan.entryKept {σ τ α : Type} (s : Chan σ τ α) : Label σ τ α → Bool
  | .send t => (s.sending t).all fun f =>
    match f.pc with
    | .target id false => s.entry f = some id
    | _ => true
  | _ => true

theorem entryKept_of_eq_true {σ τ α : Type} {s s' : Chan σ τ α} {b : Label σ τ α} (h : s.entryKept b = true) :
    s.EntryKept b s' := by
  unfold Chan.EntryKept
  split
  · intro f id hf hpc
    simpa [Chan.entryKept, hf, hpc] using h
  · trivial

def create : List (Label Unit Unit Nat) := .life (.create ()) :: List.replicate 4 (.life (.manage ()))

def park (j : UInt32) : List (Label Unit Unit Nat) := .poll j 5 :: List.replicate 3 (.pollNext j)

def dropStream (j : UInt32) : List (Label Unit Unit Nat) :=
  .life (.drop () j) :: List.replicate 5 (.life (.manage ()))

/-- Two streams are created and park, the first one is dropped; the other one is sent an element. -/
theorem multiFullSync_awake_dropped : ∃ s : Chan Unit Unit Nat, s.life.rt.task 0 = none ∧
    s.sending () = none ∧ (s.queue 1).head ≠ (s.queue 1).tail ∧ s.Awake := by
  have hrun : (Machine.exec (Machine.restrict (Chan.step .arc 4 4) fun s b _ => s.entryKept b)
      (.init 4 fun _ => 0) (create ++ create ++ park 0 ++ park 1 ++ park 1 ++ dropStream 0 ++
        [.sendDerived () 7] ++ List.replicate 6 (.send ()))).map (fun s => decide (s.life.rt.task 0 = none ∧
          (s.sending ()).isNone ∧ (s.queue 1).head ≠ (s.queue 1).tail)) = some true := by decide +kernel
  obtain ⟨s, hs, ht⟩ := Option.map_eq_some_iff.mp hrun
  rw [decide_eq_true_iff] at ht
  have hsteps : Machine.Steps (Chan.step .arc 4 4) Chan.EntryKept (.init 4 fun _ => 0) s :=
    (Machine.Path.of_exec_restrict (fun _ _ _ h => h) hs).steps.mono fun _ _ _ hw => entryKept_of_eq_true hw
  exact ⟨s, ht.1, Option.isNone_iff_eq_none.mp ht.2.1, ht.2.2,
    multiFullSync_awake ⟨2, rfl⟩ ⟨2, rfl⟩ (by decide) hsteps⟩

/-- Streams 0, 1 and 2 exist and stream 1 is parked. The sender publishes to stream 1; stream 0 is
dropped, so that the entry of stream 1 becomes that of stream 2; the sender wakes stream 2. -/
theorem movedEntry_run : ∃ s : Chan Unit Unit Nat,
    Machine.Steps (Chan.step .arc 4 4) (fun _ _ _ => True) (.init 4 fun _ => 0) s ∧ s.sending () = none ∧
      ¬ s.Awake := by
  have hrun : (Machine.exec (Chan.step .arc 4 4) (.init 4 fun _ => 0) (create ++ create ++ create ++ park 1 ++ park 1 ++
      [.sendDerived () 7] ++ List.replicate 8 (.send ()) ++ dropStream 0 ++ List.replicate 3 (.send ()))).map
      (fun s => decide ((s.sending ()).isNone ∧ (s.queue 1).head ≠ (s.queue 1).tail ∧
        s.life.rt.streams.keepStreamsRunning 1 = true ∧ s.life.rt.task 1 = some ⟨.pending, 5, false⟩)) =
      some true := by decide +kernel
  obtain ⟨s, hs, ht⟩ := Option.map_eq_some_iff.mp hrun
  rw [decide_eq_true_iff] at ht
  obtain ⟨hsend, hne, hkeep, htask⟩ := ht
  have hsend' := Option.isNone_iff_eq_none.mp hsend
  refine ⟨s, (Machine.Path.of_exec hs).steps, hsend', fun hawake => ?_⟩
  refine hawake 1 _ htask hkeep ?_ hne ⟨rfl, rfl⟩
  rintro t ⟨f, hf, -⟩
  rw [hsend'] at hf
  cases hf

end Mutiny.MultiFullSync
