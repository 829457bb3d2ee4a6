import Mutiny.MultiCrossbeam
import Mutiny.StreamWakes
import Mutiny.StreamsGrow
import Mutiny.UniFullSync

/-!
# The Multi channel `Crossbeam` and its wake-ups

`multi/channels/arc/crossbeam.rs`: any number of senders run `send_derived` while streams are created, polled and dropped
and their ids recycled. Every `sender.len()`, `try_send`, `try_recv`, `wake_stream` and read of an entry of `used_streams()`
is one step. The channels are those of `crossbeam_channel`, as in `MultiCrossbeam`; each is shared by the streams that have
the same id one after the other.

A sender wakes a stream when it has found at most two events in its channel, or when the channel is full. It holds a
reference into `used_streams()` and reads the id anew to wake the stream.
-/

namespace Mutiny.CrossbeamStreams
open CrossbeamChannel LawfulCrossbeamChannel

/-- What `send_derived` does next with its entry of `used_streams()`. -/
inductive Pc
  -- the head of the loop
  | next
  -- look up `self.senders[*stream_id]`
  | select
  -- about to call `sender.len()`, `id` being the one of the sender
  | len (id : UInt32)
  -- `len_before <= 2`: about to `try_send`, whatever comes of it
  | forget (id : UInt32)
  -- about to `try_send` until it succeeds
  | insist (id : UInt32)
  -- read the id of the stream to wake, after a `try_send`; `again` if it is to be made once more
  | target (id : UInt32) (again : Bool)
  | wake (streamId id : UInt32) (again : Bool)
deriving DecidableEq

structure Sending (α : Type) where
  item : α
  /-- the index of the entry -/
  i : Nat
  pc : Pc

structure Chan (Q : Type → Type) (σ τ α : Type) where
  channel : UInt32 → Q α
  sending : σ → Option (Sending α)
  life : Streams τ

inductive Label (σ τ α : Type)
  -- `send`, `send_with`, `send_with_async` and `send_derived` all come to `send_derived`
  | sendDerived (t : σ) (item : α)
  -- the next step of the sender `t`
  | send (t : σ)
  | life (l : Streams.Label τ)
  -- the two steps of `cancel_stream(j)`; the second is also the one of `flush`
  | stop (j : UInt32)
  | wakeStream (j : UInt32)
  | poll (j : UInt32) (w : Waker)
  -- the next step of the `poll_next` of stream `j`
  | pollNext (j : UInt32)

namespace Chan
variable {Q : Type → Type} [LawfulCrossbeamChannel Q] {σ τ α : Type}

def init (B M : Nat) : Chan Q σ τ α := ⟨fun _ => bounded B, fun _ => none, .new M⟩

def setChannel (s : Chan Q σ τ α) (j : UInt32) (q : Q α) : Chan Q σ τ α :=
  { s with channel := Function.update s.channel j q }

def setRt (s : Chan Q σ τ α) (rt : Runtime) : Chan Q σ τ α := { s with life := { s.life with rt } }

/-- The entry of `used_streams()` a sender is at; `none` past the end of the array. -/
def entry (s : Chan Q σ τ α) (f : Sending α) : Option UInt32 := s.life.rt.streams.usedStreams[f.i]?

/-- The entry as an index into the per-stream arrays. -/
def index (s : Chan Q σ τ α) (f : Sending α) : Option UInt32 := (s.entry f).filter (· ≠ u32Max)

variable [DecidableEq σ]

def setSending (s : Chan Q σ τ α) (t : σ) (f : Option (Sending α)) : Chan Q σ τ α :=
  { s with sending := Function.update s.sending t f }

def goOn (s : Chan Q σ τ α) (t : σ) (f : Sending α) (pc : Pc) : Chan Q σ τ α := s.setSending t (some { f with pc })

def advance (s : Chan Q σ τ α) (t : σ) (f : Sending α) : Chan Q σ τ α :=
  s.setSending t (some { f with i := f.i + 1, pc := .next })

/-- The next step of `send_derived`. There is none after an access out of bounds. -/
def send (s : Chan Q σ τ α) (t : σ) : Option (Chan Q σ τ α) := do
  let f ← s.sending t
  match f.pc with
  | .next =>
    match s.index f with
    | some _ => some (s.goOn t f .select)
    | none => some (s.setSending t none)
  | .select =>
    let id ← s.index f
    some (s.goOn t f (.len id))
  | .len id => some (s.goOn t f (if CrossbeamChannel.len (s.channel id) ≤ 2 then .forget id else .insist id))
  | .forget id => some ((s.setChannel id (trySend (s.channel id) f.item).1).goOn t f (.target id false))
  | .insist id =>
    let (q, ok) := trySend (s.channel id) f.item
    if ok then some ((s.setChannel id q).advance t f) else some ((s.setChannel id q).goOn t f (.target id true))
  | .target id again =>
    let streamId ← s.index f
    some (s.goOn t f (.wake streamId id again))
  | .wake streamId id again =>
    let s := s.setRt (s.life.rt.wake streamId)
    if again then some (s.goOn t f (.insist id)) else some (s.advance t f)

variable [DecidableEq τ]

def step (M : Nat) (s : Chan Q σ τ α) : Label σ τ α → Option (Chan Q σ τ α)
  | .sendDerived t item =>
    if (s.sending t).isNone then some (s.setSending t (some ⟨item, 0, .next⟩)) else none
  | .send t => s.send t
  | .life l => (s.life.step M l).map fun life => { s with life }
  | .stop j => some (s.setRt { s.life.rt with streams := s.life.rt.streams.setKeepRunning j false })
  | .wakeStream j => some (s.setRt (s.life.rt.wake j))
  | .poll j w => (s.life.rt.poll j w).map s.setRt
  | .pollNext j =>
    if (s.life.rt.task j).map Task.phase = some .consuming then
      let (q, event) := tryRecv (s.channel j)
      (s.life.rt.consumed j event.isSome).map (s.setChannel j q).setRt
    else (s.life.rt.pollRest j).map s.setRt

end Chan

/-- After its `try_send` to the channel of stream `j`, the sender has yet to make its call of `wake_stream(j)`. -/
def Pc.owes : Pc → UInt32 → Prop
  | .target id again, j => again = false ∧ id = j
  | .wake streamId _ again, j => again = false ∧ streamId = j
  | .next, _ | .select, _ | .len _, _ | .forget _, _ | .insist _, _ => False

namespace Chan
variable {Q : Type → Type} [LawfulCrossbeamChannel Q] {σ τ α : Type}

/-- Sender `t` is about to wake stream `j`. -/
def Owes (s : Chan Q σ τ α) (t : σ) (j : UInt32) : Prop := ∃ f, s.sending t = some f ∧ f.pc.owes j

def Owed (s : Chan Q σ τ α) (j : UInt32) : Prop := ∃ t, s.Owes t j

def Pending (s : Chan Q σ τ α) (j : UInt32) : Prop := items (s.channel j) ≠ []

/-- A stream that is not cancelled, whose channel holds an event and whom no sender is about to wake, is not parked. -/
def Awake (s : Chan Q σ τ α) : Prop :=
  ∀ j k, s.life.rt.task j = some k → s.life.rt.streams.keepStreamsRunning j = true → (∀ t, ¬ s.Owes t j) →
    items (s.channel j) ≠ [] → ¬ k.parked

/-- A sender that looks up the stream to wake finds the one it sent to. -/
def EntryKept (s : Chan Q σ τ α) : Label σ τ α → Prop
  | .send t => ∀ f id, s.sending t = some f → f.pc = .target id false → s.entry f = some id
  | _ => True

/-- A sender that is not going to wake the stream does not find its channel empty. -/
def NotStale (s : Chan Q σ τ α) : Label σ τ α → Prop
  | .send t => ∀ f id, s.sending t = some f → f.pc = .insist id → items (s.channel id) ≠ []
  | _ => True

end Chan

section Inv
variable {Q : Type → Type} [LawfulCrossbeamChannel Q] {σ τ α : Type} {B M : Nat} {s s' : Chan Q σ τ α} {t : σ}
  {j id : UInt32} {f : Sending α} {o : Option (Sending α)}

def Inv (M : Nat) (s : Chan Q σ τ α) : Prop := s.life.Watched M s.Pending s.Owed fun _ => True

namespace Chan
variable [DecidableEq σ]

theorem send_cases (hs : s.send t = some s') : ∃ f, s.sending t = some f ∧
    ((∃ g, (∀ j, ¬ f.pc.owes j) ∧ s' = s.setSending t g) ∨
     (∃ id g, (f.pc = .forget id ∧ g.pc = .target id false ∨ f.pc = .insist id) ∧
       s' = (s.setChannel id (trySend (s.channel id) f.item).1).setSending t (some g)) ∨
     (∃ id id', f.pc = .target id false ∧ s.entry f = some id' ∧ s' = s.goOn t f (.wake id' id false)) ∨
     (∃ streamId id again g, f.pc = .wake streamId id again ∧
       s' = (s.setRt (s.life.rt.wake streamId)).setSending t (some g))) := by
  simp only [Chan.send, Option.bind_eq_bind, Option.bind_eq_some_iff] at hs
  obtain ⟨f, hf, hs⟩ := hs
  refine ⟨f, hf, ?_⟩
  cases hpc : f.pc with
  | next =>
    simp only [hpc] at hs
    split at hs <;> cases hs <;> exact .inl ⟨_, fun _ ho => ho, rfl⟩
  | select =>
    simp only [hpc] at hs
    obtain ⟨id, -, hs⟩ := Option.bind_eq_some_iff.mp hs
    cases hs
    exact .inl ⟨_, fun _ ho => ho, rfl⟩
  | len id =>
    simp only [hpc] at hs
    cases hs
    exact .inl ⟨_, fun _ ho => ho, rfl⟩
  | forget id =>
    simp only [hpc] at hs
    cases hs
    exact .inr (.inl ⟨id, _, .inl ⟨rfl, rfl⟩, rfl⟩)
  | insist id =>
    simp only [hpc] at hs
    refine .inr (.inl ⟨id, ?_⟩)
    split at hs <;> cases hs <;> exact ⟨_, .inr rfl, rfl⟩
  | target id again =>
    simp only [hpc] at hs
    obtain ⟨id', hid, hs⟩ := Option.bind_eq_some_iff.mp hs
    cases hs
    cases again with
    | true => exact .inl ⟨_, fun _ ho => Bool.noConfusion ho.1, rfl⟩
    | false => exact .inr (.inr (.inl ⟨id, id', rfl, (Option.filter_eq_some_iff.mp hid).1, rfl⟩))
  | wake streamId id again =>
    simp only [hpc] at hs
    refine .inr (.inr (.inr ⟨streamId, id, again, ?_⟩))
    split at hs <;> cases hs <;> exact ⟨_, rfl, rfl⟩

omit [LawfulCrossbeamChannel Q] in
theorem Owed.setSending (h : s.Owed j) (ht : ¬ s.Owes t j) : (s.setSending t o).Owed j := by
  obtain ⟨u, ho⟩ := h
  have hut : u ≠ t := by
    rintro rfl
    exact ht ho
  obtain ⟨g, hg, hpc⟩ := ho
  exact ⟨u, g, (Function.update_of_ne hut _ _).trans hg, hpc⟩

end Chan

namespace Inv

theorem awake (h : Inv M s) : s.Awake := fun _ _ hk hkeep howe hne =>
  h.not_parked hk hkeep hne fun ⟨t, ho⟩ => howe t ho

theorem init (hM : Ring.PowerOfTwo M) : Inv M (.init B M : Chan Q σ τ α) := .new hM

/-- What a `try_recv` does to its channel does not bring an event. -/
theorem consumed {rt : Runtime} (h : Inv M s)
    (hc : s.life.rt.consumed j (tryRecv (s.channel j)).2.isSome = some rt) :
    Inv M ((s.setChannel j (tryRecv (s.channel j)).1).setRt rt) := by
  have hrecv : (items (tryRecv (s.channel j)).1 ≠ [] → items (s.channel j) ≠ []) ∧
      ((tryRecv (s.channel j)).2.isSome = false → items (tryRecv (s.channel j)).1 = []) := by
    cases hitems : items (s.channel j) with
    | nil => exact ⟨fun hne => absurd (tryRecv_nil hitems).1 hne, fun _ => (tryRecv_nil hitems).1⟩
    | cons event rest =>
      refine ⟨fun _ => nofun, fun hnone => ?_⟩
      rw [(tryRecv_cons hitems).2] at hnone
      cases hnone
  have h' : s.life.Watched M (s.setChannel j (tryRecv (s.channel j)).1).Pending s.Owed fun _ => True := by
    refine Streams.Watched.imp h fun i _ hp => .inr ⟨?_, id⟩
    change items (Function.update s.channel j _ i) ≠ [] at hp
    by_cases hij : i = j
    · subst hij
      rw [Function.update_self] at hp
      exact hrecv.1 hp
    · rwa [Function.update_of_ne hij] at hp
  refine h'.consumed (fun hnone hp => absurd ?_ hp) hc
  show items (Function.update s.channel j _ j) = []
  rw [Function.update_self]
  exact hrecv.2 hnone

variable [DecidableEq σ]

theorem setSending (h : Inv M s) (ht : ∀ j, ¬ s.Owes t j) : Inv M (s.setSending t o) :=
  Streams.Watched.imp h fun j _ hp => .inr ⟨hp, fun ho => ho.setSending (ht j)⟩

/-- After a `try_send` sender `t` owes a wake-up, unless there was an event before. -/
theorem trySend {g : Sending α} (h : Inv M s) (ht : ∀ j, ¬ s.Owes t j)
    (hg : g.pc = .target id false ∨ items (s.channel id) ≠ []) :
    Inv M ((s.setChannel id (CrossbeamChannel.trySend (s.channel id) f.item).1).setSending t (some g)) := by
  refine Streams.Watched.imp h fun j _ hp => ?_
  have hothers : s.Owed j →
      ((s.setChannel id (CrossbeamChannel.trySend (s.channel id) f.item).1).setSending t (some g)).Owed j :=
    fun ho => Chan.Owed.setSending (s := s.setChannel id _) ho (ht j)
  by_cases hj : j = id
  · subst hj
    rcases hg with hg | hne
    · exact .inl ⟨t, g, Function.update_self .., by rw [hg]; exact ⟨rfl, rfl⟩⟩
    · exact .inr ⟨hne, hothers⟩
  · refine .inr ⟨?_, hothers⟩
    change items (Function.update s.channel id _ j) ≠ [] at hp
    rwa [Function.update_of_ne hj] at hp

theorem send (h : Inv M s) (hs : s.send t = some s')
    (hkept : ∀ f id, s.sending t = some f → f.pc = .target id false → s.entry f = some id)
    (hstale : ∀ f id, s.sending t = some f → f.pc = .insist id → items (s.channel id) ≠ []) : Inv M s' := by
  obtain ⟨f, hf, ⟨g, hpc, rfl⟩ | ⟨id, g, hpc, rfl⟩ | ⟨id, id', hpc, hid, rfl⟩ | ⟨streamId, id, again, g, hpc, rfl⟩⟩ :=
    Chan.send_cases hs
  · refine h.setSending ?_
    rintro j ⟨f', hf', ho⟩
    cases hf.symm.trans hf'
    exact hpc j ho
  · refine h.trySend ?_ ?_
    · rintro j ⟨f', hf', ho⟩
      cases hf.symm.trans hf'
      rcases hpc with ⟨hpc, -⟩ | hpc <;> rw [hpc] at ho <;> exact ho
    · exact hpc.imp And.right (hstale f id hf)
  · -- what `t` owes is a wake-up of `id`, before and after
    cases hid.symm.trans (hkept f id hf hpc)
    refine Streams.Watched.imp h fun j _ hp => ?_
    by_cases hj : j = id
    · subst hj
      exact .inl ⟨t, _, Function.update_self .., rfl, rfl⟩
    · refine .inr ⟨hp, fun ho => ho.setSending ?_⟩
      rintro ⟨f', hf', ho⟩
      cases hf.symm.trans hf'
      rw [hpc] at ho
      exact hj ho.2.symm
  · have hw : (s.setRt (s.life.rt.wake streamId)).life.Watched M s.Pending (fun j => s.Owed j ∧ j ≠ streamId) fun _ => True :=
      Streams.Watched.wake h streamId
    refine hw.imp fun j _ hp => .inr ⟨hp, fun ⟨ho, hj⟩ => ?_⟩
    refine Chan.Owed.setSending (s := s.setRt (s.life.rt.wake streamId)) ho ?_
    rintro ⟨f', hf', ho⟩
    cases hf.symm.trans hf'
    rw [hpc] at ho
    exact hj ho.2.symm

variable [DecidableEq τ]

theorem step {l : Label σ τ α} (h : Inv M s) (hM : Ring.PowerOfTwo M) (hs : s.step M l = some s')
    (hkept : s.EntryKept l) (hstale : s.NotStale l) : Inv M s' := by
  rcases l with ⟨t, item⟩ | t | l | j | j | ⟨j, w⟩ | j
  · obtain ⟨hnone, hs⟩ := Option.ite_none_right_eq_some.mp hs
    cases hs
    refine h.setSending ?_
    rintro j ⟨f, hf, -⟩
    rw [hf] at hnone
    cases hnone
  · exact h.send hs hkept hstale
  · obtain ⟨life, hl, rfl⟩ := Option.map_eq_some_iff.mp hs
    exact Streams.Watched.step h hM hl
  · cases hs
    exact Streams.Watched.stop h j
  · cases hs
    exact (Streams.Watched.wake h j).imp fun _ _ hp => .inr ⟨hp, And.left⟩
  · obtain ⟨rt, hp, rfl⟩ := Option.map_eq_some_iff.mp hs
    exact Streams.Watched.poll h trivial hp
  · simp only [Chan.step] at hs
    split at hs
    · obtain ⟨rt, hc, rfl⟩ := Option.map_eq_some_iff.mp hs
      exact h.consumed hc
    · obtain ⟨rt, hc, rfl⟩ := Option.map_eq_some_iff.mp hs
      exact Streams.Watched.pollRest h hc

end Inv

/-- No wake-up is lost in a run in which every sender wakes the stream it sent to, if it relies on no event that is gone. -/
theorem crossbeamStreams_awake [DecidableEq σ] [DecidableEq τ] (hM : Ring.PowerOfTwo M)
    (h : Machine.Steps (Chan.step M) (fun s l _ => s.EntryKept l ∧ s.NotStale l) (.init B M) s) : s.Awake := by
  have hkeep : ∀ (s : Chan Q σ τ α) l s', Inv M s → s.step M l = some s' → s.EntryKept l ∧ s.NotStale l → Inv M s' :=
    fun _ _ _ hi hs hok => hi.step hM hs hok.1 hok.2
  exact (h.invariant hkeep (.init hM)).awake

end Inv
/-! ### No stream is dropped -/

def Pc.sender : Pc → Option UInt32
  | .len id | .forget id | .insist id | .target id _ | .wake _ id _ => some id
  | .next | .select => none

/-- The sender goes on until its `try_send` succeeds. -/
def Pc.insists : Pc → Bool
  | .insist _ | .target _ true | .wake _ _ true => true
  | _ => false

def Label.drops {σ τ α : Type} : Label σ τ α → Bool
  | .life l => l.drops
  | _ => false

section Growing
variable {Q : Type → Type} {σ τ α : Type} {B M : Nat} {s s' : Chan Q σ τ α} {t : σ} {j : UInt32} {f : Sending α}

/-- The entries that the senders have read are still there. -/
structure Growing (M : Nat) (s : Chan Q σ τ α) : Prop where
  ok : s.life.Ok M
  grown : ∃ n k, s.life.Grown M n k
  kept : ∀ t f id, s.sending t = some f → f.pc.sender = some id → s.entry f = some id ∧ id ≠ u32Max

namespace Growing

theorem entryKept (h : Growing M s) (l : Label σ τ α) : s.EntryKept l := by
  cases l with
  | send t => exact fun f id hf hpc => (h.kept t f id hf (by rw [hpc]; rfl)).1
  | _ => trivial

theorem of_rt {rt : Runtime} (h : Growing M s) (hok : rt.Ok M) (hsame : s.life.rt.SameStreams rt)
    (hu : rt.streams.usedStreams = s.life.rt.streams.usedStreams) : Growing M (s.setRt rt) := by
  obtain ⟨n, k, hg⟩ := h.grown
  refine ⟨h.ok.of_rt hok hsame, ⟨n, k, hg.of_rt hsame hu⟩, fun t f id hf hid => ?_⟩
  obtain ⟨he, hne⟩ := h.kept t f id hf hid
  refine ⟨?_, hne⟩
  show rt.streams.usedStreams[f.i]? = some id
  rw [hu]
  exact he

theorem life [DecidableEq τ] {l : Streams.Label τ} {life : Streams τ} (h : Growing M s) (hM : Ring.PowerOfTwo M)
    (hl : l.drops = false) (hs : s.life.step M l = some life) : Growing M { s with life } := by
  obtain ⟨n, k, hg⟩ := h.grown
  obtain ⟨n', k', hle, hg', -⟩ := hg.step hM h.ok hs hl
  refine ⟨h.ok.step hM hs, ⟨n', k', hg'⟩, fun t f id hf hid => ?_⟩
  obtain ⟨he, hne⟩ := h.kept t f id hf hid
  exact ⟨hg.entry_stays hg' hle he hne, hne⟩

theorem setChannel (h : Growing M s) (q : Q α) : Growing M (s.setChannel j q) := ⟨h.ok, h.grown, h.kept⟩

theorem wake (h : Growing M s) (j : UInt32) : Growing M (s.setRt (s.life.rt.wake j)) :=
  h.of_rt (h.ok.rt.wake j) (s.life.rt.sameStreams_wake j) rfl

variable [DecidableEq σ]

/-- Sender `t` goes on, with an entry that it has read if it has looked up the sender of a channel. -/
theorem setSending {o : Option (Sending α)} (h : Growing M s)
    (ho : ∀ g id, o = some g → g.pc.sender = some id → s.entry g = some id ∧ id ≠ u32Max) :
    Growing M (s.setSending t o) := by
  refine ⟨h.ok, h.grown, fun u g id hu hid => ?_⟩
  have hu' : Function.update s.sending t o u = some g := hu
  by_cases hut : u = t
  · subst hut
    rw [Function.update_self] at hu'
    exact ho g id hu' hid
  · rw [Function.update_of_ne hut] at hu'
    exact h.kept u g id hu' hid

theorem advance (h : Growing M s) : Growing M (s.advance t f) :=
  h.setSending (by rintro _ _ ⟨⟩ ⟨⟩)

theorem goOn {pc : Pc} (h : Growing M s) (hpc : ∀ id, pc.sender = some id → s.entry f = some id ∧ id ≠ u32Max) :
    Growing M (s.goOn t f pc) :=
  h.setSending (by rintro _ id ⟨⟩ hid; exact hpc id hid)

variable [LawfulCrossbeamChannel Q]

omit [DecidableEq σ] in
theorem init (hM : Ring.PowerOfTwo M) : Growing M (.init B M : Chan Q σ τ α) := ⟨.new hM, ⟨0, 0, .new hM⟩, nofun⟩

theorem send (h : Growing M s) (hs : s.send t = some s') : Growing M s' := by
  simp only [Chan.send, Option.bind_eq_bind, Option.bind_eq_some_iff] at hs
  obtain ⟨f, hf, hs⟩ := hs
  have hkept := h.kept t f
  cases hpc : f.pc with
  | next =>
    simp only [hpc] at hs
    split at hs <;> cases hs
    · exact h.goOn nofun
    · exact h.setSending nofun
  | select =>
    simp only [hpc] at hs
    obtain ⟨id, hid, hs⟩ := Option.bind_eq_some_iff.mp hs
    cases hs
    obtain ⟨he, hne⟩ := Option.filter_eq_some_iff.mp hid
    refine h.goOn ?_
    rintro _ ⟨⟩
    exact ⟨he, by simpa using hne⟩
  | len id =>
    simp only [hpc] at hs
    cases hs
    refine h.goOn fun id' hid' => hkept id' hf ?_
    rw [← hid', hpc]
    split <;> rfl
  | forget id =>
    simp only [hpc] at hs
    cases hs
    exact (h.setChannel _).goOn fun id' hid' => hkept id' hf (by rw [hpc]; exact hid')
  | insist id =>
    simp only [hpc] at hs
    split at hs <;> cases hs
    · exact (h.setChannel _).advance
    · exact (h.setChannel _).goOn fun id' hid' => hkept id' hf (by rw [hpc]; exact hid')
  | target id again =>
    simp only [hpc] at hs
    obtain ⟨id', -, hs⟩ := Option.bind_eq_some_iff.mp hs
    cases hs
    exact h.goOn fun id' hid' => hkept id' hf (by rw [hpc]; exact hid')
  | wake streamId id again =>
    simp only [hpc] at hs
    split at hs <;> cases hs
    · exact (h.wake streamId).goOn fun id' hid' => hkept id' hf (by rw [hpc]; exact hid')
    · exact (h.wake streamId).advance

variable [DecidableEq τ]

theorem step {l : Label σ τ α} (h : Growing M s) (hM : Ring.PowerOfTwo M) (hs : s.step M l = some s')
    (hl : l.drops = false) : Growing M s' := by
  rcases l with ⟨t, item⟩ | t | l | j | j | ⟨j, w⟩ | j
  · obtain ⟨-, hs⟩ := Option.ite_none_right_eq_some.mp hs
    cases hs
    exact h.setSending (by rintro _ _ ⟨⟩ ⟨⟩)
  · exact h.send hs
  · obtain ⟨life, hlife, rfl⟩ := Option.map_eq_some_iff.mp hs
    exact h.life hM hl hlife
  · cases hs
    exact h.of_rt (h.ok.rt.stop j) ⟨fun _ => rfl, rfl⟩ rfl
  · cases hs
    exact h.wake j
  · obtain ⟨rt, hp, rfl⟩ := Option.map_eq_some_iff.mp hs
    refine h.of_rt (h.ok.rt.poll hp) (Runtime.sameStreams_poll hp) ?_
    obtain ⟨k, -, rfl⟩ := Runtime.poll_cases hp
    rfl
  · simp only [Chan.step] at hs
    split at hs
    · obtain ⟨rt, hc, rfl⟩ := Option.map_eq_some_iff.mp hs
      refine (h.setChannel _).of_rt (h.ok.rt.consumed hc) (Runtime.sameStreams_consumed hc) ?_
      obtain ⟨k, -, -, rfl⟩ := Runtime.consumed_cases hc
      rfl
    · obtain ⟨rt, hc, rfl⟩ := Option.map_eq_some_iff.mp hs
      refine h.of_rt (h.ok.rt.pollRest hc) (Runtime.sameStreams_pollRest hc) ?_
      obtain ⟨k, -, ⟨-, rfl⟩ | ⟨-, b, -, rfl⟩⟩ := Runtime.pollRest_cases hc <;> rfl

end Growing
end Growing

section Few
variable {Q : Type → Type} [LawfulCrossbeamChannel Q] {σ τ α : Type} {B M : Nat} {s s' : Chan Q σ τ α} {t : σ}
  {j id : UInt32} {f : Sending α}

/-- No sender has found more than two events. -/
structure Few (B : Nat) (s : Chan Q σ τ α) : Prop where
  capacity : ∀ j, capacity (s.channel j) = B
  length : ∀ j, (items (s.channel j)).length ≤ B
  never : ∀ t f, s.sending t = some f → f.pc.insists = false

namespace Few

theorem init : Few B (.init B M : Chan Q σ τ α) := by
  refine ⟨fun _ => capacity_bounded B, fun _ => ?_, nofun⟩
  show (items (bounded B : Q α)).length ≤ B
  rw [items_bounded]
  exact Nat.zero_le _

theorem notStale (h : Few B s) (l : Label σ τ α) : s.NotStale l := by
  cases l with
  | send t =>
    intro f id hf hpc
    have := h.never t f hf
    rw [hpc] at this
    cases this
  | _ => trivial

theorem setChannel {q : Q α} (h : Few B s) (hcap : LawfulCrossbeamChannel.capacity q = B) (hlen : (items q).length ≤ B) :
    Few B (s.setChannel j q) := by
  refine ⟨fun i => ?_, fun i => ?_, h.never⟩
  · show LawfulCrossbeamChannel.capacity (Function.update s.channel j q i) = B
    by_cases hij : i = j
    · subst hij; rwa [Function.update_self]
    · rw [Function.update_of_ne hij]; exact h.capacity i
  · show (items (Function.update s.channel j q i)).length ≤ B
    by_cases hij : i = j
    · subst hij; rwa [Function.update_self]
    · rw [Function.update_of_ne hij]; exact h.length i

theorem trySend (h : Few B s) (j : UInt32) (x : α) :
    Few B (s.setChannel j (CrossbeamChannel.trySend (s.channel j) x).1) := by
  have hcap := h.capacity j
  refine h.setChannel ((capacity_trySend _ x).trans hcap) ?_
  by_cases hroom : (items (s.channel j)).length < LawfulCrossbeamChannel.capacity (s.channel j)
  · rw [(trySend_ok x hroom).1, List.length_append, List.length_singleton]
    omega
  · rw [(trySend_err x hroom).1]
    exact h.length j

theorem tryRecv (h : Few B s) (j : UInt32) : Few B (s.setChannel j (CrossbeamChannel.tryRecv (s.channel j)).1) := by
  have hlen := h.length j
  refine h.setChannel ((capacity_tryRecv _).trans (h.capacity j)) ?_
  cases hitems : items (s.channel j) with
  | nil =>
    rw [(tryRecv_nil hitems).1]
    exact Nat.zero_le _
  | cons event rest =>
    rw [hitems, List.length_cons] at hlen
    rw [(tryRecv_cons hitems).1]
    omega

variable [DecidableEq σ]

theorem setSending {o : Option (Sending α)} (h : Few B s)
    (ho : ∀ g, o = some g → g.pc.insists = false) : Few B (s.setSending t o) := by
  refine ⟨h.capacity, h.length, fun u g hu => ?_⟩
  have hu' : Function.update s.sending t o u = some g := hu
  by_cases hut : u = t
  · subst hut
    rw [Function.update_self] at hu'
    exact ho g hu'
  · rw [Function.update_of_ne hut] at hu'
    exact h.never u g hu'

theorem goOn {pc : Pc} (h : Few B s) (hpc : pc.insists = false) : Few B (s.goOn t f pc) :=
  h.setSending (by rintro _ ⟨⟩; exact hpc)

theorem advance (h : Few B s) : Few B (s.advance t f) := h.setSending (by rintro _ ⟨⟩; rfl)

theorem send (h : Few B s) (hB : B ≤ 2) (hs : s.send t = some s') : Few B s' := by
  simp only [Chan.send, Option.bind_eq_bind, Option.bind_eq_some_iff] at hs
  obtain ⟨f, hf, hs⟩ := hs
  have hnever := h.never t f hf
  cases hpc : f.pc with
  | next =>
    simp only [hpc] at hs
    split at hs <;> cases hs
    · exact h.goOn rfl
    · exact h.setSending nofun
  | select =>
    simp only [hpc] at hs
    obtain ⟨id, -, hs⟩ := Option.bind_eq_some_iff.mp hs
    cases hs
    exact h.goOn rfl
  | len id =>
    simp only [hpc] at hs
    rw [if_pos (by rw [len_eq]; exact (h.length id).trans hB)] at hs
    cases hs
    exact h.goOn rfl
  | forget id =>
    simp only [hpc] at hs
    cases hs
    exact (h.trySend id f.item).goOn rfl
  | insist id =>
    rw [hpc] at hnever
    cases hnever
  | target id again =>
    simp only [hpc] at hs
    obtain ⟨id', -, hs⟩ := Option.bind_eq_some_iff.mp hs
    cases hs
    rw [hpc] at hnever
    cases again with
    | true => cases hnever
    | false => exact h.goOn rfl
  | wake streamId id again =>
    have hrt : Few B (s.setRt (s.life.rt.wake streamId)) := ⟨h.capacity, h.length, h.never⟩
    rw [hpc] at hnever
    cases again with
    | true => cases hnever
    | false =>
      simp only [hpc] at hs
      cases hs
      exact hrt.advance

variable [DecidableEq τ]

theorem step {l : Label σ τ α} (h : Few B s) (hB : B ≤ 2) (hs : s.step M l = some s') : Few B s' := by
  rcases l with ⟨t, item⟩ | t | l | j | j | ⟨j, w⟩ | j
  · obtain ⟨-, hs⟩ := Option.ite_none_right_eq_some.mp hs
    cases hs
    exact h.setSending (by rintro _ ⟨⟩; rfl)
  · exact h.send hB hs
  · obtain ⟨life, -, rfl⟩ := Option.map_eq_some_iff.mp hs
    exact ⟨h.capacity, h.length, h.never⟩
  · cases hs
    exact ⟨h.capacity, h.length, h.never⟩
  · cases hs
    exact ⟨h.capacity, h.length, h.never⟩
  · obtain ⟨rt, -, rfl⟩ := Option.map_eq_some_iff.mp hs
    exact ⟨h.capacity, h.length, h.never⟩
  · simp only [Chan.step] at hs
    split at hs
    · obtain ⟨rt, -, rfl⟩ := Option.map_eq_some_iff.mp hs
      have h' := h.tryRecv j
      exact ⟨h'.capacity, h'.length, h'.never⟩
    · obtain ⟨rt, -, rfl⟩ := Option.map_eq_some_iff.mp hs
      exact ⟨h.capacity, h.length, h.never⟩

end Few

/-- Without drops, every sender wakes the stream it sent to if the channels have no room for a third event. -/
theorem awake_of_small [DecidableEq σ] [DecidableEq τ] (hM : Ring.PowerOfTwo M) (hB : B ≤ 2)
    (h : Machine.Steps (Chan.step M) (fun _ l _ => l.drops = false) (.init B M : Chan Q σ τ α) s) : s.Awake := by
  have hkeep : ∀ (s : Chan Q σ τ α) l s', (Growing M s ∧ Few B s) → s.step M l = some s' → l.drops = false →
      Growing M s' ∧ Few B s' := fun _ _ _ hi hs hl => ⟨hi.1.step hM hs hl, hi.2.step hB hs⟩
  exact crossbeamStreams_awake hM <|
    h.strengthen hkeep (fun _ l _ hi _ _ _ => ⟨hi.1.entryKept l, hi.2.notStale l⟩) ⟨.init hM, .init⟩

end Few
/-! ### A length out of date -/

section Stale
variable {Q : Type → Type} [LawfulCrossbeamChannel Q] {B M n t : Nat} {s : Chan Q Nat Unit Unit} {k : Task}

/-- Channel 0 holds `n` events, and `used_streams` begins with stream 0. -/
structure Holds (B n : Nat) (s : Chan Q Nat Unit Unit) : Prop where
  capacity : capacity (s.channel 0) = B
  length : (items (s.channel 0)).length = n
  entry : s.life.rt.streams.usedStreams[0]? = some 0

theorem Holds.send (h : Holds B n s) (hn : n ≤ 2) (hB : n < B) (ht : s.sending t = none)
    (hw : s.life.rt.streams.wakers 0 = none) :
    ∃ s', Machine.Steps (Chan.step M) (fun _ l _ => l.drops = false) s s' ∧ Holds B (n + 1) s' ∧ s'.life = s.life ∧
      s'.sending = Function.update s.sending t (some ⟨(), 1, .next⟩) := by
  obtain ⟨hcap, hlen, hentry⟩ := h
  have hroom : (items (s.channel 0)).length < LawfulCrossbeamChannel.capacity (s.channel 0) := by omega
  have hitems := (trySend_ok () hroom).1
  have hcap' := (capacity_trySend (s.channel 0) ()).trans hcap
  have hwake : s.life.rt.wake 0 = s.life.rt := by
    unfold Runtime.wake StreamsManagerBase.wakeStream
    rw [hw]
    simp [Task.wakeRegistered]
  have hfirst : (some (0 : UInt32)).filter (fun x => !decide (x = u32Max)) = some 0 := by decide
  have hexec : Machine.exec (Chan.step M) s (.sendDerived t () :: List.replicate 6 (.send t)) =
      some ⟨Function.update s.channel 0 (trySend (s.channel 0) ()).1,
        Function.update s.sending t (some ⟨(), 1, .next⟩), s.life⟩ := by
    simp [Machine.exec, Chan.step, Chan.send, ht, Chan.setSending, Chan.goOn, Chan.advance, Chan.index, Chan.entry,
      hentry, hfirst, len_eq, hlen, hn, Chan.setChannel, Chan.setRt, hwake]
  refine ⟨_, (Machine.Path.of_exec_of_forall hexec (by simp [Label.drops])).steps, ⟨?_, ?_, hentry⟩, rfl, rfl⟩
  · simpa using hcap'
  · simp [hitems, hlen]

theorem Holds.find (h : Holds B 3 s) (ht : s.sending t = none) :
    ∃ s', Machine.Steps (Chan.step M) (fun _ l _ => l.drops = false) s s' ∧ Holds B 3 s' ∧ s'.life = s.life ∧
      s'.sending = Function.update s.sending t (some ⟨(), 0, .insist 0⟩) := by
  obtain ⟨hcap, hlen, hentry⟩ := h
  have hfirst : (some (0 : UInt32)).filter (fun x => !decide (x = u32Max)) = some 0 := by decide
  have hexec : Machine.exec (Chan.step M) s (.sendDerived t () :: List.replicate 3 (.send t)) =
      some ⟨s.channel, Function.update s.sending t (some ⟨(), 0, .insist 0⟩), s.life⟩ := by
    simp [Machine.exec, Chan.step, Chan.send, ht, Chan.setSending, Chan.goOn, Chan.index, Chan.entry, hentry, hfirst,
      len_eq, hlen]
  exact ⟨_, (Machine.Path.of_exec_of_forall hexec (by simp [Label.drops])).steps, ⟨hcap, hlen, hentry⟩, rfl, rfl⟩

theorem Holds.take (h : Holds B (n + 1) s) (hk : s.life.rt.task 0 = some k)
    (hph : k.phase = .unpolled ∨ k.phase = .ready) :
    ∃ s', Machine.Steps (Chan.step M) (fun _ l _ => l.drops = false) s s' ∧ Holds B n s' ∧
      s'.life.rt = s.life.rt.setTask 0 ⟨.ready, 0, false⟩ ∧ s'.sending = s.sending := by
  obtain ⟨hcap, hlen, hentry⟩ := h
  obtain ⟨event, rest, hitems⟩ := List.exists_cons_of_length_eq_add_one hlen
  obtain ⟨hrest, hsome⟩ := tryRecv_cons hitems
  have hcap' := (capacity_tryRecv (s.channel 0)).trans hcap
  have hpoll : k.poll 0 = some ⟨.consuming, 0, false⟩ := by rcases hph with h | h <;> simp [Task.poll, h]
  have hexec : Machine.exec (Chan.step M) s [.poll 0 0, .pollNext 0] =
      some ⟨Function.update s.channel 0 (tryRecv (s.channel 0)).1, s.sending,
        { s.life with rt := s.life.rt.setTask 0 ⟨.ready, 0, false⟩ }⟩ := by
    simp [Machine.exec, Chan.step, Chan.setRt, Chan.setChannel, Runtime.poll, hk, hpoll, Runtime.setTask,
      Runtime.consumed, Task.consumed, hsome]
  refine ⟨_, (Machine.Path.of_exec_of_forall hexec (by simp [Label.drops])).steps, ⟨?_, ?_, hentry⟩, rfl, rfl⟩
  · simpa using hcap'
  · rw [hitems, List.length_cons] at hlen
    simp [hrest]
    omega

theorem Holds.park (h : Holds B 0 s) (hk : s.life.rt.task 0 = some k) (hph : k.phase = .ready ∨ k.phase = .pending)
    (hkeep : s.life.rt.streams.keepStreamsRunning 0 = true) :
    ∃ s', Machine.Steps (Chan.step M) (fun _ l _ => l.drops = false) s s' ∧ Holds B 0 s' ∧
      s'.life.rt.task = Function.update s.life.rt.task 0
        (some ⟨.pending, 0, decide (s.life.rt.streams.wakers 0 ≠ some 0)⟩) ∧
      s'.life.rt.streams.wakers 0 = some 0 ∧ s'.life.rt.streams.keepStreamsRunning 0 = true ∧
      s'.sending = s.sending := by
  obtain ⟨hcap, hlen, hentry⟩ := h
  obtain ⟨hrest, hnone⟩ := tryRecv_nil (List.length_eq_zero_iff.mp hlen)
  have hcap' := (capacity_tryRecv (s.channel 0)).trans hcap
  have hpoll : k.poll 0 = some ⟨.consuming, 0, false⟩ := by rcases hph with h | h <;> simp [Task.poll, h]
  have hexec : Machine.exec (Chan.step M) s [.poll 0 0, .pollNext 0, .pollNext 0, .pollNext 0] =
      some ⟨Function.update s.channel 0 (tryRecv (s.channel 0)).1, s.sending,
        { s.life with rt := ⟨(s.life.rt.streams.registerStreamWaker 0 0).1, Function.update s.life.rt.task 0
          (some ⟨.pending, 0, (s.life.rt.streams.registerStreamWaker 0 0).2⟩)⟩ }⟩ := by
    simp [Machine.exec, Chan.step, Chan.setRt, Chan.setChannel, Runtime.poll, hk, hpoll, Runtime.setTask,
      Runtime.consumed, Task.consumed, hnone, Runtime.pollRest, Task.keep, StreamsManagerBase.keepStreamRunning, hkeep,
      Task.registered]
  have hself : (s.life.rt.streams.registerStreamWaker 0 0).2 = decide (s.life.rt.streams.wakers 0 ≠ some 0) := by
    unfold StreamsManagerBase.registerStreamWaker
    cases hw : s.life.rt.streams.wakers 0 with
    | none => simp
    | some r => by_cases hr : r = 0 <;> simp [hr]
  have hsm := (s.life.rt.streams.registerStreamWaker_spec 0 0).2
  refine ⟨_, (Machine.Path.of_exec_of_forall hexec (by simp [Label.drops])).steps, ⟨?_, ?_, ?_⟩, ?_, ?_, ?_, rfl⟩
  · simpa using hcap'
  · simp [hrest]
  · simp [hsm, StreamsManagerBase.setWaker, hentry]
  · rw [hself]
  · simp [hsm, StreamsManagerBase.setWaker]
  · simp [hsm, StreamsManagerBase.setWaker, hkeep]

theorem Holds.rely (h : Holds B 0 s) (hB : 0 < B) (ht : s.sending t = some ⟨(), 0, .insist 0⟩) :
    ∃ s', Machine.Steps (Chan.step M) (fun _ l _ => l.drops = false) s s' ∧ items (s'.channel 0) ≠ [] ∧
      s'.life = s.life ∧ s'.sending = Function.update s.sending t (some ⟨(), 1, .next⟩) := by
  obtain ⟨hcap, hlen, hentry⟩ := h
  have hroom : (items (s.channel 0)).length < LawfulCrossbeamChannel.capacity (s.channel 0) := by omega
  obtain ⟨hitems, hok⟩ := trySend_ok () hroom
  have hexec : Machine.exec (Chan.step M) s [.send t] =
      some ⟨Function.update s.channel 0 (trySend (s.channel 0) ()).1,
        Function.update s.sending t (some ⟨(), 1, .next⟩), s.life⟩ := by
    simp [Machine.exec, Chan.step, Chan.send, ht, Chan.setSending, Chan.advance, Chan.setChannel, hok]
  refine ⟨_, (Machine.Path.of_exec_of_forall hexec (by simp [Label.drops])).steps, ?_, rfl, rfl⟩
  simp [hitems]

theorem exists_first (hM : Ring.PowerOfTwo M) (hle : M ≤ 2 ^ 30) : ∃ s : Chan Q Nat Unit Unit,
    Machine.Steps (Chan.step M) (fun _ l _ => l.drops = false) (.init B M) s ∧ Holds B 0 s ∧
      s.life.rt.task = Function.update (fun _ => none) 0 (some .fresh) ∧ s.life.rt.streams.wakers 0 = none ∧
      s.life.rt.streams.keepStreamsRunning 0 = true ∧ s.sending = fun _ => none := by
  obtain ⟨r, hr, ht, hw, hkeep⟩ := UniFullSync.create_first hM hle
  let create (life : Streams Unit) : Chan Q Nat Unit Unit := ⟨fun _ => bounded B, fun _ => none, life⟩
  have hsteps : Machine.Steps (Chan.step M) (fun _ l _ => l.drops = false) (create (.new M)) (create ⟨r, fun _ => .idle⟩) := by
    refine (Streams.steps_create (s := .new M) (t := ()) rfl hr).lift create ?_
    rintro life life' ⟨l, hl, hdrop⟩
    exact ⟨.life l, by simp [Chan.step, create, hl], hdrop⟩
  have hgrown : Growing M (create ⟨r, fun _ => .idle⟩) :=
    hsteps.invariant (fun _ _ _ hi hs hl => hi.step hM hs hl) (.init hM)
  obtain ⟨n, k, hg⟩ := hgrown.grown
  have hlive : (r.task 0).isSome := by rw [ht]; rfl
  have hentry := (hg.entry_live hlive).1
  have hempty : (items (bounded B : Q Unit)).length = 0 := by rw [items_bounded]; rfl
  exact ⟨_, hsteps, ⟨capacity_bounded B, hempty, hentry⟩, ht, hw 0, hkeep, rfl⟩

/-- Sender 3 has found three events. Stream 0 consumes all of them and parks before it sends a fourth. -/
theorem lostWakeup (hM : Ring.PowerOfTwo M) (hle : M ≤ 2 ^ 30) (hB : 2 < B) : ∃ s : Chan Q Nat Unit Unit,
    Machine.Steps (Chan.step M) (fun _ l _ => l.drops = false) (.init B M) s ∧ ¬ s.Awake := by
  obtain ⟨s₀, hs₀, h₀, ht₀, hw₀, hk₀, hsend₀⟩ := exists_first (Q := Q) (B := B) hM hle
  obtain ⟨s₁, hs₁, h₁, hl₁, hsend₁⟩ := h₀.send (M := M) (t := 0) (by omega) (by omega) (by rw [hsend₀]) hw₀
  obtain ⟨s₂, hs₂, h₂, hl₂, hsend₂⟩ := h₁.send (M := M) (t := 1) (by omega) (by omega) (by simp [hsend₁, hsend₀])
    (by rw [hl₁]; exact hw₀)
  obtain ⟨s₃, hs₃, h₃, hl₃, hsend₃⟩ := h₂.send (M := M) (t := 2) (by omega) (by omega)
    (by simp [hsend₂, hsend₁, hsend₀]) (by rw [hl₂, hl₁]; exact hw₀)
  obtain ⟨s₄, hs₄, h₄, hl₄, hsend₄⟩ := h₃.find (M := M) (t := 3) (by simp [hsend₃, hsend₂, hsend₁, hsend₀])
  have hlife : s₄.life = s₀.life := by rw [hl₄, hl₃, hl₂, hl₁]
  have hready : ∀ {s : Chan Q Nat Unit Unit} {rt : Runtime}, s.life.rt = rt.setTask 0 ⟨.ready, 0, false⟩ →
      s.life.rt.task 0 = some ⟨.ready, 0, false⟩ := by
    intro s rt hrt
    simp [hrt, Runtime.setTask]
  obtain ⟨s₅, hs₅, h₅, hrt₅, hsend₅⟩ := h₄.take (M := M) (k := .fresh) (by simp [hlife, ht₀]) (.inl rfl)
  obtain ⟨s₆, hs₆, h₆, hrt₆, hsend₆⟩ := h₅.take (M := M) (hready hrt₅) (.inr rfl)
  obtain ⟨s₇, hs₇, h₇, hrt₇, hsend₇⟩ := h₆.take (M := M) (hready hrt₆) (.inr rfl)
  have hkeep₇ : s₇.life.rt.streams.keepStreamsRunning 0 = true := by
    rw [hrt₇, hrt₆, hrt₅, hlife]
    exact hk₀
  obtain ⟨s₈, hs₈, h₈, ht₈, hw₈, hk₈, hsend₈⟩ := h₇.park (M := M) (hready hrt₇) (.inl rfl) hkeep₇
  obtain ⟨s₉, hs₉, h₉, ht₉, hw₉, hk₉, hsend₉⟩ := h₈.park (M := M) (by rw [ht₈, Function.update_self]) (.inr rfl) hk₈
  have hsend : s₉.sending = s₄.sending := by rw [hsend₉, hsend₈, hsend₇, hsend₆, hsend₅]
  obtain ⟨s', hs', hne, hl', hsend'⟩ := h₉.rely (M := M) (t := 3) (by omega) (by simp [hsend, hsend₄])
  have hsteps := hs₀.trans (hs₁.trans (hs₂.trans (hs₃.trans (hs₄.trans (hs₅.trans (hs₆.trans (hs₇.trans (hs₈.trans
    (hs₉.trans hs')))))))))
  refine ⟨s', hsteps, fun hawake => ?_⟩
  have htask : s'.life.rt.task 0 = some ⟨.pending, 0, false⟩ := by simp [hl', ht₉, hw₈]
  refine hawake 0 _ htask (by rw [hl']; exact hk₉) ?_ hne ⟨rfl, rfl⟩
  rintro u ⟨f, hf, ho⟩
  have hpc : f.pc = .next := by
    rw [hsend', hsend, hsend₄, hsend₃, hsend₂, hsend₁, hsend₀] at hf
    simp only [Function.update_apply] at hf
    split_ifs at hf <;> cases hf <;> rfl
  rw [hpc] at ho
  exact ho

end Stale

section Sizes
variable (Q : Type → Type) [LawfulCrossbeamChannel Q] {B M : Nat}

/-- In every state that is reached without dropping a stream, whoever sends and creates streams. -/
def NoLostWakeup (B M : Nat) : Prop :=
  ∀ (σ τ α : Type) [DecidableEq σ] [DecidableEq τ] (s : Chan Q σ τ α),
    Machine.Steps (Chan.step M) (fun _ l _ => l.drops = false) (.init B M) s → s.Awake

/-- As long as no stream is dropped, no wake-up is lost only if the channels never hold more than two events. -/
theorem crossbeamStreams_noLostWakeup_iff (hM : Ring.PowerOfTwo M) (hle : M ≤ 2 ^ 30) : NoLostWakeup Q B M ↔ B ≤ 2 := by
  constructor
  · intro h
    by_contra hB
    obtain ⟨s, hs, hn⟩ := lostWakeup (Q := Q) hM hle (by omega : 2 < B)
    exact hn (h Nat Unit Unit s hs)
  · exact fun hB σ τ α _ _ s hs => awake_of_small hM hB hs

end Sizes

theorem crossbeamStreams_noLostWakeup_two :
    NoLostWakeup MultiCrossbeam.ListChannel 2 4 ∧ ¬ NoLostWakeup MultiCrossbeam.ListChannel 3 4 :=
  ⟨(crossbeamStreams_noLostWakeup_iff _ ⟨2, rfl⟩ (by decide)).mpr (by decide),
    fun h => absurd ((crossbeamStreams_noLostWakeup_iff _ ⟨2, rfl⟩ (by decide)).mp h) (by decide)⟩

end Mutiny.CrossbeamStreams
