import Mutiny.MultiCrossbeam
import Mutiny.StreamWakes
import Mutiny.StreamsGrow
import Mutiny.UniFullSync

/-!
# The Uni movable `Crossbeam` channel

`uni/channels/movable/crossbeam.rs`: every `tx.len()`, `is_full()`, `try_send` and `wake_stream(0)` of a sender, every
`try_recv` and every other step of a `poll_next` is one step, while streams are created, cancelled and dropped and their ids
recycled. The channel is one of `crossbeam_channel`, as in `MultiCrossbeam`; its two ends are in the same structure, so that
it is never disconnected.

Only stream 0 is ever woken, by the senders that have found at most two events, so that the results on wake-ups are about
the stream that has this id, if there is one. A length is out of date as soon as it is read: a sender that has found three
events publishes without waking anybody, even if they have all been consumed by then.
-/

namespace Mutiny

open CrossbeamChannel LawfulCrossbeamChannel in
/-- `is_full()` -/
class CrossbeamIsFull (Q : Type → Type) [LawfulCrossbeamChannel Q] where
  isFull {β : Type} (q : Q β) : Bool
  isFull_iff {β : Type} (q : Q β) : isFull q = true ↔ capacity q ≤ (items q).length

namespace UniCrossbeam
open MultiCrossbeam (Event)

/-- Where a sender stands. `insists` says that it is to go on until it succeeds. -/
inductive Op (τ α : Type)
  | idle
  -- `send_with` and `send_with_async`: about to test `tx.is_full()`
  | isFull (event : Event τ α)
  -- `send`: about to load `tx.len()`
  | len (event : Event τ α) (insists : Bool)
  -- `len_before <= 2`: about to `try_send`
  | trySendAndWake (event : Event τ α) (insists : Bool)
  -- about to `wake_stream(0)`
  | wake (event : Event τ α) (insists ok : Bool)
  -- `len_before > 2`: about to `try_send`
  | trySend (event : Event τ α) (insists : Bool)
  -- returned `Ok`
  | sent (event : Event τ α)
  -- returned `Transient`, with the item or the setter
  | refused (event : Event τ α)

namespace Op
variable {τ α : Type}

def atRest : Op τ α → Bool
  | idle | sent _ | refused _ => true
  | _ => false

/-- `try_send` returned, and so does `send`. -/
def returned (event : Event τ α) (insists : Bool) : Bool → Op τ α
  | true => sent event
  | false => if insists then len event true else refused event

def owes : Op τ α → Bool
  | wake .. => true
  | _ => false

end Op

end UniCrossbeam

open UniCrossbeam in
open MultiCrossbeam (Event) in
/-- The channel, its senders and its streams. Nothing in the code reads `calls`, the number of the calls of each sender,
`published` and `consumed`. -/
structure UniCrossbeam (Q : Type → Type) (τ α : Type) where
  channel : Q (Event τ α)
  op : τ → Op τ α
  life : Streams τ
  calls : τ → Nat
  published : List (Event τ α)
  consumed : List (Event τ α)

namespace UniCrossbeam
open CrossbeamChannel CrossbeamIsFull
open MultiCrossbeam (Event)

inductive Label (τ α : Type)
  | send (t : τ) (item : α)
  -- `send_with(setter)` or `send_with_async(setter)`, the setter being given uninitialised memory
  | sendWith (t : τ) (setter : α → α) (uninit : α)
  -- the next step of sender `t`
  | run (t : τ)
  -- `create_stream` and the drop of a stream
  | life (l : Streams.Label τ)
  -- the two steps of `cancel_stream(j)`; the second is also the one of `flush`
  | stop (j : UInt32)
  | wakeStream (j : UInt32)
  | poll (j : UInt32) (w : Waker)
  -- the next step of the `poll_next` of stream `j`
  | pollNext (j : UInt32)

section Step
variable {Q : Type → Type} [LawfulCrossbeamChannel Q] {τ α : Type}

def new (B M : Nat) : UniCrossbeam Q τ α := ⟨bounded B, fun _ => .idle, .new M, fun _ => 0, [], []⟩

def setRt (s : UniCrossbeam Q τ α) (rt : Runtime) : UniCrossbeam Q τ α := { s with life := { s.life with rt } }

variable [DecidableEq τ]

def setOp (s : UniCrossbeam Q τ α) (t : τ) (o : Op τ α) : UniCrossbeam Q τ α :=
  { s with op := Function.update s.op t o }

/-- A sender that is not inside a call starts one. -/
def call (s : UniCrossbeam Q τ α) (t : τ) (item : α) (o : Event τ α → Op τ α) : Option (UniCrossbeam Q τ α) :=
  if (s.op t).atRest then
    some ({ s with calls := Function.update s.calls t (s.calls t + 1) }.setOp t (o ⟨(t, s.calls t), item⟩))
  else none

/-- `try_send(event)`, after which the sender is at `o`. -/
def trySendEvent (s : UniCrossbeam Q τ α) (t : τ) (event : Event τ α) (o : Bool → Op τ α) : UniCrossbeam Q τ α :=
  let (channel, ok) := CrossbeamChannel.trySend s.channel event
  { s with channel, published := if ok then s.published ++ [event] else s.published }.setOp t (o ok)

def run [CrossbeamIsFull Q] (s : UniCrossbeam Q τ α) (t : τ) : Option (UniCrossbeam Q τ α) :=
  match s.op t with
  | .idle | .sent _ | .refused _ => none
  | .isFull event => some (s.setOp t (if isFull s.channel then .refused event else .len event true))
  | .len event insists =>
    some (s.setOp t (if CrossbeamChannel.len s.channel ≤ 2 then .trySendAndWake event insists else .trySend event insists))
  | .trySendAndWake event insists => some (s.trySendEvent t event (.wake event insists))
  | .wake event insists ok => some ((s.setRt (s.life.rt.wake 0)).setOp t (.returned event insists ok))
  | .trySend event insists => some (s.trySendEvent t event (.returned event insists))

def consume (s : UniCrossbeam Q τ α) : UniCrossbeam Q τ α × Bool :=
  match tryRecv s.channel with
  | (channel, some event) => ({ s with channel, consumed := s.consumed ++ [event] }, true)
  | (channel, none) => ({ s with channel }, false)

def step [CrossbeamIsFull Q] (M : Nat) (s : UniCrossbeam Q τ α) : Label τ α → Option (UniCrossbeam Q τ α)
  | .send t item => s.call t item fun event => .len event false
  | .sendWith t setter uninit => s.call t (setter uninit) .isFull
  | .run t => s.run t
  | .life l => (s.life.step M l).map fun life => { s with life }
  | .stop j => some (s.setRt { s.life.rt with streams := s.life.rt.streams.setKeepRunning j false })
  | .wakeStream j => some (s.setRt (s.life.rt.wake j))
  | .poll j w => (s.life.rt.poll j w).map s.setRt
  | .pollNext j =>
    if (s.life.rt.task j).map Task.phase = some .consuming then
      let (s, gotEvent) := s.consume
      (s.life.rt.consumed j gotEvent).map s.setRt
    else (s.life.rt.pollRest j).map s.setRt

end Step

/-! ### Wake-ups -/

section Wake
variable {Q : Type → Type} [LawfulCrossbeamChannel Q] {τ α : Type} {B M : Nat} {s s' : UniCrossbeam Q τ α} {t : τ}
  {j : UInt32}
open LawfulCrossbeamChannel

/-- If the channel holds an event and no sender is about to wake stream 0, it is not parked, unless it was cancelled. -/
def Awake (s : UniCrossbeam Q τ α) : Prop :=
  ∀ k, s.life.rt.task 0 = some k → s.life.rt.streams.keepStreamsRunning 0 = true → (∀ t, (s.op t).owes = false) →
    items s.channel ≠ [] → ¬ k.parked

/-- A sender that is not going to wake anybody does not find the channel empty. -/
def NotStale (s : UniCrossbeam Q τ α) : Label τ α → Prop
  | .run t => ∀ event insists, s.op t = .trySend event insists → items s.channel ≠ []
  | _ => True

def Pending (s : UniCrossbeam Q τ α) (j : UInt32) : Prop := j = 0 ∧ items s.channel ≠ []

def Owed (s : UniCrossbeam Q τ α) (j : UInt32) : Prop := j = 0 ∧ ∃ t, (s.op t).owes = true

def Inv (M : Nat) (s : UniCrossbeam Q τ α) : Prop := s.life.Watched M s.Pending s.Owed fun _ => True

namespace Inv

theorem awake (h : Inv M s) : s.Awake := by
  intro k hk hkeep howe hne
  refine h.not_parked hk hkeep ⟨rfl, hne⟩ ?_
  rintro ⟨-, t, ht⟩
  rw [howe t] at ht
  cases ht

theorem new (hM : Ring.PowerOfTwo M) : Inv M (new B M : UniCrossbeam Q τ α) := Streams.Watched.new hM

/-- What `consume` does to the channel does not uncover an event. -/
theorem consume (h : Inv M s) :
    Inv M s.consume.1 ∧ (s.consume.2 = false → items s.consume.1.channel = []) := by
  unfold UniCrossbeam.consume
  cases hitems : items s.channel with
  | nil =>
    obtain ⟨hrest, hnone⟩ := tryRecv_nil hitems
    generalize tryRecv s.channel = r at hrest hnone
    obtain ⟨q, x⟩ := r
    cases hnone
    exact ⟨Streams.Watched.imp h fun j _ hp => absurd hrest hp.2, fun _ => hrest⟩
  | cons event rest =>
    obtain ⟨hrest, hsome⟩ := tryRecv_cons hitems
    generalize tryRecv s.channel = r at hrest hsome
    obtain ⟨q, x⟩ := r
    cases hsome
    exact ⟨Streams.Watched.imp h fun j _ hp => .inr ⟨⟨hp.1, by rw [hitems]; nofun⟩, id⟩, nofun⟩

variable [DecidableEq τ] {o : Op τ α}

/-- Sender `t` has moved on to `o`, and owes a wake-up if it has put an event into the empty channel. -/
theorem sender (h : Inv M s) (hop : s'.op = Function.update s.op t o) (hlife : s'.life = s.life)
    (ht : (s.op t).owes = false) (hne : items s'.channel ≠ [] → items s.channel ≠ [] ∨ o.owes = true) : Inv M s' := by
  unfold Inv
  rw [hlife]
  refine Streams.Watched.imp h fun j _ hp => ?_
  rcases hne hp.2 with hold | ho
  · refine .inr ⟨⟨hp.1, hold⟩, fun ⟨hj, u, hu⟩ => ⟨hj, u, ?_⟩⟩
    have hut : u ≠ t := by
      rintro rfl
      rw [ht] at hu
      cases hu
    rwa [hop, Function.update_of_ne hut]
  · exact .inl ⟨hp.1, t, by rwa [hop, Function.update_self]⟩

theorem wake (h : Inv M s) (o : Op τ α) : Inv M ((s.setRt (s.life.rt.wake 0)).setOp t o) :=
  (Streams.Watched.wake h 0).imp fun _ _ hp => .inr ⟨hp, fun ho => absurd ho.1.1 ho.2⟩

theorem trySendEvent {event : Event τ α} {o : Bool → Op τ α} (h : Inv M s) (ht : (s.op t).owes = false)
    (hne : items s.channel ≠ [] ∨ (o true).owes = true) : Inv M (s.trySendEvent t event o) := by
  unfold UniCrossbeam.trySendEvent
  by_cases hroom : (items s.channel).length < capacity s.channel
  · obtain ⟨-, hok⟩ := trySend_ok event hroom
    generalize CrossbeamChannel.trySend s.channel event = r at hok
    obtain ⟨q, ok⟩ := r
    cases hok
    exact h.sender rfl rfl ht fun _ => hne
  · obtain ⟨hsame, herr⟩ := trySend_err event hroom
    generalize CrossbeamChannel.trySend s.channel event = r at hsame herr
    obtain ⟨q, ok⟩ := r
    cases herr
    exact h.sender rfl rfl ht fun hq => .inl fun hnil => hq (hsame.trans hnil)

variable [CrossbeamIsFull Q]

theorem run (h : Inv M s) (hstale : s.NotStale (.run t)) (hs : s.run t = some s') : Inv M s' := by
  cases ho : s.op t with
  | idle | sent _ | refused _ => simp [UniCrossbeam.run, ho] at hs
  | isFull event | len event insists =>
    simp only [UniCrossbeam.run, ho, Option.some.injEq] at hs
    subst hs
    exact h.sender rfl rfl (by rw [ho]; rfl) .inl
  | trySendAndWake event insists =>
    simp only [UniCrossbeam.run, ho, Option.some.injEq] at hs
    subst hs
    exact h.trySendEvent (by rw [ho]; rfl) (.inr rfl)
  | wake event insists ok =>
    simp only [UniCrossbeam.run, ho, Option.some.injEq] at hs
    subst hs
    exact h.wake _
  | trySend event insists =>
    simp only [UniCrossbeam.run, ho, Option.some.injEq] at hs
    subst hs
    exact h.trySendEvent (by rw [ho]; rfl) (.inl (hstale event insists ho))

omit [CrossbeamIsFull Q] in
theorem call {item : α} (o : Event τ α → Op τ α) (h : Inv M s) (hs : s.call t item o = some s') : Inv M s' := by
  obtain ⟨ht, hs⟩ := Option.ite_none_right_eq_some.mp hs
  cases hs
  have howes : (s.op t).owes = false := by
    cases hop : s.op t <;> rw [hop] at ht <;> first | rfl | cases ht
  exact h.sender rfl rfl howes .inl

theorem step {l : Label τ α} (h : Inv M s) (hM : Ring.PowerOfTwo M) (hstale : s.NotStale l)
    (hs : s.step M l = some s') : Inv M s' := by
  cases l with
  | send t item => exact h.call (fun event => .len event false) hs
  | sendWith t setter uninit => exact h.call .isFull hs
  | run t => exact h.run hstale hs
  | life l =>
    obtain ⟨life, hl, rfl⟩ := Option.map_eq_some_iff.mp hs
    exact Streams.Watched.step h hM hl
  | stop j =>
    cases hs
    exact Streams.Watched.stop h j
  | wakeStream j =>
    cases hs
    exact (Streams.Watched.wake h j).imp fun _ _ hp => .inr ⟨hp, And.left⟩
  | poll j w =>
    obtain ⟨rt, hp, rfl⟩ := Option.map_eq_some_iff.mp hs
    exact Streams.Watched.poll h trivial hp
  | pollNext j =>
    simp only [UniCrossbeam.step] at hs
    split at hs
    · obtain ⟨hinv, hempty⟩ := h.consume
      obtain ⟨rt, hc, rfl⟩ := Option.map_eq_some_iff.mp hs
      exact Streams.Watched.consumed hinv (fun hnone hp _ => hp.2 (hempty hnone)) hc
    · obtain ⟨rt, hc, rfl⟩ := Option.map_eq_some_iff.mp hs
      exact Streams.Watched.pollRest h hc

end Inv

variable [DecidableEq τ] [CrossbeamIsFull Q]

/-- As long as no sender relies on events that are gone, no wake-up is lost. -/
theorem uniCrossbeam_awake (hM : Ring.PowerOfTwo M)
    (h : Machine.Steps (step M) (fun s l _ => s.NotStale l) (new B M) s) : s.Awake := by
  have hkeep : ∀ (s : UniCrossbeam Q τ α) l s', Inv M s → step M s l = some s' → s.NotStale l → Inv M s' :=
    fun _ _ _ hi hs hstale => hi.step hM hstale hs
  exact (h.invariant hkeep (.new hM)).awake

/-- No sender has found more than two events. -/
structure Few (B : Nat) (s : UniCrossbeam Q τ α) : Prop where
  capacity : capacity s.channel = B
  length : (items s.channel).length ≤ B
  wakes : ∀ t event insists, s.op t ≠ .trySend event insists

namespace Few
variable {o : Op τ α}

omit [CrossbeamIsFull Q] in
theorem goOn (h : Few B s) (hop : s'.op = Function.update s.op t o) (hcap : LawfulCrossbeamChannel.capacity s'.channel = B)
    (hlen : (items s'.channel).length ≤ B) (ho : ∀ event insists, o ≠ .trySend event insists) : Few B s' := by
  refine ⟨hcap, hlen, fun u event insists => ?_⟩
  rw [hop]
  by_cases hut : u = t
  · subst hut
    rw [Function.update_self]
    exact ho event insists
  · rw [Function.update_of_ne hut]
    exact h.wakes u event insists

omit [CrossbeamIsFull Q] in
theorem trySendEvent {event : Event τ α} {o : Bool → Op τ α} (h : Few B s)
    (ho : ∀ ok event insists, o ok ≠ .trySend event insists) : Few B (s.trySendEvent t event o) := by
  unfold UniCrossbeam.trySendEvent
  have hcap := (capacity_trySend s.channel event).trans h.capacity
  have hlen : (items (CrossbeamChannel.trySend s.channel event).1).length ≤ B := by
    by_cases hroom : (items s.channel).length < LawfulCrossbeamChannel.capacity s.channel
    · have := h.capacity
      rw [(trySend_ok event hroom).1, List.length_append, List.length_singleton]
      omega
    · rw [(trySend_err event hroom).1]
      exact h.length
  exact h.goOn rfl hcap hlen (ho _)

omit [DecidableEq τ] [CrossbeamIsFull Q] in
theorem consume (h : Few B s) : Few B s.consume.1 := by
  have hcap := (capacity_tryRecv s.channel).trans h.capacity
  have hlen : (items (tryRecv s.channel).1).length ≤ B := by
    have := h.length
    cases hitems : items s.channel with
    | nil =>
      rw [(tryRecv_nil hitems).1]
      exact Nat.zero_le _
    | cons event rest =>
      rw [hitems, List.length_cons] at this
      rw [(tryRecv_cons hitems).1]
      omega
  unfold UniCrossbeam.consume
  generalize tryRecv s.channel = r at hcap hlen
  obtain ⟨q, x⟩ := r
  cases x <;> exact ⟨hcap, hlen, h.wakes⟩

theorem run (h : Few B s) (hB : B ≤ 2) (hs : s.run t = some s') : Few B s' := by
  have hreturned : ∀ (e : Event τ α) (i ok : Bool) (event : Event τ α) (insists : Bool),
      Op.returned e i ok ≠ .trySend event insists := by
    intro e i ok event insists
    cases ok <;> cases i <;> nofun
  cases ho : s.op t with
  | idle | sent _ | refused _ => simp [UniCrossbeam.run, ho] at hs
  | isFull event =>
    simp only [UniCrossbeam.run, ho, Option.some.injEq] at hs
    subst hs
    split <;> exact h.goOn rfl h.capacity h.length nofun
  | len event insists =>
    simp only [UniCrossbeam.run, ho, len_eq, Nat.le_trans h.length hB, ↓reduceIte, Option.some.injEq] at hs
    subst hs
    exact h.goOn rfl h.capacity h.length nofun
  | trySendAndWake event insists =>
    simp only [UniCrossbeam.run, ho, Option.some.injEq] at hs
    subst hs
    exact h.trySendEvent nofun
  | wake event insists ok =>
    simp only [UniCrossbeam.run, ho, Option.some.injEq] at hs
    subst hs
    exact h.goOn rfl h.capacity h.length (hreturned event insists ok)
  | trySend event insists => exact absurd ho (h.wakes t event insists)

theorem step {l : Label τ α} (h : Few B s) (hB : B ≤ 2) (hs : s.step M l = some s') : Few B s' := by
  cases l with
  | send t item | sendWith t setter uninit =>
    obtain ⟨-, hs⟩ := Option.ite_none_right_eq_some.mp hs
    cases hs
    exact h.goOn rfl h.capacity h.length nofun
  | run t => exact h.run hB hs
  | stop j | wakeStream j =>
    cases hs
    exact ⟨h.capacity, h.length, h.wakes⟩
  | life l | poll j w =>
    obtain ⟨x, -, rfl⟩ := Option.map_eq_some_iff.mp hs
    exact ⟨h.capacity, h.length, h.wakes⟩
  | pollNext j =>
    simp only [UniCrossbeam.step] at hs
    split at hs
    · obtain ⟨rt, -, rfl⟩ := Option.map_eq_some_iff.mp hs
      exact ⟨h.consume.capacity, h.consume.length, h.consume.wakes⟩
    · obtain ⟨rt, -, rfl⟩ := Option.map_eq_some_iff.mp hs
      exact ⟨h.capacity, h.length, h.wakes⟩

end Few

/-- Every sender wakes stream 0 if the channel has no room for a third event. -/
theorem awake_of_small (hM : Ring.PowerOfTwo M) (hB : B ≤ 2)
    (h : Machine.Steps (step M) (fun _ _ _ => True) (new B M) s) : s.Awake := by
  have hfew : Few B (new B M : UniCrossbeam Q τ α) :=
    ⟨capacity_bounded B, by rw [new, items_bounded]; exact Nat.zero_le _, nofun⟩
  refine uniCrossbeam_awake hM (h.strengthen (I := Few B) (fun _ _ _ hi hs _ => hi.step hB hs) ?_ hfew)
  intro s l s' hi _ _ _
  cases l with
  | run t => exact fun event insists ho => absurd ho (hi.wakes t event insists)
  | _ => trivial

end Wake

/-! ### A length out of date -/

section Stale
variable {Q : Type → Type} [LawfulCrossbeamChannel Q] [CrossbeamIsFull Q] {B M : Nat}
  {s : UniCrossbeam Q Bool Unit} {k : Task}
open LawfulCrossbeamChannel

/-- What the run below needs to know of a state: the events, and where the two senders stand. -/
structure At (B n : Nat) (o : Op Bool Unit) (s : UniCrossbeam Q Bool Unit) : Prop where
  capacity : capacity s.channel = B
  length : (items s.channel).length = n
  ready : (s.op false).atRest = true
  other : s.op true = o

/-- `send` of the first sender, while no stream has registered a waker. -/
theorem At.send {n : Nat} {o : Op Bool Unit} (h : At B n o s) (hn : n ≤ 2) (hB : n < B)
    (hw : s.life.rt.streams.wakers 0 = none) : ∃ s', Machine.Steps (step M) (fun _ _ _ => True) s s' ∧
      At B (n + 1) o s' ∧ s'.life = s.life := by
  obtain ⟨hcap, hlen, hready, hother⟩ := h
  let event : Event Bool Unit := ⟨(false, s.calls false), ()⟩
  have hroom : (items s.channel).length < LawfulCrossbeamChannel.capacity s.channel := by omega
  obtain ⟨hitems, hok⟩ := trySend_ok event hroom
  have hcap' := (capacity_trySend s.channel event).trans hcap
  have hwake : s.life.rt.wake 0 = s.life.rt := by
    unfold Runtime.wake StreamsManagerBase.wakeStream
    rw [hw]
    simp [Task.wakeRegistered]
  have hexec : Machine.exec (step M) s [.send false (), .run false, .run false, .run false] =
      some ⟨(CrossbeamChannel.trySend s.channel event).1, Function.update s.op false (.sent event), s.life,
        Function.update s.calls false (s.calls false + 1), s.published ++ [event], s.consumed⟩ := by
    simp [Machine.exec, step, setRt, call, hready, run, setOp, len_eq, hlen, hn, trySendEvent, Op.returned, event, hok, hwake]
  have hready' : (Function.update s.op false (Op.sent event) false).atRest = true := by rw [Function.update_self]; rfl
  have hlen' : (items (CrossbeamChannel.trySend s.channel event).1).length = n + 1 := by
    rw [hitems, List.length_append, hlen]
    rfl
  have hother' : Function.update s.op false (Op.sent event) true = o := by
    rw [Function.update_of_ne (by decide), hother]
  exact ⟨_, (Machine.Path.of_exec hexec).steps, ⟨hcap', hlen', hready', hother'⟩, rfl⟩

theorem At.take {n : Nat} {o : Op Bool Unit} (h : At B (n + 1) o s) (hk : s.life.rt.task 0 = some k)
    (hph : k.phase = .unpolled ∨ k.phase = .ready) : ∃ s', Machine.Steps (step M) (fun _ _ _ => True) s s' ∧
      At B n o s' ∧ s'.life.rt = s.life.rt.setTask 0 ⟨.ready, 0, false⟩ := by
  obtain ⟨hcap, hlen, hready, hother⟩ := h
  obtain ⟨event, rest, hitems⟩ := List.exists_cons_of_length_eq_add_one hlen
  obtain ⟨hrest, hsome⟩ := tryRecv_cons hitems
  have hcap' := (capacity_tryRecv s.channel).trans hcap
  generalize htry : tryRecv s.channel = r at hrest hsome hcap'
  obtain ⟨q, x⟩ := r
  cases hsome
  have hpoll : k.poll 0 = some ⟨.consuming, 0, false⟩ := by rcases hph with h | h <;> simp [Task.poll, h]
  have hexec : Machine.exec (step M) s [.poll 0 0, .pollNext 0] =
      some { s with channel := q, consumed := s.consumed ++ [event],
                    life := { s.life with rt := s.life.rt.setTask 0 ⟨.ready, 0, false⟩ } } := by
    simp [Machine.exec, step, setRt, Runtime.poll, hk, hpoll, Runtime.setTask, UniCrossbeam.consume, htry, Runtime.consumed,
      Task.consumed]
  refine ⟨_, (Machine.Path.of_exec hexec).steps, ⟨hcap', ?_, hready, hother⟩, rfl⟩
  rw [hitems, List.length_cons] at hlen
  rw [hrest]
  omega

theorem At.park {o : Op Bool Unit} (h : At B 0 o s) (hk : s.life.rt.task 0 = some k)
    (hph : k.phase = .ready ∨ k.phase = .pending) (hkeep : s.life.rt.streams.keepStreamsRunning 0 = true) :
    ∃ s', Machine.Steps (step M) (fun _ _ _ => True) s s' ∧ At B 0 o s' ∧
      s'.life.rt.task = Function.update s.life.rt.task 0 (some ⟨.pending, 0, decide (s.life.rt.streams.wakers 0 ≠ some 0)⟩) ∧
      s'.life.rt.streams.wakers 0 = some 0 ∧ s'.life.rt.streams.keepStreamsRunning = s.life.rt.streams.keepStreamsRunning := by
  obtain ⟨hcap, hlen, hready, hother⟩ := h
  obtain ⟨hrest, hnone⟩ := tryRecv_nil (List.length_eq_zero_iff.mp hlen)
  have hcap' := (capacity_tryRecv s.channel).trans hcap
  generalize htry : tryRecv s.channel = r at hrest hnone hcap'
  obtain ⟨q, x⟩ := r
  cases hnone
  have hpoll : k.poll 0 = some ⟨.consuming, 0, false⟩ := by rcases hph with h | h <;> simp [Task.poll, h]
  have hexec : Machine.exec (step M) s [.poll 0 0, .pollNext 0, .pollNext 0, .pollNext 0] =
      some { s with channel := q, life := { s.life with rt := ⟨(s.life.rt.streams.registerStreamWaker 0 0).1,
        Function.update s.life.rt.task 0 (some ⟨.pending, 0, (s.life.rt.streams.registerStreamWaker 0 0).2⟩)⟩ } } := by
    simp [Machine.exec, step, setRt, Runtime.poll, hk, hpoll, Runtime.setTask, UniCrossbeam.consume, htry, Runtime.consumed,
      Task.consumed, Runtime.pollRest, Task.keep, StreamsManagerBase.keepStreamRunning, hkeep, Task.registered]
  have hself : (s.life.rt.streams.registerStreamWaker 0 0).2 = decide (s.life.rt.streams.wakers 0 ≠ some 0) := by
    unfold StreamsManagerBase.registerStreamWaker
    cases hw : s.life.rt.streams.wakers 0 with
    | none => simp
    | some r => by_cases hr : r = 0 <;> simp [hr]
  have hsm := (s.life.rt.streams.registerStreamWaker_spec 0 0).2
  refine ⟨_, (Machine.Path.of_exec hexec).steps, ⟨hcap', by rw [hrest]; rfl, hready, hother⟩, ?_, ?_, ?_⟩
  · rw [hself]
  · simp [hsm, StreamsManagerBase.setWaker]
  · simp [hsm, StreamsManagerBase.setWaker]

theorem At.find {o : Op Bool Unit} (h : At B 3 o s) (ho : o.atRest = true) :
    ∃ s' event, Machine.Steps (step M) (fun _ _ _ => True) s s' ∧ At B 3 (.trySend event false) s' ∧ s'.life = s.life := by
  obtain ⟨hcap, hlen, hready, hother⟩ := h
  rw [← hother] at ho
  let event : Event Bool Unit := ⟨(true, s.calls true), ()⟩
  have hexec : Machine.exec (step M) s [.send true (), .run true] =
      some { s with calls := Function.update s.calls true (s.calls true + 1),
                    op := Function.update s.op true (.trySend event false) } := by
    simp [Machine.exec, step, call, ho, run, setOp, len_eq, hlen, event]
  have hready' : (Function.update s.op true (Op.trySend event false) false).atRest = true := by
    rw [Function.update_of_ne (by decide)]
    exact hready
  have hother' : Function.update s.op true (Op.trySend event false) true = .trySend event false := Function.update_self ..
  exact ⟨_, event, (Machine.Path.of_exec hexec).steps, ⟨hcap, hlen, hready', hother'⟩, rfl⟩

theorem At.rely {event : Event Bool Unit} (h : At B 0 (.trySend event false) s) (hB : 0 < B) :
    ∃ s', Machine.Steps (step M) (fun _ _ _ => True) s s' ∧ (∀ t, (s'.op t).owes = false) ∧ items s'.channel ≠ [] ∧
      s'.life = s.life := by
  obtain ⟨hcap, hlen, hready, hother⟩ := h
  have hroom : (items s.channel).length < LawfulCrossbeamChannel.capacity s.channel := by omega
  obtain ⟨hitems, hok⟩ := trySend_ok event hroom
  have hexec : Machine.exec (step M) s [.run true] =
      some { s with channel := (CrossbeamChannel.trySend s.channel event).1, published := s.published ++ [event],
                    op := Function.update s.op true (.sent event) } := by
    simp [Machine.exec, step, run, hother, setOp, trySendEvent, Op.returned, hok]
  refine ⟨_, (Machine.Path.of_exec hexec).steps, fun t => ?_, ?_, rfl⟩
  · show (Function.update s.op true (Op.sent event) t).owes = false
    cases t with
    | true =>
      rw [Function.update_self]
      rfl
    | false =>
      rw [Function.update_of_ne (by decide)]
      cases hop : s.op false <;> rw [hop] at hready <;> first | rfl | cases hready
  · rw [hitems]
    exact List.append_ne_nil_of_right_ne_nil _ (List.cons_ne_nil _ _)

/-- The second sender has found three events. Stream 0 consumes all of them and parks before it publishes a fourth. -/
theorem lostWakeup (hM : Ring.PowerOfTwo M) (hle : M ≤ 2 ^ 30) (hB : 2 < B) :
    ∃ s : UniCrossbeam Q Bool Unit, Machine.Steps (step M) (fun _ _ _ => True) (new B M) s ∧ ¬ s.Awake := by
  obtain ⟨r, hr, ht, hw, hkeep⟩ := UniFullSync.create_first hM hle
  let create (life : Streams Bool) : UniCrossbeam Q Bool Unit := { new B M with life }
  have hs₀ : Machine.Steps (step M) (fun _ _ _ => True) (create (.new M)) (create ⟨r, fun _ => .idle⟩) := by
    refine (Streams.steps_create (s := .new M) (t := false) rfl hr).lift create ?_
    rintro life life' ⟨l, hl, -⟩
    exact ⟨.life l, by simp [step, create, hl], trivial⟩
  have h₀ : At B 0 .idle (create ⟨r, fun _ => .idle⟩) :=
    ⟨capacity_bounded B, by simp [create, new, items_bounded], rfl, rfl⟩
  obtain ⟨s₁, hs₁, h₁, hl₁⟩ := h₀.send (M := M) (by omega) (by omega) (hw 0)
  obtain ⟨s₂, hs₂, h₂, hl₂⟩ := h₁.send (M := M) (by omega) (by omega) (by rw [hl₁]; exact hw 0)
  obtain ⟨s₃, hs₃, h₃, hl₃⟩ := h₂.send (M := M) (by omega) (by omega) (by rw [hl₂, hl₁]; exact hw 0)
  obtain ⟨s₄, event, hs₄, h₄, hl₄⟩ := h₃.find (M := M) (o := .idle) rfl
  have hrt : s₄.life.rt = r := by rw [hl₄, hl₃, hl₂, hl₁]
  have hready : ∀ {s : UniCrossbeam Q Bool Unit} {rt : Runtime}, s.life.rt = rt.setTask 0 ⟨.ready, 0, false⟩ →
      s.life.rt.task 0 = some ⟨.ready, 0, false⟩ := by
    intro s rt hrt
    simp [hrt, Runtime.setTask]
  obtain ⟨s₅, hs₅, h₅, hrt₅⟩ := h₄.take (M := M) (k := .fresh) (by simp [hrt, ht]) (.inl rfl)
  obtain ⟨s₆, hs₆, h₆, hrt₆⟩ := h₅.take (M := M) (hready hrt₅) (.inr rfl)
  obtain ⟨s₇, hs₇, h₇, hrt₇⟩ := h₆.take (M := M) (hready hrt₆) (.inr rfl)
  have hkeep₇ : s₇.life.rt.streams.keepStreamsRunning 0 = true := by
    rw [hrt₇, hrt₆, hrt₅, hrt]
    exact hkeep
  obtain ⟨s₈, hs₈, h₈, ht₈, hw₈, hk₈⟩ := h₇.park (M := M) (hready hrt₇) (.inl rfl) hkeep₇
  obtain ⟨s₉, hs₉, h₉, ht₉, hw₉, hk₉⟩ := h₈.park (M := M) (by rw [ht₈, Function.update_self]) (.inr rfl)
    (by rw [hk₈]; exact hkeep₇)
  obtain ⟨s', hs', howes, hne, hl'⟩ := h₉.rely (M := M) (by omega)
  have hsteps := hs₀.trans (hs₁.trans (hs₂.trans (hs₃.trans (hs₄.trans (hs₅.trans (hs₆.trans (hs₇.trans (hs₈.trans
    (hs₉.trans hs')))))))))
  refine ⟨s', hsteps, fun hawake => ?_⟩
  have htask : s'.life.rt.task 0 = some ⟨.pending, 0, false⟩ := by simp [hl', ht₉, hw₈]
  exact hawake _ htask (by rw [hl', hk₉, hk₈]; exact hkeep₇) howes hne ⟨rfl, rfl⟩

end Stale

section Sizes
variable (Q : Type → Type) [LawfulCrossbeamChannel Q] [CrossbeamIsFull Q] {B M : Nat}

/-- In every reachable state of the channel, whoever sends, creates and drops streams. -/
def NoLostWakeup (B M : Nat) : Prop :=
  ∀ (τ α : Type) [DecidableEq τ] (s : UniCrossbeam Q τ α),
    Machine.Steps (step M) (fun _ _ _ => True) (new B M) s → s.Awake

/-- No wake-up is lost only if the channel never holds more than two events. -/
theorem uniCrossbeam_noLostWakeup_iff (hM : Ring.PowerOfTwo M) (hle : M ≤ 2 ^ 30) : NoLostWakeup Q B M ↔ B ≤ 2 := by
  constructor
  · intro h
    by_contra hB
    obtain ⟨s, hs, hn⟩ := lostWakeup (Q := Q) hM hle (by omega : 2 < B)
    exact hn (h Bool Unit s hs)
  · exact fun hB τ α _ s hs => awake_of_small hM hB hs

end Sizes

instance : CrossbeamIsFull MultiCrossbeam.ListChannel where
  isFull q := q.capacity ≤ q.items.length
  isFull_iff _ := decide_eq_true_iff

theorem uniCrossbeam_noLostWakeup_two :
    NoLostWakeup MultiCrossbeam.ListChannel 2 1 ∧ ¬ NoLostWakeup MultiCrossbeam.ListChannel 3 1 :=
  ⟨(uniCrossbeam_noLostWakeup_iff _ ⟨0, rfl⟩ (by decide)).mpr (by decide),
    fun h => absurd ((uniCrossbeam_noLostWakeup_iff _ ⟨0, rfl⟩ (by decide)).mp h) (by decide)⟩

/-- Streams 0 and 1 are created, and stream 1 is dropped. Stream 0 waits for an event that sender 0 publishes with `send`;
sender 1 insists on publishing another one. -/
def waitAndSend : List (Label Nat Nat) :=
  let create := .life (.create 7) :: List.replicate 4 (.life (.manage 7))
  let drop := .life (.drop 7 1) :: List.replicate 5 (.life (.manage 7))
  let park := [.poll 0 0, .pollNext 0, .pollNext 0, .pollNext 0]
  create ++ create ++ drop ++ park ++ park ++
    [.send 0 5, .run 0, .sendWith 1 (· + 6) 0, .run 1, .run 1, .run 0, .run 1, .run 0, .poll 0 0, .pollNext 0]

/-- A run whose steps all pass the test relies on nothing that is gone. -/
def notStale (s : UniCrossbeam MultiCrossbeam.ListChannel Nat Nat) : Label Nat Nat → Bool
  | .run t =>
    match s.op t with
    | .trySend _ _ => s.channel.items ≠ []
    | _ => true
  | _ => true

theorem NotStale.of_notStale {s : UniCrossbeam MultiCrossbeam.ListChannel Nat Nat} {l : Label Nat Nat}
    (h : notStale s l = true) : s.NotStale l := by
  cases l with
  | run t =>
    intro event insists ho
    have hne : s.channel.items ≠ [] := by simpa [notStale, ho] using h
    exact hne
  | _ => trivial

theorem uniCrossbeam_awake_waitAndSend : ∃ s : UniCrossbeam MultiCrossbeam.ListChannel Nat Nat,
    s.published.map Event.item = [5, 6] ∧ s.consumed.map Event.item = [5] ∧ s.Awake := by
  have hrun : (Machine.exec (Machine.restrict (step 2) fun s l _ => notStale s l)
      (new 4 2 : UniCrossbeam MultiCrossbeam.ListChannel Nat Nat) waitAndSend).map
      (fun s => (s.published.map Event.item, s.consumed.map Event.item)) = some ([5, 6], [5]) := by decide +kernel
  obtain ⟨s, hs, hlogs⟩ := Option.map_eq_some_iff.mp hrun
  obtain ⟨hpub, hcons⟩ := Prod.mk.inj hlogs
  exact ⟨s, hpub, hcons, uniCrossbeam_awake ⟨1, rfl⟩ (Machine.Path.of_exec_restrict (fun _ _ _ h => .of_notStale h) hs).steps⟩

/-! ### Delivery -/

section Delivery
variable {Q : Type → Type} [LawfulCrossbeamChannel Q] {τ α : Type} {B M : Nat} {s s' : UniCrossbeam Q τ α} {t : τ}
open LawfulCrossbeamChannel

/-- The event of the last call, and whether it has been published. -/
def Op.holds : Op τ α → Option (Event τ α × Bool)
  | .idle => none
  | .isFull event | .len event _ | .trySendAndWake event _ | .trySend event _ | .refused event => some (event, false)
  | .wake event _ ok => some (event, ok)
  | .sent event => some (event, true)

theorem Op.holds_returned (event : Event τ α) (insists ok : Bool) :
    (Op.returned event insists ok).holds = some (event, ok) := by
  cases ok <;> cases insists <;> rfl

/-- What has been consumed is a prefix of what has been published, in that order; every event of a call that returned
`Ok` was published once, and none of a call that did not. -/
structure Delivered (s : UniCrossbeam Q τ α) : Prop where
  fifo : s.consumed ++ items s.channel = s.published
  once : (s.published.map Event.ticket).Nodup
  sent : ∀ t event, s.op t = .sent event → event ∈ s.published
  refused : ∀ t event, s.op t = .refused event → event.ticket ∉ s.published.map Event.ticket

/-- The tickets of the events that were published are those of calls, each thread having its own. -/
structure Ledger (s : UniCrossbeam Q τ α) : Prop where
  fifo : s.consumed ++ items s.channel = s.published
  once : (s.published.map Event.ticket).Nodup
  used : ∀ event ∈ s.published, event.ticket.2 < s.calls event.ticket.1
  own : ∀ t event b, (s.op t).holds = some (event, b) → event.ticket.1 = t ∧ event.ticket.2 < s.calls t
  out : ∀ t event, (s.op t).holds = some (event, true) → event ∈ s.published
  still : ∀ t event, (s.op t).holds = some (event, false) → event.ticket ∉ s.published.map Event.ticket

namespace Ledger

theorem delivered (h : Ledger s) : Delivered s :=
  ⟨h.fifo, h.once, fun t event ho => h.out t event (by rw [ho]; rfl), fun t event ho => h.still t event (by rw [ho]; rfl)⟩

theorem new (B M : Nat) : Ledger (new B M : UniCrossbeam Q τ α) :=
  ⟨items_bounded B, List.nodup_nil, nofun, nofun, nofun, nofun⟩

/-- Nothing but the streams has changed, and what they have consumed. -/
theorem of_same (h : Ledger s) (hfifo : s'.consumed ++ items s'.channel = s'.published) (hop : s'.op = s.op)
    (hcalls : s'.calls = s.calls) (hpub : s'.published = s.published) : Ledger s' := by
  obtain ⟨channel, op, rt, calls, published, consumed⟩ := s'
  cases hop
  cases hcalls
  cases hpub
  exact ⟨hfifo, h.once, h.used, h.own, h.out, h.still⟩

theorem consume (h : Ledger s) : Ledger s.consume.1 := by
  unfold UniCrossbeam.consume
  have hfifo := h.fifo
  cases hitems : items s.channel with
  | nil =>
    obtain ⟨hrest, hnone⟩ := tryRecv_nil hitems
    generalize tryRecv s.channel = r at hrest hnone
    obtain ⟨q, x⟩ := r
    cases hnone
    rw [hitems] at hfifo
    exact h.of_same (by rw [hrest]; exact hfifo) rfl rfl rfl
  | cons event rest =>
    obtain ⟨hrest, hsome⟩ := tryRecv_cons hitems
    generalize tryRecv s.channel = r at hrest hsome
    obtain ⟨q, x⟩ := r
    cases hsome
    rw [hitems] at hfifo
    refine h.of_same ?_ rfl rfl rfl
    show s.consumed ++ [event] ++ items q = s.published
    rw [hrest, List.append_assoc]
    exact hfifo

variable [DecidableEq τ] {o : Op τ α}

theorem goOn (h : Ledger s) (hop : s'.op = Function.update s.op t o) (ho : o.holds = (s.op t).holds)
    (hcalls : s'.calls = s.calls) (hpub : s'.published = s.published) (hcons : s'.consumed = s.consumed)
    (hitems : items s'.channel = items s.channel) : Ledger s' := by
  have hholds : ∀ u, (s'.op u).holds = (s.op u).holds := by
    intro u
    rw [hop]
    by_cases hut : u = t
    · subst hut
      rw [Function.update_self, ho]
    · rw [Function.update_of_ne hut]
  refine ⟨by rw [hcons, hitems, hpub]; exact h.fifo, by rw [hpub]; exact h.once, ?_, ?_, ?_, ?_⟩
  · rw [hpub, hcalls]
    exact h.used
  · intro u event b hu
    rw [hholds] at hu
    rw [hcalls]
    exact h.own u event b hu
  · intro u event hu
    rw [hholds] at hu
    rw [hpub]
    exact h.out u event hu
  · intro u event hu
    rw [hholds] at hu
    rw [hpub]
    exact h.still u event hu

theorem call {item : α} (o : Event τ α → Op τ α) (h : Ledger s) (ho : ∀ event, (o event).holds = some (event, false))
    (hs : s.call t item o = some s') : Ledger s' := by
  obtain ⟨-, hs⟩ := Option.ite_none_right_eq_some.mp hs
  cases hs
  have hmono : ∀ u, s.calls u ≤ Function.update s.calls t (s.calls t + 1) u := by
    intro u
    by_cases hut : u = t
    · subst hut
      rw [Function.update_self]
      exact Nat.le_succ _
    · rw [Function.update_of_ne hut]
  have hcases : ∀ u event b, (Function.update s.op t (o ⟨(t, s.calls t), item⟩) u).holds = some (event, b) →
      (u = t ∧ b = false ∧ event = ⟨(t, s.calls t), item⟩) ∨ (s.op u).holds = some (event, b) := by
    intro u event b hu
    by_cases hut : u = t
    · subst hut
      rw [Function.update_self, ho] at hu
      cases hu
      exact .inl ⟨rfl, rfl, rfl⟩
    · rw [Function.update_of_ne hut] at hu
      exact .inr hu
  refine ⟨h.fifo, h.once, fun event he => (h.used event he).trans_le (hmono _), fun u event b hu => ?_,
    fun u event hu => ?_, fun u event hu => ?_⟩
  · rcases hcases u event b hu with ⟨rfl, -, rfl⟩ | hu
    · refine ⟨rfl, ?_⟩
      show s.calls u < Function.update s.calls u (s.calls u + 1) u
      rw [Function.update_self]
      exact Nat.lt_succ_self _
    · obtain ⟨hown, hlt⟩ := h.own u event b hu
      exact ⟨hown, hlt.trans_le (hmono u)⟩
  · rcases hcases u event true hu with ⟨-, hb, -⟩ | hu
    · cases hb
    · exact h.out u event hu
  · rcases hcases u event false hu with ⟨rfl, -, rfl⟩ | hu
    · intro hmem
      obtain ⟨event, he, hticket⟩ := List.mem_map.mp hmem
      have := h.used event he
      rw [hticket] at this
      exact Nat.lt_irrefl _ this
    · exact h.still u event hu

theorem publish {event : Event τ α} (h : Ledger s) (ht : (s.op t).holds = some (event, false))
    (ho : o.holds = some (event, true)) (hop : s'.op = Function.update s.op t o) (hcalls : s'.calls = s.calls)
    (hpub : s'.published = s.published ++ [event]) (hcons : s'.consumed = s.consumed)
    (hitems : items s'.channel = items s.channel ++ [event]) : Ledger s' := by
  obtain ⟨hown, hlt⟩ := h.own t event false ht
  have hcases : ∀ u e b, (s'.op u).holds = some (e, b) →
      (b = true ∧ e = event) ∨ (u ≠ t ∧ (s.op u).holds = some (e, b)) := by
    intro u e b hu
    rw [hop] at hu
    by_cases hut : u = t
    · subst hut
      rw [Function.update_self, ho] at hu
      cases hu
      exact .inl ⟨rfl, rfl⟩
    · rw [Function.update_of_ne hut] at hu
      exact .inr ⟨hut, hu⟩
  refine ⟨?_, ?_, fun e he => ?_, fun u e b hu => ?_, fun u e hu => ?_, fun u e hu => ?_⟩
  · rw [hcons, hitems, hpub, ← List.append_assoc, h.fifo]
  · rw [hpub, List.map_append, List.map_singleton]
    refine List.nodup_append.mpr ⟨h.once, List.nodup_singleton _, fun a ha b hb => ?_⟩
    rintro rfl
    rw [List.mem_singleton] at hb
    exact h.still t event ht (hb ▸ ha)
  · rw [hpub, List.mem_append, List.mem_singleton] at he
    rw [hcalls]
    rcases he with he | rfl
    · exact h.used e he
    · rw [hown]
      exact hlt
  · rw [hcalls]
    by_cases hut : u = t
    · subst hut
      rw [hop, Function.update_self, ho] at hu
      cases hu
      exact ⟨hown, hlt⟩
    · rw [hop, Function.update_of_ne hut] at hu
      exact h.own u e b hu
  · rw [hpub, List.mem_append, List.mem_singleton]
    exact (hcases u e true hu).elim (fun h => .inr h.2) fun hu => .inl (h.out u e hu.2)
  · rcases hcases u e false hu with ⟨hb, -⟩ | ⟨hut, hu⟩
    · cases hb
    · rw [hpub, List.map_append, List.mem_append, List.map_singleton, List.mem_singleton]
      rintro (hmem | hticket)
      · exact h.still u e hu hmem
      · have := (h.own u e false hu).1
        rw [hticket, hown] at this
        exact hut this.symm

theorem trySendEvent {event : Event τ α} {o : Bool → Op τ α} (h : Ledger s) (ht : (s.op t).holds = some (event, false))
    (ho : ∀ ok, (o ok).holds = some (event, ok)) : Ledger (s.trySendEvent t event o) := by
  unfold UniCrossbeam.trySendEvent
  by_cases hroom : (items s.channel).length < capacity s.channel
  · obtain ⟨hitems, hok⟩ := trySend_ok event hroom
    generalize CrossbeamChannel.trySend s.channel event = r at hitems hok
    obtain ⟨q, ok⟩ := r
    cases hok
    exact h.publish ht (ho true) rfl rfl rfl rfl hitems
  · obtain ⟨hitems, herr⟩ := trySend_err event hroom
    generalize CrossbeamChannel.trySend s.channel event = r at hitems herr
    obtain ⟨q, ok⟩ := r
    cases herr
    exact h.goOn rfl ((ho false).trans ht.symm) rfl rfl rfl hitems

variable [CrossbeamIsFull Q]

theorem run (h : Ledger s) (hs : s.run t = some s') : Ledger s' := by
  cases ho : s.op t with
  | idle | sent _ | refused _ => simp [UniCrossbeam.run, ho] at hs
  | isFull event | len event insists =>
    simp only [UniCrossbeam.run, ho, Option.some.injEq] at hs
    subst hs
    exact h.goOn rfl (by rw [ho]; split <;> rfl) rfl rfl rfl rfl
  | trySendAndWake event insists =>
    simp only [UniCrossbeam.run, ho, Option.some.injEq] at hs
    subst hs
    exact h.trySendEvent (by rw [ho]; rfl) fun _ => rfl
  | wake event insists ok =>
    simp only [UniCrossbeam.run, ho, Option.some.injEq] at hs
    subst hs
    exact h.goOn rfl (by rw [ho, Op.holds_returned]; rfl) rfl rfl rfl rfl
  | trySend event insists =>
    simp only [UniCrossbeam.run, ho, Option.some.injEq] at hs
    subst hs
    exact h.trySendEvent (by rw [ho]; rfl) (Op.holds_returned event insists)

theorem step {l : Label τ α} (h : Ledger s) (hs : s.step M l = some s') : Ledger s' := by
  cases l with
  | send t item => exact h.call (fun event => .len event false) (fun _ => rfl) hs
  | sendWith t setter uninit => exact h.call .isFull (fun _ => rfl) hs
  | run t => exact h.run hs
  | stop j | wakeStream j =>
    cases hs
    exact h.of_same h.fifo rfl rfl rfl
  | life l | poll j w =>
    obtain ⟨x, -, rfl⟩ := Option.map_eq_some_iff.mp hs
    exact h.of_same h.fifo rfl rfl rfl
  | pollNext j =>
    simp only [UniCrossbeam.step] at hs
    split at hs
    · obtain ⟨rt, -, rfl⟩ := Option.map_eq_some_iff.mp hs
      exact h.consume.of_same h.consume.fifo rfl rfl rfl
    · obtain ⟨rt, -, rfl⟩ := Option.map_eq_some_iff.mp hs
      exact h.of_same h.fifo rfl rfl rfl

end Ledger

/-- Whatever the interleaving, events are delivered in order and once, those of `send_with` too. -/
theorem uniCrossbeam_delivered [DecidableEq τ] [CrossbeamIsFull Q]
    (h : Machine.Steps (step M) (fun _ _ _ => True) (new B M) s) : Delivered s := by
  have hkeep : ∀ (s : UniCrossbeam Q τ α) l s', Ledger s → step M s l = some s' → True → Ledger s' :=
    fun _ _ _ hi hs _ => hi.step hs
  exact (h.invariant hkeep (.new B M)).delivered

theorem uniCrossbeam_delivered_waitAndSend : ∃ s : UniCrossbeam MultiCrossbeam.ListChannel Nat Nat,
    s.published.map Event.item = [5, 6] ∧ s.consumed.map Event.item = [5] ∧ Delivered s := by
  have hrun : (Machine.exec (step 2) (new 4 2 : UniCrossbeam MultiCrossbeam.ListChannel Nat Nat) waitAndSend).map
      (fun s => (s.published.map Event.item, s.consumed.map Event.item)) = some ([5, 6], [5]) := by decide +kernel
  obtain ⟨s, hs, hlogs⟩ := Option.map_eq_some_iff.mp hrun
  obtain ⟨hpub, hcons⟩ := Prod.mk.inj hlogs
  exact ⟨s, hpub, hcons, uniCrossbeam_delivered (Machine.Path.of_exec hs).steps⟩

end Delivery
end UniCrossbeam
end Mutiny
