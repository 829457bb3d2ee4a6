import Mutiny.LogTopic
import Mutiny.StreamWakes

/-!
# The streams of the `MmapLog` Multi channel

`multi/channels/reference/mmap_log.rs`: any number of threads send, create streams and drop them, while the streams are
polled. Every atomic operation of the log topic, of the streams manager and of `poll_next` is one step. What a thread does
to a stream that nobody else has got yet is part of its last step before it hands out the stream.

A stream for the old events cancels itself once it has found nothing, inside `consume`.
-/

namespace Mutiny
open AtomicMove (Payload)
open MMapMeta (Sys Subscriber Kind Consuming Publishing Returned)

namespace LogStreams

/-- What `send` and `send_with` do after `publish`. -/
inductive Waking
  -- about to load `running_streams_count()`
  | count
  -- the head of the loop over `used_streams()`
  | next (i : Nat) (count : UInt32)
  -- about to `wake_stream(stream_id)`
  | wake (streamId : UInt32) (i : Nat) (count : UInt32)

/-- Where a thread stands that creates streams. -/
inductive Opening
  | idle
  -- in `create_stream_id()`, for a stream of the new events, and of the old ones before them if `joined`
  | single (joined : Bool)
  -- about to subscribe
  | subscribe (joined : Bool) (id : UInt32)
  -- in the first and the second `create_stream_id()` of `create_streams_for_old_and_new_events`; `tail` is where the new
  -- events begin
  | oldies (tail : Nat)
  | newies (tail : Nat) (oldiesId : UInt32)
  -- about to assign the two subscribers
  | assign (tail : Nat) (oldiesId newiesId : UInt32)
deriving DecidableEq

/-- The ids of the streams that are not handed out yet. -/
def Opening.ids : Opening → List UInt32
  | .subscribe _ id | .newies _ id => [id]
  | .assign _ oldiesId newiesId => [oldiesId, newiesId]
  | .idle | .single _ | .oldies _ => []

def Opening.tail : Opening → Option Nat
  | .oldies tail | .newies tail _ | .assign tail _ _ => some tail
  | .idle | .single _ | .subscribe .. => none

/-- The two steps of `cancel_stream(stream_id)`, inside the `consume` that found nothing. -/
inductive Ending
  | stop
  | wake
deriving DecidableEq

end LogStreams

open LogStreams in
/-- The publishers are those of `topic`, and the subscribers are in an array of the channel. Nothing in the code reads
`pairs`, the streams created together that have not been dropped. -/
structure LogStreams (τ α : Type) where
  topic : Sys τ α
  waking : τ → Option Waking
  life : Streams τ
  opening : τ → Opening
  subscribers : UInt32 → Subscriber α
  handedOut : UInt32 → Bool
  ending : UInt32 → Option Ending
  pairs : List (UInt32 × UInt32)

namespace LogStreams

inductive Label (τ α : Type)
  -- `send(item)` or `send_with(setter)`
  | send (t : τ) (p : Payload α)
  -- the next step of the sender `t`
  | run (t : τ) (spurious : Bool)
  | createStreamForNewEvents (t : τ)
  | createStreamForOldAndNewEvents (t : τ)
  | createStreamsForOldAndNewEvents (t : τ)
  | drop (t : τ) (j : UInt32)
  -- the next step of the thread `t` that creates or drops streams
  | manage (t : τ)
  -- the two steps of `cancel_stream(j)`; the second is also the one of `flush`
  | stop (j : UInt32)
  | wakeStream (j : UInt32)
  | poll (j : UInt32) (w : Waker)
  -- the next step of the `poll_next` of stream `j`
  | pollNext (j : UInt32) (spurious : Bool)

section Step
variable {τ α : Type}

def new (M : Nat) (zero : α) : LogStreams τ α :=
  ⟨.new zero, fun _ => none, .new M, fun _ => .idle, fun _ => .new .dynamic 0, fun _ => false, fun _ => none, []⟩

def setRt (s : LogStreams τ α) (rt : Runtime) : LogStreams τ α := { s with life := { s.life with rt } }

def setSubscriber (s : LogStreams τ α) (j : UInt32) (u : Subscriber α) : LogStreams τ α :=
  { s with subscribers := Function.update s.subscribers j u }

def setEnding (s : LogStreams τ α) (j : UInt32) (e : Option Ending) : LogStreams τ α :=
  { s with ending := Function.update s.ending j e }

/-- The stream `j` is handed out with the subscriber `u`. -/
def handOut (s : LogStreams τ α) (j : UInt32) (u : Subscriber α) : LogStreams τ α :=
  { s.setSubscriber j u with handedOut := Function.update s.handedOut j true }

/-- The next step of the `consume` of stream `j`. -/
def consume (N : Nat) (s : LogStreams τ α) (j : UInt32) (spurious : Bool) : Option (LogStreams τ α) := do
  let u := s.subscribers j
  let (head, op, result) ← u.op.next N s.topic.contents u.kind u.head spurious
  let s' := s.setSubscriber j { u with head, op, returned := u.returned ++ result.toList.map Prod.snd }
  match result, u.kind with
  | none, _ => some s'
  | some (_, .item ..), _ => (s.life.rt.consumed j true).map s'.setRt
  | some (_, .none _), .dynamic => (s.life.rt.consumed j false).map s'.setRt
  | some (_, .none _), .fixed _ => some (s'.setEnding j (some .stop))

variable [DecidableEq τ]

def setWaking (s : LogStreams τ α) (t : τ) (w : Option Waking) : LogStreams τ α :=
  { s with waking := Function.update s.waking t w }

def setOpening (s : LogStreams τ α) (t : τ) (o : Opening) : LogStreams τ α :=
  { s with opening := Function.update s.opening t o }

/-- The next step of the sender `t`. There is none after an access out of bounds. -/
def run (N : Nat) (s : LogStreams τ α) (t : τ) (spurious : Bool) : Option (LogStreams τ α) :=
  match s.waking t with
  | none => do
    let topic ← s.topic.step N (.run t spurious)
    match topic.publishing t with
    | .published (some _) => some ({ s with topic }.setWaking t (some .count))
    -- also after `.published none`: `expect` panics, since `publish` hands nothing back
    | _ => some { s with topic }
  | some .count => some (s.setWaking t (some (.next 0 s.life.rt.streams.runningStreamsCount)))
  | some (.next i count) =>
    if i < count.toNat then do
      let streamId ← s.life.rt.streams.usedStreams[i]?
      if streamId ≠ u32Max then some (s.setWaking t (some (.wake streamId i count)))
      else some (s.setWaking t (some (.next (i + 1) count)))
    else some (s.setWaking t none)
  | some (.wake streamId i count) =>
    some ((s.setRt (s.life.rt.wake streamId)).setWaking t (some (.next (i + 1) count)))

/-- Thread `t` goes on in `create_stream_id()`, after which it is at `o id`. -/
def create (M : Nat) (s : LogStreams τ α) (t : τ) (o : UInt32 → Opening) : Option (LogStreams τ α) :=
  match s.life.managing t with
  | .idle => (s.life.step M (.create t)).map fun life => { s with life }
  | .createSync id => (s.life.step M (.manage t)).map fun life => { s with life }.setOpening t (o id)
  | _ => (s.life.step M (.manage t)).map fun life => { s with life }

def manage (M : Nat) (s : LogStreams τ α) (t : τ) : Option (LogStreams τ α) :=
  match s.opening t with
  -- a step of `report_stream_dropped`
  | .idle => (s.life.step M (.manage t)).map fun life => { s with life }
  | .single joined => s.create M t (.subscribe joined)
  | .subscribe joined id =>
    let start := if joined then 0 else s.topic.contents.consumerTail
    some ((s.handOut id (.new .dynamic start)).setOpening t .idle)
  | .oldies tail => s.create M t (.newies tail)
  | .newies tail oldiesId => s.create M t (.assign tail oldiesId)
  | .assign tail oldiesId newiesId =>
    some ({ (s.handOut oldiesId (.new (.fixed tail) 0)).handOut newiesId (.new .dynamic tail) with
      pairs := s.pairs ++ [(oldiesId, newiesId)] }.setOpening t .idle)

def step (M N : Nat) (s : LogStreams τ α) : Label τ α → Option (LogStreams τ α)
  | .send t p => if (s.waking t).isNone then (s.topic.step N (.publish t p)).map fun topic => { s with topic } else none
  | .run t spurious => s.run N t spurious
  | .createStreamForNewEvents t =>
    if s.opening t = .idle ∧ s.life.managing t = .idle then some (s.setOpening t (.single false)) else none
  | .createStreamForOldAndNewEvents t =>
    if s.opening t = .idle ∧ s.life.managing t = .idle then some (s.setOpening t (.single true)) else none
  | .createStreamsForOldAndNewEvents t =>
    if s.opening t = .idle ∧ s.life.managing t = .idle then
      some (s.setOpening t (.oldies s.topic.contents.consumerTail))
    else none
  | .drop t j =>
    if s.opening t = .idle ∧ s.handedOut j then
      (s.life.step M (.drop t j)).map fun life =>
        { s with life, handedOut := Function.update s.handedOut j false,
                 pairs := s.pairs.filter fun p => p.1 ≠ j ∧ p.2 ≠ j }
    else none
  | .manage t => s.manage M t
  | .stop j => some (s.setRt { s.life.rt with streams := s.life.rt.streams.setKeepRunning j false })
  | .wakeStream j => some (s.setRt (s.life.rt.wake j))
  | .poll j w =>
    if s.handedOut j then
      (s.life.rt.poll j w).map (s.setSubscriber j { s.subscribers j with op := .reserve }).setRt
    else none
  | .pollNext j spurious =>
    if (s.life.rt.task j).map Task.phase = some .consuming then
      match s.ending j with
      | none => s.consume N j spurious
      | some .stop =>
        some ((s.setRt { s.life.rt with streams := s.life.rt.streams.setKeepRunning j false }).setEnding j (some .wake))
      | some .wake => ((s.life.rt.wake j).consumed j false).map (s.setEnding j none).setRt
    else (s.life.rt.pollRest j).map s.setRt

end Step

/-! ### One stream -/

section Stream
variable {α : Type} {log log' : List α} {u : Subscriber α} {e : Option Ending} {keep : Bool} {ph : Phase} {fixedTail : Nat}

/-- What a subscriber, the `cancel_stream` in its `consume` and the keep-running flag have to do with the phase of the
stream: one for the old events gets beyond its `consume` only when it has yielded them all, and cancelled. -/
def Fits (u : Subscriber α) (e : Option Ending) (keep : Bool) (log : List α) : Phase → Prop
  | .consuming => e = none ∨ u.op = .idle ∧ (∃ fixedTail, u.kind = .fixed fixedTail ∧ u.yielded = log.take fixedTail) ∧
      (e = some .wake → keep = false)
  | .unpolled | .ready => u.op = .idle ∧ e = none
  | .keepRunning => (u.op = .idle ∧ e = none) ∧
      ∀ fixedTail, u.kind = .fixed fixedTail → u.yielded = log.take fixedTail ∧ keep = false
  | .registering | .pending => (u.op = .idle ∧ e = none) ∧ u.kind = .dynamic
  | .ended => (u.op = .idle ∧ e = none) ∧ ∀ fixedTail, u.kind = .fixed fixedTail → u.yielded = log.take fixedTail

theorem Fits.stop (h : Fits u e keep log ph) : Fits u e false log ph := by
  cases ph with
  | consuming => exact h.imp_right fun ⟨hop, hall, _⟩ => ⟨hop, hall, fun _ => rfl⟩
  | keepRunning => exact ⟨h.1, fun fixedTail hk => ⟨(h.2 fixedTail hk).1, rfl⟩⟩
  | unpolled | ready | registering | pending | ended => exact h

theorem Fits.mono (h : Fits u e keep log ph) (hu : u.Ok log) (hlog : log <+: log') : Fits u e keep log' ph := by
  have htake : ∀ fixedTail, u.kind = .fixed fixedTail → log'.take fixedTail = log.take fixedTail := by
    intro fixedTail hk
    have hw := hu.within
    rw [hk] at hw
    obtain ⟨rest, rfl⟩ := hlog
    exact List.take_append_of_le_length hw.2
  cases ph with
  | consuming =>
    refine h.imp_right fun ⟨hop, ⟨fixedTail, hk, hall⟩, hkeep⟩ => ⟨hop, ⟨fixedTail, hk, ?_⟩, hkeep⟩
    rw [htake fixedTail hk]
    exact hall
  | keepRunning =>
    refine ⟨h.1, fun fixedTail hk => ⟨?_, (h.2 fixedTail hk).2⟩⟩
    rw [htake fixedTail hk]
    exact (h.2 fixedTail hk).1
  | ended =>
    refine ⟨h.1, fun fixedTail hk => ?_⟩
    rw [htake fixedTail hk]
    exact h.2 fixedTail hk
  | unpolled | ready | registering | pending => exact h

theorem Fits.resting (h : Fits u e keep log ph) (hph : ph ≠ .consuming) : u.op = .idle ∧ e = none := by
  cases ph with
  | consuming => exact absurd rfl hph
  | unpolled | ready => exact h
  | keepRunning | registering | pending | ended => exact h.1

theorem ok_of_prefix (hu : u.Ok log) (hlog : log <+: log') : u.Ok log' := by
  obtain ⟨rest, rfl⟩ := hlog
  induction rest generalizing log with
  | nil => rwa [List.append_nil]
  | cons v rest ih =>
    rw [← List.singleton_append, ← List.append_assoc]
    exact ih (hu.append v)

/-- A subscriber for the old events that finds nothing has yielded them all. -/
theorem yielded_of_recede {slot tail : Nat} (hu : u.Ok log) (hop : u.op = .recede slot tail)
    (hk : u.kind = .fixed fixedTail) : u.yielded = log.take fixedTail := by
  have ho := hu.op
  rw [hop] at ho
  obtain ⟨-, -, htail, htailOk⟩ := ho
  have hw := hu.within
  have hy := hu.yields
  simp only [hk, Kind.TailOk, Kind.Within, Subscriber.source] at htailOk hw hy
  refine hy.eq_of_length ?_
  have hnext : u.next = u.start + u.yielded.length := rfl
  rw [List.length_take]
  omega

theorem ok_of_next {τ : Type} {N : Nat} {zero : α} {topic : Sys τ α} {spurious : Bool}
    {r : Nat × Consuming × Option (Nat × Returned α)} (hg : MMapMeta.Grown N zero topic) (hu : u.Ok topic.values)
    (hn : u.op.next N topic.contents u.kind u.head spurious = some r) :
    Subscriber.Ok topic.values
      { u with head := r.1, op := r.2.1, returned := u.returned ++ r.2.2.toList.map Prod.snd } := by
  -- a topic with this subscriber only
  let s : Sys τ α := { topic.forget with subscribers := [u], pairs := [] }
  have hinv : MMapMeta.Inv zero s := by
    refine ⟨hg.inv.window, hg.inv.publisher, hg.inv.untouched, hg.inv.length, hg.inv.entry, fun i v hv => ?_, nofun⟩
    obtain rfl := List.mem_singleton.mp (List.mem_of_getElem? hv)
    exact hu
  have hself : s.subscribers[0]? = some u := rfl
  have hstep := MMapMeta.runConsume_eq hself N spurious
  rw [show u.op.next N s.contents u.kind u.head spurious = some r from hn] at hstep
  exact (hinv.runConsume hself hstep).subscriber 0 _ rfl

end Stream

/-! ### What every step keeps -/

section Ok
variable {τ α : Type} {M N : Nat} {zero : α} {s s' : LogStreams τ α} {t : τ} {j : UInt32} {rt : Runtime}

/-- Who has which stream: a thread that creates it, or whoever it has been handed out to. -/
structure Held (s : LogStreams τ α) : Prop where
  opened : ∀ t, ∀ id ∈ (s.opening t).ids, (s.life.rt.task id).isSome ∧ s.handedOut id = false
  apart : ∀ t u, ∀ id ∈ (s.opening t).ids, id ∈ (s.opening u).ids → t = u
  nodup : ∀ t, (s.opening t).ids.Nodup
  handed : ∀ j, s.handedOut j = true → (s.life.rt.task j).isSome
  polled : ∀ j k, s.life.rt.task j = some k → k.phase ≠ .unpolled → s.handedOut j = true

structure Ok (M N : Nat) (zero : α) (s : LogStreams τ α) : Prop where
  topic : MMapMeta.Grown N zero s.topic
  life : s.life.Ok M
  held : s.Held
  subscriber : ∀ j, (s.subscribers j).Ok s.topic.values
  tail : ∀ t tail, (s.opening t).tail = some tail → tail ≤ s.topic.values.length
  ending : ∀ j, s.handedOut j = false → s.ending j = none
  fits : ∀ j k, s.handedOut j = true → s.life.rt.task j = some k →
    Fits (s.subscribers j) (s.ending j) (s.life.rt.streams.keepStreamsRunning j) s.topic.values k.phase
  /-- The streams that were created together share out the log. -/
  pair : ∀ o n, (o, n) ∈ s.pairs → (s.handedOut o = true ∧ s.handedOut n = true) ∧ ∃ tail,
    (s.subscribers o).kind = .fixed tail ∧ (s.subscribers n).kind = .dynamic ∧ (s.subscribers n).start = tail

theorem Held.new (M : Nat) (zero : α) : Held (.new M zero : LogStreams τ α) := by
  constructor <;> intros <;> first | exact List.nodup_nil | contradiction

theorem Ok.new (hM : Ring.PowerOfTwo M) (N : Nat) (zero : α) : Ok M N zero (.new M zero : LogStreams τ α) where
  topic := .new N zero
  life := .new hM
  held := .new M zero
  subscriber _ := MMapMeta.Inv.subscriber_new .dynamic 0 _ (Nat.zero_le _)
  tail _ _ h := by cases h
  ending _ _ := rfl
  fits _ _ h := by cases h
  pair _ _ h := by cases h

/-- A step of the streams and their tasks in which no other stream is polled than those that were handed out. -/
theorem Held.of_rt (h : s.Held) (hsame : s.life.rt.SameStreams rt)
    (hpolled : ∀ j k, rt.task j = some k → k.phase ≠ .unpolled → s.handedOut j = true ∨
      ∃ k', s.life.rt.task j = some k' ∧ k'.phase = k.phase) : (s.setRt rt).Held := by
  refine ⟨fun t id hid => ?_, h.apart, h.nodup, fun j hj => ?_, fun j k hk hph => ?_⟩
  · obtain ⟨hid', hfalse⟩ := h.opened t id hid
    exact ⟨(hsame.isSome id).trans hid', hfalse⟩
  · exact (hsame.isSome j).trans (h.handed j hj)
  · rcases hpolled j k hk hph with hj | ⟨k', hk', hph'⟩
    · exact hj
    · exact h.polled j k' hk' (by rwa [hph'])

theorem Ok.of_rt (h : Ok M N zero s) (hok : rt.Ok M) (hsame : s.life.rt.SameStreams rt)
    (hph : ∀ j k, rt.task j = some k → ∃ k', s.life.rt.task j = some k' ∧ k'.phase = k.phase)
    (hkeep : ∀ j, rt.streams.keepStreamsRunning j = s.life.rt.streams.keepStreamsRunning j ∨
      rt.streams.keepStreamsRunning j = false) : Ok M N zero (s.setRt rt) := by
  refine ⟨h.topic, h.life.of_rt hok hsame, h.held.of_rt hsame fun j k hk _ => .inr (hph j k hk), h.subscriber, h.tail,
    h.ending, fun j k hj hk => ?_, h.pair⟩
  obtain ⟨k', hk', hph'⟩ := hph j k hk
  have hfits := h.fits j k' hj hk'
  rw [hph'] at hfits
  show Fits _ _ (rt.streams.keepStreamsRunning j) _ _
  rcases hkeep j with he | he
  · rw [he]
    exact hfits
  · rw [he]
    exact hfits.stop

theorem Ok.wake (h : Ok M N zero s) (j : UInt32) : Ok M N zero (s.setRt (s.life.rt.wake j)) := by
  refine h.of_rt (h.life.rt.wake j) (s.life.rt.sameStreams_wake j) (fun i k hk => ?_) fun _ => .inl rfl
  have hsome : (s.life.rt.task i).isSome := by rw [← Runtime.isSome_wake s.life.rt j i, hk]; rfl
  obtain ⟨k', hk'⟩ := Option.isSome_iff_exists.mp hsome
  obtain ⟨k'', hk'', hph⟩ := Runtime.phase_wake hk' j
  cases hk.symm.trans hk''
  exact ⟨k', hk', hph.symm⟩

/-- Stream `j`, which was handed out, takes a step with its subscriber. -/
theorem Ok.stream {u : Subscriber α} {e : Option Ending} (h : Ok M N zero s) (hj : s.handedOut j = true) (hok : rt.Ok M)
    (hsame : s.life.rt.SameStreams rt)
    (hother : ∀ i, i ≠ j → rt.task i = s.life.rt.task i ∧
      rt.streams.keepStreamsRunning i = s.life.rt.streams.keepStreamsRunning i)
    (hu : u.Ok s.topic.values) (hkind : u.kind = (s.subscribers j).kind) (hstart : u.start = (s.subscribers j).start)
    (hfits : ∀ k, rt.task j = some k → Fits u e (rt.streams.keepStreamsRunning j) s.topic.values k.phase) :
    Ok M N zero (((s.setSubscriber j u).setEnding j e).setRt rt) := by
  have hheld : (s.setRt rt).Held := by
    refine h.held.of_rt hsame fun i k hk _ => ?_
    by_cases hij : i = j
    · subst hij
      exact .inl hj
    · exact .inr ⟨k, by rw [← (hother i hij).1]; exact hk, rfl⟩
  have hkinds : ∀ i, (Function.update s.subscribers j u i).kind = (s.subscribers i).kind ∧
      (Function.update s.subscribers j u i).start = (s.subscribers i).start := by
    intro i
    by_cases hij : i = j
    · subst hij
      rw [Function.update_self]
      exact ⟨hkind, hstart⟩
    · rw [Function.update_of_ne hij]
      exact ⟨rfl, rfl⟩
  refine ⟨h.topic, h.life.of_rt hok hsame, ⟨hheld.opened, hheld.apart, hheld.nodup, hheld.handed, hheld.polled⟩,
    fun i => ?_, h.tail, fun i hi => ?_, fun i k hi hk => ?_, fun o n hon => ?_⟩
  · show (Function.update s.subscribers j u i).Ok _
    by_cases hij : i = j
    · subst hij
      rwa [Function.update_self]
    · rw [Function.update_of_ne hij]
      exact h.subscriber i
  · have hij : i ≠ j := by
      rintro rfl
      cases hj.symm.trans hi
    show Function.update s.ending j e i = none
    rw [Function.update_of_ne hij]
    exact h.ending i hi
  · show Fits (Function.update s.subscribers j u i) (Function.update s.ending j e i) _ _ _
    by_cases hij : i = j
    · subst hij
      rw [Function.update_self, Function.update_self]
      exact hfits k hk
    · obtain ⟨htask, hkeep⟩ := hother i hij
      rw [Function.update_of_ne hij, Function.update_of_ne hij]
      show Fits _ _ (rt.streams.keepStreamsRunning i) _ _
      rw [hkeep]
      exact h.fits i k hi (htask.symm.trans hk)
  · obtain ⟨hhanded, tail, ho, hn, hs⟩ := h.pair o n hon
    refine ⟨hhanded, tail, ?_⟩
    show (Function.update s.subscribers j u o).kind = _ ∧ (Function.update s.subscribers j u n).kind = _ ∧
      (Function.update s.subscribers j u n).start = _
    rw [(hkinds o).1, (hkinds n).1, (hkinds n).2]
    exact ⟨ho, hn, hs⟩

/-! ### Polling -/

theorem Ok.stop (h : Ok M N zero s) (j : UInt32) :
    Ok M N zero (s.setRt { s.life.rt with streams := s.life.rt.streams.setKeepRunning j false }) := by
  refine h.of_rt (h.life.rt.stop j) ⟨fun _ => rfl, rfl⟩ (fun _ k hk => ⟨k, hk, rfl⟩) fun i => ?_
  by_cases hij : i = j
  · subst hij
    exact .inr (Function.update_self (f := s.life.rt.streams.keepStreamsRunning) ..)
  · exact .inl (Function.update_of_ne hij _ _)

theorem Ok.poll {w : Waker} (h : Ok M N zero s) (hj : s.handedOut j = true) (hp : s.life.rt.poll j w = some rt) :
    Ok M N zero ((s.setSubscriber j { s.subscribers j with op := .reserve }).setRt rt) := by
  have hok := h.life.rt.poll hp
  have hsame := Runtime.sameStreams_poll hp
  have hpolled : ∃ k, s.life.rt.task j = some k ∧ k.phase ≠ .consuming := by
    simp only [Runtime.poll, Option.bind_eq_bind, Option.bind_eq_some_iff] at hp
    obtain ⟨k, hk, k', hk', -⟩ := hp
    refine ⟨k, hk, fun hph => ?_⟩
    rcases (Task.poll_eq_some hk').2 with h | h | h <;> rw [hph] at h <;> cases h
  obtain ⟨k, hk, hph⟩ := hpolled
  obtain ⟨hidle, hending⟩ := (h.fits j k hj hk).resting hph
  have hu : Subscriber.Ok s.topic.values { s.subscribers j with op := .reserve } := by
    have hop := (h.subscriber j).op
    rw [hidle] at hop
    exact (h.subscriber j).goOn _ _ hop
  obtain ⟨_, -, rfl⟩ := Runtime.poll_cases hp
  have hset : s.setEnding j none = s := by
    unfold setEnding
    rw [← hending, Function.update_eq_self]
  have hstream := h.stream (e := none) hj hok hsame (fun i hij => ⟨Function.update_of_ne hij _ _, rfl⟩) hu rfl rfl
    fun k hk => ?_
  · have he : (s.setSubscriber j { s.subscribers j with op := .reserve }).setEnding j none =
        (s.setEnding j none).setSubscriber j { s.subscribers j with op := .reserve } := rfl
    rwa [he, hset] at hstream
  · cases (Function.update_self ..).symm.trans hk
    exact .inl rfl

theorem Ok.pollRest (h : Ok M N zero s) (hp : s.life.rt.pollRest j = some rt) : Ok M N zero (s.setRt rt) := by
  have hok := h.life.rt.pollRest hp
  have hsame := Runtime.sameStreams_pollRest hp
  have hkeep := Runtime.keep_of_pollRest hp
  have hself : (s.setSubscriber j (s.subscribers j)).setEnding j (s.ending j) = s := by
    unfold setSubscriber setEnding
    rw [Function.update_eq_self, Function.update_eq_self]
  obtain ⟨k, hk, hcase⟩ := Runtime.pollRest_cases hp
  have hj : s.handedOut j = true := by
    refine h.held.polled j k hk fun hph => ?_
    rcases hcase with ⟨hph', -⟩ | ⟨hph', -⟩ <;> rw [hph] at hph' <;> cases hph'
  have hfits := h.fits j k hj hk
  have hstream := h.stream hj hok hsame (u := s.subscribers j) (e := s.ending j) (fun i hij => ⟨?_, by rw [hkeep]⟩)
    (h.subscriber j) rfl rfl fun k' hk' => ?_
  · rwa [hself] at hstream
  · rcases hcase with ⟨-, rfl⟩ | ⟨-, b, -, rfl⟩ <;> exact Function.update_of_ne hij _ _
  · rw [hkeep]
    rcases hcase with ⟨hph, rfl⟩ | ⟨hph, b, -, rfl⟩ <;> cases (Function.update_self ..).symm.trans hk' <;>
      rw [hph] at hfits
    · cases hrun : s.life.rt.streams.keepStreamsRunning j with
      | false =>
        simp only [Task.keep, Bool.false_eq_true, if_false]
        exact ⟨hfits.1, fun fixedTail hkind => (hfits.2 fixedTail hkind).1⟩
      | true =>
        simp only [Task.keep, if_true]
        refine ⟨hfits.1, ?_⟩
        cases hkind : (s.subscribers j).kind with
        | dynamic => rfl
        | fixed fixedTail =>
          have := (hfits.2 fixedTail hkind).2
          rw [hrun] at this
          cases this
    · exact hfits

/-- The subscriber after a step of its `consume`. -/
def after (u : Subscriber α) (r : Nat × Consuming × Option (Nat × Returned α)) : Subscriber α :=
  { u with head := r.1, op := r.2.1, returned := u.returned ++ r.2.2.toList.map Prod.snd }

theorem consume_cases {spurious : Bool} (hs : s.consume N j spurious = some s') : ∃ r,
    (s.subscribers j).op.next N s.topic.contents (s.subscribers j).kind (s.subscribers j).head spurious = some r ∧
    ((r.2.2 = none ∧ s' = s.setSubscriber j (after (s.subscribers j) r)) ∨
     (∃ slot x rt, r.2.2 = some (slot, x) ∧
       (x.value.isSome = false → (s.subscribers j).kind = .dynamic) ∧ s.life.rt.consumed j x.value.isSome = some rt ∧
       s' = (s.setSubscriber j (after (s.subscribers j) r)).setRt rt) ∨
     ∃ slot tail fixedTail, r.2.2 = some (slot, .none tail) ∧ (s.subscribers j).kind = .fixed fixedTail ∧
       s' = (s.setSubscriber j (after (s.subscribers j) r)).setEnding j (some .stop)) := by
  simp only [consume, Option.bind_eq_bind, Option.bind_eq_some_iff] at hs
  obtain ⟨r, hr, hs⟩ := hs
  refine ⟨r, hr, ?_⟩
  rcases r with ⟨head, op, _ | ⟨slot, ⟨x, len⟩ | tail⟩⟩
  · cases hs
    exact .inl ⟨rfl, rfl⟩
  · obtain ⟨rt, hc, rfl⟩ := Option.map_eq_some_iff.mp hs
    exact .inr (.inl ⟨slot, .item x len, rt, rfl, nofun, hc, rfl⟩)
  · cases hk : (s.subscribers j).kind with
    | dynamic =>
      simp only [hk] at hs
      obtain ⟨rt, hc, rfl⟩ := Option.map_eq_some_iff.mp hs
      refine .inr (.inl ⟨slot, .none tail, rt, rfl, fun _ => rfl, hc, ?_⟩)
      rw [after, hk]
    | fixed fixedTail =>
      simp only [hk] at hs
      cases hs
      refine .inr (.inr ⟨slot, tail, fixedTail, rfl, rfl, ?_⟩)
      rw [after, hk]

/-- A `consume` comes to its end, without an event if it was about to set back its `head`. -/
theorem next_returns {contents : MMapContents α} {kind : Kind} {head slot : Nat} {op : Consuming} {spurious : Bool}
    {r : Nat × Consuming × Option (Nat × Returned α)} {x : Returned α}
    (hn : op.next N contents kind head spurious = some r) (hx : r.2.2 = some (slot, x)) :
    r.2.1 = .idle ∧ (x.value.isSome = false → ∃ tail, op = .recede slot tail) := by
  unfold Consuming.next at hn
  split at hn
  · cases hn
  · split at hn
    · cases hn
      cases hx
    · split at hn <;> cases hn <;> cases hx
  · simp only at hn
    split at hn <;> cases hn <;> cases hx
  · split at hn <;> cases hn <;> cases hx
    exact ⟨rfl, fun _ => ⟨_, rfl⟩⟩
  · simp only at hn
    split at hn <;> cases hn
    cases hx
    exact ⟨rfl, fun h => by cases h⟩

theorem Ok.consume {k : Task} {spurious : Bool} (h : Ok M N zero s) (hk : s.life.rt.task j = some k)
    (hph : k.phase = .consuming) (he : s.ending j = none) (hs : s.consume N j spurious = some s') : Ok M N zero s' := by
  have hj : s.handedOut j = true := h.held.polled j k hk (by rw [hph]; decide)
  obtain ⟨r, hr, hcase⟩ := consume_cases hs
  have hu : (after (s.subscribers j) r).Ok s.topic.values := ok_of_next h.topic (h.subscriber j) hr
  have hself : ∀ u, (s.setSubscriber j u).setEnding j none = s.setSubscriber j u := by
    intro u
    unfold setEnding setSubscriber
    rw [← he, Function.update_eq_self]
  have hrefl : ∀ i, i ≠ j → s.life.rt.task i = s.life.rt.task i ∧
      s.life.rt.streams.keepStreamsRunning i = s.life.rt.streams.keepStreamsRunning i := fun _ _ => ⟨rfl, rfl⟩
  rcases hcase with ⟨hnone, rfl⟩ | ⟨slot, x, rt, hx, hdyn, hc, rfl⟩ | ⟨slot, tail, fixedTail, hx, hkind, rfl⟩
  · have hstream := h.stream (e := none) hj h.life.rt ⟨fun _ => rfl, rfl⟩ hrefl hu rfl rfl fun k' hk' => ?_
    · rwa [hself] at hstream
    · cases hk.symm.trans hk'
      rw [hph]
      exact .inl rfl
  · have hidle := (next_returns hr hx).1
    have hok := h.life.rt.consumed hc
    have hsame := Runtime.sameStreams_consumed hc
    obtain ⟨k₀, hk₀, -, rfl⟩ := Runtime.consumed_cases hc
    have hstream := h.stream (e := none) hj hok hsame (fun i hij => ⟨Function.update_of_ne hij _ _, rfl⟩) hu rfl rfl
      fun k' hk' => ?_
    · rwa [hself] at hstream
    · cases (Function.update_self ..).symm.trans hk'
      cases hb : x.value.isSome with
      | true => exact ⟨hidle, rfl⟩
      | false =>
        refine ⟨⟨hidle, rfl⟩, fun fixedTail hkind => ?_⟩
        cases (hdyn hb).symm.trans hkind
  · obtain ⟨hidle, hrecede⟩ := next_returns hr hx
    obtain ⟨tail', hop⟩ := hrecede rfl
    refine h.stream hj h.life.rt ⟨fun _ => rfl, rfl⟩ hrefl hu rfl rfl fun k' hk' => ?_
    cases hk.symm.trans hk'
    rw [hph]
    refine .inr ⟨hidle, ⟨fixedTail, hkind, ?_⟩, nofun⟩
    have hall := yielded_of_recede (h.subscriber j) hop hkind
    rw [← hall, after, hx]
    unfold Subscriber.yielded
    rw [List.filterMap_append]
    exact List.append_nil _

theorem Ok.pollNext {M N : Nat} {spurious : Bool} [DecidableEq τ] (h : Ok M N zero s)
    (hs : s.step M N (.pollNext j spurious) = some s') : Ok M N zero s' := by
  simp only [LogStreams.step] at hs
  split at hs
  case isFalse =>
    obtain ⟨rt, hp, rfl⟩ := Option.map_eq_some_iff.mp hs
    exact h.pollRest hp
  case isTrue hphase =>
    obtain ⟨k, hk, hph⟩ := Option.map_eq_some_iff.mp hphase
    have hj : s.handedOut j = true := h.held.polled j k hk (by rw [hph]; decide)
    have hfits := h.fits j k hj hk
    rw [hph] at hfits
    rcases he : s.ending j with _ | _ | _ <;> simp only [he] at hs
    · exact h.consume hk hph he hs
    · cases hs
      obtain ⟨hidle, hall, -⟩ := hfits.resolve_left (by rw [he]; decide)
      have hstop := h.stop j
      have hstream := hstop.stream (e := some .wake) (u := s.subscribers j) hj hstop.life.rt ⟨fun _ => rfl, rfl⟩
        (fun _ _ => ⟨rfl, rfl⟩) (h.subscriber j) rfl rfl fun k' hk' => ?_
      · have hself : (s.setRt { s.life.rt with streams := s.life.rt.streams.setKeepRunning j false }).setSubscriber j
            (s.subscribers j) = s.setRt { s.life.rt with streams := s.life.rt.streams.setKeepRunning j false } := by
          unfold setSubscriber setRt
          rw [Function.update_eq_self]
        rwa [hself] at hstream
      · cases hk.symm.trans hk'
        rw [hph]
        exact .inr ⟨hidle, hall, fun _ => Function.update_self ..⟩
    · obtain ⟨rt, hc, rfl⟩ := Option.map_eq_some_iff.mp hs
      obtain ⟨hidle, ⟨fixedTail, hkind, hall⟩, hkeep⟩ := hfits.resolve_left (by rw [he]; decide)
      have hwake := h.wake j
      have hok := hwake.life.rt.consumed hc
      have hsame := Runtime.sameStreams_consumed hc
      obtain ⟨k₀, -, -, rfl⟩ := Runtime.consumed_cases hc
      have hstream := hwake.stream (e := none) (u := s.subscribers j) hj hok hsame
        (fun i hij => ⟨Function.update_of_ne hij _ _, rfl⟩) (h.subscriber j) rfl rfl fun k' hk' => ?_
      · have hself : (s.setRt (s.life.rt.wake j)).setSubscriber j (s.subscribers j) = s.setRt (s.life.rt.wake j) := by
          unfold setSubscriber setRt
          rw [Function.update_eq_self]
        rwa [hself] at hstream
      · cases (Function.update_self ..).symm.trans hk'
        refine ⟨⟨hidle, rfl⟩, fun fixedTail' hkind' => ?_⟩
        cases hkind.symm.trans hkind'
        exact ⟨hall, hkeep he⟩

/-! ### Creating, dropping and sending -/

variable [DecidableEq τ]

theorem isSome_of_manage {life life' : Streams τ} (hs : life.step M (.manage t) = some life')
    (hj : (life.rt.task j).isSome) : (life'.rt.task j).isSome := by
  change life.manage M t = some life' at hs
  unfold Streams.manage at hs
  split at hs <;> try (cases hs <;> exact hj)
  · split at hs <;> cases hs <;> exact hj
  · cases hs
    show (Function.update life.rt.task _ (some Task.fresh) j).isSome
    rw [Function.update_apply]
    split
    · rfl
    · exact hj

theorem Ok.life_step {life : Streams τ} {l : Streams.Label τ} (hM : Ring.PowerOfTwo M) (h : Ok M N zero s)
    (hs : s.life.step M l = some life) (hkept : ∀ j, (s.life.rt.task j).isSome → (life.rt.task j).isSome) :
    Ok M N zero { s with life } := by
  have hstep : ∀ j k, life.rt.task j = some k → (s.life.rt.task j = none ∧ k = .fresh) ∨
      s.life.rt.task j = some k ∧ life.rt.streams.keepStreamsRunning j = s.life.rt.streams.keepStreamsRunning j := by
    intro j k hk
    rcases h.life.step_task hs (j := j) (by rw [hk]; rfl) with ⟨hnone, hnew⟩ | ⟨htask, -, hkeep⟩
    · cases hk.symm.trans hnew
      exact .inl ⟨hnone, rfl⟩
    · exact .inr ⟨htask.symm.trans hk, hkeep⟩
  refine ⟨h.topic, h.life.step hM hs, ⟨fun t id hid => ?_, h.held.apart, h.held.nodup, fun j hj => ?_, fun j k hk hph => ?_⟩,
    h.subscriber, h.tail, h.ending, fun j k hj hk => ?_, h.pair⟩
  · obtain ⟨hsome, hfalse⟩ := h.held.opened t id hid
    exact ⟨hkept id hsome, hfalse⟩
  · exact hkept j (h.held.handed j hj)
  · rcases hstep j k hk with ⟨-, rfl⟩ | ⟨hk', -⟩
    · exact absurd rfl hph
    · exact h.held.polled j k hk' hph
  · rcases hstep j k hk with ⟨hnone, -⟩ | ⟨hk', hkeep⟩
    · have hsome := h.held.handed j hj
      rw [hnone] at hsome
      cases hsome
    · show Fits _ _ (life.rt.streams.keepStreamsRunning j) _ _
      rw [hkeep]
      exact h.fits j k hj hk'

theorem Ok.receive {o : Opening} {id : UInt32} (h : Ok M N zero s) (hid : (s.life.rt.task id).isSome)
    (hfree : s.handedOut id = false ∧ ∀ u, id ∉ (s.opening u).ids) (ho : o.ids = (s.opening t).ids ++ [id])
    (htail : o.tail = none ∨ o.tail = (s.opening t).tail) : Ok M N zero (s.setOpening t o) := by
  have hmem : ∀ u x, x ∈ (Function.update s.opening t o u).ids → x ∈ (s.opening u).ids ∨ x = id ∧ u = t := by
    intro u x hx
    by_cases hut : u = t
    · subst hut
      rw [Function.update_self, ho, List.mem_append, List.mem_singleton] at hx
      exact hx.imp_right fun he => ⟨he, rfl⟩
    · rw [Function.update_of_ne hut] at hx
      exact .inl hx
  refine ⟨h.topic, h.life, ⟨fun u x hx => ?_, fun u v x hu hv => ?_, fun u => ?_, h.held.handed, h.held.polled⟩,
    h.subscriber, fun u tail hu => ?_, h.ending, h.fits, h.pair⟩
  · rcases hmem u x hx with hx | ⟨rfl, -⟩
    · exact h.held.opened u x hx
    · exact ⟨hid, hfree.1⟩
  · rcases hmem u x hu with hx | ⟨rfl, rfl⟩ <;> rcases hmem v x hv with hx' | ⟨he, he'⟩
    · exact h.held.apart u v x hx hx'
    · exact absurd (he ▸ hx) (hfree.2 u)
    · exact absurd hx' (hfree.2 v)
    · exact he'.symm
  · show (Function.update s.opening t o u).ids.Nodup
    by_cases hut : u = t
    · subst hut
      rw [Function.update_self, ho, List.nodup_append_comm, List.singleton_append, List.nodup_cons]
      exact ⟨hfree.2 u, h.held.nodup u⟩
    · rw [Function.update_of_ne hut]
      exact h.held.nodup u
  · change (Function.update s.opening t o u).tail = some tail at hu
    by_cases hut : u = t
    · subst hut
      rw [Function.update_self] at hu
      rcases htail with he | he <;> rw [he] at hu
      · cases hu
      · exact h.tail u tail hu
    · rw [Function.update_of_ne hut] at hu
      exact h.tail u tail hu

theorem Ok.create {o : UInt32 → Opening} (hM : Ring.PowerOfTwo M) (h : Ok M N zero s)
    (ho : ∀ id, (o id).ids = (s.opening t).ids ++ [id]) (htail : ∀ id, (o id).tail = none ∨ (o id).tail = (s.opening t).tail)
    (hs : s.create M t o = some s') : Ok M N zero s' := by
  cases hid : s.life.managing t with
  | idle =>
    simp only [LogStreams.create, hid] at hs
    obtain ⟨life, hl, rfl⟩ := Option.map_eq_some_iff.mp hs
    refine h.life_step hM hl fun j hj => ?_
    obtain ⟨-, hl⟩ := Option.ite_none_right_eq_some.mp hl
    cases hl
    exact hj
  | createSync id =>
    simp only [LogStreams.create, hid] at hs
    obtain ⟨life, hl, rfl⟩ := Option.map_eq_some_iff.mp hs
    -- until now the id was in the hands of the thread
    have hnone : s.life.rt.task id = none := h.life.task t id (by rw [hid]; rfl)
    have hstep := h.life_step hM hl fun j hj => isSome_of_manage hl hj
    have hnew : (life.rt.task id).isSome := by
      change s.life.manage M t = some life at hl
      simp only [Streams.manage, hid, Option.some.injEq] at hl
      subst hl
      show (Function.update s.life.rt.task id (some Task.fresh) id).isSome
      rw [Function.update_self]
      rfl
    refine hstep.receive (t := t) hnew ⟨?_, fun u hu => ?_⟩ (ho id) (htail id)
    · cases hhand : s.handedOut id with
      | false => rfl
      | true =>
        have := h.held.handed id hhand
        rw [hnone] at this
        cases this
    · have := (h.held.opened u id hu).1
      rw [hnone] at this
      cases this
  | _ =>
    simp only [LogStreams.create, hid] at hs
    obtain ⟨life, hl, rfl⟩ := Option.map_eq_some_iff.mp hs
    exact h.life_step hM hl fun j hj => isSome_of_manage hl hj

/-- Thread `t` hands out stream `id`, and goes on with the others it has. -/
theorem Ok.handOut {o : Opening} {id : UInt32} {u : Subscriber α} (h : Ok M N zero s) (hids : (s.opening t).ids = id :: o.ids)
    (htail : ∀ tail, o.tail = some tail → tail ≤ s.topic.values.length) (hu : u.Ok s.topic.values) (hidle : u.op = .idle) :
    Ok M N zero ((s.handOut id u).setOpening t o) := by
  have hid : id ∈ (s.opening t).ids := by rw [hids]; exact List.mem_cons_self
  obtain ⟨hsome, hfalse⟩ := h.held.opened t id hid
  have hnodup := h.held.nodup t
  rw [hids, List.nodup_cons] at hnodup
  have hmem : ∀ v x, x ∈ (Function.update s.opening t o v).ids → x ∈ (s.opening v).ids ∧ x ≠ id := by
    intro v x hx
    by_cases hvt : v = t
    · subst hvt
      rw [Function.update_self] at hx
      refine ⟨by rw [hids]; exact List.mem_cons_of_mem _ hx, ?_⟩
      rintro rfl
      exact hnodup.1 hx
    · rw [Function.update_of_ne hvt] at hx
      refine ⟨hx, ?_⟩
      rintro rfl
      exact hvt (h.held.apart v t x hx hid)
  have hhanded : ∀ i, Function.update s.handedOut id true i = true → i ≠ id → s.handedOut i = true := by
    intro i hi hne
    rwa [Function.update_of_ne hne] at hi
  have hsub : ∀ i, i ≠ id → Function.update s.subscribers id u i = s.subscribers i := fun i hne =>
    Function.update_of_ne hne _ _
  refine ⟨h.topic, h.life, ⟨fun v x hx => ?_, fun v w x hv hw => ?_, fun v => ?_, fun i hi => ?_, fun i k hk hph => ?_⟩,
    fun i => ?_, fun v tail hv => ?_, fun i hi => ?_, fun i k hi hk => ?_, fun a b hab => ?_⟩
  · obtain ⟨hx', hne⟩ := hmem v x hx
    obtain ⟨hx'', hf⟩ := h.held.opened v x hx'
    exact ⟨hx'', (Function.update_of_ne hne _ _).trans hf⟩
  · exact h.held.apart v w x (hmem v x hv).1 (hmem w x hw).1
  · show (Function.update s.opening t o v).ids.Nodup
    by_cases hvt : v = t
    · subst hvt
      rw [Function.update_self]
      exact hnodup.2
    · rw [Function.update_of_ne hvt]
      exact h.held.nodup v
  · change Function.update s.handedOut id true i = true at hi
    by_cases hne : i = id
    · subst hne
      exact hsome
    · exact h.held.handed i (hhanded i hi hne)
  · show Function.update s.handedOut id true i = true
    by_cases hne : i = id
    · subst hne
      exact Function.update_self ..
    · rw [Function.update_of_ne hne]
      exact h.held.polled i k hk hph
  · show (Function.update s.subscribers id u i).Ok _
    by_cases hne : i = id
    · subst hne
      rwa [Function.update_self]
    · rw [hsub i hne]
      exact h.subscriber i
  · change (Function.update s.opening t o v).tail = some tail at hv
    by_cases hvt : v = t
    · subst hvt
      rw [Function.update_self] at hv
      exact htail tail hv
    · rw [Function.update_of_ne hvt] at hv
      exact h.tail v tail hv
  · change Function.update s.handedOut id true i = false at hi
    by_cases hne : i = id
    · subst hne
      rw [Function.update_self] at hi
      cases hi
    · rw [Function.update_of_ne hne] at hi
      exact h.ending i hi
  · show Fits (Function.update s.subscribers id u i) _ _ _ _
    by_cases hne : i = id
    · -- a stream that has not been polled
      subst hne
      have hph : k.phase = .unpolled := by
        by_contra hph
        cases hfalse.symm.trans (h.held.polled i k hk hph)
      rw [Function.update_self, hph]
      exact ⟨hidle, h.ending i hfalse⟩
    · rw [hsub i hne]
      exact h.fits i k (hhanded i hi hne) hk
  · obtain ⟨⟨ha, hb⟩, tail, h₁, h₂, h₃⟩ := h.pair a b hab
    have hne : ∀ i, s.handedOut i = true → i ≠ id := by
      rintro i hi rfl
      cases hfalse.symm.trans hi
    refine ⟨⟨(Function.update_of_ne (hne a ha) _ _).trans ha, (Function.update_of_ne (hne b hb) _ _).trans hb⟩, tail, ?_⟩
    show (Function.update s.subscribers id u a).kind = _ ∧ (Function.update s.subscribers id u b).kind = _ ∧
      (Function.update s.subscribers id u b).start = _
    rw [hsub a (hne a ha), hsub b (hne b hb)]
    exact ⟨h₁, h₂, h₃⟩

theorem Ok.assign {tail : Nat} {oldiesId newiesId : UInt32} (h : Ok M N zero s)
    (ho : s.opening t = .assign tail oldiesId newiesId) :
    Ok M N zero ({ (s.handOut oldiesId (.new (.fixed tail) 0)).handOut newiesId (.new .dynamic tail) with
      pairs := s.pairs ++ [(oldiesId, newiesId)] }.setOpening t .idle) := by
  have htail : tail ≤ s.topic.values.length := h.tail t tail (by rw [ho]; rfl)
  have h₁ : Ok M N zero ((s.handOut oldiesId (.new (.fixed tail) 0)).setOpening t (.subscribe false newiesId)) :=
    h.handOut (by rw [ho]; rfl) nofun (MMapMeta.Inv.subscriber_new _ _ _ ⟨rfl, htail⟩) rfl
  have h₂ := h₁.handOut (t := t) (o := .idle) (u := .new .dynamic tail)
    (by show (Function.update s.opening t _ t).ids = _; rw [Function.update_self]; rfl) nofun
    (MMapMeta.Inv.subscriber_new _ _ _ htail) rfl
  have hne : oldiesId ≠ newiesId := by
    have hnodup := h.held.nodup t
    rw [ho] at hnodup
    rintro rfl
    exact absurd hnodup (by simp [Opening.ids])
  have hself : (((s.handOut oldiesId (.new (.fixed tail) 0)).setOpening t (.subscribe false newiesId)).handOut newiesId
      (.new .dynamic tail)).setOpening t .idle =
      ((s.handOut oldiesId (.new (.fixed tail) 0)).handOut newiesId (.new .dynamic tail)).setOpening t .idle := by
    unfold setOpening LogStreams.handOut setSubscriber
    rw [Function.update_idem]
  rw [hself] at h₂
  refine { h₂ with held := ?_, pair := fun a b hab => ?_ }
  · exact ⟨h₂.held.opened, h₂.held.apart, h₂.held.nodup, h₂.held.handed, h₂.held.polled⟩
  · rcases List.mem_append.mp hab with hab | hab
    · exact h₂.pair a b hab
    · rw [List.mem_singleton] at hab
      cases hab
      refine ⟨⟨?_, Function.update_self ..⟩, tail, ?_, ?_, ?_⟩
      · show Function.update (Function.update s.handedOut oldiesId true) newiesId true oldiesId = true
        rw [Function.update_of_ne hne, Function.update_self]
      · show (Function.update (Function.update s.subscribers oldiesId (Subscriber.new (.fixed tail) 0)) newiesId _
          oldiesId).kind = _
        rw [Function.update_of_ne hne, Function.update_self]
        rfl
      · show (Function.update (Function.update s.subscribers oldiesId _) newiesId (Subscriber.new .dynamic tail)
          newiesId).kind = _
        rw [Function.update_self]
        rfl
      · show (Function.update (Function.update s.subscribers oldiesId _) newiesId (Subscriber.new .dynamic tail)
          newiesId).start = _
        rw [Function.update_self]
        rfl

theorem Ok.manage (hM : Ring.PowerOfTwo M) (h : Ok M N zero s) (hs : s.manage M t = some s') : Ok M N zero s' := by
  cases ho : s.opening t with
  | idle =>
    simp only [LogStreams.manage, ho] at hs
    obtain ⟨life, hl, rfl⟩ := Option.map_eq_some_iff.mp hs
    exact h.life_step hM hl fun j hj => isSome_of_manage hl hj
  | single joined =>
    simp only [LogStreams.manage, ho] at hs
    exact h.create hM (fun id => by rw [ho]; rfl) (fun _ => .inl rfl) hs
  | subscribe joined id =>
    simp only [LogStreams.manage, ho, Option.some.injEq] at hs
    subst hs
    refine h.handOut (by rw [ho]; rfl) nofun (MMapMeta.Inv.subscriber_new _ _ _ ?_) rfl
    show (if joined then 0 else s.topic.contents.consumerTail) ≤ s.topic.values.length
    rw [h.topic.values_length]
    split
    · exact Nat.zero_le _
    · exact Nat.le_refl _
  | oldies tail | newies tail oldiesId =>
    simp only [LogStreams.manage, ho] at hs
    exact h.create hM (fun id => by rw [ho]; rfl) (fun _ => .inr (by rw [ho]; rfl)) hs
  | assign tail oldiesId newiesId =>
    simp only [LogStreams.manage, ho, Option.some.injEq] at hs
    subst hs
    exact h.assign ho

theorem Ok.drop {life : Streams τ} (hM : Ring.PowerOfTwo M) (h : Ok M N zero s) (hj : s.handedOut j = true)
    (hs : s.life.step M (.drop t j) = some life) :
    Ok M N zero { s with life, handedOut := Function.update s.handedOut j false,
                         pairs := s.pairs.filter fun p => p.1 ≠ j ∧ p.2 ≠ j } := by
  have hlife := h.life.step hM hs
  obtain ⟨⟨-, hdrop⟩, hl⟩ := Option.ite_none_right_eq_some.mp hs
  cases hl
  have htask : ∀ i, i ≠ j → Function.update s.life.rt.task j none i = s.life.rt.task i := fun i hne =>
    Function.update_of_ne hne _ _
  have hhanded : ∀ i, Function.update s.handedOut j false i = true → i ≠ j ∧ s.handedOut i = true := by
    intro i hi
    have hne : i ≠ j := by
      rintro rfl
      rw [Function.update_self] at hi
      cases hi
    exact ⟨hne, by rwa [Function.update_of_ne hne] at hi⟩
  have hpolled : ∀ i k, Function.update s.life.rt.task j none i = some k → i ≠ j ∧ s.life.rt.task i = some k := by
    intro i k hk
    have hne : i ≠ j := by
      rintro rfl
      rw [Function.update_self] at hk
      cases hk
    exact ⟨hne, by rwa [htask i hne] at hk⟩
  refine ⟨h.topic, hlife, ⟨fun u id hid => ?_, h.held.apart, h.held.nodup, fun i hi => ?_, fun i k hk hph => ?_⟩,
    h.subscriber, h.tail, fun i hi => ?_, fun i k hi hk => ?_, fun a b hab => ?_⟩
  · obtain ⟨hsome, hfalse⟩ := h.held.opened u id hid
    have hne : id ≠ j := by
      rintro rfl
      cases hfalse.symm.trans hj
    show (Function.update s.life.rt.task j none id).isSome ∧ Function.update s.handedOut j false id = false
    rw [htask id hne, Function.update_of_ne hne]
    exact ⟨hsome, hfalse⟩
  · obtain ⟨hne, hi'⟩ := hhanded i hi
    show (Function.update s.life.rt.task j none i).isSome
    rw [htask i hne]
    exact h.held.handed i hi'
  · obtain ⟨hne, hk'⟩ := hpolled i k hk
    exact (Function.update_of_ne hne _ _).trans (h.held.polled i k hk' hph)
  · by_cases hne : i = j
    · -- a stream is not dropped in the middle of a `consume`
      subst hne
      obtain ⟨k, hk, hdroppable⟩ := (Option.any_eq_true _ _).mp hdrop
      refine ((h.fits i k hj hk).resting fun hph => ?_).2
      rw [Task.droppable, hph] at hdroppable
      cases hdroppable
    · change Function.update s.handedOut j false i = false at hi
      rw [Function.update_of_ne hne] at hi
      exact h.ending i hi
  · obtain ⟨hne, hk'⟩ := hpolled i k hk
    exact h.fits i k (hhanded i hi).2 hk'
  · obtain ⟨hab', hne⟩ := List.mem_filter.mp hab
    obtain ⟨hanej, hbnej⟩ := of_decide_eq_true hne
    obtain ⟨⟨ha, hb⟩, tail, hkinds⟩ := h.pair a b hab'
    exact ⟨⟨(Function.update_of_ne hanej _ _).trans ha, (Function.update_of_ne hbnej _ _).trans hb⟩, tail, hkinds⟩

theorem Ok.publish {topic : Sys τ α} {l : MMapMeta.Label τ α} (h : Ok M N zero s) (hs : s.topic.step N l = some topic) :
    Ok M N zero { s with topic } := by
  have hlog := MMapMeta.values_step hs
  refine ⟨h.topic.step hs, h.life, ⟨h.held.opened, h.held.apart, h.held.nodup, h.held.handed, h.held.polled⟩,
    fun j => ok_of_prefix (h.subscriber j) hlog, fun t tail ht => (h.tail t tail ht).trans hlog.length_le, h.ending,
    fun j k hj hk => (h.fits j k hj hk).mono (h.subscriber j) hlog, h.pair⟩

theorem Ok.setWaking {w : Option Waking} (h : Ok M N zero s) : Ok M N zero (s.setWaking t w) :=
  ⟨h.topic, h.life, ⟨h.held.opened, h.held.apart, h.held.nodup, h.held.handed, h.held.polled⟩, h.subscriber, h.tail,
    h.ending, h.fits, h.pair⟩

theorem Ok.run {spurious : Bool} (h : Ok M N zero s) (hs : s.run N t spurious = some s') : Ok M N zero s' := by
  rcases hw : s.waking t with _ | _ | ⟨i, count⟩ | ⟨streamId, i, count⟩ <;> simp only [LogStreams.run, hw] at hs
  · obtain ⟨topic, htopic, hs⟩ := Option.bind_eq_some_iff.mp hs
    split at hs <;> cases hs
    · exact (h.publish htopic).setWaking
    · exact h.publish htopic
  · cases hs
    exact h.setWaking
  · split at hs
    · obtain ⟨streamId, -, hs⟩ := Option.bind_eq_some_iff.mp hs
      split at hs <;> cases hs <;> exact h.setWaking
    · cases hs
      exact h.setWaking
  · cases hs
    exact (h.wake _).setWaking

theorem Ok.setOpening {o : Opening} (h : Ok M N zero s) (ho : o.ids = [])
    (htail : ∀ tail, o.tail = some tail → tail ≤ s.topic.values.length) : Ok M N zero (s.setOpening t o) := by
  have hids : ∀ u x, x ∈ (Function.update s.opening t o u).ids → x ∈ (s.opening u).ids := by
    intro u x hx
    by_cases hut : u = t
    · subst hut
      rw [Function.update_self, ho] at hx
      cases hx
    · rwa [Function.update_of_ne hut] at hx
  refine ⟨h.topic, h.life, ⟨fun u x hx => h.held.opened u x (hids u x hx), fun u v x hu hv =>
    h.held.apart u v x (hids u x hu) (hids v x hv), fun u => ?_, h.held.handed, h.held.polled⟩, h.subscriber,
    fun u tail hu => ?_, h.ending, h.fits, h.pair⟩
  · show (Function.update s.opening t o u).ids.Nodup
    by_cases hut : u = t
    · subst hut
      rw [Function.update_self, ho]
      exact List.nodup_nil
    · rw [Function.update_of_ne hut]
      exact h.held.nodup u
  · change (Function.update s.opening t o u).tail = some tail at hu
    by_cases hut : u = t
    · subst hut
      rw [Function.update_self] at hu
      exact htail tail hu
    · rw [Function.update_of_ne hut] at hu
      exact h.tail u tail hu

theorem Ok.step {l : Label τ α} (hM : Ring.PowerOfTwo M) (h : Ok M N zero s) (hs : s.step M N l = some s') :
    Ok M N zero s' := by
  cases l with
  | send t p =>
    obtain ⟨-, hs⟩ := Option.ite_none_right_eq_some.mp hs
    obtain ⟨topic, htopic, rfl⟩ := Option.map_eq_some_iff.mp hs
    exact h.publish htopic
  | run t spurious => exact h.run hs
  | createStreamForNewEvents t | createStreamForOldAndNewEvents t =>
    obtain ⟨-, hs⟩ := Option.ite_none_right_eq_some.mp hs
    cases hs
    exact h.setOpening rfl nofun
  | createStreamsForOldAndNewEvents t =>
    obtain ⟨-, hs⟩ := Option.ite_none_right_eq_some.mp hs
    cases hs
    refine h.setOpening rfl ?_
    rintro _ ⟨⟩
    exact Nat.le_of_eq h.topic.values_length.symm
  | drop t j =>
    obtain ⟨⟨-, hj⟩, hs⟩ := Option.ite_none_right_eq_some.mp hs
    obtain ⟨life, hl, rfl⟩ := Option.map_eq_some_iff.mp hs
    exact h.drop hM hj hl
  | manage t => exact h.manage hM hs
  | stop j =>
    cases hs
    exact h.stop j
  | wakeStream j =>
    cases hs
    exact h.wake j
  | poll j w =>
    obtain ⟨hj, hs⟩ := Option.ite_none_right_eq_some.mp hs
    obtain ⟨rt, hp, rfl⟩ := Option.map_eq_some_iff.mp hs
    exact h.poll hj hp
  | pollNext j spurious => exact h.pollNext hs

end Ok

/-! ### Runs -/

section Runs
variable {τ α : Type} [DecidableEq τ] {M N : Nat} {zero : α} {s : LogStreams τ α}

/-- What the streams have yielded. -/
structure Replays (s : LogStreams τ α) : Prop where
  yields : ∀ j, s.handedOut j = true → (s.subscribers j).yielded <+: (s.subscribers j).source s.topic.values
  /-- A stream for the old events never waits, and it ends when it has yielded them all, cancelled or not. -/
  old : ∀ j k fixedTail, s.handedOut j = true → s.life.rt.task j = some k → (s.subscribers j).kind = .fixed fixedTail →
    k.phase ≠ .pending ∧ (k.phase = .ended → (s.subscribers j).yielded = s.topic.values.take fixedTail)
  /-- Any other stream ends only if it was cancelled. -/
  new : ∀ j k, s.handedOut j = true → s.life.rt.task j = some k → (s.subscribers j).kind = .dynamic →
    k.phase = .ended → s.life.rt.streams.keepStreamsRunning j = false
  /-- What two streams created together have yielded is a part of the log without gaps, once the first one has ended. -/
  pair : ∀ o n k, (o, n) ∈ s.pairs → s.life.rt.task o = some k → k.phase = .ended →
    (s.subscribers o).yielded ++ (s.subscribers n).yielded <+: s.topic.values

omit [DecidableEq τ] in
theorem Ok.replays (h : Ok M N zero s) : s.Replays where
  yields j _ := (h.subscriber j).yields
  old j k fixedTail hj hk hkind := by
    have hfits := h.fits j k hj hk
    constructor <;> intro hph <;> rw [hph] at hfits
    · cases hkind.symm.trans hfits.2
    · exact hfits.2 fixedTail hkind
  new j k _ hk _ hph := h.life.rt.ended j k hk hph
  pair o n k hon hk hph := by
    obtain ⟨⟨ho, -⟩, tail, hold, hnew, hstart⟩ := h.pair o n hon
    have hfits := h.fits o k ho hk
    rw [hph] at hfits
    have hyields := (h.subscriber n).yields
    rw [Subscriber.source, hnew, hstart] at hyields
    rw [hfits.2 tail hold]
    obtain ⟨rest, hrest⟩ := hyields
    refine ⟨rest, ?_⟩
    rw [List.append_assoc, hrest]
    exact List.take_append_drop tail s.topic.values

theorem Ok.steps {ok : LogStreams τ α → Label τ α → LogStreams τ α → Prop} (hM : Ring.PowerOfTwo M)
    (h : Machine.Steps (LogStreams.step M N) ok (.new M zero) s) : Ok M N zero s :=
  h.invariant (fun _ _ _ hi hs _ => hi.step hM hs) (.new hM N zero)

/-- Whatever the senders, the threads that create and drop streams, and those that poll and cancel them, do in between. -/
theorem logStreams_replay (hM : Ring.PowerOfTwo M)
    (h : Machine.Steps (step M N) (fun _ _ _ => True) (.new M zero) s) : s.Replays := (Ok.steps hM h).replays

/-- Two streams are created after the first of two events; the one for the old events ends. -/
def replayAndFollow : List (Label Unit Nat) :=
  .send () (.movable 5) :: List.replicate 5 (.run () false) ++
    .createStreamsForOldAndNewEvents () :: List.replicate 11 (.manage ()) ++
    .send () (.setter (· + 7)) :: List.replicate 9 (.run () false) ++
    .poll 0 1 :: List.replicate 2 (.pollNext 0 false) ++ .poll 0 1 :: List.replicate 5 (.pollNext 0 false) ++
    .poll 1 2 :: List.replicate 3 (.pollNext 1 false)

theorem logStreams_replay_replayAndFollow : ∃ s : LogStreams Unit Nat, s.topic.values = [5, 7] ∧ s.pairs = [(0, 1)] ∧
    (s.life.rt.task 0).map Task.phase = some .ended ∧ (s.subscribers 0).yielded = [5] ∧
    (s.subscribers 1).yielded = [7] ∧ s.Replays := by
  have hrun : (Machine.exec (step 4 4) (.new 4 0 : LogStreams Unit Nat) replayAndFollow).map
      (fun s => decide (s.topic.values = [5, 7] ∧ s.pairs = [(0, 1)] ∧
        (s.life.rt.task 0).map Task.phase = some .ended ∧ (s.subscribers 0).yielded = [5] ∧
        (s.subscribers 1).yielded = [7])) = some true := by decide +kernel
  obtain ⟨s, hs, ht⟩ := Option.map_eq_some_iff.mp hrun
  rw [decide_eq_true_iff] at ht
  obtain ⟨hvalues, hpairs, hended, hold, hnew⟩ := ht
  exact ⟨s, hvalues, hpairs, hended, hold, hnew, logStreams_replay ⟨2, rfl⟩ (Machine.Path.of_exec hs).steps⟩

end Runs
end LogStreams
end Mutiny
