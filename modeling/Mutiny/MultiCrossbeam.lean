import Mathlib.Logic.Function.Basic
import Mutiny.Lib.Machine
import Mutiny.SyncedStreams

/-!
# The `Crossbeam` Multi channel

`multi/channels/arc/crossbeam.rs`, for a fixed set of streams: every `sender.len()`, `try_send` and `try_recv` is one
step. The channels are those of `crossbeam_channel`, of which we rely on being bounded FIFOs with an exact length.
They are never disconnected, their two ends being in the same structure. Waking a stream and sleeping change nothing
here.

`send_derived` takes a channel of at most two events for one with room: it sends without looking at what comes of it.
With one sender and room for three events that is right (`complete_of_subsingleton`).
-/

namespace Mutiny

/-- `crossbeam_channel::bounded(capacity)`, the two ends of it being one value. -/
class CrossbeamChannel (Q : Type → Type) where
  bounded {β : Type} (capacity : Nat) : Q β
  len {β : Type} (q : Q β) : Nat
  /-- `try_send(msg)`, and whether it is `Ok` -/
  trySend {β : Type} (q : Q β) (msg : β) : Q β × Bool
  /-- `try_recv()`, which is `Err(TryRecvError::Empty)` if there is no message -/
  tryRecv {β : Type} (q : Q β) : Q β × Option β

open CrossbeamChannel

class LawfulCrossbeamChannel (Q : Type → Type) extends CrossbeamChannel Q where
  items {β : Type} (q : Q β) : List β
  capacity {β : Type} (q : Q β) : Nat
  items_bounded {β : Type} (n : Nat) : items (bounded n : Q β) = []
  capacity_bounded {β : Type} (n : Nat) : capacity (bounded n : Q β) = n
  len_eq {β : Type} (q : Q β) : len q = (items q).length
  trySend_ok {β : Type} {q : Q β} (x : β) : (items q).length < capacity q →
    items (trySend q x).1 = items q ++ [x] ∧ (trySend q x).2 = true
  trySend_err {β : Type} {q : Q β} (x : β) : ¬ (items q).length < capacity q →
    items (trySend q x).1 = items q ∧ (trySend q x).2 = false
  tryRecv_cons {β : Type} {q : Q β} {x : β} {xs : List β} : items q = x :: xs →
    items (tryRecv q).1 = xs ∧ (tryRecv q).2 = some x
  tryRecv_nil {β : Type} {q : Q β} : items q = [] → items (tryRecv q).1 = [] ∧ (tryRecv q).2 = none
  capacity_trySend {β : Type} (q : Q β) (x : β) : capacity (trySend q x).1 = capacity q
  capacity_tryRecv {β : Type} (q : Q β) : capacity (tryRecv q).1 = capacity q

/-- The entries of `used_streams` before the first `u32::MAX`. -/
structure LiveStreams where
  ids : List UInt32
  nodup : ids.Nodup

def LiveStreams.ofSynced {M : Nat} {sm : StreamsManagerBase} (hM : Ring.PowerOfTwo M) (h : sm.Synced M) : LiveStreams :=
  ⟨sm.usedIds, by rw [h.usedIds_eq hM]; exact StreamsManagerBase.nodup_inUse⟩

namespace MultiCrossbeam

/-- An event: the item of the `k`-th call of sender `t`, where `ticket` is `(t, k)`. Nothing in the code reads the
ticket. -/
structure Event (τ α : Type) where
  ticket : τ × Nat
  item : α

/-- Where a sender stands in `send_derived`. -/
inductive Op (τ α : Type)
  | idle
  -- about to call `sender.len()` for the first of the streams still to visit
  | visit (event : Event τ α) (streams : List UInt32)
  -- `len_before <= 2`: about to `try_send`, whatever comes of it
  | forget (event : Event τ α) (streamId : UInt32) (streams : List UInt32)
  -- about to `try_send` until it succeeds
  | insist (event : Event τ α) (streamId : UInt32) (streams : List UInt32)
  -- returned `true`, and `send` and `send_with` returned `Ok`
  | sent

/-- The event in the hands of the sender, and the streams it is still to be sent to. -/
def Op.sending {τ α : Type} : Op τ α → Option (Event τ α × List UInt32)
  | visit event streams => some (event, streams)
  | forget event streamId streams | insist event streamId streams => some (event, streamId :: streams)
  | idle | sent => none

end MultiCrossbeam

open MultiCrossbeam in
/-- The channels, the senders and what the streams have consumed; `calls` counts the calls of each sender, and `sent`
are the events whose calls have returned. -/
structure MultiCrossbeam (Q : Type → Type) (τ α : Type) where
  channels : UInt32 → Q (Event τ α)
  op : τ → Op τ α
  consumed : UInt32 → List (Event τ α)
  calls : τ → Nat
  sent : List (Event τ α)

namespace MultiCrossbeam
open Machine (Reached Occurs)

inductive Label (τ α : Type)
  -- `send(item)`, `send_with(setter)` with what the setter makes of the item, or `send_derived(&arc_item)`
  | send (t : τ) (item : α)
  -- the next step of sender `t`
  | run (t : τ)
  -- `consume(stream_id)`
  | consume (streamId : UInt32)

section Step
variable {Q : Type → Type} [CrossbeamChannel Q] {τ α : Type}

def new (B : Nat) : MultiCrossbeam Q τ α := ⟨fun _ => bounded B, fun _ => .idle, fun _ => [], fun _ => 0, []⟩

def setChannel (s : MultiCrossbeam Q τ α) (streamId : UInt32) (q : Q (Event τ α)) : MultiCrossbeam Q τ α :=
  { s with channels := Function.update s.channels streamId q }

def consume (s : MultiCrossbeam Q τ α) (streamId : UInt32) : MultiCrossbeam Q τ α :=
  match tryRecv (s.channels streamId) with
  | (q, some event) =>
    { s.setChannel streamId q with
      consumed := Function.update s.consumed streamId (s.consumed streamId ++ [event]) }
  | (q, none) => s.setChannel streamId q

variable [DecidableEq τ]

def setOp (s : MultiCrossbeam Q τ α) (t : τ) (o : Op τ α) : MultiCrossbeam Q τ α :=
  { s with op := Function.update s.op t o }

def run (s : MultiCrossbeam Q τ α) (t : τ) : Option (MultiCrossbeam Q τ α) :=
  match s.op t with
  | .idle | .sent => none
  | .visit event [] => some ({ s with sent := event :: s.sent }.setOp t .sent)
  | .visit event (streamId :: streams) =>
    some (s.setOp t (if len (s.channels streamId) ≤ 2 then .forget event streamId streams
      else .insist event streamId streams))
  | .forget event streamId streams =>
    some ((s.setChannel streamId (trySend (s.channels streamId) event).1).setOp t (.visit event streams))
  | .insist event streamId streams =>
    let (q, ok) := trySend (s.channels streamId) event
    some ((s.setChannel streamId q).setOp t (if ok then .visit event streams else .insist event streamId streams))

def step (live : LiveStreams) (s : MultiCrossbeam Q τ α) : Label τ α → Option (MultiCrossbeam Q τ α)
  | .send t item =>
    match (s.op t).sending with
    | none =>
      some ({ s with calls := Function.update s.calls t (s.calls t + 1) }.setOp t
        (.visit ⟨(t, s.calls t), item⟩ live.ids))
    | some _ => none
  | .run t => s.run t
  | .consume streamId => if streamId ∈ live.ids then some (s.consume streamId) else none

end Step

section Lane
variable {Q : Type → Type} [LawfulCrossbeamChannel Q] {τ α : Type}
open LawfulCrossbeamChannel

/-- The events that were put into the channel of a stream. -/
def lane (s : MultiCrossbeam Q τ α) (streamId : UInt32) : List (Event τ α) :=
  s.consumed streamId ++ items (s.channels streamId)

/-- Those of them that belong to the call of `event`. -/
def copies [DecidableEq τ] (s : MultiCrossbeam Q τ α) (streamId : UInt32) (event : Event τ α) : List (Event τ α) :=
  (s.lane streamId).filter (·.ticket = event.ticket)

/-- Every event whose call has returned was enqueued once for every stream; what a stream has not consumed yet is in
its channel. -/
def Complete [DecidableEq τ] (live : LiveStreams) (s : MultiCrossbeam Q τ α) : Prop :=
  ∀ event ∈ s.sent, ∀ streamId ∈ live.ids, s.copies streamId event = [event]

/-- A sender that will not look at what comes of its `try_send` finds a free slot. -/
def HasRoom (B : Nat) (s : MultiCrossbeam Q τ α) : Label τ α → Prop
  | .run t => ∀ event streamId streams, s.op t = .forget event streamId streams → len (s.channels streamId) < B
  | _ => True

end Lane

/-! ### What a step does -/

section Moves
variable {Q : Type → Type} [LawfulCrossbeamChannel Q] {τ α : Type} [DecidableEq τ] {B : Nat} {live : LiveStreams}
  {s s' : MultiCrossbeam Q τ α} {l : Label τ α} {t : τ}
open LawfulCrossbeamChannel

/-- The event and the streams in the hands of sender `t`. -/
def sending (s : MultiCrossbeam Q τ α) (t : τ) : Option (Event τ α × List UInt32) := (s.op t).sending

def OfCapacity (B : Nat) (s : MultiCrossbeam Q τ α) : Prop := ∀ streamId, capacity (s.channels streamId) = B

inductive Moves (B : Nat) (live : LiveStreams) (s s' : MultiCrossbeam Q τ α) (l : Label τ α) : Prop
  | start {t : τ} {event : Event τ α} (before : s.sending t = none) (ticket : event.ticket = (t, s.calls t))
    (calls : s'.calls = Function.update s.calls t (s.calls t + 1))
    (sending : s'.sending = Function.update s.sending t (some (event, live.ids))) (lane : s'.lane = s.lane)
    (sent : s'.sent = s.sent)
  | still (calls : s'.calls = s.calls) (sending : s'.sending = s.sending) (lane : s'.lane = s.lane)
    (sent : s'.sent = s.sent)
  | push {t : τ} {event : Event τ α} {streamId : UInt32} {streams : List UInt32}
    (before : s.sending t = some (event, streamId :: streams)) (calls : s'.calls = s.calls)
    (sending : s'.sending = Function.update s.sending t (some (event, streams)))
    (lane : s'.lane = Function.update s.lane streamId (s.lane streamId ++ [event])) (sent : s'.sent = s.sent)
  -- `try_send` fails, and nobody notices
  | skip {t : τ} {event : Event τ α} {streamId : UInt32} {streams : List UInt32}
    (before : s.sending t = some (event, streamId :: streams)) (room : ¬ s.HasRoom B l) (calls : s'.calls = s.calls)
    (sending : s'.sending = Function.update s.sending t (some (event, streams))) (lane : s'.lane = s.lane)
    (sent : s'.sent = s.sent)
  | finish {t : τ} {event : Event τ α} (before : s.sending t = some (event, [])) (calls : s'.calls = s.calls)
    (sending : s'.sending = Function.update s.sending t none) (lane : s'.lane = s.lane)
    (sent : s'.sent = event :: s.sent)

omit [LawfulCrossbeamChannel Q] in
theorem sending_setOp (s : MultiCrossbeam Q τ α) (t : τ) (o : Op τ α) :
    (s.setOp t o).sending = Function.update s.sending t o.sending := by
  funext u
  by_cases hu : u = t
  · subst hu
    simp [sending, setOp]
  · simp [sending, setOp, hu]

omit [LawfulCrossbeamChannel Q] in
theorem sending_setOp_same {o : Op τ α} (h : o.sending = s.sending t) : (s.setOp t o).sending = s.sending := by
  rw [sending_setOp, h, Function.update_eq_self]

omit [DecidableEq τ] in
theorem lane_setChannel (s : MultiCrossbeam Q τ α) (streamId : UInt32) (q : Q (Event τ α)) :
    (s.setChannel streamId q).lane = Function.update s.lane streamId (s.consumed streamId ++ items q) := by
  funext id
  by_cases hid : id = streamId
  · subst hid
    simp [lane, setChannel]
  · simp [lane, setChannel, hid]

omit [DecidableEq τ] in
theorem channels_consume (s : MultiCrossbeam Q τ α) (streamId : UInt32) :
    (s.consume streamId).channels = Function.update s.channels streamId (tryRecv (s.channels streamId)).1 := by
  unfold consume
  rcases hr : tryRecv (s.channels streamId) with ⟨q, _ | event⟩ <;> rfl

omit [DecidableEq τ] in
theorem lane_consume (s : MultiCrossbeam Q τ α) (streamId : UInt32) : (s.consume streamId).lane = s.lane := by
  unfold consume
  rcases hr : tryRecv (s.channels streamId) with ⟨q, event⟩
  cases hq : items (s.channels streamId) with
  | nil =>
    obtain ⟨h₁, h₂⟩ := tryRecv_nil hq
    rw [hr] at h₁ h₂
    cases h₂
    dsimp only at h₁ ⊢
    rw [lane_setChannel, h₁, ← hq]
    exact Function.update_eq_self ..
  | cons x xs =>
    obtain ⟨h₁, h₂⟩ := tryRecv_cons hq
    rw [hr] at h₁ h₂
    cases h₂
    funext id
    by_cases hid : id = streamId
    · subst hid
      simp [lane, setChannel, hq, ← h₁]
    · simp [lane, setChannel, hid]

omit [DecidableEq τ] in
theorem lane_trySend (hc : s.OfCapacity B) (streamId : UInt32) (event : Event τ α) :
    (len (s.channels streamId) < B ∧ (trySend (s.channels streamId) event).2 = true ∧
      (s.setChannel streamId (trySend (s.channels streamId) event).1).lane =
        Function.update s.lane streamId (s.lane streamId ++ [event])) ∨
    (¬ len (s.channels streamId) < B ∧ (trySend (s.channels streamId) event).2 = false ∧
      (s.setChannel streamId (trySend (s.channels streamId) event).1).lane = s.lane) := by
  rw [lane_setChannel, len_eq, ← hc streamId]
  by_cases hlt : (items (s.channels streamId)).length < capacity (s.channels streamId)
  · obtain ⟨h₁, h₂⟩ := trySend_ok event hlt
    exact .inl ⟨hlt, h₂, by rw [h₁, ← List.append_assoc]; rfl⟩
  · obtain ⟨h₁, h₂⟩ := trySend_err event hlt
    exact .inr ⟨hlt, h₂, by rw [h₁]; exact Function.update_eq_self ..⟩

omit [LawfulCrossbeamChannel Q] in
theorem sending_after_setChannel (s : MultiCrossbeam Q τ α) (streamId : UInt32) (q : Q (Event τ α)) (t : τ) (o : Op τ α) :
    ((s.setChannel streamId q).setOp t o).sending = Function.update s.sending t o.sending :=
  sending_setOp ..

theorem Moves.of_run (hc : s.OfCapacity B) (hs : s.run t = some s') : Moves B live s s' (.run t) := by
  unfold MultiCrossbeam.run at hs
  cases ho : s.op t with
  | idle | sent => simp [ho] at hs
  | visit event streams =>
    have hbefore : s.sending t = some (event, streams) := by rw [sending, ho]; rfl
    cases streams with
    | nil =>
      simp only [ho, Option.some.injEq] at hs
      subst hs
      exact .finish hbefore rfl (sending_setOp ..) rfl rfl
    | cons streamId streams =>
      simp only [ho, Option.some.injEq] at hs
      subst hs
      refine .still rfl (sending_setOp_same ?_) rfl rfl
      show _ = s.sending t
      rw [hbefore]
      split <;> rfl
  | forget event streamId streams =>
    have hbefore : s.sending t = some (event, streamId :: streams) := by rw [sending, ho]; rfl
    simp only [ho, Option.some.injEq] at hs
    subst hs
    rcases lane_trySend hc streamId event with ⟨-, -, hlane⟩ | ⟨hfull, -, hlane⟩
    · exact .push hbefore rfl (sending_after_setChannel ..) hlane rfl
    · exact .skip hbefore (fun hroom => hfull (hroom event streamId streams ho)) rfl (sending_after_setChannel ..) hlane rfl
  | insist event streamId streams =>
    have hbefore : s.sending t = some (event, streamId :: streams) := by rw [sending, ho]; rfl
    simp only [ho, Option.some.injEq] at hs
    subst hs
    rcases lane_trySend hc streamId event with ⟨-, hok, hlane⟩ | ⟨-, hok, hlane⟩
    · rw [hok]
      exact .push hbefore rfl (sending_after_setChannel ..) hlane rfl
    · rw [hok]
      exact .still rfl (sending_setOp_same hbefore.symm) hlane rfl

theorem Moves.of_step (hc : s.OfCapacity B) (hs : s.step live l = some s') : Moves B live s s' l := by
  cases l with
  | send t item =>
    cases hnone : (s.op t).sending with
    | none =>
      simp only [MultiCrossbeam.step, hnone, Option.some.injEq] at hs
      subst hs
      exact .start hnone rfl rfl (sending_setOp ..) rfl rfl
    | some _ => simp [MultiCrossbeam.step, hnone] at hs
  | run t => exact .of_run hc hs
  | consume streamId =>
    simp only [MultiCrossbeam.step, Option.ite_none_right_eq_some, Option.some.injEq] at hs
    obtain ⟨-, rfl⟩ := hs
    refine .still ?_ ?_ (lane_consume ..) ?_ <;> unfold consume <;> split <;> rfl

omit [DecidableEq τ] in
theorem OfCapacity.setChannel (hc : s.OfCapacity B) {streamId : UInt32} {q : Q (Event τ α)} (hq : capacity q = B) :
    (s.setChannel streamId q).OfCapacity B := by
  intro id
  by_cases hid : id = streamId
  · subst hid
    simpa [MultiCrossbeam.setChannel] using hq
  · simpa [MultiCrossbeam.setChannel, hid] using hc id

theorem OfCapacity.step (hc : s.OfCapacity B) (hs : s.step live l = some s') : s'.OfCapacity B := by
  cases l with
  | send t item =>
    simp only [MultiCrossbeam.step] at hs
    split at hs
    · cases hs
      exact hc
    · cases hs
  | run t =>
    change s.run t = some s' at hs
    cases ho : s.op t with
    | idle | sent => simp [MultiCrossbeam.run, ho] at hs
    | visit event streams =>
      cases streams <;>
      · simp only [MultiCrossbeam.run, ho, Option.some.injEq] at hs
        exact hs ▸ hc
    | forget event streamId streams | insist event streamId streams =>
      simp only [MultiCrossbeam.run, ho, Option.some.injEq] at hs
      exact hs ▸ hc.setChannel ((capacity_trySend ..).trans (hc _))
  | consume streamId =>
    simp only [MultiCrossbeam.step, Option.ite_none_right_eq_some, Option.some.injEq] at hs
    obtain ⟨-, rfl⟩ := hs
    intro id
    rw [channels_consume]
    exact hc.setChannel ((capacity_tryRecv (s.channels streamId)).trans (hc streamId)) id

end Moves

/-! ### The calls and their events -/

section Calls
variable {Q : Type → Type} [LawfulCrossbeamChannel Q] {τ α : Type} [DecidableEq τ] {B : Nat} {live : LiveStreams}
  {s s' : MultiCrossbeam Q τ α} {l : Label τ α} {t : τ} {event : Event τ α} {streams : List UInt32}

theorem copies_congr (h : s'.lane = s.lane) (streamId : UInt32) (event : Event τ α) :
    s'.copies streamId event = s.copies streamId event := by
  rw [copies, copies, h]

theorem copies_push {streamId : UInt32} (h : s'.lane = Function.update s.lane streamId (s.lane streamId ++ [event]))
    (id : UInt32) (event' : Event τ α) : s'.copies id event' =
      s.copies id event' ++ if id = streamId ∧ event.ticket = event'.ticket then [event] else [] := by
  rw [copies, copies, h]
  by_cases hid : id = streamId
  · subst hid
    by_cases ht : event.ticket = event'.ticket <;> simp [List.filter_append, ht]
  · simp [hid]

/-- The events in the channels are those of calls that have begun; one that is being sent is not yet in the channels of
the streams to come. -/
structure Ok (live : LiveStreams) (s : MultiCrossbeam Q τ α) : Prop where
  started : ∀ streamId, ∀ event ∈ s.lane streamId, event.ticket.2 < s.calls event.ticket.1
  ticket : ∀ t event streams, s.sending t = some (event, streams) → event.ticket.1 = t ∧ event.ticket.2 + 1 = s.calls t
  suffix : ∀ t event streams, s.sending t = some (event, streams) → streams <:+ live.ids
  ahead : ∀ t event streams, s.sending t = some (event, streams) → ∀ streamId ∈ streams, s.copies streamId event = []
  sent : ∀ event ∈ s.sent, event.ticket.2 < s.calls event.ticket.1 ∧
    ∀ t event' streams, s.sending t = some (event', streams) → event'.ticket ≠ event.ticket
  accounted : ∀ t k, k < s.calls t → (∃ event ∈ s.sent, event.ticket = (t, k)) ∨
    ∃ event streams, s.sending t = some (event, streams) ∧ event.ticket = (t, k)

theorem Ok.new : Ok live (new B : MultiCrossbeam Q τ α) where
  started streamId event h := by simp [lane, MultiCrossbeam.new, LawfulCrossbeamChannel.items_bounded] at h
  ticket t event streams h := by simp [sending, MultiCrossbeam.new, Op.sending] at h
  suffix t event streams h := by simp [sending, MultiCrossbeam.new, Op.sending] at h
  ahead t event streams h := by simp [sending, MultiCrossbeam.new, Op.sending] at h
  sent event h := by simp [MultiCrossbeam.new] at h
  accounted t k h := absurd h (Nat.not_lt_zero k)

omit [LawfulCrossbeamChannel Q] in
theorem sending_update {o : Option (Event τ α × List UInt32)} (h : s'.sending = Function.update s.sending t o) (u : τ) :
    (u = t ∧ s'.sending u = o) ∨ (u ≠ t ∧ s'.sending u = s.sending u) := by
  rw [h]
  by_cases hu : u = t
  · subst hu
    exact .inl ⟨rfl, Function.update_self ..⟩
  · exact .inr ⟨hu, Function.update_of_ne hu ..⟩

omit [LawfulCrossbeamChannel Q] in
theorem sending_cases {o : Option (Event τ α × List UInt32)} {u : τ} {x : Event τ α × List UInt32}
    (h : s'.sending = Function.update s.sending t o) (hu : s'.sending u = some x) :
    (u = t ∧ o = some x) ∨ (u ≠ t ∧ s.sending u = some x) :=
  (sending_update h u).imp (fun hu' => ⟨hu'.1, hu'.2.symm.trans hu⟩) fun hu' => ⟨hu'.1, hu'.2.symm.trans hu⟩

theorem Ok.ticket_ne {u : τ} {event' : Event τ α} {streams streams' : List UInt32} (h : Ok live s)
    (ht : s.sending t = some (event, streams)) (hu : s.sending u = some (event', streams')) (hne : u ≠ t) :
    event.ticket ≠ event'.ticket := by
  intro heq
  have hsender := (h.ticket t event _ ht).1
  rw [heq, (h.ticket u event' _ hu).1] at hsender
  exact hne hsender

theorem Ok.copies_fresh (h : Ok live s) (hticket : event.ticket = (t, s.calls t)) (streamId : UInt32) :
    s.copies streamId event = [] := by
  unfold copies
  rw [List.filter_eq_nil_iff]
  intro e he hte
  have hlt := h.started streamId e he
  simp only [decide_eq_true_eq] at hte
  rw [hte, hticket] at hlt
  exact Nat.lt_irrefl _ hlt

theorem Ok.start (h : Ok live s) (hbefore : s.sending t = none) (hticket : event.ticket = (t, s.calls t))
    (hcalls : s'.calls = Function.update s.calls t (s.calls t + 1))
    (hsending : s'.sending = Function.update s.sending t (some (event, live.ids))) (hlane : s'.lane = s.lane)
    (hsent : s'.sent = s.sent) : Ok live s' := by
  have hle : ∀ u, s.calls u ≤ s'.calls u := by
    intro u
    rw [hcalls]
    by_cases hu : u = t
    · subst hu
      simp
    · simp [hu]
  refine ⟨?_, ?_, ?_, ?_, ?_, ?_⟩
  · intro id e he
    rw [hlane] at he
    exact Nat.lt_of_lt_of_le (h.started id e he) (hle _)
  · intro u e streams hu
    rcases sending_cases hsending hu with ⟨rfl, ho⟩ | ⟨hne, hu⟩
    · cases ho
      rw [hticket, hcalls, Function.update_self]
      exact ⟨rfl, rfl⟩
    · rw [hcalls, Function.update_of_ne hne]
      exact h.ticket u e streams hu
  · intro u e streams hu
    rcases sending_cases hsending hu with ⟨rfl, ho⟩ | ⟨-, hu⟩
    · cases ho
      exact List.suffix_rfl
    · exact h.suffix u e streams hu
  · intro u e streams hu id hid
    rw [copies_congr hlane]
    rcases sending_cases hsending hu with ⟨rfl, ho⟩ | ⟨-, hu⟩
    · cases ho
      exact h.copies_fresh hticket id
    · exact h.ahead u e streams hu id hid
  · intro e he
    rw [hsent] at he
    obtain ⟨hlt, hnot⟩ := h.sent e he
    refine ⟨Nat.lt_of_lt_of_le hlt (hle _), fun u e' streams hu => ?_⟩
    rcases sending_cases hsending hu with ⟨rfl, ho⟩ | ⟨-, hu⟩
    · cases ho
      rw [hticket]
      rintro heq
      rw [← heq] at hlt
      exact Nat.lt_irrefl _ hlt
    · exact hnot u e' streams hu
  · intro u k hk
    rw [hsent]
    rcases sending_update hsending u with ⟨rfl, hu'⟩ | ⟨hne, hu'⟩
    · rw [hcalls, Function.update_self] at hk
      by_cases hlast : k = s.calls u
      · exact .inr ⟨event, live.ids, hu', by rw [hticket, hlast]⟩
      · refine .inl ((h.accounted u k (by omega)).resolve_right ?_)
        rintro ⟨e, streams, hs, -⟩
        rw [hbefore] at hs
        cases hs
    · rw [hcalls, Function.update_of_ne hne] at hk
      rw [hu']
      exact h.accounted u k hk

/-- A sender is through with a stream; the channels have changed, if at all, by its event in that stream's. -/
theorem Ok.advance {streamId : UInt32} (h : Ok live s) (hbefore : s.sending t = some (event, streamId :: streams))
    (hcalls : s'.calls = s.calls) (hsending : s'.sending = Function.update s.sending t (some (event, streams)))
    (hstarted : ∀ id, ∀ e ∈ s'.lane id, e ∈ s.lane id ∨ e = event)
    (hcopies : ∀ id e, id ≠ streamId ∨ event.ticket ≠ e.ticket → s'.copies id e = s.copies id e)
    (hsent : s'.sent = s.sent) : Ok live s' := by
  obtain ⟨hsender, hcall⟩ := h.ticket t event _ hbefore
  have hnodup : (streamId :: streams).Nodup := live.nodup.sublist (h.suffix t event _ hbefore).sublist
  refine ⟨?_, ?_, ?_, ?_, ?_, ?_⟩
  · intro id e he
    rw [hcalls]
    rcases hstarted id e he with he | rfl
    · exact h.started id e he
    · rw [hsender]
      omega
  · intro u e rest hu
    rw [hcalls]
    rcases sending_cases hsending hu with ⟨rfl, ho⟩ | ⟨-, hu⟩
    · cases ho
      exact ⟨hsender, hcall⟩
    · exact h.ticket u e rest hu
  · intro u e rest hu
    rcases sending_cases hsending hu with ⟨rfl, ho⟩ | ⟨-, hu⟩
    · cases ho
      exact (List.suffix_cons ..).trans (h.suffix u event _ hbefore)
    · exact h.suffix u e rest hu
  · intro u e rest hu id hid
    rcases sending_cases hsending hu with ⟨rfl, ho⟩ | ⟨hne, hu⟩
    · cases ho
      have hid' : id ≠ streamId := by
        rintro rfl
        exact (List.nodup_cons.mp hnodup).1 hid
      rw [hcopies id event (.inl hid')]
      exact h.ahead u event _ hbefore id (List.mem_cons_of_mem _ hid)
    · rw [hcopies id e (.inr (h.ticket_ne hbefore hu hne))]
      exact h.ahead u e rest hu id hid
  · intro e he
    rw [hsent] at he
    obtain ⟨hlt, hnot⟩ := h.sent e he
    refine ⟨hcalls ▸ hlt, fun u e' rest hu => ?_⟩
    rcases sending_cases hsending hu with ⟨rfl, ho⟩ | ⟨-, hu⟩
    · cases ho
      exact hnot u event _ hbefore
    · exact hnot u e' rest hu
  · intro u k hk
    rw [hcalls] at hk
    rw [hsent]
    rcases sending_update hsending u with ⟨rfl, hu'⟩ | ⟨hne, hu'⟩
    · refine (h.accounted u k hk).imp id ?_
      rintro ⟨e, rest, hu, hte⟩
      cases hbefore.symm.trans hu
      exact ⟨event, streams, hu', hte⟩
    · rw [hu']
      exact h.accounted u k hk

theorem Ok.finish (h : Ok live s) (hbefore : s.sending t = some (event, [])) (hcalls : s'.calls = s.calls)
    (hsending : s'.sending = Function.update s.sending t none) (hlane : s'.lane = s.lane)
    (hsent : s'.sent = event :: s.sent) : Ok live s' := by
  obtain ⟨hsender, hcall⟩ := h.ticket t event _ hbefore
  have hother : ∀ u e rest, s'.sending u = some (e, rest) → u ≠ t ∧ s.sending u = some (e, rest) := by
    intro u e rest hu
    rcases sending_cases hsending hu with ⟨-, ho⟩ | hu
    · cases ho
    · exact hu
  refine ⟨?_, ?_, ?_, ?_, ?_, ?_⟩
  · rw [hlane, hcalls]
    exact h.started
  · intro u e rest hu
    rw [hcalls]
    exact h.ticket u e rest (hother u e rest hu).2
  · exact fun u e rest hu => h.suffix u e rest (hother u e rest hu).2
  · intro u e rest hu id hid
    rw [copies_congr hlane]
    exact h.ahead u e rest (hother u e rest hu).2 id hid
  · intro e he
    rw [hcalls]
    rw [hsent] at he
    rcases List.mem_cons.mp he with rfl | he
    · refine ⟨by rw [hsender]; omega, fun u e' rest hu => ?_⟩
      obtain ⟨hne, hu⟩ := hother u e' rest hu
      exact (h.ticket_ne hbefore hu hne).symm
    · exact ⟨(h.sent e he).1, fun u e' rest hu => (h.sent e he).2 u e' rest (hother u e' rest hu).2⟩
  · intro u k hk
    rw [hcalls] at hk
    rw [hsent]
    rcases h.accounted u k hk with ⟨e, he, hte⟩ | ⟨e, rest, hu, hte⟩
    · exact .inl ⟨e, List.mem_cons_of_mem _ he, hte⟩
    · rcases sending_update hsending u with ⟨rfl, -⟩ | ⟨hne, hu'⟩
      · cases hbefore.symm.trans hu
        exact .inl ⟨event, List.mem_cons_self, hte⟩
      · exact .inr ⟨e, rest, hu'.trans hu, hte⟩

theorem Ok.step (h : Ok live s) (hm : Moves B live s s' l) : Ok live s' := by
  cases hm with
  | start before ticket calls sending lane sent => exact h.start before ticket calls sending lane sent
  | still calls sending lane sent =>
    have hcopies : s'.copies = s.copies := funext fun id => funext fun e => copies_congr lane id e
    refine ⟨?_, ?_, ?_, ?_, ?_, ?_⟩
    · rw [lane, calls]; exact h.started
    · rw [sending, calls]; exact h.ticket
    · rw [sending]; exact h.suffix
    · rw [sending, hcopies]; exact h.ahead
    · rw [sent, sending, calls]; exact h.sent
    · rw [sent, sending, calls]; exact h.accounted
  | @push t event streamId streams before calls sending lane sent =>
    refine h.advance before calls sending (fun id e he => ?_) (fun id e hne => ?_) sent
    · rw [lane] at he
      by_cases hid : id = streamId
      · subst hid
        simpa using he
      · rw [Function.update_of_ne hid] at he
        exact .inl he
    · rw [copies_push lane, if_neg, List.append_nil]
      rintro ⟨rfl, ht⟩
      exact hne.elim (fun hne => hne rfl) fun hne => hne ht
  | skip before room calls sending lane sent =>
    refine h.advance before calls sending (fun id e he => .inl (by rwa [lane] at he))
      (fun id e _ => copies_congr lane id e) sent
  | finish before calls sending lane sent => exact h.finish before calls sending lane sent

/-- Nothing was skipped: an event is in the channels of all streams but those to come. -/
structure Unskipped (live : LiveStreams) (s : MultiCrossbeam Q τ α) : Prop where
  complete : s.Complete live
  behind : ∀ t event streams, s.sending t = some (event, streams) →
    ∀ streamId ∈ live.ids, streamId ∈ streams ∨ s.copies streamId event = [event]

theorem Unskipped.step (hu : Unskipped live s) (h : Ok live s) (hm : Moves B live s s' l) (hroom : s.HasRoom B l) :
    Unskipped live s' := by
  cases hm with
  | @start t event before ticket calls sending lane sent =>
    refine ⟨fun e he id hid => ?_, fun u e rest hs id hid => ?_⟩
    · rw [copies_congr lane]
      exact hu.complete e (sent ▸ he) id hid
    · rw [copies_congr lane]
      rcases sending_cases sending hs with ⟨-, ho⟩ | ⟨-, hs⟩
      · cases ho
        exact .inl hid
      · exact hu.behind u e rest hs id hid
  | still calls sending lane sent =>
    refine ⟨fun e he id hid => ?_, fun u e rest hs id hid => ?_⟩
    · rw [copies_congr lane]
      exact hu.complete e (sent ▸ he) id hid
    · rw [copies_congr lane]
      exact hu.behind u e rest (sending ▸ hs) id hid
  | @push t event streamId streams before calls sending lane sent =>
    have hother : ∀ e, event.ticket ≠ e.ticket → ∀ id, s'.copies id e = s.copies id e := by
      intro e hne id
      rw [copies_push lane, if_neg fun hc => hne hc.2, List.append_nil]
    refine ⟨fun e he id hid => ?_, fun u e rest hs id hid => ?_⟩
    · rw [sent] at he
      rw [hother e ((h.sent e he).2 t event _ before)]
      exact hu.complete e he id hid
    · rcases sending_cases sending hs with ⟨rfl, ho⟩ | ⟨hne, hs⟩
      · cases ho
        rw [copies_push lane]
        by_cases hids : id = streamId
        · subst hids
          rw [if_pos ⟨rfl, rfl⟩, h.ahead u event _ before id List.mem_cons_self]
          exact .inr rfl
        · rw [if_neg fun hc => hids hc.1, List.append_nil]
          exact (hu.behind u event _ before id hid).imp (fun hmem => (List.mem_cons.mp hmem).resolve_left hids)
            fun hc => hc
      · rw [hother e (h.ticket_ne before hs hne)]
        exact hu.behind u e rest hs id hid
  | skip before room calls sending lane sent => exact absurd hroom room
  | @finish t event before calls sending lane sent =>
    refine ⟨fun e he id hid => ?_, fun u e rest hs id hid => ?_⟩
    · rw [copies_congr lane]
      rw [sent] at he
      rcases List.mem_cons.mp he with rfl | he
      · exact (hu.behind t e [] before id hid).resolve_left List.not_mem_nil
      · exact hu.complete e he id hid
    · rw [copies_congr lane]
      rcases sending_cases sending hs with ⟨-, ho⟩ | ⟨-, hs⟩
      · cases ho
      · exact hu.behind u e rest hs id hid

/-- The call of the event is through with the stream, and has left no copy. -/
structure Lost (s : MultiCrossbeam Q τ α) (streamId : UInt32) (event : Event τ α) : Prop where
  begun : event.ticket.2 < s.calls event.ticket.1
  copies : s.copies streamId event = []
  through : ∀ t event' streams, s.sending t = some (event', streams) → event'.ticket = event.ticket → streamId ∉ streams

theorem Lost.step {streamId : UInt32} (hl : Lost s streamId event) (hm : Moves B live s s' l) :
    Lost s' streamId event := by
  cases hm with
  | @start t e before ticket calls sending lane sent =>
    refine ⟨?_, by rw [copies_congr lane]; exact hl.copies, fun u e' rest hs hte => ?_⟩
    · have hlt := hl.begun
      rw [calls]
      by_cases hu : event.ticket.1 = t
      · subst hu
        rw [Function.update_self]
        omega
      · rwa [Function.update_of_ne hu]
    · rcases sending_cases sending hs with ⟨rfl, ho⟩ | ⟨-, hs⟩
      · cases ho
        have hlt := hl.begun
        rw [← hte, ticket] at hlt
        exact absurd hlt (Nat.lt_irrefl _)
      · exact hl.through u e' rest hs hte
  | still calls sending lane sent =>
    exact ⟨by rw [calls]; exact hl.begun, by rw [copies_congr lane]; exact hl.copies, by rw [sending]; exact hl.through⟩
  | @push t e id streams before calls sending lane sent =>
    refine ⟨by rw [calls]; exact hl.begun, ?_, fun u e' rest hs hte => ?_⟩
    · rw [copies_push lane, hl.copies, if_neg, List.append_nil]
      rintro ⟨rfl, hte⟩
      exact hl.through t e _ before hte List.mem_cons_self
    · rcases sending_cases sending hs with ⟨rfl, ho⟩ | ⟨-, hs⟩
      · cases ho
        exact fun hmem => hl.through u e _ before hte (List.mem_cons_of_mem _ hmem)
      · exact hl.through u e' rest hs hte
  | @skip t e id streams before room calls sending lane sent =>
    refine ⟨by rw [calls]; exact hl.begun, by rw [copies_congr lane]; exact hl.copies, fun u e' rest hs hte => ?_⟩
    rcases sending_cases sending hs with ⟨rfl, ho⟩ | ⟨-, hs⟩
    · cases ho
      exact fun hmem => hl.through u e _ before hte (List.mem_cons_of_mem _ hmem)
    · exact hl.through u e' rest hs hte
  | @finish t e before calls sending lane sent =>
    refine ⟨by rw [calls]; exact hl.begun, by rw [copies_congr lane]; exact hl.copies, fun u e' rest hs hte => ?_⟩
    rcases sending_cases sending hs with ⟨-, ho⟩ | ⟨-, hs⟩
    · cases ho
    · exact hl.through u e' rest hs hte

/-- An unobserved `try_send` that finds no free slot loses the event. -/
theorem Lost.of_not_hasRoom (hc : s.OfCapacity B) (h : Ok live s) (hs : s.step live l = some s') (hl : ¬ s.HasRoom B l) :
    ∃ streamId ∈ live.ids, ∃ event, Lost s' streamId event := by
  cases l with
  | send | consume => exact absurd trivial hl
  | run t =>
    simp only [HasRoom, not_forall] at hl
    obtain ⟨event, streamId, streams, ho, hfull⟩ := hl
    have hbefore : s.sending t = some (event, streamId :: streams) := by rw [sending, ho]; rfl
    have hsuffix := h.suffix t event _ hbefore
    have hnodup : (streamId :: streams).Nodup := live.nodup.sublist hsuffix.sublist
    obtain ⟨hsender, hcall⟩ := h.ticket t event _ hbefore
    obtain ⟨hlt, -, -⟩ | ⟨-, -, hlane⟩ := lane_trySend hc streamId event
    · exact absurd hlt hfull
    simp only [MultiCrossbeam.step, run, ho, Option.some.injEq] at hs
    subst hs
    refine ⟨streamId, hsuffix.mem List.mem_cons_self, event, ?_, ?_, fun u e rest hu hte => ?_⟩
    · show event.ticket.2 < s.calls event.ticket.1
      rw [hsender]
      omega
    · exact (copies_congr hlane streamId event).trans (h.ahead t event _ hbefore streamId List.mem_cons_self)
    · rcases sending_cases (sending_after_setChannel s streamId _ t _) hu with ⟨rfl, hrest⟩ | ⟨hne, hu⟩
      · cases hrest
        exact (List.nodup_cons.mp hnodup).1
      · exact absurd hte.symm (h.ticket_ne hbefore hu hne)

theorem Lost.not_complete {streamId : UInt32} (hl : Lost s streamId event) (h : Ok live s) (hid : streamId ∈ live.ids)
    (hrest : ∀ t, s.sending t = none) : ¬ s.Complete live := by
  intro hc
  rcases h.accounted event.ticket.1 event.ticket.2 hl.begun with ⟨e, he, hte⟩ | ⟨e, rest, hs, -⟩
  · have hsame : s.copies streamId e = s.copies streamId event := by
      rw [MultiCrossbeam.copies, MultiCrossbeam.copies, hte]
    have := hc e he streamId hid
    rw [hsame, hl.copies] at this
    cases this
  · rw [hrest] at hs
    cases hs

end Calls

/-! ### Runs -/

section Runs
variable {Q : Type → Type} [LawfulCrossbeamChannel Q] {τ α : Type} [DecidableEq τ] {B : Nat} {live : LiveStreams}
  {s s' : MultiCrossbeam Q τ α} {labels : List (Label τ α)}
open LawfulCrossbeamChannel

theorem ok_of_reached (h : Reached (step live) (new B : MultiCrossbeam Q τ α) labels s) : s.OfCapacity B ∧ Ok live s := by
  refine h.invariant (I := fun s => s.OfCapacity B ∧ Ok live s) ?_ ⟨fun _ => capacity_bounded B, .new⟩
  rintro u l u' - ⟨hc, hok⟩ ⟨-, -, -, hs⟩
  exact ⟨hc.step hs, hok.step (.of_step hc hs)⟩

/-- In a run every event whose send has returned is in the channels of all streams once, if every unobserved `try_send`
finds a free slot; and not if one of them does not and the run comes to an end. -/
theorem crossbeam_complete (B : Nat) (live : LiveStreams) (labels : List (Label τ α)) :
    ((∀ s l s', Occurs (step live) (new B : MultiCrossbeam Q τ α) labels s l s' → s.HasRoom B l) →
      ∀ s, Reached (step live) (new B : MultiCrossbeam Q τ α) labels s → s.Complete live) ∧
    ∀ u, Machine.exec (step live) (new B : MultiCrossbeam Q τ α) labels = some u → (∀ t, u.sending t = none) →
      (∀ s, Reached (step live) (new B : MultiCrossbeam Q τ α) labels s → s.Complete live) →
      ∀ s l s', Occurs (step live) (new B : MultiCrossbeam Q τ α) labels s l s' → s.HasRoom B l := by
  constructor
  · intro hroom s hs
    have hnew : Unskipped live (new B : MultiCrossbeam Q τ α) :=
      ⟨fun e he => by simp [new] at he, fun t e rest he => by simp [sending, new, Op.sending] at he⟩
    refine (hs.invariant (I := Unskipped live) ?_ hnew).complete
    intro u l u' hreach hu ho
    obtain ⟨hc, hok⟩ := ok_of_reached hreach
    have hl := hroom u l u' ho
    obtain ⟨-, -, -, hstep⟩ := ho
    exact hu.step hok (.of_step hc hstep) hl
  · intro u hu hrest hcomplete s l s' ho
    by_contra hl
    obtain ⟨hc, hok⟩ := ok_of_reached ho.before
    obtain ⟨hc', hok'⟩ := ok_of_reached ho.after
    obtain ⟨rest, hexec⟩ := ho.exists_exec hu
    obtain ⟨-, -, -, hstep⟩ := ho
    obtain ⟨streamId, hid, event, hlost⟩ := Lost.of_not_hasRoom hc hok hstep hl
    have hend : u.OfCapacity B ∧ Lost u streamId event := by
      refine (Machine.Path.of_exec hexec).steps.invariant (I := fun v => v.OfCapacity B ∧ Lost v streamId event) ?_
        ⟨hc', hlost⟩
      rintro v b v' ⟨hcv, hlv⟩ hb -
      exact ⟨hcv.step hb, hlv.step (.of_step hcv hb)⟩
    exact hend.2.not_complete (ok_of_reached (.of_exec hu)).2 hid hrest (hcomplete u (.of_exec hu))

/-- Between the length read and the attempt only the consumers act. -/
def Lowered (s : MultiCrossbeam Q τ α) : Prop :=
  ∀ t event streamId streams, s.op t = .forget event streamId streams → len (s.channels streamId) ≤ 2

omit [DecidableEq τ] in
theorem len_consume (s : MultiCrossbeam Q τ α) (id streamId : UInt32) :
    len ((s.consume id).channels streamId) ≤ len (s.channels streamId) := by
  have hrecv : len (tryRecv (s.channels id)).1 ≤ len (s.channels id) := by
    rw [len_eq, len_eq]
    cases hq : items (s.channels id) with
    | nil => rw [(tryRecv_nil hq).1]
    | cons x xs => rw [(tryRecv_cons hq).1]; exact Nat.le_succ _
  rw [channels_consume]
  by_cases hid : streamId = id
  · subst hid
    rwa [Function.update_self]
  · rw [Function.update_of_ne hid]

theorem Lowered.step [Subsingleton τ] {l : Label τ α} (h : s.Lowered) (hs : s.step live l = some s') : s'.Lowered := by
  intro u event streamId streams hu
  cases l with
  | send t item =>
    obtain rfl := Subsingleton.elim u t
    simp only [MultiCrossbeam.step] at hs
    split at hs
    · cases hs
      simp [setOp] at hu
    · cases hs
  | run t =>
    obtain rfl := Subsingleton.elim u t
    change s.run u = some s' at hs
    cases ho : s.op u with
    | idle | sent => simp [run, ho] at hs
    | visit e rest =>
      cases rest with
      | nil =>
        simp only [run, ho, Option.some.injEq] at hs
        simp [← hs, setOp] at hu
      | cons id rest =>
        simp only [run, ho, Option.some.injEq] at hs
        simp only [← hs, setOp, Function.update_self] at hu
        split_ifs at hu with hle
        cases hu
        exact hs ▸ hle
    | forget e id rest =>
      simp only [run, ho, Option.some.injEq] at hs
      simp [← hs, setOp] at hu
    | insist e id rest =>
      simp only [run, ho, Option.some.injEq] at hs
      simp only [← hs, setOp, Function.update_self] at hu
      split at hu <;> cases hu
  | consume id =>
    simp only [MultiCrossbeam.step, Option.ite_none_right_eq_some, Option.some.injEq] at hs
    obtain ⟨-, rfl⟩ := hs
    have hop : (s.consume id).op = s.op := by
      unfold consume
      split <;> rfl
    rw [hop] at hu
    exact Nat.le_trans (len_consume ..) (h u event streamId streams hu)

theorem complete_of_subsingleton [Subsingleton τ] (hB : 3 ≤ B)
    (hs : Reached (step live) (new B : MultiCrossbeam Q τ α) labels s) : s.Complete live := by
  have hnew : Unskipped live (new B : MultiCrossbeam Q τ α) :=
    ⟨fun e he => by simp [new] at he, fun t e rest he => by simp [sending, new, Op.sending] at he⟩
  have hlow : Lowered (new B : MultiCrossbeam Q τ α) := fun t e id rest he => by simp [new] at he
  refine (hs.invariant (I := fun s => s.Lowered ∧ Unskipped live s) ?_ ⟨hlow, hnew⟩).2.complete
  rintro u l u' hreach ⟨hl, hu⟩ ⟨-, -, -, hstep⟩
  obtain ⟨hc, hok⟩ := ok_of_reached hreach
  refine ⟨hl.step hstep, hu.step hok (.of_step hc hstep) ?_⟩
  cases l with
  | run t => exact fun e id rest ho => Nat.lt_of_le_of_lt (hl t e id rest ho) hB
  | send | consume => trivial

end Runs

/-! ### Two senders, or little room -/

structure ListChannel (β : Type) where
  capacity : Nat
  items : List β

instance : LawfulCrossbeamChannel ListChannel where
  bounded n := ⟨n, []⟩
  len q := q.items.length
  trySend q x := if q.items.length < q.capacity then ({ q with items := q.items ++ [x] }, true) else (q, false)
  tryRecv q :=
    match q.items with
    | x :: xs => ({ q with items := xs }, some x)
    | [] => (q, none)
  items := ListChannel.items
  capacity := ListChannel.capacity
  items_bounded _ := rfl
  capacity_bounded _ := rfl
  len_eq _ := rfl
  trySend_ok x h := by simp [h]
  trySend_err x h := by simp [h]
  tryRecv_cons h := by simp [h]
  tryRecv_nil h := by simp [h]
  capacity_trySend q x := by split <;> rfl
  capacity_tryRecv q := by split <;> rfl

abbrev Small := MultiCrossbeam ListChannel (Fin 2) Nat

/-- A run whose steps all pass the test has room. -/
def hasRoom (B : Nat) (s : Small) : Label (Fin 2) Nat → Bool
  | .run t =>
    match s.op t with
    | .forget _ streamId _ => len (s.channels streamId) < B
    | _ => true
  | _ => true

theorem HasRoom.of_hasRoom {B : Nat} {s : Small} {l : Label (Fin 2) Nat} (h : hasRoom B s l = true) : s.HasRoom B l := by
  cases l with
  | run t =>
    intro event streamId streams ho
    simpa [hasRoom, ho] using h
  | send | consume => trivial

def twoStreams : LiveStreams := ⟨[0, 1], by decide⟩

theorem crossbeam_complete_two : ∃ (labels : List (Label (Fin 2) Nat)) (s : Small),
    Reached (step twoStreams) (new 2) labels s ∧ s.sent.map Event.item = [6, 5] ∧ s.Complete twoStreams := by
  let labels : List (Label (Fin 2) Nat) :=
    [.send 0 5, .send 1 6, .run 0, .run 1, .run 0, .run 1, .run 0, .consume 0, .run 0, .run 0, .run 1, .run 1, .run 1]
  have hrun : (Machine.exec (Machine.restrict (step twoStreams) fun s l _ => hasRoom 2 s l) (new 2 : Small) labels).map
      (fun s => s.sent.map Event.item) = some [6, 5] := by decide +kernel
  obtain ⟨s, hs, ht⟩ := Option.map_eq_some_iff.mp hrun
  have hexec := (Machine.Path.of_exec_restrict (fun _ _ _ _ => trivial) hs :
    Machine.Path (step twoStreams) (fun _ _ _ => True) _ _ _).exec_eq
  exact ⟨labels, s, .of_exec hexec, ht, (crossbeam_complete 2 twoStreams labels).1
    (fun _ _ _ ho => .of_hasRoom (ho.of_exec_restrict hs)) s (.of_exec hexec)⟩

def oneStream : LiveStreams := ⟨[0], by decide⟩

/-- With one slot, a sender loses its second event; with three, it does if another sender fills them in between. -/
theorem crossbeam_drops :
    (∃ (labels : List (Label (Fin 2) Nat)) (s : Small), Reached (step oneStream) (new 1) labels s ∧
      (s.sent.map fun event => (event.item, (s.copies 0 event).length)) = [(6, 0), (5, 1)] ∧ ¬ s.Complete oneStream) ∧
    ∃ (labels : List (Label (Fin 2) Nat)) (s : Small), Reached (step oneStream) (new 3) labels s ∧
      (s.sent.map fun event => (event.item, (s.copies 0 event).length)) = [(5, 0), (8, 1), (7, 1), (6, 1)] ∧
      ¬ s.Complete oneStream := by
  -- an event that was sent and has no copy
  have hdrop : ∀ {s : Small} {x : Nat} {rest : List (Nat × Nat)},
      (s.sent.map fun event => (event.item, (s.copies 0 event).length)) = (x, 0) :: rest → ¬ s.Complete oneStream := by
    intro s x rest hs hc
    obtain ⟨event, hmem, he⟩ := List.mem_map.mp (hs ▸ List.mem_cons_self : (x, 0) ∈ _)
    have hcopies := hc event hmem 0 List.mem_cons_self
    rw [hcopies] at he
    cases he
  let send (t : Fin 2) (x : Nat) : List (Label (Fin 2) Nat) := .send t x :: List.replicate 3 (.run t)
  constructor
  · have hrun : (Machine.exec (step oneStream) (new 1 : Small) (send 0 5 ++ send 0 6)).map
        (fun s => s.sent.map fun event => (event.item, (s.copies 0 event).length)) = some [(6, 0), (5, 1)] := by
      decide +kernel
    obtain ⟨s, hs, ht⟩ := Option.map_eq_some_iff.mp hrun
    exact ⟨_, s, .of_exec hs, ht, hdrop ht⟩
  · have hrun : (Machine.exec (step oneStream) (new 3 : Small)
        ([.send 0 5, .run 0] ++ send 1 6 ++ send 1 7 ++ send 1 8 ++ [.run 0, .run 0])).map
        (fun s => s.sent.map fun event => (event.item, (s.copies 0 event).length)) =
          some [(5, 0), (8, 1), (7, 1), (6, 1)] := by
      decide +kernel
    obtain ⟨s, hs, ht⟩ := Option.map_eq_some_iff.mp hrun
    exact ⟨_, s, .of_exec hs, ht, hdrop ht⟩

end MultiCrossbeam
end Mutiny
