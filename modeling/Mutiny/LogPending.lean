import Mutiny.LogTopic
import Mutiny.MmapLog

/-!
# `pending_items_count` of the `MmapLog` channel while events come and go

`remaining_elements_count` loads `consumer_tail` and then `head`, one after the other. It underflows if the consumer of
that stream got beyond the former in between, be it only for as long as it takes to find nothing
(`head_le_iff`). The largest of the differences is returned as a `u32` (`pending_sound_iff`).

The publishers, the consumer of each stream and the thread that counts take turns with their atomic steps. Streams are
created and dropped by whole calls, while nobody counts.
-/

namespace Mutiny
open MMapMeta (Sys Subscriber Kind Consuming Publishing Grown)

/-- Where a thread stands in `pending_items_count`. -/
inductive Counting
  | idle
  -- about to look at the first of the streams `rest`, `counts` being the results so far
  | next (rest : List UInt32) (counts : List Nat)
  -- about to load `head`
  | loadHead (streamId : UInt32) (tail : Nat) (rest : List UInt32) (counts : List Nat)
  -- `tail - head` has no result
  | underflowed
  | returned (count : UInt32)
deriving DecidableEq

/-- The channel; `subscribers` are the indices of those of the topic. -/
structure LogChannel (τ α : Type) where
  topic : Sys τ α
  streams : StreamsManagerBase
  subscribers : UInt32 → Nat
  counting : Counting

namespace LogChannel
variable {τ α : Type}

inductive Label (τ α : Type)
  -- a step of a publisher, or of the consumer of a stream
  | topic (l : MMapMeta.Label τ α)
  | createStreamForNewEvents
  | createStreamsForOldAndNewEvents
  | createStreamForOldAndNewEvents
  | drop (streamId : UInt32)
  -- a call of `pending_items_count`
  | count
  -- its next load
  | load

def new (M : Nat) (zero : α) : LogChannel τ α := ⟨.new zero, .new M, fun _ => 0, .idle⟩

def subscriber (c : LogChannel τ α) (streamId : UInt32) : Option (Subscriber α) :=
  c.topic.subscribers[c.subscribers streamId]?

/-- Nobody is in the middle of `pending_items_count`. -/
def Counting.resting : Counting → Bool
  | .idle | .returned _ => true
  | .next .. | .loadHead .. | .underflowed => false

/-- The steps of the topic are those of publishers and consumers. -/
def stepping : MMapMeta.Label τ α → Bool
  | .publish .. | .run .. | .consume .. | .runConsume .. => true
  | .subscribeToNewEventsOnly | .subscribeToSeparatedOldAndNewEvents | .subscribeToJoinedOldAndNewEvents => false

/-- There is no result if `create_stream_id` panics. -/
def create (M : Nat) (c : LogChannel τ α) (topic : Sys τ α) (subscriber : Nat) : Option (LogChannel τ α) := do
  let (streams, streamId) ← c.streams.createStreamId M
  return { c with topic, streams, subscribers := Function.update c.subscribers streamId subscriber }

def load (c : LogChannel τ α) : Option (LogChannel τ α) :=
  match c.counting with
  | .idle | .underflowed | .returned _ => none
  | .next [] counts => some { c with counting := .returned (UInt32.ofNat (counts.max?.getD 0)) }
  | .next (streamId :: rest) counts =>
    (c.subscriber streamId).map fun u =>
      match u.kind with
      | .dynamic => { c with counting := .loadHead streamId c.topic.contents.consumerTail rest counts }
      | .fixed fixedTail => { c with counting := .loadHead streamId fixedTail rest counts }
  | .loadHead streamId tail rest counts =>
    (c.subscriber streamId).map fun u =>
      if u.head ≤ tail then { c with counting := .next rest (counts ++ [tail - u.head]) }
      else { c with counting := .underflowed }

section Step
variable [DecidableEq τ]

def step (M N : Nat) (c : LogChannel τ α) : Label τ α → Option (LogChannel τ α)
  | .topic l => if stepping l then (c.topic.step N l).map fun topic => { c with topic } else none
  | .createStreamForNewEvents =>
    if Counting.resting c.counting then do
      let topic ← c.topic.step N .subscribeToNewEventsOnly
      c.create M topic c.topic.subscribers.length
    else none
  | .createStreamsForOldAndNewEvents =>
    if Counting.resting c.counting then do
      let topic ← c.topic.step N .subscribeToSeparatedOldAndNewEvents
      let c' ← c.create M topic c.topic.subscribers.length
      c'.create M topic (c.topic.subscribers.length + 1)
    else none
  | .createStreamForOldAndNewEvents =>
    if Counting.resting c.counting then do
      let topic ← c.topic.step N .subscribeToJoinedOldAndNewEvents
      c.create M topic c.topic.subscribers.length
    else none
  | .drop streamId =>
    -- a stream is not dropped while it is polled
    if Counting.resting c.counting ∧ streamId ∈ c.streams.inUse M ∧
        (c.subscriber streamId).all fun u => u.op.resting then
      some { c with streams := c.streams.reportStreamDropped M streamId }
    else none
  | .count => if Counting.resting c.counting then some { c with counting := .next c.streams.usedIds [] } else none
  | .load => c.load

end Step

structure Quiet (c : LogChannel τ α) : Prop where
  publishers : ∀ t, (c.topic.publishing t).forget = .idle
  consumers : ∀ u ∈ c.topic.subscribers, u.op = .idle
  counter : Counting.resting c.counting

/-- The channel as the calls see it when no operation is in progress. -/
def atRest (c : LogChannel τ α) : MmapLog α where
  streamsManager := c.streams
  logQueue := c.topic.values
  subscribers streamId := match c.subscriber streamId with
    | some u => ⟨u.kind, u.head⟩
    | none => ⟨.dynamic, 0⟩

/-- Every live stream has consumed all there is for it. -/
def AllConsumed (M : Nat) (c : LogChannel τ α) : Prop :=
  ∀ id ∈ c.streams.inUse M, ∀ u, c.subscriber id = some u → u.yielded = u.source c.topic.values

/-- The pending counter is right. -/
structure Sound (M N : Nat) [DecidableEq τ] (c : LogChannel τ α) : Prop where
  counting : c.counting ≠ .underflowed
  /-- When no operation is in progress, a call returns this .. -/
  returns : c.Quiet → ∃ n, Machine.exec (step M N) c (.count :: List.replicate n .load) =
    some { c with counting := .returned c.atRest.pendingItemsCount }
  /-- .. which is zero if all is consumed, and only then. -/
  zero : c.Quiet → (c.atRest.pendingItemsCount = 0 ↔ c.AllConsumed M)

/-- When `head` is loaded, the consumer of the stream has not got beyond the tail loaded before: it has returned no
later entry, and is in no call that took a later index. -/
def InTime (c : LogChannel τ α) : Label τ α → Prop
  | .load => ∀ id tail rest counts, c.counting = .loadHead id tail rest counts → ∀ u, c.subscriber id = some u →
      u.next ≤ tail ∧ ∀ n, u.op.slot = some n → n < tail
  | _ => True

/-- What remains for a stream, between two calls of its consumer. -/
def remaining (c : LogChannel τ α) (id : UInt32) : Nat :=
  (c.atRest.subscribers id).remainingElementsCount c.topic.values.length

/-- The stream that lags behind the most does so by a multiple of `2 ^ 32`. -/
def Hidden (M : Nat) (c : LogChannel τ α) : Prop :=
  ∃ k, ((c.streams.inUse M).map c.remaining).max?.getD 0 = (k + 1) * 2 ^ 32

/-! ### One stream -/

section Stream
variable {log : List α} {u : Subscriber α} {tail : Nat}

/-- The head is beyond the tail if an entry beyond it has been returned, or its index is in the hands of a call. -/
theorem head_le_iff (h : u.Ok log) : u.head ≤ tail ↔ u.next ≤ tail ∧ ∀ n, u.op.slot = some n → n < tail := by
  have hop := h.op
  cases ho : u.op with
  | idle | reserve =>
    rw [ho] at hop
    simp only [Consuming.Ok] at hop
    simp [Consuming.slot, hop]
  | load n | recede n t | read n t =>
    rw [ho] at hop
    simp only [Consuming.Ok] at hop
    simp only [Consuming.slot, Option.some.injEq, forall_eq']
    omega

/-- Between two calls nothing remains to be consumed when everything has been returned. -/
theorem remaining_eq_zero_iff (h : u.Ok log) (hidle : u.op = .idle) :
    (LogSubscriber.mk u.kind u.head).remainingElementsCount log.length = 0 ↔ u.yielded = u.source log := by
  have hhead : u.head = u.start + u.yielded.length := by
    have hop := h.op
    rw [hidle] at hop
    exact hop
  have hlen : (LogSubscriber.mk u.kind u.head).remainingElementsCount log.length =
      (u.source log).length - u.yielded.length := by
    have hw := h.within
    unfold LogSubscriber.remainingElementsCount LogSubscriber.tail Subscriber.source
    cases hk : u.kind with
    | dynamic =>
      rw [hk] at hw
      simp only [Kind.Within] at hw
      simp only [List.length_drop]
      omega
    | fixed fixedTail =>
      rw [hk] at hw
      simp only [Kind.Within] at hw
      simp only [List.length_take]
      omega
  have hle := h.yields.length_le
  rw [hlen]
  constructor
  · intro hzero
    exact h.yields.eq_of_length (by omega)
  · intro he
    rw [he, Nat.sub_self]

end Stream

/-! ### What every step keeps -/

section Ok
variable {M N : Nat} {zero : α} {c c' : LogChannel τ α} {id : UInt32} {topic : Sys τ α}

structure Ok (M N : Nat) (zero : α) (c : LogChannel τ α) : Prop where
  topic : Grown N zero c.topic
  streams : c.streams.Synced M
  subscriber : ∀ id ∈ c.streams.inUse M, c.subscribers id < c.topic.subscribers.length

theorem Ok.new (hM : Ring.PowerOfTwo M) (N : Nat) (zero : α) : Ok M N zero (.new M zero : LogChannel τ α) := by
  refine ⟨.new N zero, .new hM, fun id hid => ?_⟩
  rw [show (LogChannel.new M zero : LogChannel τ α).streams.inUse M = [] from StreamsManagerBase.inUse_new hM] at hid
  cases hid

theorem Ok.exists_subscriber (h : Ok M N zero c) (hid : id ∈ c.streams.inUse M) :
    ∃ u, c.subscriber id = some u ∧ u.Ok c.topic.values := by
  have hu := List.getElem?_eq_getElem (h.subscriber id hid)
  exact ⟨_, hu, h.topic.inv.subscriber _ _ hu⟩

theorem Ok.setCounting (h : Ok M N zero c) (counting : Counting) : Ok M N zero { c with counting } :=
  ⟨h.topic, h.streams, h.subscriber⟩

theorem Ok.setTopic (h : Ok M N zero c) (ht : Grown N zero topic)
    (hle : c.topic.subscribers.length ≤ topic.subscribers.length) : Ok M N zero { c with topic } :=
  ⟨ht, h.streams, fun id hid => Nat.lt_of_lt_of_le (h.subscriber id hid) hle⟩

theorem Ok.create (hM : Ring.PowerOfTwo M) (h : Ok M N zero c) (ht : Grown N zero topic)
    (hle : c.topic.subscribers.length ≤ topic.subscribers.length) {i : Nat} (hi : i < topic.subscribers.length)
    (hc : c.create M topic i = some c') : Ok M N zero c' ∧ c'.topic = topic := by
  obtain ⟨⟨streams, id⟩, hcreate, hc⟩ := Option.bind_eq_some_iff.mp hc
  cases hc
  obtain ⟨hsync, -, hmem⟩ := h.streams.create hM hcreate
  refine ⟨⟨ht, hsync, fun x hx => ?_⟩, rfl⟩
  show Function.update c.subscribers id i x < topic.subscribers.length
  by_cases hxi : x = id
  · rw [hxi, Function.update_self]
    exact hi
  · rw [Function.update_of_ne hxi]
    exact Nat.lt_of_lt_of_le (h.subscriber x (((hmem x).mp hx).resolve_left hxi)) hle

theorem create_counting {i : Nat} (hc : c.create M topic i = some c') : c'.counting = c.counting := by
  obtain ⟨⟨streams, id⟩, -, hc⟩ := Option.bind_eq_some_iff.mp hc
  cases hc
  rfl

theorem load_cases (hs : c.load = some c') : ∃ counting, c' = { c with counting } := by
  unfold LogChannel.load at hs
  split at hs
  · cases hs
  · cases hs
  · cases hs
  · cases hs
    exact ⟨_, rfl⟩
  · obtain ⟨u, -, rfl⟩ := Option.map_eq_some_iff.mp hs
    split
    · exact ⟨_, rfl⟩
    · exact ⟨_, rfl⟩
  · obtain ⟨u, -, rfl⟩ := Option.map_eq_some_iff.mp hs
    split
    · exact ⟨_, rfl⟩
    · exact ⟨_, rfl⟩

variable [DecidableEq τ] {l : Label τ α}

theorem Ok.step (hM : Ring.PowerOfTwo M) (h : Ok M N zero c) (hs : c.step M N l = some c') : Ok M N zero c' := by
  cases l with
  | topic l =>
    simp only [LogChannel.step, Option.ite_none_right_eq_some] at hs
    obtain ⟨topic, ht, rfl⟩ := Option.map_eq_some_iff.mp hs.2
    exact h.setTopic (h.topic.step ht) (MMapMeta.subscribers_step ht)
  | createStreamForNewEvents | createStreamForOldAndNewEvents =>
    simp only [LogChannel.step, Option.ite_none_right_eq_some] at hs
    obtain ⟨topic, ht, hc⟩ := Option.bind_eq_some_iff.mp hs.2
    refine (h.create hM (h.topic.step ht) (MMapMeta.subscribers_step ht) ?_ hc).1
    cases ht
    simp [Sys.subscribe]
  | createStreamsForOldAndNewEvents =>
    simp only [LogChannel.step, Option.ite_none_right_eq_some] at hs
    obtain ⟨topic, ht, hs⟩ := Option.bind_eq_some_iff.mp hs.2
    obtain ⟨c₁, hc, hc'⟩ := Option.bind_eq_some_iff.mp hs
    have hgrown := h.topic.step ht
    have hle := MMapMeta.subscribers_step ht
    have hlen : topic.subscribers.length = c.topic.subscribers.length + 2 := by
      cases ht
      simp [Sys.subscribe]
    obtain ⟨h₁, htopic⟩ := h.create hM hgrown hle (by omega) hc
    exact (h₁.create hM hgrown (by rw [htopic]) (by omega) hc').1
  | drop id =>
    simp only [LogChannel.step, Option.ite_none_right_eq_some, Option.some.injEq] at hs
    obtain ⟨⟨-, hid, -⟩, rfl⟩ := hs
    obtain ⟨hsync, hmem⟩ := h.streams.drop hM hid
    exact ⟨h.topic, hsync, fun x hx => h.subscriber x ((hmem x).mp hx).2⟩
  | count =>
    simp only [LogChannel.step, Option.ite_none_right_eq_some, Option.some.injEq] at hs
    obtain ⟨-, rfl⟩ := hs
    exact h.setCounting _
  | load =>
    obtain ⟨counting, rfl⟩ := load_cases hs
    exact h.setCounting counting

end Ok

/-! ### The count -/

section Count
variable {M N : Nat} {zero : α} {c c' : LogChannel τ α} {id : UInt32}

theorem Ok.subscriber_ok {u : Subscriber α} (h : Ok M N zero c) (hu : c.subscriber id = some u) : u.Ok c.topic.values :=
  h.topic.inv.subscriber _ u hu

theorem max?_getD_eq_zero_iff (l : List Nat) : l.max?.getD 0 = 0 ↔ ∀ x ∈ l, x = 0 := by
  cases hl : l.max? with
  | none =>
    rw [List.max?_eq_none_iff] at hl
    simp [hl]
  | some m =>
    rw [List.max?_eq_some_iff] at hl
    constructor
    · intro hm x hx
      have hle := hl.2 x hx
      rw [Option.getD_some] at hm
      omega
    · intro h
      exact h m hl.1

theorem max?_getD_le {l : List Nat} {b : Nat} (h : ∀ x ∈ l, x ≤ b) : l.max?.getD 0 ≤ b := by
  cases hl : l.max? with
  | none => exact Nat.zero_le b
  | some m => exact h m (List.max?_eq_some_iff.mp hl).1

theorem remaining_of_subscriber {u : Subscriber α} (hu : c.subscriber id = some u) :
    c.remaining id = (LogSubscriber.mk u.kind u.head).remainingElementsCount c.topic.values.length := by
  simp only [remaining, atRest, hu]

theorem Ok.allConsumed_iff (h : Ok M N zero c) (hq : c.Quiet) :
    c.AllConsumed M ↔ ∀ id ∈ c.streams.inUse M, c.remaining id = 0 := by
  have hidle : ∀ {id u}, c.subscriber id = some u → u.op = .idle := fun hu => hq.consumers _ (List.mem_of_getElem? hu)
  constructor
  · intro hall id hid
    obtain ⟨u, hu, hok⟩ := h.exists_subscriber hid
    rw [remaining_of_subscriber hu]
    exact (remaining_eq_zero_iff hok (hidle hu)).mpr (hall id hid u hu)
  · intro hall id hid u hu
    have hzero := hall id hid
    rw [remaining_of_subscriber hu] at hzero
    exact (remaining_eq_zero_iff (h.subscriber_ok hu) (hidle hu)).mp hzero

/-- The narrowing to `u32` is the only thing that can go wrong between two operations. -/
theorem Ok.zero_iff (hM : Ring.PowerOfTwo M) (h : Ok M N zero c) (hq : c.Quiet) :
    (c.atRest.pendingItemsCount = 0 ↔ c.AllConsumed M) ↔ ¬ c.Hidden M := by
  have hcount : c.atRest.pendingItemsCount = UInt32.ofNat (((c.streams.inUse M).map c.remaining).max?.getD 0) := by
    rw [MmapLog.pendingItemsCount, ← h.streams.usedIds_eq hM]
    rfl
  have hall : c.AllConsumed M ↔ ((c.streams.inUse M).map c.remaining).max?.getD 0 = 0 := by
    rw [h.allConsumed_iff hq, max?_getD_eq_zero_iff]
    simp
  rw [hcount, hall, Hidden]
  generalize ((c.streams.inUse M).map c.remaining).max?.getD 0 = m
  have hzero : UInt32.ofNat m = 0 ↔ m % 2 ^ 32 = 0 := by
    rw [← UInt32.toNat_inj]
    exact Iff.rfl
  rw [hzero]
  constructor
  · rintro hiff ⟨k, hk⟩
    have hm := hiff.mp (by rw [hk]; exact Nat.mul_mod_left _ _)
    omega
  · intro hnot
    refine ⟨fun hm => ?_, fun hm => by rw [hm, Nat.zero_mod]⟩
    by_contra hne
    exact hnot ⟨m / 2 ^ 32 - 1, by omega⟩

theorem Ok.not_hidden (h : Ok M N zero c) (hN : N < 2 ^ 32) : ¬ c.Hidden M := by
  rintro ⟨k, hk⟩
  have hlen := h.topic.values_length
  have hexposed := h.topic.exposed
  have hle : ((c.streams.inUse M).map c.remaining).max?.getD 0 ≤ N := by
    refine max?_getD_le fun x hx => ?_
    obtain ⟨id, hid, rfl⟩ := List.mem_map.mp hx
    obtain ⟨u, hu, hok⟩ := h.exists_subscriber hid
    rw [remaining_of_subscriber hu]
    have hw := hok.within
    unfold LogSubscriber.remainingElementsCount LogSubscriber.tail
    cases hkind : u.kind with
    | dynamic =>
      dsimp only
      omega
    | fixed fixedTail =>
      rw [hkind] at hw
      simp only [Kind.Within] at hw
      dsimp only
      omega
  omega

variable [DecidableEq τ] {l : Label τ α}

/-- Streams whose consumers have not got beyond their tails are counted, one after the other. -/
theorem load_run (ids : List UInt32) (counts : List Nat)
    (hids : ∀ id ∈ ids, ∃ u, c.subscriber id = some u ∧ u.Ok c.topic.values ∧ u.op = .idle)
    (hlen : c.topic.values.length = c.topic.contents.consumerTail) :
    Machine.exec (step M N) { c with counting := .next ids counts } (List.replicate (2 * ids.length + 1) .load) =
      some { c with counting := .returned (UInt32.ofNat ((counts ++ ids.map c.remaining).max?.getD 0)) } := by
  induction ids generalizing counts with
  | nil =>
    rw [List.map_nil, List.append_nil]
    rfl
  | cons id ids ih =>
    obtain ⟨u, hu, hok, hidle⟩ := hids id List.mem_cons_self
    have hsub : ∀ counting, ({ c with counting } : LogChannel τ α).subscriber id = some u := fun _ => hu
    have hhead : u.head ≤ (LogSubscriber.mk u.kind u.head).tail c.topic.contents.consumerTail := by
      have hop := hok.op
      obtain ⟨hnext, hfixed⟩ := hok.next_le
      rw [hidle] at hop
      simp only [Consuming.Ok] at hop
      unfold LogSubscriber.tail
      cases hk : u.kind with
      | dynamic =>
        dsimp only
        omega
      | fixed fixedTail =>
        have := hfixed fixedTail hk
        dsimp only
        omega
    generalize htail : (LogSubscriber.mk u.kind u.head).tail c.topic.contents.consumerTail = tail at hhead
    have hfirst : step M N { c with counting := .next (id :: ids) counts } .load =
        some { c with counting := .loadHead id tail ids counts } := by
      simp only [LogChannel.step, LogChannel.load, hsub, Option.map_some]
      rw [← htail]
      cases hk : u.kind with
      | dynamic => rfl
      | fixed fixedTail => rfl
    have hsecond : step M N { c with counting := .loadHead id tail ids counts } .load =
        some { c with counting := .next ids (counts ++ [c.remaining id]) } := by
      simp only [LogChannel.step, LogChannel.load, hsub, Option.map_some, if_pos hhead]
      rw [remaining_of_subscriber hu, hlen, LogSubscriber.remainingElementsCount, htail]
    rw [show 2 * (id :: ids).length + 1 = (2 * ids.length + 1) + 1 + 1 by rw [List.length_cons]; omega,
      List.replicate_succ, List.replicate_succ, Machine.exec_cons, hfirst, Option.bind_some, Machine.exec_cons, hsecond,
      Option.bind_some, ih _ fun x hx => hids x (List.mem_cons_of_mem _ hx), List.map_cons, List.append_assoc]
    rfl

theorem Ok.count_run (hM : Ring.PowerOfTwo M) (h : Ok M N zero c) (hq : c.Quiet) :
    ∃ n, Machine.exec (LogChannel.step M N) c (.count :: List.replicate n .load) =
      some { c with counting := .returned c.atRest.pendingItemsCount } := by
  have hstep : LogChannel.step M N c .count = some { c with counting := .next c.streams.usedIds [] } := if_pos hq.counter
  refine ⟨2 * c.streams.usedIds.length + 1, ?_⟩
  rw [Machine.exec_cons, hstep, Option.bind_some, load_run _ _ ?_ h.topic.values_length]
  · rfl
  · intro id hid
    rw [h.streams.usedIds_eq hM] at hid
    obtain ⟨u, hu, hok⟩ := h.exists_subscriber hid
    exact ⟨u, hu, hok, hq.consumers u (List.mem_of_getElem? hu)⟩

theorem Ok.underflowed_iff (h : Ok M N zero c) (hc : c.counting ≠ .underflowed) (hs : c.step M N l = some c') :
    c'.counting = .underflowed ↔ ¬ c.InTime l := by
  have hkeep : c'.counting = c.counting → c.InTime l → (c'.counting = .underflowed ↔ ¬ c.InTime l) := by
    intro he ht
    rw [he]
    exact iff_of_false hc (not_not_intro ht)
  cases l with
  | topic l =>
    simp only [LogChannel.step, Option.ite_none_right_eq_some] at hs
    obtain ⟨topic, -, rfl⟩ := Option.map_eq_some_iff.mp hs.2
    exact hkeep rfl trivial
  | createStreamForNewEvents | createStreamForOldAndNewEvents =>
    simp only [LogChannel.step, Option.ite_none_right_eq_some] at hs
    obtain ⟨topic, -, hs⟩ := Option.bind_eq_some_iff.mp hs.2
    exact hkeep (create_counting hs) trivial
  | createStreamsForOldAndNewEvents =>
    simp only [LogChannel.step, Option.ite_none_right_eq_some] at hs
    obtain ⟨topic, -, hs⟩ := Option.bind_eq_some_iff.mp hs.2
    obtain ⟨c₁, hs, hs'⟩ := Option.bind_eq_some_iff.mp hs
    exact hkeep ((create_counting hs').trans (create_counting hs)) trivial
  | drop id =>
    simp only [LogChannel.step, Option.ite_none_right_eq_some, Option.some.injEq] at hs
    obtain ⟨-, rfl⟩ := hs
    exact hkeep rfl trivial
  | count =>
    simp only [LogChannel.step, Option.ite_none_right_eq_some, Option.some.injEq] at hs
    obtain ⟨-, rfl⟩ := hs
    exact iff_of_false (by simp) (not_not_intro trivial)
  | load =>
    change c.load = some c' at hs
    cases hcounting : c.counting with
    | idle | underflowed | returned count => simp [LogChannel.load, hcounting] at hs
    | next rest counts =>
      have htime : c.InTime .load := by
        intro id tail rest counts he
        rw [hcounting] at he
        cases he
      refine iff_of_false ?_ (not_not_intro htime)
      cases rest with
      | nil =>
        simp only [LogChannel.load, hcounting, Option.some.injEq] at hs
        simp [← hs]
      | cons id rest =>
        simp only [LogChannel.load, hcounting] at hs
        obtain ⟨u, hu, rfl⟩ := Option.map_eq_some_iff.mp hs
        split <;> simp
    | loadHead id tail rest counts =>
      simp only [LogChannel.load, hcounting] at hs
      obtain ⟨u, hu, rfl⟩ := Option.map_eq_some_iff.mp hs
      have htime : c.InTime .load ↔ u.head ≤ tail := by
        rw [head_le_iff (h.subscriber_ok hu)]
        constructor
        · intro ht
          exact ht id tail rest counts hcounting u hu
        · intro ht id' tail' rest' counts' he v hv
          rw [hcounting] at he
          cases he
          cases hu.symm.trans hv
          exact ht
      rw [htime]
      split
      · exact iff_of_false (by simp) (not_not_intro ‹_›)
      · exact iff_of_true rfl ‹_›

/-! ### Runs -/

open Machine (Reached Occurs)

theorem Ok.of_reached (hM : Ring.PowerOfTwo M) {labels : List (Label τ α)}
    (h : Reached (LogChannel.step M N) (.new M zero) labels c) : Ok M N zero c := by
  refine Reached.invariant ?_ (Ok.new hM N zero) h
  rintro c l c' - hok ⟨-, -, -, hs⟩
  exact hok.step hM hs

/-- The pending counter neither underflows nor hides events in exactly the runs in which every `head` is loaded in time
and no stream lags behind the most by a multiple of `2 ^ 32` between two operations. -/
theorem pending_sound_iff (hM : Ring.PowerOfTwo M) (N : Nat) (zero : α) (labels : List (Label τ α)) :
    (∀ c, Reached (step M N) (.new M zero) labels c → c.Sound M N) ↔
      (∀ c l c', Occurs (step M N) (.new M zero) labels c l c' → c.InTime l) ∧
      ∀ c, Reached (step M N) (.new M zero) labels c → c.Quiet → ¬ c.Hidden M := by
  constructor
  · intro h
    refine ⟨fun c l c' ho => ?_, fun c hc hq => ?_⟩
    · by_contra hlate
      have hok := Ok.of_reached hM ho.before
      have hsound := h c ho.before
      have hsound' := h c' ho.after
      obtain ⟨-, -, -, hs⟩ := ho
      exact hsound'.counting ((hok.underflowed_iff hsound.counting hs).mpr hlate)
    · exact ((Ok.of_reached hM hc).zero_iff hM hq).mp ((h c hc).zero hq)
  · rintro ⟨htime, hshown⟩ c hc
    have hok := Ok.of_reached hM hc
    refine ⟨?_, hok.count_run hM, fun hq => (hok.zero_iff hM hq).mpr (hshown c hc hq)⟩
    refine Reached.invariant (I := fun c => c.counting ≠ .underflowed) ?_ (by simp [LogChannel.new]) hc
    intro c l c' hreached hcount ho
    have hlate := htime c l c' ho
    obtain ⟨-, -, -, hs⟩ := ho
    rw [ne_eq, (Ok.of_reached hM hreached).underflowed_iff hcount hs]
    exact not_not_intro hlate

def onTime (c : LogChannel τ α) : Bool :=
  match c.counting with
  | .loadHead id tail _ _ => (c.subscriber id).all fun u => decide (u.head ≤ tail)
  | _ => true

omit [DecidableEq τ] in
theorem Ok.inTime_of_onTime (h : Ok M N zero c) (ht : c.onTime = true) : c.InTime l := by
  cases l with
  | load =>
    intro id tail rest counts hc u hu
    rw [onTime, hc] at ht
    simp only [hu, Option.all_some, decide_eq_true_eq] at ht
    exact (head_le_iff (h.subscriber_ok hu)).mp ht
  | _ => trivial

end Count

/-- The consumer takes the only event between the two loads: none is left by the second one. -/
theorem pending_sound_one : ∃ c : LogChannel (Fin 1) Nat, c.topic.contents.consumerTail = 1 ∧
    c.counting = .returned 0 ∧ c.Sound 2 2 := by
  have hrun : (Machine.exec (Machine.restrict (step 2 2) fun c _ _ => c.onTime) (.new 2 0 : LogChannel (Fin 1) Nat)
      [.createStreamForNewEvents, .topic (.publish 0 (.movable 5)), .topic (.run 0 false), .topic (.run 0 false),
       .topic (.run 0 false), .count, .load, .topic (.consume 0), .topic (.runConsume 0 false), .load, .load]).map
      (fun c => decide (c.topic.contents.consumerTail = 1 ∧ c.counting = .returned 0)) = some true := by
    decide +kernel
  obtain ⟨c, hc, ht⟩ := Option.map_eq_some_iff.mp hrun
  rw [decide_eq_true_iff] at ht
  refine ⟨c, ht.1, ht.2, (pending_sound_iff ⟨1, rfl⟩ 2 0 _).mpr ⟨?_, ?_⟩ c
    (.of_exec (Machine.Path.of_exec_restrict (fun _ _ _ _ => trivial) hc).exec_eq)⟩
  · intro c l c' ho
    exact (Ok.of_reached ⟨1, rfl⟩ ho.before).inTime_of_onTime (ho.of_exec_restrict hc)
  · intro c hreached _
    exact (Ok.of_reached ⟨1, rfl⟩ hreached).not_hidden (by decide)

section Behind
variable {N : Nat} {c : LogChannel (Fin 1) Nat}

/-- The only stream has consumed none of the `n` events. -/
structure Behind (c : LogChannel (Fin 1) Nat) (n : Nat) : Prop where
  publisher : (c.topic.publishing 0).forget = .idle
  subscribers : c.topic.subscribers = [.new .dynamic 0]
  counting : c.counting = .idle
  inUse : c.streams.inUse 1 = [0]
  subscriber : c.subscribers 0 = 0
  tails : c.topic.contents.publisherTail = n ∧ c.topic.contents.consumerTail = n

theorem Behind.publish {n : Nat} (h : Behind c n) (hn : n < N) :
    ∃ c', Machine.exec (step 1 N) c [.topic (.publish 0 (.movable 0)), .topic (.run 0 false), .topic (.run 0 false),
      .topic (.run 0 false)] = some c' ∧ Behind c' (n + 1) := by
  obtain ⟨hp, hsubs, hcounting, hin, hsub, hpt, hct⟩ := h
  have hstart : ∀ p, c.topic.step N (.publish 0 p) = some (c.topic.setPublishing 0 (.reserve p)) := by
    intro p
    unfold Sys.step
    cases ho : c.topic.publishing 0 with
    | idle | published r => simp only [ho]
    | reserve q | write q m | publish q m x => simp [ho, Publishing.forget] at hp
  have hrun : ∀ s : Sys (Fin 1) Nat, s.step N (.run 0 false) = s.run N 0 false := fun _ => rfl
  let contents : MMapContents Nat := ⟨n + 1, n + 1, Function.update c.topic.contents.buffer n 0⟩
  let result := FullSyncMove.nonZeroU32 (1 + UInt32.ofNat n)
  refine ⟨{ c with topic := { c.topic with
    contents, publishing := Function.update c.topic.publishing 0 (.published result),
    log := c.topic.log ++ [⟨0, .movable 0, 0⟩] } }, ?_, ?_⟩
  · simp [Machine.exec, step, stepping, hstart, hrun, Sys.run, Sys.setPublishing, hpt, hct, hn, contents, result,
      AtomicMove.Payload.store]
  · exact ⟨by simp [Publishing.forget], hsubs, hcounting, hin, hsub, rfl, rfl⟩

theorem exists_behind (n : Nat) (hn : n ≤ N) : ∃ labels c,
    Machine.exec (step 1 N) (.new 1 0 : LogChannel (Fin 1) Nat) labels = some c ∧ Behind c n := by
  induction n with
  | zero =>
    refine ⟨[.createStreamForNewEvents], _, rfl, ?_⟩
    exact ⟨rfl, rfl, rfl, by decide +kernel, by decide +kernel, rfl, rfl⟩
  | succ n ih =>
    obtain ⟨labels, c, hc, hb⟩ := ih (by omega)
    obtain ⟨c', hc', hb'⟩ := hb.publish (N := N) (by omega)
    exact ⟨_, c', by rw [Machine.exec_append, hc]; exact hc', hb'⟩

theorem Behind.quiet {n : Nat} (h : Behind c n) : c.Quiet := by
  refine ⟨fun t => ?_, fun u hu => ?_, by rw [h.counting]; rfl⟩
  · obtain rfl : t = 0 := Subsingleton.elim t 0
    exact h.publisher
  · rw [h.subscribers, List.mem_singleton] at hu
    rw [hu]
    rfl

theorem Behind.subscriber_eq {n : Nat} (h : Behind c n) : c.subscriber 0 = some (.new .dynamic 0) := by
  rw [LogChannel.subscriber, h.subscriber, h.subscribers]
  rfl

end Behind

/-- A stream is polled before there is any event, in between the two loads; and a stream lags `2 ^ 32` events behind. -/
theorem pending_wrong :
    (∃ labels c, Machine.Reached (step 1 (2 ^ 38)) (.new 1 0 : LogChannel (Fin 1) Nat) labels c ∧
      c.counting = .underflowed) ∧
    (∃ labels c, Machine.Reached (step 1 (2 ^ 38)) (.new 1 0 : LogChannel (Fin 1) Nat) labels c ∧ c.Quiet ∧
      c.atRest.pendingItemsCount = 0 ∧ ¬ c.AllConsumed 1) := by
  constructor
  · have hrun : (Machine.exec (step 1 (2 ^ 38)) (.new 1 0 : LogChannel (Fin 1) Nat)
        [.createStreamForNewEvents, .count, .load, .topic (.consume 0), .topic (.runConsume 0 false), .load]).map
        (fun c => decide (c.counting = .underflowed)) = some true := by
      decide +kernel
    obtain ⟨c, hc, ht⟩ := Option.map_eq_some_iff.mp hrun
    exact ⟨_, c, .of_exec hc, of_decide_eq_true ht⟩
  · obtain ⟨labels, c, hc, hb⟩ := exists_behind (N := 2 ^ 38) (2 ^ 32) (by omega)
    have hreached := Machine.Reached.of_exec hc
    have hok : Ok 1 (2 ^ 38) 0 c := .of_reached ⟨0, rfl⟩ hreached
    have hlen : c.topic.values.length = 2 ^ 32 := hok.topic.values_length.trans hb.tails.2
    have hremaining : c.remaining 0 = 2 ^ 32 := by
      rw [remaining_of_subscriber hb.subscriber_eq, hlen]
      rfl
    refine ⟨labels, c, hreached, hb.quiet, ?_, fun hall => ?_⟩
    · rw [MmapLog.pendingItemsCount, show c.atRest.streamsManager.usedIds = c.streams.inUse 1 from
        hok.streams.usedIds_eq ⟨0, rfl⟩, hb.inUse]
      show UInt32.ofNat (([0].map c.remaining).max?.getD 0) = 0
      rw [List.map_singleton, hremaining]
      rfl
    · have hzero := (hok.allConsumed_iff hb.quiet).mp hall 0 (by rw [hb.inUse]; exact List.mem_cons_self)
      rw [hremaining] at hzero
      exact absurd hzero (by decide)

end LogChannel
end Mutiny
