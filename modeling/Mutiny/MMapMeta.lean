import Mutiny.AtomicMove
import Mutiny.FullSyncMove
import Mutiny.Lib.Machine
import Mutiny.Lib.Ticket

/-!
# `MMapMeta`, the log topic

`ogre_queues/log_topics/mmap_meta.rs`, one atomic operation or slot access at a time. A publisher takes the
next slot from `publisher_tail`, fills it and waits for its turn to move `consumer_tail` past it, so the log
is what lies below `consumer_tail`, and it only grows. A subscriber belongs to one thread at a time; its
`head` runs one ahead during a call and is set back when there was nothing to consume.

The counters are of type `usize` and count the publications; `N` is `max_slots`, and an access beyond it has no
result. `subscribe_to_old_events_only` is not implemented in the source.
-/

namespace Mutiny
open AtomicMove (Payload)

structure MMapContents (α : Type) where
  publisherTail : Nat
  consumerTail : Nat
  buffer : Nat → α

namespace MMapMeta
variable {τ α : Type}

/-- Where a publisher stands in `publish` or `publish_movable`. -/
inductive Publishing (α : Type)
  | idle
  -- about to `publisher_tail.fetch_add(1)`
  | reserve (p : Payload α)
  -- about to fill the slot
  | write (p : Payload α) (tail : Nat)
  -- about to compare-exchange `consumer_tail`; `stored` was put into the slot
  | publish (p : Payload α) (tail : Nat) (stored : α)
  -- returned `(NonZeroU32::new(1 + tail as u32), None)`
  | published (result : Option UInt32)

def Publishing.slot : Publishing α → Option Nat
  | write _ tail | publish _ tail _ => some tail
  | _ => none

/-- `MMapMetaSubscriber` -/
inductive Kind
  | dynamic
  | fixed (fixedTail : Nat)

inductive Consuming
  | idle
  -- about to `head.fetch_add(1)`
  | reserve
  -- about to load `consumer_tail`
  | load (head : Nat)
  -- about to set `head` back
  | recede (head tail : Nat)
  -- about to call `getter_fn(slot_ref)`
  | read (head tail : Nat)

inductive Returned (α : Type)
  -- `Some(item)`; `len` was reported
  | item (item : α) (len : Int32)
  -- `None`, since `head` was not below `tail`
  | none (tail : Nat)

def Returned.value : Returned α → Option α
  | item x _ => some x
  | none _ => Option.none

/-- A subscriber; `start` is its first `head`, and `returned` are the results of its calls. -/
structure Subscriber (α : Type) where
  kind : Kind
  head : Nat
  op : Consuming
  start : Nat
  returned : List (Returned α)

namespace Subscriber

def new (kind : Kind) (start : Nat) : Subscriber α := ⟨kind, start, .idle, start, []⟩

def yielded (u : Subscriber α) : List α := u.returned.filterMap Returned.value

/-- The part of a log that the subscriber is for. -/
def source (u : Subscriber α) (log : List α) : List α :=
  match u.kind with
  | .dynamic => log.drop u.start
  | .fixed fixedTail => log.take fixedTail

end Subscriber

structure Entry (τ α : Type) where
  publisher : τ
  payload : Payload α
  value : α

/-- The topic, its publishers and its subscribers. `log` are the entries exposed so far, and `pairs` the
subscribers created together, the one for the old events first. -/
structure Sys (τ α : Type) where
  contents : MMapContents α
  publishing : τ → Publishing α
  subscribers : List (Subscriber α)
  log : List (Entry τ α)
  pairs : List (Nat × Nat)

inductive Label (τ α : Type)
  -- `publish(setter)` or `publish_movable(item)`
  | publish (t : τ) (p : Payload α)
  -- the next step of publisher `t`
  | run (t : τ) (spurious : Bool)
  | subscribeToNewEventsOnly
  | subscribeToSeparatedOldAndNewEvents
  | subscribeToJoinedOldAndNewEvents
  -- a call of `consume` on the `i`-th subscriber
  | consume (i : Nat)
  -- its next step
  | runConsume (i : Nat) (spurious : Bool)

namespace Sys

def new (zero : α) : Sys τ α := ⟨⟨0, 0, fun _ => zero⟩, fun _ => .idle, [], [], []⟩

def values (s : Sys τ α) : List α := s.log.map Entry.value

def setSubscriber (s : Sys τ α) (i : Nat) (u : Subscriber α) : Sys τ α :=
  { s with subscribers := s.subscribers.set i u }

def subscribe (s : Sys τ α) (kind : Kind) (start : Nat) : Sys τ α :=
  { s with subscribers := s.subscribers ++ [.new kind start] }

def runConsume (N : Nat) (s : Sys τ α) (i : Nat) (u : Subscriber α) (spurious : Bool) : Option (Sys τ α) :=
  match u.op with
  | .idle => none
  | .reserve =>
    let head := u.head
    match u.kind with
    | .dynamic => some (s.setSubscriber i { u with head := head + 1, op := .load head })
    | .fixed fixedTail =>
      if head ≥ fixedTail then some (s.setSubscriber i { u with head := head + 1, op := .recede head fixedTail })
      else some (s.setSubscriber i { u with head := head + 1, op := .read head fixedTail })
  | .load head =>
    let tail := s.contents.consumerTail
    if head ≥ tail then some (s.setSubscriber i { u with op := .recede head tail })
    else some (s.setSubscriber i { u with op := .read head tail })
  | .recede head tail =>
    if spurious = false ∧ u.head = head + 1 then
      some (s.setSubscriber i { u with head := head, op := .idle, returned := u.returned ++ [.none tail] })
    else some s
  | .read head tail =>
    if head < N then
      let item := s.contents.buffer head
      let len := Int32.ofNat (tail - head)
      some (s.setSubscriber i { u with op := .idle, returned := u.returned ++ [.item item len] })
    else none

variable [DecidableEq τ]

def setPublishing (s : Sys τ α) (t : τ) (o : Publishing α) : Sys τ α :=
  { s with publishing := Function.update s.publishing t o }

def run (N : Nat) (s : Sys τ α) (t : τ) (spurious : Bool) : Option (Sys τ α) :=
  match s.publishing t with
  | .idle | .published _ => none
  | .reserve p =>
    let tail := s.contents.publisherTail
    some ({ s with contents := { s.contents with publisherTail := tail + 1 } }.setPublishing t (.write p tail))
  | .write p tail =>
    if tail < N then
      let stored := p.store (s.contents.buffer tail)
      some ({ s with contents := { s.contents with
        buffer := Function.update s.contents.buffer tail stored } }.setPublishing t (.publish p tail stored))
    else none
  | .publish p tail stored =>
    if spurious = false ∧ s.contents.consumerTail = tail then
      some ({ s with contents := { s.contents with consumerTail := tail + 1 },
                     log := s.log ++ [Entry.mk t p stored] }.setPublishing t
        (.published (FullSyncMove.nonZeroU32 (1 + UInt32.ofNat tail))))
    else some s

def step (N : Nat) (s : Sys τ α) : Label τ α → Option (Sys τ α)
  | .publish t p =>
    match s.publishing t with
    | .idle | .published _ => some (s.setPublishing t (.reserve p))
    | _ => none
  | .run t spurious => s.run N t spurious
  | .subscribeToNewEventsOnly => some (s.subscribe .dynamic s.contents.consumerTail)
  | .subscribeToSeparatedOldAndNewEvents =>
    let tail := s.contents.consumerTail
    some { (s.subscribe (.fixed tail) 0).subscribe .dynamic tail with
      pairs := s.pairs ++ [(s.subscribers.length, s.subscribers.length + 1)] }
  | .subscribeToJoinedOldAndNewEvents => some (s.subscribe .dynamic 0)
  | .consume i => do
    let u ← s.subscribers[i]?
    match u.op with
    | .idle => some (s.setSubscriber i { u with op := .reserve })
    | _ => none
  | .runConsume i spurious => do
    let u ← s.subscribers[i]?
    s.runConsume N i u spurious

/-- At most `max_slots` publishes, and fewer than `2 ^ 32`. -/
def Bounded (N : Nat) (s : Sys τ α) : Prop := s.contents.publisherTail ≤ N ∧ s.contents.publisherTail < 2 ^ 32

instance (N : Nat) (s : Sys τ α) : Decidable (s.Bounded N) := inferInstanceAs (Decidable (_ ∧ _))

theorem run_cases {N : Nat} {s s' : Sys τ α} {t : τ} {spurious : Bool} (hs : s.run N t spurious = some s') :
    (∃ p, s.publishing t = .reserve p ∧
      s' = { s with contents := { s.contents with publisherTail := s.contents.publisherTail + 1 } }.setPublishing t
        (.write p s.contents.publisherTail)) ∨
    (∃ p tail, s.publishing t = .write p tail ∧ tail < N ∧
      s' = { s with contents := { s.contents with
        buffer := Function.update s.contents.buffer tail (p.store (s.contents.buffer tail)) } }.setPublishing t
          (.publish p tail (p.store (s.contents.buffer tail)))) ∨
    ∃ p tail stored, s.publishing t = .publish p tail stored ∧
      ((spurious = false ∧ s.contents.consumerTail = tail ∧
        s' = { s with contents := { s.contents with consumerTail := tail + 1 },
                      log := s.log ++ [Entry.mk t p stored] }.setPublishing t
          (.published (FullSyncMove.nonZeroU32 (1 + UInt32.ofNat tail)))) ∨ s' = s) := by
  unfold run at hs
  cases ho : s.publishing t with
  | idle => simp only [ho, reduceCtorEq] at hs
  | published result => simp only [ho, reduceCtorEq] at hs
  | reserve p =>
    simp only [ho, Option.some.injEq] at hs
    exact .inl ⟨p, rfl, hs.symm⟩
  | write p tail =>
    simp only [ho, Option.ite_none_right_eq_some, Option.some.injEq] at hs
    exact .inr (.inl ⟨p, tail, rfl, hs.1, hs.2.symm⟩)
  | publish p tail stored =>
    simp only [ho] at hs
    refine .inr (.inr ⟨p, tail, stored, rfl, ?_⟩)
    split at hs
    case isTrue hc => exact .inl ⟨hc.1, hc.2, (Option.some.inj hs).symm⟩
    case isFalse => exact .inr (Option.some.inj hs).symm

end Sys

/-! ### One subscriber -/

/-- The place in the log up to which a subscriber may have got. -/
def Kind.Within (kind : Kind) (start : Nat) (log : List α) : Prop :=
  match kind with
  | .dynamic => start ≤ log.length
  | .fixed fixedTail => start = 0 ∧ fixedTail ≤ log.length

/-- The tail that the calls of a fixed subscriber are compared with. -/
def Kind.TailOk (kind : Kind) (tail : Nat) : Prop :=
  match kind with
  | .dynamic => True
  | .fixed fixedTail => tail = fixedTail

/-- During a call, `next` being the index to be consumed next. -/
def Consuming.Ok (kind : Kind) (log : List α) (head next : Nat) : Consuming → Prop
  | .idle | .reserve => head = next
  | .load h => head = h + 1 ∧ h = next ∧ kind = .dynamic
  | .recede h tail => head = h + 1 ∧ h = next ∧ tail = next ∧ kind.TailOk tail
  | .read h tail => head = h + 1 ∧ h = next ∧ h < tail ∧ tail ≤ log.length ∧ kind.TailOk tail

namespace Subscriber
variable {log : List α} {u : Subscriber α}

def next (u : Subscriber α) : Nat := u.start + u.yielded.length

structure Ok (log : List α) (u : Subscriber α) : Prop where
  within : u.kind.Within u.start log
  yields : u.yielded <+: u.source log
  op : u.op.Ok u.kind log u.head u.next
  /-- `None` was returned when everything below the tail had been yielded. -/
  none : ∀ n tail, u.returned[n]? = some (.none tail) →
    tail = u.start + ((u.returned.take n).filterMap Returned.value).length
  fixed : ∀ fixedTail, u.kind = .fixed fixedTail → u.yielded.length = min u.returned.length fixedTail ∧
    u.returned.map Returned.value = (List.range u.returned.length).map fun n => (log.take fixedTail)[n]?

theorem yielded_append (u : Subscriber α) (r : Returned α) :
    (u.returned ++ [r]).filterMap Returned.value = u.yielded ++ r.value.toList := by
  rw [List.filterMap_append]
  cases r <;> rfl

theorem Ok.next_le (h : u.Ok log) :
    u.next ≤ log.length ∧ ∀ fixedTail, u.kind = .fixed fixedTail → u.next ≤ fixedTail := by
  have hle := h.yields.length_le
  have hw := h.within
  unfold next source at *
  cases hk : u.kind with
  | dynamic =>
    simp only [hk, Kind.Within, List.length_drop] at hle hw
    exact ⟨by omega, fun _ he => by cases he⟩
  | fixed fixedTail =>
    simp only [hk, Kind.Within, List.length_take] at hle hw
    refine ⟨by omega, fun _ he => ?_⟩
    cases he
    omega

theorem Ok.source_next (h : u.Ok log)
    (hf : ∀ fixedTail, u.kind = .fixed fixedTail → u.next < fixedTail) :
    (u.source log)[u.yielded.length]? = log[u.next]? := by
  have hw := h.within
  unfold next source at *
  cases hk : u.kind with
  | dynamic => rw [List.getElem?_drop]
  | fixed fixedTail =>
    simp only [hk, Kind.Within] at hw
    have := hf fixedTail hk
    rw [List.getElem?_take_of_lt (by omega), hw.1, Nat.zero_add]

theorem Ok.append (h : u.Ok log) (v : α) : u.Ok (log ++ [v]) := by
  have hw := h.within
  refine ⟨?_, ?_, ?_, h.none, fun fixedTail hk => ?_⟩
  · unfold Kind.Within at *
    cases hk : u.kind with
    | dynamic => simp only [hk, List.length_append] at hw ⊢; omega
    | fixed fixedTail =>
      simp only [hk, List.length_append] at hw ⊢
      exact ⟨hw.1, by omega⟩
  · refine h.yields.trans ?_
    unfold source Kind.Within at *
    cases hk : u.kind with
    | dynamic =>
      simp only [hk] at hw ⊢
      rw [List.drop_append_of_le_length hw]
      exact List.prefix_append ..
    | fixed fixedTail =>
      simp only [hk] at hw ⊢
      rw [List.take_append_of_le_length hw.2]
  · have hop := h.op
    cases ho : u.op with
    | read head tail =>
      rw [ho] at hop
      obtain ⟨h₁, h₂, h₃, h₄, h₅⟩ := hop
      exact ⟨h₁, h₂, h₃, by rw [List.length_append]; omega, h₅⟩
    | _ => rw [ho] at hop; exact hop
  · simp only [hk, Kind.Within] at hw
    rw [List.take_append_of_le_length hw.2]
    exact h.fixed fixedTail hk

theorem Ok.goOn (h : u.Ok log) (head : Nat) (op : Consuming) (hop : op.Ok u.kind log head u.next) :
    Ok log { u with head := head, op := op } :=
  ⟨h.within, h.yields, hop, h.none, h.fixed⟩

theorem Ok.ret {head : Nat} {r : Returned α} (h : u.Ok log) (hy : u.yielded ++ r.value.toList <+: u.source log)
    (hhead : head = u.next + r.value.toList.length) (hnone : ∀ tail, r = .none tail → tail = u.next)
    (hfixed : ∀ fixedTail, u.kind = .fixed fixedTail →
      u.yielded.length + r.value.toList.length = min (u.returned.length + 1) fixedTail ∧
      r.value = (log.take fixedTail)[u.returned.length]?) :
    Ok log { u with head := head, op := .idle, returned := u.returned ++ [r] } := by
  have hyield : Subscriber.yielded { u with head := head, op := .idle, returned := u.returned ++ [r] } =
      u.yielded ++ r.value.toList := yielded_append u r
  refine ⟨h.within, ?_, ?_, fun n tail hn => ?_, fun fixedTail hk => ?_⟩
  · rw [hyield]
    exact hy
  · show head = u.start + _
    rw [hyield, hhead, List.length_append, next, Nat.add_assoc]
  · change (u.returned ++ [r])[n]? = some (.none tail) at hn
    rcases Nat.lt_trichotomy n u.returned.length with hlt | rfl | hgt
    · rw [List.getElem?_append_left hlt] at hn
      rw [List.take_append_of_le_length (Nat.le_of_lt hlt)]
      exact h.none n tail hn
    · rw [List.getElem?_concat_length, Option.some.injEq] at hn
      rw [List.take_left']
      · exact hnone tail hn
      · rfl
    · have := (List.getElem?_eq_some_iff.mp hn).1
      rw [List.length_append, List.length_singleton] at this
      omega
  · obtain ⟨h₁, h₂⟩ := h.fixed fixedTail hk
    obtain ⟨h₃, h₄⟩ := hfixed fixedTail hk
    refine ⟨?_, ?_⟩
    · rw [hyield, List.length_append, List.length_append, List.length_singleton]
      exact h₃
    · rw [List.map_append, h₂, List.length_append, List.length_singleton, List.range_succ, List.map_append,
        List.map_singleton, List.map_singleton, h₄]

theorem Ok.retNone {tail : Nat} (h : u.Ok log) (hop : u.op = .recede u.next tail) :
    Ok log { u with head := u.next, op := .idle, returned := u.returned ++ [.none tail] } := by
  have ho := h.op
  rw [hop] at ho
  obtain ⟨-, -, rfl, htail⟩ := ho
  refine h.ret (r := .none u.next) ?_ rfl (fun tail he => by cases he; rfl) fun fixedTail hk => ?_
  · rw [show (Returned.none u.next : Returned α).value.toList = [] from rfl, List.append_nil]
    exact h.yields
  · obtain ⟨hlen, -⟩ := h.fixed fixedTail hk
    have hw := h.within
    simp only [hk, Kind.Within, Kind.TailOk] at hw htail
    have hnext : u.next = u.start + u.yielded.length := rfl
    refine ⟨?_, ?_⟩
    · show u.yielded.length + 0 = _
      omega
    · show Option.none = _
      rw [List.getElem?_eq_none]
      rw [List.length_take]
      omega

theorem Ok.retItem {tail : Nat} {x : α} {len : Int32} (h : u.Ok log) (hop : u.op = .read u.next tail)
    (hx : log[u.next]? = some x) :
    Ok log { u with op := .idle, returned := u.returned ++ [.item x len] } := by
  have ho := h.op
  rw [hop] at ho
  obtain ⟨hhead, -, hlt, hle, htail⟩ := ho
  have hf : ∀ fixedTail, u.kind = .fixed fixedTail → u.next < fixedTail := by
    intro fixedTail hk
    simp only [hk, Kind.TailOk] at htail
    omega
  have hsource := (h.source_next hf).trans hx
  refine h.ret (r := .item x len) ?_ hhead (fun tail he => by cases he) fun fixedTail hk => ?_
  · obtain ⟨rest, hrest⟩ := h.yields
    rw [← hrest, List.getElem?_append_right (Nat.le_refl _), Nat.sub_self] at hsource
    rw [← hrest]
    cases rest with
    | nil => cases hsource
    | cons y rest =>
      cases hsource
      exact ⟨rest, by rw [List.append_assoc]; rfl⟩
  · obtain ⟨hlen, -⟩ := h.fixed fixedTail hk
    have hlt' := hf fixedTail hk
    have hw := h.within
    simp only [hk, Kind.Within] at hw
    have hnext : u.next = u.start + u.yielded.length := rfl
    have hn : u.returned.length = u.next := by omega
    refine ⟨?_, ?_⟩
    · show u.yielded.length + 1 = _
      omega
    · show some x = _
      rw [hn, List.getElem?_take_of_lt hlt', hx]

end Subscriber

/-! ### The invariant -/

section Inv
variable {N : Nat} {zero : α} {s s' : Sys τ α} {t : τ} {i : Nat} {u : Subscriber α}

/-- What holds of a publisher. -/
def Publishing.Ok (zero : α) (contents : MMapContents α) : Publishing α → Prop
  | .idle | .reserve _ => True
  | .write _ tail => contents.buffer tail = zero
  | .publish p tail stored => contents.buffer tail = stored ∧ stored = p.store zero
  | .published result => ∃ n < contents.consumerTail, result = some (UInt32.ofNat (n + 1))

structure Inv (zero : α) (s : Sys τ α) : Prop where
  window : Ticket.Window s.contents.consumerTail s.contents.publisherTail fun t => (s.publishing t).slot
  publisher : ∀ t, (s.publishing t).Ok zero s.contents
  untouched : ∀ n, s.contents.publisherTail ≤ n → s.contents.buffer n = zero
  length : s.log.length = s.contents.consumerTail
  entry : ∀ n e, s.log[n]? = some e → s.contents.buffer n = e.value ∧ e.value = e.payload.store zero
  subscriber : ∀ (i : Nat) (u : Subscriber α), s.subscribers[i]? = some u → u.Ok s.values
  pair : ∀ i j, (i, j) ∈ s.pairs → ∃ old new tail, s.subscribers[i]? = some old ∧ s.subscribers[j]? = some new ∧
    old.kind = .fixed tail ∧ new.kind = .dynamic ∧ new.start = tail

namespace Inv

theorem new (zero : α) : Inv zero (.new zero : Sys τ α) where
  window := .empty 0
  publisher _ := trivial
  untouched _ _ := rfl
  length := rfl
  entry _ _ h := by cases h
  subscriber _ _ h := by cases h
  pair _ _ h := by cases h

theorem values_length (h : Inv zero s) : s.values.length = s.contents.consumerTail := by
  rw [Sys.values, List.length_map, h.length]

theorem buffer_eq (h : Inv zero s) {n : Nat} (hn : n < s.contents.consumerTail) :
    s.values[n]? = some (s.contents.buffer n) := by
  have hlt : n < s.log.length := by rw [h.length]; exact hn
  rw [Sys.values, List.getElem?_map, List.getElem?_eq_getElem hlt, Option.map_some,
    (h.entry n _ (List.getElem?_eq_getElem hlt)).1]

theorem setSubscriber {u' : Subscriber α} (h : Inv zero s) (hu : s.subscribers[i]? = some u) (hok : u'.Ok s.values)
    (hk : u'.kind = u.kind) (hstart : u'.start = u.start) : Inv zero (s.setSubscriber i u') := by
  have hlt := (List.getElem?_eq_some_iff.mp hu).1
  refine { h with subscriber := fun j v hv => ?_, pair := fun j k hjk => ?_ }
  · change (s.subscribers.set i u')[j]? = some v at hv
    by_cases hij : i = j
    · subst hij
      rw [List.getElem?_set_self hlt, Option.some.injEq] at hv
      subst hv
      exact hok
    · rw [List.getElem?_set_ne hij] at hv
      exact h.subscriber j v hv
  · have hset : ∀ (j : Nat) (v : Subscriber α), s.subscribers[j]? = some v →
        ∃ v' : Subscriber α, (s.subscribers.set i u')[j]? = some v' ∧ v'.kind = v.kind ∧ v'.start = v.start := by
      intro j v hv
      by_cases hij : i = j
      · subst hij
        cases hu.symm.trans hv
        exact ⟨u', List.getElem?_set_self hlt, hk, hstart⟩
      · exact ⟨v, by rw [List.getElem?_set_ne hij]; exact hv, rfl, rfl⟩
    obtain ⟨old, new, tail, h₁, h₂, h₃, h₄, h₅⟩ := h.pair j k hjk
    obtain ⟨old', ho, hok, -⟩ := hset j old h₁
    obtain ⟨new', hn, hnk, hns⟩ := hset k new h₂
    exact ⟨old', new', tail, ho, hn, hok.trans h₃, hnk.trans h₄, hns.trans h₅⟩

theorem runConsume {spurious : Bool} (h : Inv zero s) (hu : s.subscribers[i]? = some u)
    (hs : s.runConsume N i u spurious = some s') : Inv zero s' := by
  have hok := h.subscriber i u hu
  have hop := hok.op
  obtain ⟨hnext, hfixed⟩ := hok.next_le
  have hlen := h.values_length
  unfold Sys.runConsume at hs
  cases ho : u.op with
  | idle => simp only [ho, reduceCtorEq] at hs
  | reserve =>
    simp only [ho] at hs hop
    have hhead : u.head = u.next := hop
    cases hk : u.kind with
    | dynamic =>
      simp only [hk] at hs
      cases hs
      refine h.setSubscriber hu ?_ hk.symm rfl
      rw [← hk]
      exact hok.goOn (u.head + 1) (.load u.head) ⟨rfl, hop, hk⟩
    | fixed fixedTail =>
      simp only [hk] at hs
      have hle := hfixed fixedTail hk
      have hw := hok.within
      simp only [hk, Kind.Within] at hw
      have htail : u.kind.TailOk fixedTail := by rw [hk]; rfl
      split at hs
      case isTrue hge =>
        cases hs
        refine h.setSubscriber hu ?_ hk.symm rfl
        rw [← hk]
        exact hok.goOn (u.head + 1) (.recede u.head fixedTail) ⟨rfl, hop, by omega, htail⟩
      case isFalse hlt =>
        cases hs
        refine h.setSubscriber hu ?_ hk.symm rfl
        rw [← hk]
        exact hok.goOn (u.head + 1) (.read u.head fixedTail) ⟨rfl, hop, by omega, hw.2, htail⟩
  | load head =>
    simp only [ho] at hs hop
    obtain ⟨h₁, h₂, h₃⟩ := hop
    have htail : ∀ tail, u.kind.TailOk tail := by
      intro tail
      rw [h₃]
      trivial
    split at hs
    case isTrue hge =>
      cases hs
      exact h.setSubscriber hu (hok.goOn u.head (.recede head _) ⟨h₁, h₂, by omega, htail _⟩) rfl rfl
    case isFalse hlt =>
      cases hs
      exact h.setSubscriber hu (hok.goOn u.head (.read head _) ⟨h₁, h₂, by omega, by omega, htail _⟩) rfl rfl
  | recede head tail =>
    simp only [ho] at hs hop
    obtain ⟨h₁, h₂, h₃, h₄⟩ := hop
    subst h₂
    split at hs
    · cases hs
      exact h.setSubscriber hu (hok.retNone ho) rfl rfl
    · cases hs
      exact h
  | read head tail =>
    simp only [ho] at hs hop
    obtain ⟨h₁, h₂, h₃, h₄, h₅⟩ := hop
    subst h₂
    split at hs
    · cases hs
      exact h.setSubscriber hu (hok.retItem ho (h.buffer_eq (by omega))) rfl rfl
    · cases hs

theorem subscriber_new (kind : Kind) (start : Nat) (log : List α) (hw : kind.Within start log) :
    (Subscriber.new kind start).Ok log where
  within := hw
  yields := List.nil_prefix
  op := rfl
  none _ _ hn := by cases hn
  fixed _ _ := ⟨(Nat.zero_min _).symm, rfl⟩

theorem subscribe {kind : Kind} {start : Nat} (h : Inv zero s) (hw : kind.Within start s.values) :
    Inv zero (s.subscribe kind start) := by
  refine { h with subscriber := fun j v hv => ?_, pair := fun j k hjk => ?_ }
  · change (s.subscribers ++ [.new kind start])[j]? = some v at hv
    rcases List.mem_append.mp (List.mem_of_getElem? hv) with hmem | hmem
    · obtain ⟨k, hk⟩ := List.mem_iff_getElem?.mp hmem
      exact h.subscriber k v hk
    · rw [List.mem_singleton] at hmem
      subst hmem
      exact subscriber_new kind start _ hw
  · obtain ⟨old, new, tail, h₁, h₂, h₃⟩ := h.pair j k hjk
    have hstays : ∀ (n : Nat) (v : Subscriber α), s.subscribers[n]? = some v →
        (s.subscribers ++ [.new kind start])[n]? = some v := by
      intro n v hv
      rw [List.getElem?_append_left (List.getElem?_eq_some_iff.mp hv).1]
      exact hv
    exact ⟨old, new, tail, hstays j old h₁, hstays k new h₂, h₃⟩

theorem subscribePair (h : Inv zero s) :
    Inv zero { (s.subscribe (.fixed s.contents.consumerTail) 0).subscribe .dynamic s.contents.consumerTail with
      pairs := s.pairs ++ [(s.subscribers.length, s.subscribers.length + 1)] } := by
  have hlen := h.values_length
  have h₁ : Inv zero (s.subscribe (.fixed s.contents.consumerTail) 0) :=
    h.subscribe ⟨rfl, Nat.le_of_eq hlen.symm⟩
  have h₂ : Inv zero ((s.subscribe (.fixed s.contents.consumerTail) 0).subscribe .dynamic s.contents.consumerTail) :=
    h₁.subscribe (Nat.le_of_eq hlen.symm)
  refine { h₂ with pair := fun j k hjk => ?_ }
  rcases List.mem_append.mp hjk with hmem | hmem
  · exact h₂.pair j k hmem
  · rw [List.mem_singleton] at hmem
    cases hmem
    refine ⟨.new (.fixed s.contents.consumerTail) 0, .new .dynamic s.contents.consumerTail, s.contents.consumerTail,
      ?_, ?_, rfl, rfl, rfl⟩
    · show (s.subscribers ++ [_] ++ [_])[s.subscribers.length]? = _
      rw [List.append_assoc, List.getElem?_append_right (Nat.le_refl _), Nat.sub_self]
      rfl
    · show (s.subscribers ++ [_] ++ [_])[s.subscribers.length + 1]? = _
      rw [List.append_assoc, List.getElem?_append_right (Nat.le_add_right ..), Nat.add_sub_cancel_left]
      rfl

variable [DecidableEq τ]

theorem slot_update (s : Sys τ α) (t : τ) (o : Publishing α) :
    (fun u => ((Function.update s.publishing t o) u).slot) =
      Function.update (fun u => (s.publishing u).slot) t o.slot := by
  funext u
  by_cases hu : u = t
  · subst hu
    rw [Function.update_self, Function.update_self]
  · rw [Function.update_of_ne hu, Function.update_of_ne hu]

theorem slot_update_same {o : Publishing α} (h : (s.publishing t).slot = o.slot) :
    Function.update (fun u => (s.publishing u).slot) t o.slot = fun u => (s.publishing u).slot := by
  rw [← h]
  exact Function.update_eq_self t _

theorem setPublishing {o : Publishing α} {c : MMapContents α} (h : Inv zero s)
    (hwindow : Ticket.Window c.consumerTail c.publisherTail (Function.update (fun u => (s.publishing u).slot) t o.slot))
    (hoth : ∀ u ≠ t, (s.publishing u).Ok zero c) (ho : o.Ok zero c)
    (huntouched : ∀ n, c.publisherTail ≤ n → c.buffer n = zero) (hlen : s.contents.consumerTail = c.consumerTail)
    (hbuffer : ∀ n < s.contents.consumerTail, c.buffer n = s.contents.buffer n) :
    Inv zero ({ s with contents := c }.setPublishing t o) where
  window := by
    show Ticket.Window _ _ fun u => ((Function.update s.publishing t o) u).slot
    rw [slot_update]
    exact hwindow
  publisher u := by
    show (Function.update s.publishing t o u).Ok zero c
    by_cases hu : u = t
    · subst hu
      rw [Function.update_self]
      exact ho
    · rw [Function.update_of_ne hu]
      exact hoth u hu
  untouched := huntouched
  length := h.length.trans hlen
  entry n e he := by
    have hn : n < s.contents.consumerTail := by
      rw [← h.length]
      exact (List.getElem?_eq_some_iff.mp he).1
    exact ⟨(hbuffer n hn).trans (h.entry n e he).1, (h.entry n e he).2⟩
  subscriber := h.subscriber
  pair := h.pair

theorem reserve {p : Payload α} (h : Inv zero s) (ht : s.publishing t = .reserve p) :
    Inv zero ({ s with contents := { s.contents with publisherTail := s.contents.publisherTail + 1 } }.setPublishing t
      (.write p s.contents.publisherTail)) := by
  have hnone : (s.publishing t).slot = none := by rw [ht]; rfl
  refine h.setPublishing (h.window.acquire hnone) (fun u _ => ?_) (h.untouched _ (Nat.le_refl _))
    (fun n hn => h.untouched n (Nat.le_of_succ_le hn)) rfl fun n _ => rfl
  have hu := h.publisher u
  cases ho : s.publishing u <;> rw [ho] at hu <;> exact hu

theorem write {p : Payload α} {tail : Nat} (h : Inv zero s) (ht : s.publishing t = .write p tail) :
    Inv zero ({ s with contents := { s.contents with
      buffer := Function.update s.contents.buffer tail (p.store (s.contents.buffer tail)) } }.setPublishing t
        (.publish p tail (p.store (s.contents.buffer tail)))) := by
  have hslot : (s.publishing t).slot = some tail := by rw [ht]; rfl
  obtain ⟨hlo, hhi⟩ := h.window.range t tail hslot
  have hzero := h.publisher t
  rw [ht] at hzero
  have hwindow := h.window
  refine h.setPublishing ?_ (fun u hu => ?_) ⟨Function.update_self .., ?_⟩ (fun n hn => ?_) rfl fun n hn => ?_
  · rw [slot_update_same hslot]
    exact hwindow
  · -- no other publisher has the slot
    have hne : (s.publishing u).slot ≠ some tail := fun he => hu (h.window.inj u t tail he hslot)
    have hother := h.publisher u
    cases ho : s.publishing u with
    | write q n =>
      rw [ho] at hother hne
      have hn : n ≠ tail := fun he => hne (congrArg some he)
      exact (Function.update_of_ne hn ..).trans hother
    | publish q n stored =>
      rw [ho] at hother hne
      have hn : n ≠ tail := fun he => hne (congrArg some he)
      exact ⟨(Function.update_of_ne hn ..).trans hother.1, hother.2⟩
    | _ => rw [ho] at hother; exact hother
  · rw [show s.contents.buffer tail = zero from hzero]
  · exact (Function.update_of_ne (by change s.contents.publisherTail ≤ n at hn; omega) ..).trans (h.untouched n hn)
  · exact Function.update_of_ne (by omega) ..

/-- `consumer_tail` moves past the slot of `t`, which goes on to `o`. -/
theorem expose {p : Payload α} {tail : Nat} {stored : α} {o : Publishing α} (h : Inv zero s)
    (ht : s.publishing t = .publish p tail stored) (htail : s.contents.consumerTail = tail) (hslot : o.slot = none)
    (ho : o.Ok zero { s.contents with consumerTail := tail + 1 }) :
    Inv zero ({ s with contents := { s.contents with consumerTail := tail + 1 },
                       log := s.log ++ [Entry.mk t p stored] }.setPublishing t o) := by
  have hlow : (s.publishing t).slot = some s.contents.consumerTail := by rw [ht, htail]; rfl
  have hstored := h.publisher t
  rw [ht] at hstored
  have hlen := h.length
  have hvalues : s.values ++ [stored] = (s.log ++ [Entry.mk t p stored]).map Entry.value := by
    rw [List.map_append]
    rfl
  constructor
  case window =>
    show Ticket.Window (tail + 1) _ fun u => ((Function.update s.publishing t _) u).slot
    rw [slot_update, hslot, ← htail]
    exact h.window.complete hlow
  case publisher =>
    intro u
    show ((Function.update s.publishing t _) u).Ok zero _
    by_cases hu : u = t
    · subst hu
      rw [Function.update_self]
      exact ho
    · rw [Function.update_of_ne hu]
      have hother := h.publisher u
      cases ho : s.publishing u with
      | published result =>
        rw [ho] at hother
        obtain ⟨n, hn, hresult⟩ := hother
        exact ⟨n, Nat.lt_succ_of_lt (htail ▸ hn), hresult⟩
      | _ => rw [ho] at hother; exact hother
  case untouched => exact h.untouched
  case length =>
    show (s.log ++ [_]).length = tail + 1
    rw [List.length_append, List.length_singleton, hlen, htail]
  case entry =>
    intro n e he
    change (s.log ++ [Entry.mk t p stored])[n]? = some e at he
    rcases Nat.lt_or_ge n s.log.length with hn | hn
    · rw [List.getElem?_append_left hn] at he
      exact h.entry n e he
    · rw [List.getElem?_append_right hn, List.getElem?_singleton] at he
      split at he
      · cases he
        have hn' : n = tail := by omega
        exact ⟨hn' ▸ hstored.1, hstored.2⟩
      · cases he
  case subscriber =>
    intro i u hu
    show u.Ok ((s.log ++ [Entry.mk t p stored]).map Entry.value)
    rw [← hvalues]
    exact (h.subscriber i u hu).append stored
  case pair => exact h.pair

theorem publish {p : Payload α} {tail : Nat} {stored : α} (h : Inv zero s) (hb : s.contents.publisherTail < 2 ^ 32)
    (ht : s.publishing t = .publish p tail stored) (htail : s.contents.consumerTail = tail) :
    Inv zero ({ s with contents := { s.contents with consumerTail := tail + 1 },
                       log := s.log ++ [Entry.mk t p stored] }.setPublishing t
      (.published (FullSyncMove.nonZeroU32 (1 + UInt32.ofNat tail)))) := by
  have hslot : (s.publishing t).slot = some tail := by rw [ht]; rfl
  obtain ⟨-, hlt⟩ := h.window.range t tail hslot
  refine h.expose ht htail rfl ⟨tail, Nat.lt_succ_self tail, ?_⟩
  rw [FullSyncMove.nonZeroU32, Nat.add_comm tail 1, UInt32.ofNat_add]
  refine if_neg fun h0 => ?_
  have h1 := congrArg UInt32.toNat h0
  rw [show (1 : UInt32) = UInt32.ofNat 1 from rfl, ← UInt32.ofNat_add, UInt32.toNat_ofNat_of_lt' (by
    rw [UInt32.size]; omega)] at h1
  change 1 + tail = 0 at h1
  omega

theorem run {spurious : Bool} (h : Inv zero s) (hb : s.Bounded N) (hs : s.run N t spurious = some s') : Inv zero s' := by
  rcases Sys.run_cases hs with ⟨p, ho, rfl⟩ | ⟨p, tail, ho, -, rfl⟩ | ⟨p, tail, stored, ho, ⟨-, htail, rfl⟩ | rfl⟩
  · exact h.reserve ho
  · exact h.write ho
  · exact h.publish hb.2 ho htail
  · exact h

theorem step {l : Label τ α} (h : Inv zero s) (hb : s.Bounded N) (hs : s.step N l = some s') : Inv zero s' := by
  cases l with
  | publish t p =>
    have hcall : (s.publishing t).slot = none → Inv zero (s.setPublishing t (.reserve p)) := by
      intro hslot
      refine h.setPublishing (c := s.contents) ?_ (fun u _ => h.publisher u) trivial h.untouched rfl fun n _ => rfl
      rw [slot_update_same hslot]
      exact h.window
    cases ho : s.publishing t with
    | idle | published _ =>
      simp only [Sys.step, ho] at hs
      cases hs
      exact hcall (by rw [ho]; rfl)
    | _ => simp [Sys.step, ho] at hs
  | run t spurious => exact h.run hb hs
  | subscribeToNewEventsOnly =>
    cases hs
    exact h.subscribe (Nat.le_of_eq h.values_length.symm)
  | subscribeToSeparatedOldAndNewEvents =>
    cases hs
    exact h.subscribePair
  | subscribeToJoinedOldAndNewEvents =>
    cases hs
    exact h.subscribe (Nat.zero_le _)
  | consume i =>
    obtain ⟨u, hu, hs⟩ := Option.bind_eq_some_iff.mp hs
    have hok := h.subscriber i u hu
    have hop := hok.op
    cases ho : u.op with
    | idle =>
      simp only [ho] at hs hop
      cases hs
      exact h.setSubscriber hu (hok.goOn u.head .reserve hop) rfl rfl
    | _ => simp [ho] at hs
  | runConsume i spurious =>
    obtain ⟨u, hu, hs⟩ := Option.bind_eq_some_iff.mp hs
    exact h.runConsume hu hs

end Inv

/-! ### A call by itself -/

theorem setSubscriber_twice (s : Sys τ α) (i : Nat) (u v : Subscriber α) :
    (s.setSubscriber i u).setSubscriber i v = s.setSubscriber i v := by
  show Sys.mk _ _ ((s.subscribers.set i u).set i v) _ _ = _
  rw [List.set_set]
  rfl

theorem exec_runConsume [DecidableEq τ] {v : Subscriber α} {labels : List (Label τ α)} (hi : i < s.subscribers.length)
    (hv : (s.setSubscriber i u).runConsume N i u false = some (s.setSubscriber i v)) :
    Machine.exec (Sys.step N) (s.setSubscriber i u) (.runConsume i false :: labels) =
      Machine.exec (Sys.step N) (s.setSubscriber i v) labels := by
  have hu : (s.setSubscriber i u).subscribers[i]? = some u := List.getElem?_set_self hi
  have hstep : (s.setSubscriber i u).step N (.runConsume i false) = some (s.setSubscriber i v) := by
    show ((s.setSubscriber i u).subscribers[i]?.bind fun w => (s.setSubscriber i u).runConsume N i w false) = _
    rw [hu]
    exact hv
  rw [Machine.exec_cons, hstep]
  rfl

/-- A call of `consume` that runs by itself returns the next entry of the subscriber's source, or `None` at its
end. -/
theorem Inv.call [DecidableEq τ] (h : Inv zero s) (hb : s.Bounded N) (hu : s.subscribers[i]? = some u)
    (hidle : u.op = .idle) :
    ∃ k r, Machine.exec (Sys.step N) s (.consume i :: List.replicate k (.runConsume i false)) =
        some (s.setSubscriber i { u with head := u.next + r.value.toList.length, op := .idle,
                                         returned := u.returned ++ [r] }) ∧
      r.value = (u.source s.values)[u.yielded.length]? := by
  have hi := (List.getElem?_eq_some_iff.mp hu).1
  have hok := h.subscriber i u hu
  have hlen := h.values_length
  have hle := h.window.le
  obtain ⟨hN, -⟩ := hb
  have hhead : u.head = u.next := by
    have := hok.op
    rw [hidle] at this
    exact this
  obtain ⟨hnext, hnextFixed⟩ := hok.next_le
  have hstart : ∀ labels, Machine.exec (Sys.step N) s (.consume i :: labels) =
      Machine.exec (Sys.step N) (s.setSubscriber i { u with op := .reserve }) labels := by
    intro labels
    have hstep : s.step N (.consume i) = some (s.setSubscriber i { u with op := .reserve }) := by
      show (s.subscribers[i]?.bind _) = _
      rw [hu, Option.bind_some]
      simp only [hidle]
    rw [Machine.exec_cons, hstep]
    rfl
  -- the two ways in which a call ends
  have hnone : ∀ tail, Machine.exec (Sys.step N)
      (s.setSubscriber i { u with head := u.next + 1, op := .recede u.next tail }) [.runConsume i false] =
      some (s.setSubscriber i { u with head := u.next, op := .idle, returned := u.returned ++ [.none tail] }) := by
    intro tail
    refine (exec_runConsume hi ?_).trans rfl
    exact (if_pos ⟨rfl, rfl⟩).trans (congrArg some (setSubscriber_twice ..))
  have hitem : ∀ tail, u.next < N → Machine.exec (Sys.step N)
      (s.setSubscriber i { u with head := u.next + 1, op := .read u.next tail }) [.runConsume i false] =
      some (s.setSubscriber i { u with head := u.next + 1, op := .idle, returned := u.returned ++
        [.item (s.contents.buffer u.next) (Int32.ofNat (tail - u.next))] }) := by
    intro tail hlt
    refine (exec_runConsume hi ?_).trans rfl
    exact (if_pos hlt).trans (congrArg some (setSubscriber_twice ..))
  have hkind : u.kind = .dynamic ∨ ∃ fixedTail, u.kind = .fixed fixedTail := by
    cases u.kind with
    | dynamic => exact .inl rfl
    | fixed fixedTail => exact .inr ⟨fixedTail, rfl⟩
  obtain hk | ⟨fixedTail, hk⟩ := hkind
  · have hsource : (u.source s.values)[u.yielded.length]? = s.values[u.next]? :=
      hok.source_next fun _ he => (by rw [hk] at he; cases he)
    have hload : ∀ labels, Machine.exec (Sys.step N) s (.consume i :: .runConsume i false :: labels) =
        Machine.exec (Sys.step N) (s.setSubscriber i { u with head := u.next + 1, op := .load u.next }) labels := by
      intro labels
      rw [hstart, exec_runConsume hi]
      simp only [Sys.runConsume, hk, hhead, setSubscriber_twice]
    by_cases hlt : u.next < s.contents.consumerTail
    · refine ⟨3, .item (s.contents.buffer u.next) (Int32.ofNat (s.contents.consumerTail - u.next)), ?_, ?_⟩
      · rw [List.replicate_succ, List.replicate_succ, hload]
        refine (exec_runConsume hi ?_).trans (hitem _ (by omega))
        exact (if_neg (Nat.not_le.mpr hlt)).trans (congrArg some (setSubscriber_twice ..))
      · rw [hsource, h.buffer_eq hlt]
        rfl
    · refine ⟨3, .none s.contents.consumerTail, ?_, ?_⟩
      · rw [List.replicate_succ, List.replicate_succ, hload]
        refine (exec_runConsume hi ?_).trans (hnone _)
        exact (if_pos (Nat.not_lt.mp hlt)).trans (congrArg some (setSubscriber_twice ..))
      · rw [hsource, List.getElem?_eq_none (by omega)]
        rfl
  · have hw := hok.within
    simp only [hk, Kind.Within] at hw
    by_cases hlt : u.next < fixedTail
    · have hsource : (u.source s.values)[u.yielded.length]? = s.values[u.next]? :=
        hok.source_next fun _ he => (by rw [hk] at he; cases he; exact hlt)
      refine ⟨2, .item (s.contents.buffer u.next) (Int32.ofNat (fixedTail - u.next)), ?_, ?_⟩
      · rw [List.replicate_succ, hstart, exec_runConsume hi]
        · exact hitem fixedTail (by omega)
        · simp only [Sys.runConsume, hk, hhead, if_neg (Nat.not_le.mpr hlt), setSubscriber_twice]
      · rw [hsource, h.buffer_eq (by omega)]
        rfl
    · refine ⟨2, .none fixedTail, ?_, ?_⟩
      · rw [List.replicate_succ, hstart, exec_runConsume hi]
        · exact hnone fixedTail
        · simp only [Sys.runConsume, hk, hhead, if_pos (Nat.not_lt.mp hlt), setSubscriber_twice]
      · rw [Subscriber.source, hk, List.getElem?_eq_none]
        · rfl
        · have := hnextFixed fixedTail hk
          have : u.next = u.start + u.yielded.length := rfl
          rw [List.length_take]
          omega

end Inv

/-! ### Runs -/

section Runs
variable {N : Nat} {zero : α} {s s' : Sys τ α}

theorem runConsume_log {i : Nat} {u : Subscriber α} {spurious : Bool} (hs : s.runConsume N i u spurious = some s') :
    s'.log = s.log := by
  unfold Sys.runConsume at hs
  split at hs
  · cases hs
  · split at hs
    · cases hs; rfl
    · simp only at hs
      split at hs <;> cases hs <;> rfl
  · simp only at hs
    split at hs <;> cases hs <;> rfl
  · split at hs <;> cases hs <;> rfl
  · split at hs <;> cases hs
    rfl

theorem bounded_new (N : Nat) (zero : α) : (Sys.new zero : Sys τ α).Bounded N :=
  ⟨Nat.zero_le N, Nat.two_pow_pos 32⟩

theorem Inv.buffer_stays (h : Inv zero s) (h' : Inv zero s') (hlog : s.log <+: s'.log) {n : Nat}
    (hn : n < s.contents.consumerTail) : s'.contents.buffer n = s.contents.buffer n := by
  have hlt : n < s.log.length := by rw [h.length]; exact hn
  have he := List.getElem?_eq_getElem hlt
  have he' : s'.log[n]? = some s.log[n] := (List.prefix_iff_getElem?.mp hlog) n hlt
  rw [(h.entry n _ he).1, (h'.entry n _ he').1]

variable [DecidableEq τ]

theorem step_log {l : Label τ α} (hs : s.step N l = some s') : s.log <+: s'.log := by
  cases l with
  | publish t p =>
    simp only [Sys.step] at hs
    split at hs <;> cases hs <;> exact List.prefix_refl _
  | run t spurious =>
    rcases Sys.run_cases hs with ⟨p, -, rfl⟩ | ⟨p, tail, -, -, rfl⟩ | ⟨p, tail, stored, -, ⟨-, -, rfl⟩ | rfl⟩
    · exact List.prefix_refl _
    · exact List.prefix_refl _
    · exact List.prefix_append ..
    · exact List.prefix_refl _
  | subscribeToNewEventsOnly => cases hs; exact List.prefix_refl _
  | subscribeToSeparatedOldAndNewEvents => cases hs; exact List.prefix_refl _
  | subscribeToJoinedOldAndNewEvents => cases hs; exact List.prefix_refl _
  | consume i =>
    obtain ⟨u, -, hs⟩ := Option.bind_eq_some_iff.mp hs
    split at hs <;> cases hs
    exact List.prefix_refl _
  | runConsume i spurious =>
    obtain ⟨u, -, hs⟩ := Option.bind_eq_some_iff.mp hs
    rw [runConsume_log hs]

theorem Inv.steps (h : Machine.Steps (Sys.step N) (fun _ _ s' => s'.Bounded N) s s') (hs : Inv zero s)
    (hb : s.Bounded N) : (Inv zero s' ∧ s'.Bounded N) ∧ s.log <+: s'.log := by
  refine h.invariant_rel (I := fun s => Inv zero s ∧ s.Bounded N) (R := fun s s' => s.log <+: s'.log) ?_ ?_ ?_ ⟨hs, hb⟩
  · intro s l s' hi hs hok
    exact ⟨hi.1.step hi.2 hs, hok⟩
  · intro s
    exact List.prefix_refl _
  · intro r s l s' _ hr hs _
    exact hr.trans (step_log hs)

/-- The log topic is replayed completely and split without gaps. -/
structure Replays (N : Nat) (zero : α) (s : Sys τ α) : Prop where
  tails : s.contents.consumerTail ≤ s.contents.publisherTail
  /-- A slot below `consumer_tail` holds what its publisher made of the zeroed slot. -/
  slots : s.log.length = s.contents.consumerTail ∧
    ∀ n e, s.log[n]? = some e → s.contents.buffer n = e.value ∧ e.value = e.payload.store zero
  /-- The entries from `start` on, in order; `None` only when there were no more. -/
  dynamic : ∀ (i : Nat) (u : Subscriber α), s.subscribers[i]? = some u → u.kind = .dynamic →
    u.yielded <+: s.values.drop u.start ∧ ∀ n tail, u.returned[n]? = some (.none tail) →
      tail = u.start + ((u.returned.take n).filterMap Returned.value).length
  /-- The `n`-th call gives entry `n` below `fixed_tail`, and `None` ever after. -/
  fixed : ∀ (i : Nat) (u : Subscriber α) fixedTail, s.subscribers[i]? = some u → u.kind = .fixed fixedTail →
    fixedTail ≤ s.contents.consumerTail ∧
    u.returned.map Returned.value = (List.range u.returned.length).map fun n => (s.values.take fixedTail)[n]?
  /-- Two subscribers created together share out the log. -/
  split : ∀ i j, (i, j) ∈ s.pairs → ∃ old new fixedTail, s.subscribers[i]? = some old ∧
    s.subscribers[j]? = some new ∧ old.kind = .fixed fixedTail ∧ new.kind = .dynamic ∧
    old.source s.values ++ new.source s.values = s.values ∧
    (fixedTail ≤ old.returned.length →
      old.yielded ++ new.yielded = s.values.take (fixedTail + new.yielded.length))
  /-- A call by itself returns the next entry that the subscriber is for, if there is one. -/
  next : ∀ (i : Nat) (u : Subscriber α), s.subscribers[i]? = some u → u.op = .idle →
    ∃ k r, Machine.exec (Sys.step N) s (.consume i :: List.replicate k (.runConsume i false)) =
        some (s.setSubscriber i { u with head := u.next + r.value.toList.length, op := .idle,
                                         returned := u.returned ++ [r] }) ∧
      r.value = (u.source s.values)[u.yielded.length]?

theorem Inv.replays (h : Inv zero s) (hb : s.Bounded N) : Replays N zero s where
  tails := h.window.le
  slots := ⟨h.length, h.entry⟩
  dynamic i u hu hk := by
    have hok := h.subscriber i u hu
    have hyields := hok.yields
    rw [Subscriber.source, hk] at hyields
    exact ⟨hyields, hok.none⟩
  fixed i u fixedTail hu hk := by
    have hok := h.subscriber i u hu
    have hw := hok.within
    simp only [hk, Kind.Within, h.values_length] at hw
    exact ⟨hw.2, (hok.fixed fixedTail hk).2⟩
  split i j hij := by
    obtain ⟨old, new, fixedTail, hi, hj, hold, hnew, hstart⟩ := h.pair i j hij
    have hokOld := h.subscriber i old hi
    have hyOld := hokOld.yields
    have hyNew := (h.subscriber j new hj).yields
    have hw := hokOld.within
    simp only [hold, Kind.Within] at hw
    simp only [Subscriber.source, hold, hnew, hstart] at hyOld hyNew
    refine ⟨old, new, fixedTail, hi, hj, hold, hnew, ?_, fun hle => ?_⟩
    · simp only [Subscriber.source, hold, hnew, hstart]
      exact List.take_append_drop fixedTail s.values
    · have hlen : old.yielded.length = fixedTail := by
        have := (hokOld.fixed fixedTail hold).1
        omega
      rw [List.take_add, ← List.prefix_iff_eq_take.mp hyNew]
      congr 1
      refine hyOld.eq_of_length ?_
      rw [hlen, List.length_take]
      omega
  next i u hu hidle := h.call hb hu hidle

/-- In every state reached with at most `max_slots` publishes, and fewer than `2 ^ 32`, the topic is replayed
completely and split without gaps; and what a slot below `consumer_tail` holds never changes afterwards. -/
theorem mMapMeta_replays (N : Nat) (zero : α) {s : Sys τ α}
    (h : Machine.Steps (Sys.step N) (fun _ _ s' => s'.Bounded N) (.new zero) s) :
    Replays N zero s ∧ ∀ s', Machine.Steps (Sys.step N) (fun _ _ s' => s'.Bounded N) s s' →
      s.log <+: s'.log ∧ ∀ n < s.contents.consumerTail, s'.contents.buffer n = s.contents.buffer n := by
  obtain ⟨⟨hs, hb⟩, -⟩ := Inv.steps h (Inv.new zero) (bounded_new N zero)
  refine ⟨hs.replays hb, fun s' h' => ?_⟩
  obtain ⟨⟨hs', -⟩, hlog⟩ := Inv.steps h' hs hb
  exact ⟨hlog, fun n hn => hs.buffer_stays hs' hlog hn⟩

/-- The second publisher fills its slot before the first one does; the subscriptions are taken between the two
publishes. -/
theorem mMapMeta_replays_split : ∃ s : Sys (Fin 2) Nat, s.values = [5, 7] ∧ s.pairs = [(0, 1)] ∧
    s.subscribers.map Subscriber.yielded = [[5], [7]] ∧
    s.subscribers.map (fun u => u.returned.map Returned.value) = [[some 5, none], [none, some 7]] ∧
    Replays 2 0 s := by
  have hrun : (Machine.exec (Machine.restrict (Sys.step 2) fun _ _ s' => decide (s'.Bounded 2)) (.new 0 : Sys (Fin 2) Nat)
      [.publish 0 (.movable 5), .publish 1 (.setter (· + 7)), .run 0 false, .run 1 false, .run 1 false, .run 1 false,
       .run 0 false, .run 0 false, .subscribeToSeparatedOldAndNewEvents, .consume 1, .runConsume 1 false,
       .runConsume 1 false, .run 1 false, .runConsume 1 false, .consume 0, .consume 1, .runConsume 0 false,
       .runConsume 0 false, .runConsume 1 false, .consume 0, .runConsume 0 false, .runConsume 1 false,
       .runConsume 0 false, .runConsume 1 false]).map (fun s => decide (s.values = [5, 7] ∧ s.pairs = [(0, 1)] ∧
        s.subscribers.map Subscriber.yielded = [[5], [7]] ∧
        s.subscribers.map (fun u => u.returned.map Returned.value) = [[some 5, none], [none, some 7]])) = some true := by
    decide +kernel
  obtain ⟨s, hs, ht⟩ := Option.map_eq_some_iff.mp hrun
  rw [decide_eq_true_iff] at ht
  have hsteps : Machine.Steps (Sys.step 2) (fun _ _ s' => s'.Bounded 2) (.new 0) s :=
    (Machine.Path.of_exec_restrict (fun _ _ _ h => of_decide_eq_true h) hs).steps
  exact ⟨s, ht.1, ht.2.1, ht.2.2.1, ht.2.2.2, (mMapMeta_replays 2 0 hsteps).1⟩

end Runs
end MMapMeta
end Mutiny
