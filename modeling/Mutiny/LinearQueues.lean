import Mutiny.AtomicMoveSafety
import Mutiny.FullSyncSteps
import Mutiny.Lib.Linear

/-!
# The queues are linearizable

The concurrent calls of `publish_movable`, `publish` and `consume_movable` take effect one after the other on a bounded
FIFO. With `FullSyncMove` that is exact: a queue that reports itself full or empty is, and the lengths reported are those
after the publication. `AtomicMove` publishes and consumes in the same way, but its reports may be spurious.

An attempt to publish ends with `report_full_fn`, which is told that the queue is full; if it asks for another attempt,
that is another operation.
-/

namespace Mutiny
open AtomicMove (Payload)
open Linear (Object Status)

inductive QueueOp (α : Type)
  | publish (p : Payload α)
  | consume

inductive QueueResult (α : Type)
  -- `len_before + 1`
  | published (lenAfter : UInt32)
  | full
  | consumed (item : α)
  | empty
deriving DecidableEq

/-- The FIFO of at most `n` elements; unless it is `exact`, it may be reported full or empty at any time. -/
inductive FifoSpec {α : Type} (n : Nat) (exact : Bool) : List α → QueueOp α → QueueResult α → List α → Prop
  | published {q : List α} {p : Payload α} {lenAfter : UInt32} (room : q.length < n) (old : α)
    (pos : 0 < lenAfter.toNat) (le : lenAfter.toNat ≤ n) (len : exact = true → lenAfter = UInt32.ofNat (q.length + 1)) :
    FifoSpec n exact q (.publish p) (.published lenAfter) (q ++ [p.store old])
  | full {q : List α} {p : Payload α} (len : exact = true → q.length = n) : FifoSpec n exact q (.publish p) .full q
  | consumed (x : α) (q : List α) : FifoSpec n exact (x :: q) .consume (.consumed x) q
  | empty {q : List α} (len : exact = true → q = []) : FifoSpec n exact q .consume .empty q

namespace AtomicMove
variable {α τ : Type} {B : Nat} {s s' : Sys τ α} {a : Object τ (List α) (QueueOp α) (QueueResult α)} {t : τ}

/-- What the thread at `o` has seen of its call. -/
def Op.status : Op α → Status (QueueOp α) (QueueResult α)
  | .idle | .published _ | .refused _ | .taken _ | .empty => .idle
  | .leakReserve p | .leakCheck p _ | .leakRecede p _ | .leakReport p | .slotWrite p _ _ | .publishLeaked p _ _ _ =>
    .called (.publish p)
  | .consumeReserve | .consumeCheck _ | .consumeRecede _ | .slotRead _ | .releaseLeaked _ _ => .called .consume

theorem Op.status_of_atRest {o : Op α} (h : o.atRest = true) : o.status = .idle := by
  cases o <;> first | rfl | cases h

def Sys.events (s : Sys τ α) (l : Label τ α) (s' : Sys τ α) : List (τ × Linear.Event (QueueOp α) (QueueResult α)) :=
  match l with
  | .publish t p => [(t, .call (.publish p))]
  | .consume t => [(t, .call .consume)]
  | .run t _ _ =>
    match s.op t, s'.op t with
    | .leakReport _, .refused _ => [(t, .ret .full)]
    | .leakReport p, _ => [(t, .ret .full), (t, .call (.publish p))]
    | _, .published lenBefore => [(t, .ret (.published (lenBefore + 1)))]
    | _, .taken item => [(t, .ret (.consumed item))]
    | _, .empty => [(t, .ret .empty)]
    | _, _ => []

/-- The elements published and not consumed yet. -/
def Sys.elements (s : Sys τ α) : List α := (s.published.drop s.consumed.length).map Put.value

/-- The length a publisher has found is one of a queue with room. -/
def Op.LenOk (B : Nat) : Op α → Prop
  | .slotWrite _ _ lenBefore | .publishLeaked _ _ lenBefore _ => lenBefore < UInt32.ofNat B
  | _ => True

/-- The object has the elements of the queue, and each thread stands there where it does here. -/
structure Matches (B : Nat) (s : Sys τ α) (a : Object τ (List α) (QueueOp α) (QueueResult α)) : Prop where
  inv : ∃ g, Inv B s g
  few : s.InFlightBelow (2 ^ 31 - B)
  lens : ∀ t, (s.op t).LenOk B
  state : a.state = s.elements
  status : ∀ t, a.status t = (s.op t).status

namespace Matches
variable [DecidableEq τ] {o : Op α}

omit [DecidableEq τ] in
theorem init (hB : RingSize B) (buffer : Nat → α) : Matches B (.init buffer : Sys τ α) (.new []) where
  inv := ⟨_, .init B buffer⟩
  few := Sys.inFlightBelow_init hB buffer
  lens _ := trivial
  state := rfl
  status _ := rfl

theorem goOn (h : Matches B s a) (hinv : ∃ g, Inv B s' g) (hf : s'.InFlightBelow (2 ^ 31 - B))
    (hop : s'.op = Function.update s.op t o) (hlen : o.LenOk B) {q : List α} (hq : q = s'.elements) :
    Matches B s' { a.setStatus t o.status with state := q } := by
  refine ⟨hinv, hf, fun u => ?_, hq, fun u => ?_⟩
  · rw [hop]
    by_cases hut : u = t
    · subst hut
      rw [Function.update_self]
      exact hlen
    · rw [Function.update_of_ne hut]
      exact h.lens u
  · rw [hop]
    show Function.update a.status t o.status u = _
    by_cases hut : u = t
    · subst hut
      rw [Function.update_self, Function.update_self]
    · rw [Function.update_of_ne hut, Function.update_of_ne hut]
      exact h.status u

/-- Thread `t` has moved on to `o`, which the object does not notice. -/
theorem still (h : Matches B s a) (hinv : ∃ g, Inv B s' g) (hf : s'.InFlightBelow (2 ^ 31 - B))
    (hop : s'.op = Function.update s.op t o) (hlen : o.LenOk B) (hst : (s.op t).status = o.status)
    (hq : s.elements = s'.elements) : Matches B s' a := by
  have hst' : a.setStatus t o.status = a := Object.setStatus_of_eq ((h.status t).trans hst)
  have := h.goOn hinv hf hop hlen (h.state.trans hq)
  rwa [hst'] at this

omit [DecidableEq τ] in
theorem elements_publish (hle : s.consumed.length ≤ s.published.length) (e : Put τ α) :
    ((s.published ++ [e]).drop s.consumed.length).map Put.value = s.elements ++ [e.value] := by
  rw [Sys.elements, List.drop_append_of_le_length hle, List.map_append]
  rfl

omit [DecidableEq τ] in
theorem elements_release {v : α} (hv : (s.published[s.consumed.length]?).map Put.value = some v) (e : Took τ α) :
    s.elements = v :: (s.published.drop (s.consumed ++ [e]).length).map Put.value := by
  obtain ⟨put, hput, rfl⟩ := Option.map_eq_some_iff.mp hv
  obtain ⟨hlt, hget⟩ := List.getElem?_eq_some_iff.mp hput
  rw [Sys.elements, List.length_append, List.length_singleton, List.drop_eq_getElem_cons hlt, hget]
  rfl

theorem moves {spurious answer : Bool} (h : Matches B s a) (hB : RingSize B) (hm : Sys.Moves B s t s')
    (hf : s'.InFlightBelow (2 ^ 31 - B)) :
    ∃ log a', Object.Steps (FifoSpec B false) a (s.events (.run t spurious answer) s') log a' ∧ Matches B s' a' := by
  obtain ⟨g, hg⟩ := h.inv
  have hw := hg.close hB h.few
  have hinv := hg.moves hw hm
  have hst := h.status t
  have hlens := h.lens t
  cases hm with
  | leakReserve ho | leakFull ho | leakRetry ho | leakRecede ho | consumeReserve ho | consumeOk ho | consumeNone ho
  | consumeRetry ho | read ho =>
    refine ⟨[], a, ?_, h.still hinv hf rfl trivial (by rw [ho]; rfl) rfl⟩
    simp only [Sys.events, ho, Sys.setOp, Function.update_self]
    exact .refl
  | leakOk ho hlen =>
    refine ⟨[], a, ?_, h.still hinv hf rfl hlen (by rw [ho]; rfl) rfl⟩
    simp only [Sys.events, ho, Sys.setOp, Function.update_self]
    exact .refl
  | write ho =>
    rw [ho] at hlens
    refine ⟨[], a, ?_, h.still hinv hf rfl hlens (by rw [ho]; rfl) rfl⟩
    simp only [Sys.events, ho, Sys.setOp, Function.update_self]
    exact .refl
  | @leakAgain p ho =>
    have hcalled : a.status t = .called (.publish p) := hst.trans (by rw [ho]; rfl)
    refine ⟨[(t, .publish p, .full)], a, ?_, h.still hinv hf rfl trivial (by rw [ho]; rfl) rfl⟩
    simp only [Sys.events, ho, Sys.setOp, Function.update_self]
    have hspec : FifoSpec B false a.state (.publish p) .full a.state := .full fun h => (Bool.false_ne_true h).elim
    have hfull := Object.Steps.answer hcalled hspec
    have hcall := hfull.tail (.call (o := .publish p) (Function.update_self ..))
    rw [Object.setStatus] at hcall
    simpa [Object.setStatus, ← hcalled] using hcall
  | @leakRefuse p ho =>
    have hcalled : a.status t = .called (.publish p) := hst.trans (by rw [ho]; rfl)
    refine ⟨[(t, .publish p, .full)], _, ?_, h.goOn hinv hf rfl trivial h.state⟩
    simp only [Sys.events, ho, Sys.setOp, Function.update_self]
    exact .answer hcalled (.full fun h => (Bool.false_ne_true h).elim)
  | @publish p i l v ho hcas =>
    have hcalled : a.status t = .called (.publish p) := hst.trans (by rw [ho]; rfl)
    obtain ⟨-, hroom, -, -, old, rfl⟩ := hg.publish_id hw ho hcas
    have hlen : l.toNat < B := by
      rw [ho] at hlens
      have := UInt32.lt_iff_toNat_lt.mp hlens
      rwa [Wrap.toNat_ofNat_of_lt hw.lt] at this
    have hlen' : (l + 1).toNat = l.toNat + 1 := by
      have := hB.le
      rw [UInt32.toNat_add, UInt32.toNat_one, Nat.mod_eq_of_lt (by omega)]
    refine ⟨[(t, .publish p, .published (l + 1))], _, ?_, h.goOn hinv hf rfl trivial
      (elements_publish hg.le ⟨t, s.calls t, i, p, p.store old⟩).symm⟩
    simp only [Sys.events, ho, Sys.setOp, Function.update_self]
    refine .answer hcalled ?_
    rw [h.state]
    refine .published ?_ old (by omega) (by omega) fun h => (Bool.false_ne_true h).elim
    rw [Sys.elements, List.length_map, List.length_drop]
    omega
  | @consumeRecede i ho hcas =>
    have hcalled : a.status t = .called .consume := hst.trans (by rw [ho]; rfl)
    refine ⟨[(t, .consume, .empty)], _, ?_, h.goOn hinv hf rfl trivial h.state⟩
    simp only [Sys.events, ho, Sys.setOp, Function.update_self]
    exact .answer hcalled (.empty fun h => (Bool.false_ne_true h).elim)
  | @release i v ho hcas =>
    have hcalled : a.status t = .called .consume := hst.trans (by rw [ho]; rfl)
    obtain ⟨-, hv, -⟩ := hg.release_id hw ho hcas
    refine ⟨[(t, .consume, .consumed v)], _, ?_, h.goOn hinv hf rfl trivial rfl⟩
    simp only [Sys.events, ho, Sys.setOp, Function.update_self]
    refine .answer hcalled ?_
    rw [h.state, elements_release hv ⟨t, s.calls t, i, v⟩]
    exact .consumed v _
  | spin he =>
    refine ⟨[], a, ?_, h⟩
    cases ho : s.op t <;> rw [ho] at he <;> cases he
    all_goals
      simp only [Sys.events, ho]
      exact .refl

theorem call {p : Op α} {o : QueueOp α} {calls : τ → Nat} (h : Matches B s a) (hp : p = .consumeReserve ∨ ∃ q, p = .leakReserve q)
    (ht : (s.op t).atRest = true) (hst : p.status = .called o)
    (hf : Sys.InFlightBelow { s.setOp t p with calls } (2 ^ 31 - B)) :
    ∃ log a', Object.Steps (FifoSpec B false) a [(t, .call o)] log a' ∧ Matches B { s.setOp t p with calls } a' := by
  obtain ⟨g, hg⟩ := h.inv
  have hidle : a.status t = .idle := (h.status t).trans (Op.status_of_atRest ht)
  refine ⟨[], _, ?_, h.goOn ⟨g, hg.call ht hp calls⟩ hf rfl ?_ h.state⟩
  · rw [hst]
    exact (Object.Step.call hidle).steps
  · rcases hp with rfl | ⟨q, rfl⟩ <;> trivial

end Matches

theorem simulates_object [DecidableEq τ] (hB : RingSize B) :
    Linear.Simulates (Sys.step B) (FewInFlight B) Sys.events (FifoSpec B false) (Matches B : Sys τ α → _ → Prop) := by
  intro s a l s' h hs hf
  cases l with
  | publish t p =>
    obtain ⟨ht, hs⟩ := Option.ite_none_right_eq_some.mp hs
    cases hs
    exact h.call (.inr ⟨p, rfl⟩) ht rfl hf
  | consume t =>
    obtain ⟨ht, hs⟩ := Option.ite_none_right_eq_some.mp hs
    cases hs
    exact h.call (.inl rfl) ht rfl hf
  | run t spurious answer => exact h.moves hB (Sys.moves_of_run hs) hf

/-- The calls take effect one after the other, on a FIFO whose reports may be spurious. -/
theorem atomicMove_linearizable [DecidableEq τ] (hB : RingSize B) {buffer : Nat → α}
    {events : List (τ × Linear.Event (QueueOp α) (QueueResult α))}
    (h : Linear.Run (Sys.step B) (FewInFlight B) Sys.events (.init buffer) events s) :
    Linear.Linearizable (FifoSpec B false) [] events s.elements := by
  obtain ⟨a, ha, hlin⟩ := (simulates_object hB).linearizable (.init hB buffer) h
  rwa [ha.state] at hlin

/-- The second publisher is refused while the first one holds the only slot; then 7 is consumed. -/
theorem atomicMove_linearizable_publishConsume :
    ∃ (events : List (Fin 2 × Linear.Event (QueueOp Nat) (QueueResult Nat))) (s : Sys (Fin 2) Nat),
      Linear.returns events = [(0, .published 1), (0, .full), (1, .consumed 7)] ∧
      Linear.Linearizable (FifoSpec 1 false) [] events s.elements := by
  have hresults : (Linear.trace (Sys.step 1) Sys.events (Sys.init fun _ => 0) publishConsume).map
      (fun x => Linear.returns x.1) = some [(0, .published 1), (0, .full), (1, .consumed 7)] := by decide +kernel
  obtain ⟨⟨events, s⟩, htrace, hres⟩ := Option.map_eq_some_iff.mp hresults
  exact ⟨events, s, hres, atomicMove_linearizable ⟨0, by decide, rfl⟩
    (.of_trace (fun _ _ s' => s'.inFlightBelow_of_card (by decide)) .refl htrace)⟩

end AtomicMove

namespace FullSyncMove
variable {α τ : Type} {B : Nat} {s s' : Sys τ α} {a : Object τ (List α) (QueueOp α) (QueueResult α)} {t : τ}

/-- The thread at `o` stands at `st`, with what it has done to the queue. -/
def Op.Stands (B : Nat) (q : FullSyncMove α) (st : Status (QueueOp α) (QueueResult α)) : Op α → Prop
  | .idle | .published _ | .refused _ | .taken _ | .empty => st = .idle
  | .leakLock p | .leakCheck p => st = .called (.publish p)
  | .leakUnlock _ | .leakReport _ => st = .done .full
  | .slotWrite p slotId lenBefore =>
    st = .called (.publish p) ∧ q.len < B ∧ slotId = q.tail ∧ lenBefore = UInt32.ofNat q.len
  | .publishLeaked lenBefore => q.len < B ∧ lenBefore = UInt32.ofNat q.len ∧
    ∃ p old, st = .called (.publish p) ∧ q.buffer (q.tail.toNat % B) = p.store old
  | .publishUnlock lenBefore => st = .done (.published (lenBefore + 1))
  | .consumeLock | .consumeCheck => st = .called .consume
  | .consumeUnlock => st = .done .empty
  | .slotRead slotId => st = .called .consume ∧ 0 < q.len ∧ slotId = q.head
  | .releaseLeaked item => st = .called .consume ∧ 0 < q.len ∧ item = q.buffer (q.head.toNat % B)
  | .releaseUnlock item => st = .done (.consumed item)

theorem Op.stands_of_atRest {o : Op α} (h : o.atRest = true) (q : FullSyncMove α)
    (st : Status (QueueOp α) (QueueResult α)) : o.Stands B q st ↔ st = .idle := by
  cases o <;> first | exact .rfl | cases h

/-- Outside of the critical section, nothing of the queue matters. -/
theorem Op.Stands.outside {q q' : FullSyncMove α} {o : Op α} {st : Status (QueueOp α) (QueueResult α)}
    (h : o.Stands B q st) (ho : o.inside = false) : o.Stands B q' st := by
  cases o <;> first | exact h | cases ho

def Sys.events (s : Sys τ α) (l : Label τ α) (s' : Sys τ α) : List (τ × Linear.Event (QueueOp α) (QueueResult α)) :=
  match l with
  | .publish t p => [(t, .call (.publish p))]
  | .consume t => [(t, .call .consume)]
  | .run t _ =>
    match s.op t, s'.op t with
    | .leakReport _, .refused _ => [(t, .ret .full)]
    | .leakReport p, _ => [(t, .ret .full), (t, .call (.publish p))]
    | _, .published lenBefore => [(t, .ret (.published (lenBefore + 1)))]
    | _, .taken item => [(t, .ret (.consumed item))]
    | _, .empty => [(t, .ret .empty)]
    | _, _ => []

theorem elems_write (hB : RingSize B) {q : FullSyncMove α} (hlt : q.len < B) (x : α) :
    elems B { q with buffer := Function.update q.buffer (q.tail.toNat % B) x } = q.elems B := by
  rw [← cell_len]
  exact Ring.view_update hB.dvd q.buffer q.head hlt x

theorem elems_publish (hB : RingSize B) {q : FullSyncMove α} (hlt : q.len < B) :
    elems B { q with tail := q.tail + 1 } = q.elems B ++ [q.buffer (q.tail.toNat % B)] := by
  have hlen : len { q with tail := q.tail + 1 } = q.len + 1 := len_succ_tail (by have := hB.le; omega) q.buffer
  unfold elems
  rw [hlen, Ring.view_succ_concat, ← cell_len]

theorem elems_release {q : FullSyncMove α} (hpos : 0 < q.len) :
    q.elems B = q.buffer (q.head.toNat % B) :: elems B { q with head := q.head + 1 } := by
  have hlen := len_succ_head hpos
  unfold elems
  rw [← hlen, Ring.view_succ_cons]

/-- The object has the elements of the queue, and each thread stands there where it does here. -/
structure Matches (B : Nat) (s : Sys τ α) (a : Object τ (List α) (QueueOp α) (QueueResult α)) : Prop where
  inv : Inv B s
  state : a.state = s.q.elems B
  stands : ∀ t, (s.op t).Stands B s.q (a.status t)

namespace Matches
variable [DecidableEq τ] {o : Op α}

omit [DecidableEq τ] in
theorem init (B : Nat) (buffer : Nat → α) : Matches B (.init buffer : Sys τ α) (.new []) where
  inv := .init B buffer
  state := (LawfulMoveContainer.init_elems (C := FullSyncMove) buffer).symm
  stands _ := rfl

/-- Thread `t` has moved on to `o`, and so has the object; if the queue has changed, no other thread is inside. -/
theorem goOn (h : Matches B s a) (hinv : Inv B s') (hop : s'.op = Function.update s.op t o)
    (hothers : s'.q = s.q ∨ ∀ u ≠ t, (s.op u).inside = false) {st : Status (QueueOp α) (QueueResult α)}
    (hst : o.Stands B s'.q st) {q : List α} (hq : q = s'.q.elems B) :
    Matches B s' { a.setStatus t st with state := q } := by
  refine ⟨hinv, hq, fun u => ?_⟩
  rw [hop]
  show (Function.update s.op t o u).Stands B s'.q (Function.update a.status t st u)
  by_cases hut : u = t
  · subst hut
    rwa [Function.update_self, Function.update_self]
  · rw [Function.update_of_ne hut, Function.update_of_ne hut]
    rcases hothers with hsame | hothers
    · rw [hsame]
      exact h.stands u
    · exact (h.stands u).outside (hothers u hut)

/-- Thread `t` has moved on to `o`, which the object does not notice. -/
theorem still (h : Matches B s a) (hinv : Inv B s') (hop : s'.op = Function.update s.op t o)
    (hothers : s'.q = s.q ∨ ∀ u ≠ t, (s.op u).inside = false) (hst : o.Stands B s'.q (a.status t))
    (hq : s.q.elems B = s'.q.elems B) : Matches B s' a := by
  have := h.goOn hinv hop hothers hst (h.state.trans hq)
  rwa [Object.setStatus_of_eq rfl] at this

omit [DecidableEq τ] in
theorem len_le (h : Matches B s a) (hB : RingSize B) : s.q.len ≤ B := by
  have hroom : Ring.room B = B := Wrap.toNat_ofNat_of_lt (by have := hB.le; omega)
  have hlen : s.q.len = s.published - s.consumed := h.inv.len
  have hcap := h.inv.cap
  omega

theorem lock (h : Matches B s a) (hinv : Inv B (s.lock t o)) (hst : o.Stands B s.q (a.status t)) :
    Matches B (s.lock t o) a := by
  unfold Sys.lock at *
  split at hinv
  case isTrue hg => rwa [if_pos hg]
  case isFalse hg =>
    rw [if_neg hg]
    exact h.still hinv rfl (.inl rfl) hst rfl

variable {answer : Bool}

/-- The object follows a step of thread `t`. -/
def Followed (B : Nat) (s : Sys τ α) (a : Object τ (List α) (QueueOp α) (QueueResult α)) (t : τ) (answer : Bool)
    (s' : Sys τ α) : Prop :=
  ∃ log a', Object.Steps (FifoSpec B true) a (s.events (.run t answer) s') log a' ∧ Matches B s' a'

theorem silent (hev : s.events (.run t answer) s' = []) (hm : Matches B s' a) : Followed B s a t answer s' :=
  ⟨[], a, by rw [hev]; exact .refl, hm⟩

theorem unlockRet {r : QueueResult α} (h : Matches B s a) (hinv : Inv B (s.unlock t o)) (hdone : a.status t = .done r)
    (hev : s.events (.run t answer) (s.unlock t o) = [(t, .ret r)]) (hst : o.Stands B s.q .idle) :
    Followed B s a t answer (s.unlock t o) := by
  refine ⟨[], _, ?_, h.goOn hinv rfl (.inl rfl) hst h.state⟩
  rw [hev]
  exact (Object.Step.ret hdone).steps

theorem leakCheck {p : Payload α} (h : Matches B s a) (hB : RingSize B) (ho : s.op t = .leakCheck p) (hinv : Inv B s')
    (hs : s.run B t answer = some s') : Followed B s a t answer s' := by
  have hst := h.stands t
  rw [ho] at hst
  have hle := h.len_le hB
  have hmax := hB.le
  have hword : s.q.tail - s.q.head = UInt32.ofNat s.q.len := by rw [len, UInt32.ofNat_toNat]; rfl
  have hlt_iff : s.q.tail - s.q.head < UInt32.ofNat B ↔ s.q.len < B := by
    rw [UInt32.lt_iff_toNat_lt, Wrap.toNat_ofNat_of_lt (by omega)]
    rfl
  simp only [Sys.run, ho] at hs
  split_ifs at hs with hlt <;> cases hs
  · refine silent ?_ (h.still hinv rfl (.inl rfl) ⟨hst, hlt_iff.mp hlt, rfl, hword⟩ rfl)
    simp only [Sys.events, ho, Sys.setOp, Function.update_self]
  · rw [hlt_iff] at hlt
    refine ⟨[(t, .publish p, .full)], _, ?_, h.goOn hinv rfl (.inl rfl) rfl h.state⟩
    simp only [Sys.events, ho, Sys.setOp, Function.update_self]
    refine (Object.Step.take hst (.full fun _ => ?_)).steps
    rw [h.state, length_elems]
    omega

theorem leakReport {p : Payload α} (h : Matches B s a) (ho : s.op t = .leakReport p) (hinv : Inv B s')
    (hs : s.run B t answer = some s') : Followed B s a t answer s' := by
  have hst := h.stands t
  rw [ho] at hst
  simp only [Sys.run, ho, Option.some.injEq] at hs
  subst hs
  have hret : Object.Steps (FifoSpec B true) a [(t, .ret .full)] [] (a.setStatus t .idle) := (Object.Step.ret hst).steps
  cases hp : p.reportFull answer with
  | true =>
    rw [hp] at hinv
    rw [if_pos rfl] at hinv ⊢
    have hcall := hret.tail (.call (o := .publish p) (Function.update_self ..))
    have hcalled : (Op.leakLock p).Stands B s.q (.called (.publish p)) := rfl
    refine ⟨[], _, ?_, h.goOn hinv rfl (.inl rfl) hcalled h.state⟩
    simp only [Sys.events, ho, Sys.setOp, Function.update_self]
    simpa [Object.setStatus] using hcall
  | false =>
    rw [hp] at hinv
    rw [if_neg Bool.false_ne_true] at hinv ⊢
    have hidle : (Op.refused p).Stands B s.q .idle := rfl
    refine ⟨[], _, ?_, h.goOn hinv rfl (.inl rfl) hidle h.state⟩
    simp only [Sys.events, ho, Sys.setOp, Function.update_self]
    exact hret

theorem slotWrite {p : Payload α} {slotId lenBefore : UInt32} (h : Matches B s a) (hB : RingSize B)
    (ho : s.op t = .slotWrite p slotId lenBefore) (hinv : Inv B s') (hs : s.run B t answer = some s') :
    Followed B s a t answer s' := by
  have hst := h.stands t
  have hothers := h.inv.others (t := t) (by rw [ho]; rfl)
  rw [ho] at hst
  simp only [Sys.run, ho, Option.some.injEq] at hs
  subst hs
  obtain ⟨hcalled, hlt, rfl, rfl⟩ := hst
  refine silent ?_ (h.still hinv rfl (.inr hothers) ⟨hlt, rfl, p, _, hcalled, Function.update_self ..⟩ ?_)
  · simp only [Sys.events, ho, Sys.setOp, Function.update_self]
  · exact (elems_write hB hlt _).symm

theorem publishLeaked {lenBefore : UInt32} (h : Matches B s a) (hB : RingSize B) (ho : s.op t = .publishLeaked lenBefore)
    (hinv : Inv B s') (hs : s.run B t answer = some s') : Followed B s a t answer s' := by
  have hst := h.stands t
  have hothers := h.inv.others (t := t) (by rw [ho]; rfl)
  rw [ho] at hst
  simp only [Sys.run, ho, Option.some.injEq] at hs
  subst hs
  obtain ⟨hlt, rfl, p, old, hcalled, hbuf⟩ := hst
  have hmax := hB.le
  have hlen : (UInt32.ofNat s.q.len + 1).toNat = s.q.len + 1 := by
    rw [← Wrap.ofNat_succ, Wrap.toNat_ofNat_of_lt (by omega)]
  refine ⟨[(t, .publish p, .published (UInt32.ofNat s.q.len + 1))], _, ?_,
    h.goOn hinv rfl (.inr hothers) rfl (elems_publish hB hlt).symm⟩
  simp only [Sys.events, ho, Sys.setOp, Function.update_self]
  refine (Object.Step.take hcalled ?_).steps
  rw [h.state, hbuf]
  refine .published ?_ old (by omega) (by omega) fun _ => ?_
  · rwa [length_elems]
  · rw [length_elems, Wrap.ofNat_succ]

theorem consumeCheck (h : Matches B s a) (hB : RingSize B) (ho : s.op t = .consumeCheck) (hinv : Inv B s')
    (hs : s.run B t answer = some s') : Followed B s a t answer s' := by
  have hst := h.stands t
  rw [ho] at hst
  simp only [Sys.run, ho] at hs
  split_ifs at hs with hpos <;> cases hs
  · refine silent ?_ (h.still hinv rfl (.inl rfl) ⟨hst, ((zero_lt_count_iff s.q).mp hpos).1, rfl⟩ rfl)
    simp only [Sys.events, ho, Sys.setOp, Function.update_self]
  · have hle := h.len_le hB
    have hmax := hB.le
    have hzero : (s.q.elems B).length = 0 := by
      rw [zero_lt_count_iff] at hpos
      rw [length_elems]
      omega
    refine ⟨[(t, .consume, .empty)], _, ?_, h.goOn hinv rfl (.inl rfl) rfl h.state⟩
    simp only [Sys.events, ho, Sys.setOp, Function.update_self]
    refine (Object.Step.take hst (.empty fun _ => ?_)).steps
    rw [h.state]
    exact List.length_eq_zero_iff.mp hzero

theorem releaseLeaked {item : α} (h : Matches B s a) (ho : s.op t = .releaseLeaked item) (hinv : Inv B s')
    (hs : s.run B t answer = some s') : Followed B s a t answer s' := by
  have hst := h.stands t
  have hothers := h.inv.others (t := t) (by rw [ho]; rfl)
  rw [ho] at hst
  simp only [Sys.run, ho, Option.some.injEq] at hs
  subst hs
  obtain ⟨hcalled, hpos, rfl⟩ := hst
  refine ⟨[(t, .consume, .consumed (s.q.buffer (s.q.head.toNat % B)))], _, ?_,
    h.goOn hinv rfl (.inr hothers) rfl rfl⟩
  simp only [Sys.events, ho, Sys.setOp, Function.update_self]
  refine (Object.Step.take hcalled ?_).steps
  rw [h.state, elems_release hpos]
  exact .consumed _ _

theorem run (h : Matches B s a) (hB : RingSize B) (hs : s.run B t answer = some s') : Followed B s a t answer s' := by
  have hinv := h.inv.run hs
  have hst := h.stands t
  cases ho : s.op t with
  | idle | published _ | refused _ | taken _ | empty => simp [Sys.run, ho] at hs
  | leakLock p | consumeLock =>
    simp only [Sys.run, ho, Option.some.injEq] at hs
    subst hs
    rw [ho] at hst
    refine silent ?_ (h.lock hinv hst)
    unfold Sys.lock
    split <;> simp only [Sys.events, ho, Sys.setOp, Function.update_self]
  | leakCheck p => exact h.leakCheck hB ho hinv hs
  | leakUnlock p =>
    simp only [Sys.run, ho, Option.some.injEq] at hs
    subst hs
    rw [ho] at hst
    refine silent ?_ (h.still hinv rfl (.inl rfl) hst rfl)
    simp only [Sys.events, ho, Sys.unlock, Sys.setOp, Function.update_self]
  | leakReport p => exact h.leakReport ho hinv hs
  | slotWrite p slotId lenBefore => exact h.slotWrite hB ho hinv hs
  | publishLeaked lenBefore => exact h.publishLeaked hB ho hinv hs
  | publishUnlock _ | consumeUnlock | releaseUnlock _ =>
    simp only [Sys.run, ho, Option.some.injEq] at hs
    subst hs
    rw [ho] at hst
    refine h.unlockRet hinv hst ?_ rfl
    simp only [Sys.events, ho, Sys.unlock, Sys.setOp, Function.update_self]
  | consumeCheck => exact h.consumeCheck hB ho hinv hs
  | slotRead slotId =>
    simp only [Sys.run, ho, Option.some.injEq] at hs
    subst hs
    rw [ho] at hst
    obtain ⟨hcalled, hpos, rfl⟩ := hst
    refine silent ?_ (h.still hinv rfl (.inl rfl) ⟨hcalled, hpos, rfl⟩ rfl)
    simp only [Sys.events, ho, Sys.setOp, Function.update_self]
  | releaseLeaked item => exact h.releaseLeaked ho hinv hs

end Matches

theorem simulates_object [DecidableEq τ] (hB : RingSize B) :
    Linear.Simulates (Sys.step B) (fun _ _ _ => True) Sys.events (FifoSpec B true) (Matches B : Sys τ α → _ → Prop) := by
  intro s a l s' h hs _
  have hinv := h.inv.step hs
  cases l with
  | publish t p | consume t =>
    obtain ⟨ht, hs⟩ := Option.ite_none_right_eq_some.mp hs
    cases hs
    have hidle := (Op.stands_of_atRest ht ..).mp (h.stands t)
    exact ⟨[], _, (Object.Step.call hidle).steps, h.goOn hinv rfl (.inl rfl) rfl h.state⟩
  | run t answer => exact h.run hB hs

/-- The calls take effect one after the other, on a FIFO whose reports and lengths are exact. -/
theorem fullSyncMove_linearizable [DecidableEq τ] (hB : RingSize B) {buffer : Nat → α}
    {events : List (τ × Linear.Event (QueueOp α) (QueueResult α))}
    (h : Linear.Run (Sys.step B) (fun _ _ _ => True) Sys.events (.init buffer) events s) :
    Linear.Linearizable (FifoSpec B true) [] events (s.q.elems B) := by
  obtain ⟨a, ha, hlin⟩ := (simulates_object hB).linearizable (.init B buffer) h
  rwa [ha.state] at hlin

/-- Thread 1 waits for the lock while thread 0 fills the queue, is told that it is full, and consumes. -/
def fillAndTake : List (Label (Nat) Nat) :=
  [.publish 0 (.movable 7), .publish 1 (.movable 8)] ++ .run 0 false :: .run 1 false :: List.replicate 4 (.run 0 false) ++
    List.replicate 4 (.run 1 false) ++ .consume 1 :: List.replicate 5 (.run 1 false)

theorem fullSyncMove_linearizable_fillAndTake :
    ∃ (events : List (Nat × Linear.Event (QueueOp Nat) (QueueResult Nat))) (s : Sys (Nat) Nat),
      Linear.returns events = [(0, .published 1), (1, .full), (1, .consumed 7)] ∧
      Linear.Linearizable (FifoSpec 1 true) [] events (s.q.elems 1) := by
  have hresults : (Linear.trace (Sys.step 1) Sys.events (Sys.init fun _ => 0) fillAndTake).map
      (fun x => Linear.returns x.1) = some [(0, .published 1), (1, .full), (1, .consumed 7)] := by decide +kernel
  obtain ⟨⟨events, s⟩, htrace, hres⟩ := Option.map_eq_some_iff.mp hresults
  exact ⟨events, s, hres, fullSyncMove_linearizable ⟨0, by decide, rfl⟩ (.of_trace (fun _ _ _ => trivial) .refl htrace)⟩

end FullSyncMove
end Mutiny
