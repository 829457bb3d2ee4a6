import Mutiny.Lib.Tally
import Mutiny.LogTopic

/-!
# One subscriber of the log topic shared by several consumers

Any number of threads `κ` consume from one subscriber, one atomic operation at a time, while the publishers go on.
The indices from `start` up to `head` are always shared out among the calls, so each entry is returned once and none is
left out (`Shared.Ok`).

A call that overshot can take its increment back only after all calls with higher indices did. If one of these found
an entry published in the meantime, it never can (`Doomed`, `sharing_iff`).
-/

namespace Mutiny.MMapMeta
variable {τ κ α : Type}

/-- The subscriber and its consumers. `calls` are the finished calls of `consume`, with the indices they took. -/
structure Shared (τ κ α : Type) where
  topic : Sys τ α
  kind : Kind
  start : Nat
  head : Nat
  op : κ → Consuming
  calls : List (Nat × Returned α)

namespace Shared

inductive Label (τ κ α : Type)
  -- anything else that happens to the topic
  | topic (l : MMapMeta.Label τ α)
  -- thread `k` calls `consume`
  | consume (k : κ)
  -- its next step
  | run (k : κ) (spurious : Bool)

inductive Subscription
  | newEventsOnly
  -- the first one of `subscribe_to_separated_old_and_new_events`
  | oldEvents
  | joined

def subscribed (topic : Sys τ α) : Subscription → Shared τ κ α
  | .newEventsOnly => ⟨topic, .dynamic, topic.contents.consumerTail, topic.contents.consumerTail, fun _ => .idle, []⟩
  | .oldEvents => ⟨topic, .fixed topic.contents.consumerTail, 0, 0, fun _ => .idle, []⟩
  | .joined => ⟨topic, .dynamic, 0, 0, fun _ => .idle, []⟩

section Step
variable [DecidableEq τ] [DecidableEq κ]

def setOp (s : Shared τ κ α) (k : κ) (op : Consuming) : Shared τ κ α := { s with op := Function.update s.op k op }

def step (N : Nat) (s : Shared τ κ α) : Label τ κ α → Option (Shared τ κ α)
  | .topic l => (s.topic.step N l).map fun topic => { s with topic }
  | .consume k =>
    match s.op k with
    | .idle => some (s.setOp k .reserve)
    | _ => none
  | .run k spurious =>
    ((s.op k).next N s.topic.contents s.kind s.head spurious).map fun (head, op, call) =>
      { s with head, calls := s.calls ++ call.toList }.setOp k op

end Step

/-- The entries that were returned, with their indices. -/
def taken (s : Shared τ κ α) : List (Nat × α) := s.calls.filterMap fun c => c.2.value.map (Prod.mk c.1)

end Shared

/-! ### When a retreat cannot succeed -/

/-- The index that a call is going to give back. -/
def Consuming.recedes : Consuming → Option Nat
  | .recede slot _ => some slot
  | _ => none

/-- The index of the entry that a call is going to return. -/
def Consuming.binds (tail : Nat) : Consuming → Option Nat
  | .read slot _ => some slot
  | .load slot => if slot < tail then some slot else none
  | _ => none

theorem Consuming.slot_of_recedes {op : Consuming} {h : Nat} (hr : op.recedes = some h) : op.slot = some h := by
  cases op <;> simp_all [recedes, slot]

theorem Consuming.slot_of_binds {op : Consuming} {tail n : Nat} (hb : op.binds tail = some n) : op.slot = some n := by
  cases op <;> simp_all [binds, slot]

theorem Consuming.next_cases {N head head' : Nat} {contents : MMapContents α} {kind : Kind} {op op' : Consuming}
    {spurious : Bool} {call : Option (Nat × Returned α)}
    (h : op.next N contents kind head spurious = some (head', op', call)) :
    (op = .reserve ∧ head' = head + 1 ∧ call = none ∧ (kind = .dynamic ∧ op' = .load head ∨ ∃ fixedTail,
      kind = .fixed fixedTail ∧ (fixedTail ≤ head ∧ op' = .recede head fixedTail ∨
        head < fixedTail ∧ op' = .read head fixedTail))) ∨
    (∃ slot, op = .load slot ∧ head' = head ∧ call = none ∧
      (contents.consumerTail ≤ slot ∧ op' = .recede slot contents.consumerTail ∨
        slot < contents.consumerTail ∧ op' = .read slot contents.consumerTail)) ∨
    (∃ slot tail, op = .recede slot tail ∧ head = slot + 1 ∧ head' = slot ∧ op' = .idle ∧
      call = some (slot, .none tail)) ∨
    (∃ slot tail, op = .recede slot tail ∧ head' = head ∧ op' = op ∧ call = none) ∨
    (∃ slot tail, op = .read slot tail ∧ head' = head ∧ op' = .idle ∧
      call = some (slot, .item (contents.buffer slot) (Int32.ofNat (tail - slot)))) := by
  cases op with
  | idle => cases h
  | reserve =>
    left
    cases kind with
    | dynamic => cases h; exact ⟨rfl, rfl, rfl, .inl ⟨rfl, rfl⟩⟩
    | fixed fixedTail =>
      simp only [next] at h
      split at h <;> cases h
      · exact ⟨rfl, rfl, rfl, .inr ⟨fixedTail, rfl, .inl ⟨‹_›, rfl⟩⟩⟩
      · exact ⟨rfl, rfl, rfl, .inr ⟨fixedTail, rfl, .inr ⟨Nat.lt_of_not_le ‹_›, rfl⟩⟩⟩
  | load slot =>
    simp only [next] at h
    split at h <;> cases h
    · exact .inr (.inl ⟨slot, rfl, rfl, rfl, .inl ⟨‹_›, rfl⟩⟩)
    · exact .inr (.inl ⟨slot, rfl, rfl, rfl, .inr ⟨Nat.lt_of_not_le ‹_›, rfl⟩⟩)
  | recede slot tail =>
    simp only [next] at h
    split at h
    case isTrue hc =>
      cases h
      exact .inr (.inr (.inl ⟨_, tail, rfl, hc.2, rfl, rfl, rfl⟩))
    case isFalse =>
      cases h
      exact .inr (.inr (.inr (.inl ⟨slot, tail, rfl, rfl, rfl, rfl⟩)))
  | read slot tail =>
    simp only [next] at h
    split at h <;> cases h
    exact .inr (.inr (.inr (.inr ⟨slot, tail, rfl, rfl, rfl, rfl⟩)))

namespace Shared

/-- The entry has been returned, or is going to be. -/
def Bound (s : Shared τ κ α) (n : Nat) : Prop :=
  n ∈ s.taken.map Prod.fst ∨ ∃ k, (s.op k).binds s.topic.contents.consumerTail = some n

/-- A call is to give an index back below that of an entry that is not. -/
def Doomed (s : Shared τ κ α) : Prop := ∃ k h n, (s.op k).recedes = some h ∧ h < n ∧ s.Bound n

/-- No entry becomes visible to a call that will return it while another one retreats from an index below, and no index
of a visible entry is taken while a call retreats. -/
def Calm (s : Shared τ κ α) : Label τ κ α → Prop
  | .topic l => s.topic.Exposes l → ∀ k k' h, (s.op k).recedes = some h → h < s.topic.contents.consumerTail →
      s.op k' ≠ .load s.topic.contents.consumerTail
  | .consume _ => True
  | .run k _ => s.op k = .reserve → s.kind = .dynamic → s.head < s.topic.contents.consumerTail →
      ∀ k', (s.op k').recedes = none

section Sharing
variable [DecidableEq τ] [DecidableEq κ]

/-- What sharing a subscriber comes to. -/
structure Sharing (N : Nat) (s : Shared τ κ α) : Prop where
  /-- Each entry is returned by one call at most. -/
  once : (s.taken.map Prod.fst).Nodup
  entry : ∀ n x, (n, x) ∈ s.taken → s.start ≤ n ∧ s.topic.values[n]? = some x
  /-- No entry is skipped. -/
  quiet : (∀ k, s.op k = .idle) → ∀ n, n ∈ s.taken.map Prod.fst ↔ s.start ≤ n ∧ n < s.head
  /-- The calls in progress can all return. -/
  leaves : ∃ s', Machine.Steps (step N) (fun _ l _ => ∃ k spurious, l = .run k spurious) s s' ∧ ∀ k, s'.op k = .idle

end Sharing

/-! ### What every step keeps -/

section Ok
variable {N : Nat} {zero : α} {s s' : Shared τ κ α} {k : κ} {n : Nat}

/-- Who has got an index: a call in progress, or the one that returned the `i`-th entry. -/
def holder (s : Shared τ κ α) : κ ⊕ Nat → Option Nat
  | .inl k => (s.op k).slot
  | .inr i => s.taken[i]?.map Prod.fst

structure Ok (N : Nat) (zero : α) (s : Shared τ κ α) : Prop where
  topic : Grown N zero s.topic
  window : Ticket.Window s.start s.head s.holder
  few : {k | s.op k ≠ .idle}.Finite
  values : ∀ n x, (n, x) ∈ s.taken → s.topic.values[n]? = some x
  load : ∀ k n, s.op k = .load n → s.kind = .dynamic
  read : ∀ k n tail, s.op k = .read n tail → n < tail ∧ tail ≤ s.topic.contents.consumerTail
  fixed : ∀ fixedTail, s.kind = .fixed fixedTail → fixedTail ≤ s.topic.contents.consumerTail ∧
    ∀ k h, (s.op k).recedes = some h → fixedTail ≤ h

theorem mem_taken_iff : n ∈ s.taken.map Prod.fst ↔ ∃ i, s.holder (.inr i) = some n := by
  rw [List.mem_iff_getElem?]
  simp only [holder, List.getElem?_map]

theorem taken_item (s : Shared τ κ α) (n : Nat) (x : α) (len : Int32) :
    taken { s with calls := s.calls ++ [(n, .item x len)] } = s.taken ++ [(n, x)] := by
  simp [taken, Returned.value]

theorem taken_none (s : Shared τ κ α) (n tail : Nat) :
    taken { s with calls := s.calls ++ [(n, .none tail)] } = s.taken := by
  simp [taken, Returned.value]

theorem Ok.start {topic : Sys τ α} (h : Grown N zero topic) (how : Subscription) :
    Ok N zero (subscribed topic how : Shared τ κ α) := by
  have hholder : ∀ kind start,
      (⟨topic, kind, start, start, fun _ => .idle, []⟩ : Shared τ κ α).holder = fun _ => none := by
    intro kind start
    funext x
    rcases x with k | i <;> rfl
  have hok : ∀ kind start, (∀ fixedTail, kind = .fixed fixedTail → fixedTail ≤ topic.contents.consumerTail) →
      Ok N zero (⟨topic, kind, start, start, fun _ => .idle, []⟩ : Shared τ κ α) := by
    intro kind start hfixed
    refine ⟨h, ?_, by simp, by simp [taken], by simp, by simp, fun fixedTail hk => ⟨hfixed fixedTail hk, ?_⟩⟩
    · rw [hholder]
      exact .empty start
    · simp [Consuming.recedes]
  cases how with
  | newEventsOnly => exact hok _ _ (by simp)
  | joined => exact hok _ _ (by simp)
  | oldEvents =>
    refine hok _ _ ?_
    rintro _ ⟨⟩
    exact Nat.le_refl _

section Step
variable [DecidableEq κ]

theorem holder_setOp (s : Shared τ κ α) (k : κ) (op : Consuming) :
    (s.setOp k op).holder = Function.update s.holder (.inl k) op.slot := by
  funext x
  rcases x with j | i
  · by_cases hj : j = k
    · subst hj; simp [holder, setOp]
    · simp [holder, setOp, hj]
  · simp [holder, setOp, taken]

theorem holder_item (s : Shared τ κ α) (n : Nat) (x : α) (len : Int32) :
    holder { s with calls := s.calls ++ [(n, .item x len)] } =
      Function.update s.holder (.inr s.taken.length) (some n) := by
  funext y
  rcases y with j | i
  · simp [holder]
  · rw [holder, taken_item]
    rcases Nat.lt_trichotomy i s.taken.length with hi | rfl | hi
    · rw [List.getElem?_append_left hi, Function.update_of_ne (by simp; omega)]
      rfl
    · rw [List.getElem?_concat_length, Function.update_self]
      rfl
    · rw [List.getElem?_eq_none (by simp; omega), Function.update_of_ne (by simp; omega), holder,
        List.getElem?_eq_none (by omega)]

theorem setOp_self (s : Shared τ κ α) (k : κ) : s.setOp k (s.op k) = s := by
  unfold setOp
  rw [Function.update_eq_self]

theorem Ok.goOn {op : Consuming} (h : Ok N zero s) (head : Nat) (calls : List (Nat × Returned α))
    (hw : Ticket.Window s.start head ({ s with head, calls }.setOp k op).holder)
    (hvalues : ∀ n x, (n, x) ∈ taken { s with head, calls } → s.topic.values[n]? = some x)
    (hload : ∀ n, op = .load n → s.kind = .dynamic)
    (hread : ∀ n tail, op = .read n tail → n < tail ∧ tail ≤ s.topic.contents.consumerTail)
    (hrecede : ∀ fixedTail, s.kind = .fixed fixedTail → ∀ n, op.recedes = some n → fixedTail ≤ n) :
    Ok N zero ({ s with head, calls }.setOp k op) := by
  have hself : Function.update s.op k op k = op := Function.update_self ..
  have hother : ∀ j, j ≠ k → Function.update s.op k op j = s.op j := fun j hj => Function.update_of_ne hj ..
  refine ⟨h.topic, hw, ?_, hvalues, fun j n hj => ?_, fun j n tail hj => ?_, fun fixedTail hk => ?_⟩
  · refine (h.few.insert k).subset fun j hj => ?_
    by_cases hjk : j = k
    · exact .inl hjk
    · exact .inr fun hidle => hj ((hother j hjk).trans hidle)
  · by_cases hjk : j = k
    · subst hjk
      exact hload n (hself.symm.trans hj)
    · exact h.load j n ((hother j hjk).symm.trans hj)
  · by_cases hjk : j = k
    · subst hjk
      exact hread n tail (hself.symm.trans hj)
    · exact h.read j n tail ((hother j hjk).symm.trans hj)
  · refine ⟨(h.fixed fixedTail hk).1, fun j n hj => ?_⟩
    change (Function.update s.op k op j).recedes = some n at hj
    by_cases hjk : j = k
    · subst hjk
      rw [hself] at hj
      exact hrecede fixedTail hk n hj
    · rw [hother j hjk] at hj
      exact (h.fixed fixedTail hk).2 j n hj

theorem Ok.run {spurious : Bool} {head : Nat} {op : Consuming} {call : Option (Nat × Returned α)} (h : Ok N zero s)
    (hs : (s.op k).next N s.topic.contents s.kind s.head spurious = some (head, op, call)) :
    Ok N zero ({ s with head, calls := s.calls ++ call.toList }.setOp k op) := by
  have hslot : s.holder (.inl k) = (s.op k).slot := rfl
  rcases Consuming.next_cases hs with ⟨hop, rfl, rfl, hcase⟩ | ⟨slot, hop, rfl, rfl, hcase⟩ |
    ⟨slot, tail, hop, hhead, rfl, rfl, rfl⟩ | ⟨slot, tail, hop, rfl, rfl, rfl⟩ | ⟨slot, tail, hop, rfl, rfl, rfl⟩
  · -- `fetch_add`
    rw [hop] at hslot
    have hgrab : ∀ op : Consuming, op.slot = some s.head →
        Ticket.Window s.start (s.head + 1) ({ s with head := s.head + 1, calls := s.calls ++ [] }.setOp k op).holder := by
      intro op ho
      rw [holder_setOp, ho, List.append_nil]
      exact h.window.acquire hslot
    have hvalues : ∀ n x, (n, x) ∈ taken { s with head := s.head + 1, calls := s.calls ++ [] } →
        s.topic.values[n]? = some x := by
      rw [List.append_nil]
      exact h.values
    rcases hcase with ⟨hk, rfl⟩ | ⟨fixedTail, hk, ⟨hle, rfl⟩ | ⟨hlt, rfl⟩⟩
    · refine h.goOn _ _ (hgrab _ rfl) hvalues (fun _ _ => hk) (by simp) ?_
      simp [hk]
    · refine h.goOn _ _ (hgrab _ rfl) hvalues (by simp) (by simp) ?_
      simp [hk, Consuming.recedes, hle]
    · refine h.goOn _ _ (hgrab _ rfl) hvalues (by simp) ?_ (by simp [Consuming.recedes])
      rintro _ _ ⟨⟩
      exact ⟨hlt, (h.fixed fixedTail hk).1⟩
  · -- the load of `consumer_tail`
    rw [hop] at hslot
    have hkeep : ∀ op : Consuming, op.slot = some slot →
        Ticket.Window s.start s.head ({ s with calls := s.calls ++ [] }.setOp k op).holder := by
      intro op ho
      rw [holder_setOp, ho, List.append_nil, ← show s.holder (.inl k) = some slot from hslot, Function.update_eq_self]
      exact h.window
    have hvalues : ∀ n x, (n, x) ∈ taken { s with calls := s.calls ++ [] } → s.topic.values[n]? = some x := by
      rw [List.append_nil]
      exact h.values
    have hk := h.load k slot hop
    rcases hcase with ⟨hle, rfl⟩ | ⟨hlt, rfl⟩
    · refine h.goOn _ _ (hkeep _ rfl) hvalues (by simp) (by simp) ?_
      simp [hk]
    · refine h.goOn _ _ (hkeep _ rfl) hvalues (by simp) ?_ (by simp [Consuming.recedes])
      rintro _ _ ⟨⟩
      exact ⟨hlt, Nat.le_refl _⟩
  · -- the increment is taken back
    rw [hop] at hslot
    refine h.goOn _ _ ?_ ?_ (by simp) (by simp) (by simp [Consuming.recedes])
    · have hw := h.window
      rw [hhead] at hw
      rw [holder_setOp]
      have hholder : holder { s with head, calls := s.calls ++ [(head, Returned.none tail)] } = s.holder := by
        funext x
        rcases x with j | i
        · rfl
        · rw [holder, taken_none { s with head }]
          rfl
      rw [show (some (head, (Returned.none tail : Returned α))).toList = [(head, .none tail)] from rfl, hholder]
      exact hw.giveBack hslot
    · rw [show (some (head, (Returned.none tail : Returned α))).toList = [(head, .none tail)] from rfl,
        taken_none { s with head }]
      exact h.values
  · -- in vain
    rw [show (none : Option (Nat × Returned α)).toList = [] from rfl, List.append_nil, setOp_self]
    exact h
  · -- an entry is returned
    rw [hop] at hslot
    obtain ⟨hlt, hle⟩ := h.read k slot tail hop
    have hnone : s.holder (.inr s.taken.length) = none := by
      rw [holder, List.getElem?_eq_none (Nat.le_refl _)]
      rfl
    refine h.goOn _ _ ?_ ?_ (by simp) (by simp) (by simp [Consuming.recedes])
    · rw [holder_setOp, Option.toList_some, holder_item, Function.update_comm (by simp)]
      exact h.window.pass hslot hnone
    · intro n x hmem
      rw [Option.toList_some, taken_item, List.mem_append, List.mem_singleton] at hmem
      rcases hmem with hmem | hmem
      · exact h.values n x hmem
      · cases hmem
        exact h.topic.buffer_eq (by omega)

variable [DecidableEq τ]

omit [DecidableEq κ] in
theorem Ok.topicStep {l : MMapMeta.Label τ α} {topic : Sys τ α} (h : Ok N zero s) (hs : s.topic.step N l = some topic) :
    Ok N zero { s with topic } := by
  have hmono : s.topic.contents.consumerTail ≤ topic.contents.consumerTail := by
    rcases consumerTail_step hs with ⟨-, he⟩ | he <;> omega
  refine ⟨h.topic.step hs, h.window, h.few, fun n x hmem => ?_, h.load, fun j n tail hj => ?_, fun fixedTail hk => ?_⟩
  · obtain ⟨hn, hx⟩ := List.getElem?_eq_some_iff.mp (h.values n x hmem)
    rw [List.prefix_iff_getElem?.mp (values_step hs) n hn, hx]
  · obtain ⟨hlt, hle⟩ := h.read j n tail hj
    exact ⟨hlt, Nat.le_trans hle hmono⟩
  · obtain ⟨hle, hrecede⟩ := h.fixed fixedTail hk
    exact ⟨Nat.le_trans hle hmono, hrecede⟩

theorem Ok.step {l : Label τ κ α} (h : Ok N zero s) (hs : s.step N l = some s') : Ok N zero s' := by
  cases l with
  | topic l =>
    obtain ⟨topic, ht, rfl⟩ := Option.map_eq_some_iff.mp hs
    exact h.topicStep ht
  | consume k =>
    cases hop : s.op k with
    | idle =>
      simp only [Shared.step, hop] at hs
      cases hs
      have hslot : s.holder (.inl k) = none := by rw [holder, hop]; rfl
      refine h.goOn s.head s.calls ?_ h.values (by simp) (by simp) (by simp [Consuming.recedes])
      rw [holder_setOp, show Consuming.reserve.slot = none from rfl, ← hslot, Function.update_eq_self]
      exact h.window
    | _ => simp [Shared.step, hop] at hs
  | run k spurious =>
    obtain ⟨⟨head, op, call⟩, hnext, rfl⟩ := Option.map_eq_some_iff.mp hs
    exact h.run hnext

end Step

/-! ### Retreats that fail for good -/

theorem binds_mono {op : Consuming} {tail tail' : Nat} (hle : tail ≤ tail') (h : op.binds tail = some n) :
    op.binds tail' = some n := by
  cases op with
  | load slot =>
    simp only [Consuming.binds, Option.ite_none_right_eq_some, Option.some.injEq] at h ⊢
    exact ⟨by omega, h.2⟩
  | _ => exact h

theorem Ok.bound_lt_tail (h : Ok N zero s) (hb : s.Bound n) : n < s.topic.contents.consumerTail := by
  rcases hb with hmem | ⟨k, hk⟩
  · obtain ⟨⟨m, x⟩, hentry, rfl⟩ := List.mem_map.mp hmem
    rw [← h.topic.values_length]
    exact (List.getElem?_eq_some_iff.mp (h.values m x hentry)).1
  · cases ho : s.op k with
    | load slot =>
      simp only [ho, Consuming.binds, Option.ite_none_right_eq_some, Option.some.injEq] at hk
      omega
    | read slot tail =>
      obtain ⟨hlt, hle⟩ := h.read k slot tail ho
      simp only [ho, Consuming.binds, Option.some.injEq] at hk
      omega
    | _ => simp [ho, Consuming.binds] at hk

theorem Ok.bound_lt_head (h : Ok N zero s) (hb : s.Bound n) : n < s.head := by
  rcases hb with hmem | ⟨k, hk⟩
  · obtain ⟨i, hi⟩ := mem_taken_iff.mp hmem
    exact (h.window.range _ n hi).2
  · exact (h.window.range (.inl k) n (Consuming.slot_of_binds hk)).2

theorem Ok.recedes_lt_head {j : κ} (h : Ok N zero s) (hr : (s.op j).recedes = some n) : n < s.head :=
  (h.window.range (.inl j) n (Consuming.slot_of_recedes hr)).2

theorem Bound.topicStep {topic : Sys τ α} (hb : s.Bound n)
    (hmono : s.topic.contents.consumerTail ≤ topic.contents.consumerTail) : Bound { s with topic } n := by
  rcases hb with hmem | ⟨k, hk⟩
  · exact .inl hmem
  · exact .inr ⟨k, binds_mono hmono hk⟩

section Step
variable [DecidableEq κ] {head : Nat} {op : Consuming}

/-- Thread `k` goes on to `op`, and what it had bound is bound still. -/
theorem Bound.setOp (hb : s.Bound n) (head : Nat) (calls : List (Nat × Returned α))
    (htaken : ∀ m, m ∈ s.taken.map Prod.fst → m ∈ (taken { s with head, calls }).map Prod.fst)
    (hop : (s.op k).binds s.topic.contents.consumerTail = some n →
      op.binds s.topic.contents.consumerTail = some n ∨ n ∈ (taken { s with head, calls }).map Prod.fst) :
    Bound ({ s with head, calls }.setOp k op) n := by
  rcases hb with hmem | ⟨j, hj⟩
  · exact .inl (htaken n hmem)
  · by_cases hjk : j = k
    · subst hjk
      rcases hop hj with hop | hmem
      · exact .inr ⟨j, by show (Function.update s.op j op j).binds _ = _; rw [Function.update_self]; exact hop⟩
      · exact .inl hmem
    · exact .inr ⟨j, by show (Function.update s.op k op j).binds _ = _; rw [Function.update_of_ne hjk]; exact hj⟩

/-- A step of a call dooms none unless it gives an index back below a bound one, or binds one above such an index. -/
theorem not_doomed_setOp (hd : ¬ s.Doomed) (head : Nat) (calls : List (Nat × Returned α))
    (htaken : ∀ m, m ∈ (taken { s with head, calls }).map Prod.fst → s.Bound m)
    (hrecede : ∀ h m, op.recedes = some h → h < m → ¬ s.Bound m)
    (hbind : ∀ m, op.binds s.topic.contents.consumerTail = some m → s.Bound m ∨ ∀ j, (s.op j).recedes = none) :
    ¬ Doomed ({ s with head, calls }.setOp k op) := by
  rintro ⟨j, h, m, hr, hlt, hb⟩
  change (Function.update s.op k op j).recedes = some h at hr
  have hother : ∀ i, i ≠ k → Function.update s.op k op i = s.op i := fun i hi => Function.update_of_ne hi ..
  have hself : Function.update s.op k op k = op := Function.update_self ..
  -- what is bound has been, unless the call itself binds it
  have hbound : s.Bound m ∨ op.binds s.topic.contents.consumerTail = some m := by
    rcases hb with hmem | ⟨i, hi⟩
    · exact .inl (htaken m hmem)
    · change (Function.update s.op k op i).binds s.topic.contents.consumerTail = some m at hi
      by_cases hik : i = k
      · subst hik
        rw [hself] at hi
        exact .inr hi
      · rw [hother i hik] at hi
        exact .inl (.inr ⟨i, hi⟩)
  have hbound' : s.Bound m ∨ ∀ j, (s.op j).recedes = none := hbound.elim .inl (hbind m)
  by_cases hjk : j = k
  · subst hjk
    rw [hself] at hr
    rcases hbound with hb | hb
    · exact hrecede h m hr hlt hb
    · cases op <;> simp [Consuming.recedes, Consuming.binds] at hr hb
  · rw [hother j hjk] at hr
    rcases hbound' with hb | hnone
    · exact hd ⟨j, h, m, hr, hlt, hb⟩
    · rw [hnone j] at hr
      cases hr

theorem not_doomed_run {spurious : Bool} {call : Option (Nat × Returned α)} (h : Ok N zero s) (hd : ¬ s.Doomed)
    (hc : s.op k = .reserve → s.kind = .dynamic → s.head < s.topic.contents.consumerTail →
      ∀ j, (s.op j).recedes = none)
    (hs : (s.op k).next N s.topic.contents s.kind s.head spurious = some (head, op, call)) :
    ¬ Doomed ({ s with head, calls := s.calls ++ call.toList }.setOp k op) := by
  have hsame : ∀ head m, m ∈ (taken { s with head, calls := s.calls ++ [] }).map Prod.fst → s.Bound m := by
    intro head m hmem
    rw [List.append_nil] at hmem
    exact .inl hmem
  rcases Consuming.next_cases hs with ⟨hop, rfl, rfl, hcase⟩ | ⟨slot, hop, rfl, rfl, hcase⟩ |
    ⟨slot, tail, hop, hhead, rfl, rfl, rfl⟩ | ⟨slot, tail, hop, rfl, rfl, rfl⟩ | ⟨slot, tail, hop, rfl, rfl, rfl⟩
  · rcases hcase with ⟨hk, rfl⟩ | ⟨fixedTail, hk, ⟨hle, rfl⟩ | ⟨hlt, rfl⟩⟩
    · refine not_doomed_setOp hd _ _ (hsame _) nofun fun m hm => .inr ?_
      simp only [Consuming.binds, Option.ite_none_right_eq_some, Option.some.injEq] at hm
      exact hc hop hk hm.1
    · refine not_doomed_setOp hd _ _ (hsame _) ?_ nofun
      rintro _ m ⟨⟩ hlt hb
      exact absurd (h.bound_lt_head hb) (Nat.not_lt.mpr (Nat.le_of_lt hlt))
    · -- nobody retreats from below the fixed tail
      refine not_doomed_setOp hd _ _ (hsame _) nofun fun m _ => .inr fun j => ?_
      cases hr : (s.op j).recedes with
      | none => rfl
      | some n =>
        have hle := (h.fixed fixedTail hk).2 j n hr
        have hlt' := h.recedes_lt_head hr
        omega
  · rcases hcase with ⟨hle, rfl⟩ | ⟨hlt, rfl⟩
    · refine not_doomed_setOp hd _ _ (hsame _) ?_ nofun
      rintro _ m ⟨⟩ hlt hb
      have := h.bound_lt_tail hb
      omega
    · refine not_doomed_setOp hd _ _ (hsame _) nofun fun m hm => .inl (.inr ⟨k, ?_⟩)
      cases hm
      rw [hop, Consuming.binds, if_pos hlt]
  · refine not_doomed_setOp hd _ _ (fun m hm => .inl ?_) nofun nofun
    rw [Option.toList_some, taken_none { s with head }] at hm
    exact hm
  · rw [show (none : Option (Nat × Returned α)).toList = [] from rfl, List.append_nil, setOp_self]
    exact hd
  · refine not_doomed_setOp hd _ _ (fun m hm => ?_) nofun nofun
    rw [Option.toList_some, taken_item, List.map_append, List.mem_append, List.map_singleton, List.mem_singleton] at hm
    rcases hm with hm | rfl
    · exact .inl hm
    · exact .inr ⟨k, by rw [hop]; rfl⟩

theorem Doomed.run {spurious : Bool} {call : Option (Nat × Returned α)} (h : Ok N zero s) (hd : s.Doomed)
    (hs : (s.op k).next N s.topic.contents s.kind s.head spurious = some (head, op, call)) :
    Doomed ({ s with head, calls := s.calls ++ call.toList }.setOp k op) := by
  obtain ⟨j, m, n, hr, hlt, hb⟩ := hd
  have hhead := h.bound_lt_head hb
  have hsame : ∀ head m, m ∈ s.taken.map Prod.fst →
      m ∈ (taken { s with head, calls := s.calls ++ [] }).map Prod.fst := by
    intro head m hmem
    rw [List.append_nil]
    exact hmem
  have hother : ∀ calls op, j ≠ k → ((Shared.setOp { s with head, calls } k op).op j).recedes = some m := by
    intro calls op hjk
    show (Function.update s.op k op j).recedes = some m
    rw [Function.update_of_ne hjk]
    exact hr
  have hne : (s.op k).recedes = none → j ≠ k := by
    rintro hnone rfl
    rw [hnone] at hr
    cases hr
  rcases Consuming.next_cases hs with ⟨hop, rfl, rfl, -⟩ | ⟨slot, hop, rfl, rfl, hcase⟩ |
    ⟨slot, tail, hop, hslot, rfl, rfl, rfl⟩ | ⟨slot, tail, hop, rfl, rfl, rfl⟩ | ⟨slot, tail, hop, rfl, rfl, rfl⟩
  · refine ⟨j, m, n, hother _ _ (hne (by rw [hop]; rfl)), hlt, hb.setOp _ _ (hsame _) fun hbind => ?_⟩
    rw [hop] at hbind
    cases hbind
  · refine ⟨j, m, n, hother _ _ (hne (by rw [hop]; rfl)), hlt, hb.setOp _ _ (hsame _) fun hbind => .inl ?_⟩
    simp only [hop, Consuming.binds, Option.ite_none_right_eq_some, Option.some.injEq] at hbind
    obtain ⟨hlt', rfl⟩ := hbind
    rcases hcase with ⟨hle, rfl⟩ | ⟨-, rfl⟩
    · omega
    · rfl
  · -- only the topmost index can be given back
    have hjk : j ≠ k := by
      rintro rfl
      rw [hop] at hr
      cases hr
      omega
    refine ⟨j, m, n, hother _ _ hjk, hlt, hb.setOp _ _ (fun m hm => ?_) fun hbind => ?_⟩
    · rw [Option.toList_some, taken_none { s with head }]
      exact hm
    · rw [hop] at hbind
      cases hbind
  · rw [show (none : Option (Nat × Returned α)).toList = [] from rfl, List.append_nil, setOp_self]
    exact ⟨j, m, n, hr, hlt, hb⟩
  · refine ⟨j, m, n, hother _ _ (hne (by rw [hop]; rfl)), hlt, hb.setOp _ _ (fun m hm => ?_) fun hbind => .inr ?_⟩
    · rw [Option.toList_some, taken_item, List.map_append]
      exact List.mem_append_left _ hm
    · rw [hop] at hbind
      cases hbind
      rw [Option.toList_some, taken_item, List.map_append]
      exact List.mem_append_right _ List.mem_cons_self

variable [DecidableEq τ] {l : Label τ κ α}

theorem Doomed.step (h : Ok N zero s) (hd : s.Doomed) (hs : s.step N l = some s') : s'.Doomed := by
  cases l with
  | topic l =>
    obtain ⟨topic, ht, rfl⟩ := Option.map_eq_some_iff.mp hs
    obtain ⟨j, m, n, hr, hlt, hb⟩ := hd
    refine ⟨j, m, n, hr, hlt, hb.topicStep ?_⟩
    rcases consumerTail_step ht with ⟨-, he⟩ | he <;> omega
  | consume k =>
    obtain ⟨j, m, n, hr, hlt, hb⟩ := hd
    cases hop : s.op k with
    | idle =>
      simp only [Shared.step, hop] at hs
      cases hs
      have hjk : j ≠ k := by
        rintro rfl
        rw [hop] at hr
        cases hr
      refine ⟨j, m, n, ?_, hlt, hb.setOp s.head s.calls (fun _ hm => hm) fun hbind => ?_⟩
      · show (Function.update s.op k _ j).recedes = some m
        rw [Function.update_of_ne hjk]
        exact hr
      · rw [hop] at hbind
        cases hbind
    | _ => simp [Shared.step, hop] at hs
  | run k spurious =>
    obtain ⟨⟨head, op, call⟩, hnext, rfl⟩ := Option.map_eq_some_iff.mp hs
    exact hd.run h hnext

theorem not_doomed_step (h : Ok N zero s) (hd : ¬ s.Doomed) (hc : s.Calm l) (hs : s.step N l = some s') :
    ¬ s'.Doomed := by
  cases l with
  | topic l =>
    obtain ⟨topic, ht, rfl⟩ := Option.map_eq_some_iff.mp hs
    rintro ⟨j, m, n, hr, hlt, hb⟩
    rcases hb with hmem | ⟨i, hi⟩
    · exact hd ⟨j, m, n, hr, hlt, .inl hmem⟩
    · by_cases hold : (s.op i).binds s.topic.contents.consumerTail = some n
      · exact hd ⟨j, m, n, hr, hlt, .inr ⟨i, hold⟩⟩
      · -- the entry has just become visible
        rcases consumerTail_step ht with ⟨hex, he⟩ | he
        · change (s.op i).binds topic.contents.consumerTail = some n at hi
          cases ho : s.op i with
          | load slot =>
            simp only [ho, Consuming.binds, Option.ite_none_right_eq_some, Option.some.injEq] at hi hold
            obtain ⟨hslot, rfl⟩ := hi
            have hn : slot = s.topic.contents.consumerTail := by
              by_contra hne
              exact hold ⟨by omega, rfl⟩
            exact hc hex j i m hr (hn ▸ hlt) (hn ▸ ho)
          | read slot tail =>
            simp only [ho, Consuming.binds] at hi hold
            exact hold hi
          | _ => simp [ho, Consuming.binds] at hi
        · change (s.op i).binds topic.contents.consumerTail = some n at hi
          rw [he] at hi
          exact hold hi
  | consume k =>
    cases hop : s.op k with
    | idle =>
      simp only [Shared.step, hop] at hs
      cases hs
      exact not_doomed_setOp hd s.head s.calls (fun m hm => .inl hm) nofun nofun
    | _ => simp [Shared.step, hop] at hs
  | run k spurious =>
    obtain ⟨⟨head, op, call⟩, hnext, rfl⟩ := Option.map_eq_some_iff.mp hs
    exact not_doomed_run h hd hc hnext

theorem doomed_of_not_calm (h : Ok N zero s) (hc : ¬ s.Calm l) (hs : s.step N l = some s') : s'.Doomed := by
  cases l with
  | topic l =>
    obtain ⟨topic, ht, rfl⟩ := Option.map_eq_some_iff.mp hs
    simp only [Calm, Classical.not_forall, not_not] at hc
    obtain ⟨hex, j, i, m, hr, hlt, ho⟩ := hc
    have htail := hex.consumerTail ht
    refine ⟨j, m, s.topic.contents.consumerTail, hr, hlt, .inr ⟨i, ?_⟩⟩
    show (s.op i).binds topic.contents.consumerTail = _
    rw [ho, Consuming.binds, if_pos (by omega)]
  | consume k => exact absurd trivial hc
  | run k spurious =>
    simp only [Calm, Classical.not_forall] at hc
    obtain ⟨hop, hk, hlt, j, hr⟩ := hc
    obtain ⟨m, hr⟩ := Option.ne_none_iff_exists'.mp hr
    have hjk : j ≠ k := by
      rintro rfl
      rw [hop] at hr
      cases hr
    simp only [Shared.step, hop, hk, Consuming.next, Option.map_some, Option.some.injEq] at hs
    subst hs
    refine ⟨j, m, s.head, ?_, h.recedes_lt_head hr, .inr ⟨k, ?_⟩⟩
    · show (Function.update s.op k _ j).recedes = some m
      rw [Function.update_of_ne hjk]
      exact hr
    · show (Function.update s.op k _ k).binds s.topic.contents.consumerTail = some s.head
      rw [Function.update_self, Consuming.binds, if_pos hlt]

/-! ### All calls can return -/

/-- How many steps a call has to take at most, if none is in vain. -/
def Consuming.weight : Consuming → Nat
  | .idle => 0
  | .reserve => 3
  | .load _ => 2
  | .recede .. | .read .. => 1

theorem Ok.advance {call : Option (Nat × Returned α)} (h : Ok N zero s)
    (hs : (s.op k).next N s.topic.contents s.kind s.head false = some (head, op, call))
    (hlt : Consuming.weight op < Consuming.weight (s.op k)) : ∃ s', s.step N (.run k false) = some s' ∧
      Tally.total Consuming.weight s'.op < Tally.total Consuming.weight s.op := by
  refine ⟨{ s with head, calls := s.calls ++ call.toList }.setOp k op, ?_, ?_⟩
  · show Option.map _ _ = _
    rw [hs]
    rfl
  · have hsmall : Tally.Small Consuming.weight s.op := h.few.subset fun j hj hidle => hj (by rw [hidle]; rfl)
    have hup := Tally.total_update hsmall k op
    show Tally.total Consuming.weight (Function.update s.op k op) < _
    omega

omit [DecidableEq κ] [DecidableEq τ] in
/-- The call that took the topmost index can give it back, if all calls are about to give theirs back. -/
theorem Ok.exists_topmost (h : Ok N zero s) (hd : ¬ s.Doomed) (hfound : ∀ j m tail, s.op j ≠ .read m tail)
    (hload : ∀ j m, s.op j ≠ .load m) {j : κ} (hr : (s.op j).recedes = some n) :
    ∃ k m tail, s.op k = .recede m tail ∧ s.head = m + 1 := by
  obtain ⟨hlo, hhi⟩ := h.window.range (.inl j) n (Consuming.slot_of_recedes hr)
  obtain ⟨x, hx⟩ := h.window.cover (s.head - 1) (by omega) (by omega)
  rcases x with k | i
  · change (s.op k).slot = some (s.head - 1) at hx
    cases ho : s.op k with
    | recede m tail =>
      rw [ho] at hx
      cases hx
      exact ⟨k, _, tail, ho, by omega⟩
    | load m => exact absurd ho (hload k m)
    | read m tail => exact absurd ho (hfound k m tail)
    | _ => simp [ho, Consuming.slot] at hx
  · -- that entry has been returned, so the index is the one of `j`
    have hb : s.Bound (s.head - 1) := .inl (mem_taken_iff.mpr ⟨i, hx⟩)
    have hn : n = s.head - 1 := by
      by_contra hne
      exact hd ⟨j, n, s.head - 1, hr, by omega, hb⟩
    have hinj := h.window.inj (.inl j) (.inr i) n (Consuming.slot_of_recedes hr) (hn ▸ hx)
    cases hinj

/-- Some call in progress can take a step that brings it closer to its end and dooms no other. -/
theorem Ok.progress (h : Ok N zero s) (hd : ¬ s.Doomed) {j : κ} (hj : s.op j ≠ .idle) :
    ∃ k s', s.step N (.run k false) = some s' ∧ s.Calm (.run k false) ∧
      Tally.total Consuming.weight s'.op < Tally.total Consuming.weight s.op := by
  by_cases hread : ∃ k m tail, s.op k = .read m tail
  · obtain ⟨k, m, tail, ho⟩ := hread
    obtain ⟨hlt, hle⟩ := h.read k m tail ho
    have hN := h.topic.exposed
    have hnext : (s.op k).next N s.topic.contents s.kind s.head false = some (s.head, .idle,
        some (m, .item (s.topic.contents.buffer m) (Int32.ofNat (tail - m)))) := by
      rw [ho, Consuming.next, if_pos (by omega)]
    obtain ⟨s', hs, hless⟩ := h.advance hnext (by rw [ho]; exact Nat.zero_lt_one)
    exact ⟨k, s', hs, by simp [Calm, ho], hless⟩
  by_cases hload : ∃ k m, s.op k = .load m
  · obtain ⟨k, m, ho⟩ := hload
    have hnext : ∃ op, Consuming.weight op = 1 ∧
        (s.op k).next N s.topic.contents s.kind s.head false = some (s.head, op, none) := by
      simp only [ho, Consuming.next]
      split
      · exact ⟨_, rfl, rfl⟩
      · exact ⟨_, rfl, rfl⟩
    obtain ⟨op, hw, hnext⟩ := hnext
    obtain ⟨s', hs, hless⟩ := h.advance hnext (by rw [ho, hw]; exact Nat.one_lt_two)
    exact ⟨k, s', hs, by simp [Calm, ho], hless⟩
  simp only [not_exists] at hread hload
  by_cases hrecede : ∃ k m, (s.op k).recedes = some m
  · obtain ⟨i, m, hr⟩ := hrecede
    obtain ⟨k, m, tail, ho, hhead⟩ := h.exists_topmost hd hread hload hr
    have hnext : (s.op k).next N s.topic.contents s.kind s.head false = some (m, .idle, some (m, .none tail)) := by
      rw [ho, Consuming.next, if_pos ⟨rfl, hhead⟩]
    obtain ⟨s', hs, hless⟩ := h.advance hnext (by rw [ho]; exact Nat.zero_lt_one)
    exact ⟨k, s', hs, by simp [Calm, ho], hless⟩
  · -- nobody has taken an index yet
    have hnone : ∀ k, (s.op k).recedes = none := fun k => Option.eq_none_iff_forall_ne_some.mpr fun m hm =>
      hrecede ⟨k, m, hm⟩
    have ho : s.op j = .reserve := by
      cases ho : s.op j with
      | idle => exact absurd ho hj
      | reserve => rfl
      | load m => exact absurd ho (hload j m)
      | read m tail => exact absurd ho (hread j m tail)
      | recede m tail => exact absurd ⟨j, m, by rw [ho]; rfl⟩ hrecede
    have hnext : ∃ op, Consuming.weight op < 3 ∧
        (s.op j).next N s.topic.contents s.kind s.head false = some (s.head + 1, op, none) := by
      simp only [ho, Consuming.next]
      split
      · exact ⟨_, by simp [Consuming.weight], rfl⟩
      · split
        · exact ⟨_, by simp [Consuming.weight], rfl⟩
        · exact ⟨_, by simp [Consuming.weight], rfl⟩
    obtain ⟨op, hw, hnext⟩ := hnext
    obtain ⟨s', hs, hless⟩ := h.advance hnext (by rw [ho]; exact hw)
    exact ⟨j, s', hs, fun _ _ _ => hnone, hless⟩

theorem Ok.leaves (h : Ok N zero s) (hd : ¬ s.Doomed) : ∃ s',
    Machine.Steps (Shared.step N) (fun _ l _ => ∃ k spurious, l = .run k spurious) s s' ∧ ∀ k, s'.op k = .idle := by
  refine Machine.exists_steps_of_variant (I := fun s => Ok N zero s ∧ ¬ s.Doomed)
    (fun s => Tally.total Consuming.weight s.op) (fun s hI hidle => ?_) ⟨h, hd⟩
  rw [not_forall] at hidle
  obtain ⟨j, hj⟩ := hidle
  obtain ⟨k, s', hs, hc, hless⟩ := hI.1.progress hI.2 hj
  exact ⟨_, s', hs, ⟨k, false, rfl⟩, ⟨hI.1.step hs, not_doomed_step hI.1 hI.2 hc hs⟩, hless⟩

theorem not_leaves_of_doomed {ok : Shared τ κ α → Label τ κ α → Shared τ κ α → Prop} (h : Ok N zero s) (hd : s.Doomed)
    (hs : Machine.Steps (Shared.step N) ok s s') : ¬ ∀ k, s'.op k = .idle := by
  intro hidle
  have hboth : Ok N zero s' ∧ s'.Doomed := by
    refine hs.invariant (I := fun s => Ok N zero s ∧ s.Doomed) ?_ ⟨h, hd⟩
    intro s l s' hi hs _
    exact ⟨hi.1.step hs, hi.2.step hi.1 hs⟩
  obtain ⟨k, m, n, hr, -⟩ := hboth.2
  rw [hidle k] at hr
  cases hr

omit [DecidableEq κ] [DecidableEq τ] in
theorem Ok.once (h : Ok N zero s) : (s.taken.map Prod.fst).Nodup := by
  rw [List.nodup_iff_getElem?_ne_getElem?]
  intro i j hij hj he
  rw [List.getElem?_eq_getElem hj] at he
  have hi : s.holder (.inr i) = some ((s.taken.map Prod.fst)[j]) := by rw [holder, ← List.getElem?_map, he]
  have hj' : s.holder (.inr j) = some ((s.taken.map Prod.fst)[j]) := by
    rw [holder, ← List.getElem?_map, List.getElem?_eq_getElem hj]
  have hinj := h.window.inj _ _ _ hi hj'
  cases hinj
  exact absurd hij (Nat.lt_irrefl _)

omit [DecidableEq κ] [DecidableEq τ] in
theorem Ok.entry {x : α} (h : Ok N zero s) (hmem : (n, x) ∈ s.taken) : s.start ≤ n ∧ s.topic.values[n]? = some x := by
  obtain ⟨i, hi⟩ := mem_taken_iff.mp (List.mem_map_of_mem (f := Prod.fst) hmem)
  exact ⟨(h.window.range _ n hi).1, h.values n x hmem⟩

omit [DecidableEq κ] [DecidableEq τ] in
theorem Ok.quiet (h : Ok N zero s) (hidle : ∀ k, s.op k = .idle) (n : Nat) :
    n ∈ s.taken.map Prod.fst ↔ s.start ≤ n ∧ n < s.head := by
  rw [mem_taken_iff]
  constructor
  · rintro ⟨i, hi⟩
    exact h.window.range _ n hi
  · rintro ⟨hlo, hhi⟩
    obtain ⟨k | i, hx⟩ := h.window.cover n hlo hhi
    · rw [holder, hidle k] at hx
      cases hx
    · exact ⟨i, hx⟩

theorem Ok.sharing (h : Ok N zero s) (hd : ¬ s.Doomed) : Sharing N s :=
  ⟨h.once, fun _ _ hmem => h.entry hmem, h.quiet, h.leaves hd⟩

end Step

section Runs
variable [DecidableEq τ] [DecidableEq κ] {topic : Sys τ α} {how : Subscription} {l : Label τ κ α}
  {labels : List (Label τ κ α)}
open Machine (Reached Occurs)

theorem Ok.of_reached (h : Grown N zero topic)
    (hs : Reached (Shared.step N) (subscribed topic how) labels s) : Ok N zero s := by
  refine Reached.invariant ?_ (Ok.start h how) hs
  rintro s l s' - hok ⟨-, -, -, hstep⟩
  exact hok.step hstep

theorem not_doomed_of_calm (h : Grown N zero topic)
    (hc : ∀ s l s', Occurs (Shared.step N) (subscribed topic how) labels s l s' → s.Calm l)
    (hs : Reached (Shared.step N) (subscribed topic how) labels s) : ¬ s.Doomed := by
  refine Reached.invariant (I := fun s => ¬ s.Doomed) ?_ ?_ hs
  · intro s l s' hreached hd ho
    have hstep := ho
    obtain ⟨-, -, -, hstep⟩ := hstep
    exact not_doomed_step (.of_reached h hreached) hd (hc s l s' ho) hstep
  · rintro ⟨k, m, n, hr, -⟩
    cases how <;> cases hr

theorem calm_oldEvents (h : Grown N zero topic)
    (ho : Occurs (Shared.step N) (subscribed topic .oldEvents) labels s l s') : s.Calm l := by
  have hk : s.kind = .fixed topic.contents.consumerTail := by
    refine Reached.invariant (I := fun s => s.kind = .fixed topic.contents.consumerTail) ?_ rfl ho.before
    rintro s l s' - hk ⟨-, -, -, hs⟩
    cases l with
    | topic l =>
      obtain ⟨topic, -, rfl⟩ := Option.map_eq_some_iff.mp hs
      exact hk
    | consume k =>
      simp only [Shared.step] at hs
      split at hs <;> cases hs
      exact hk
    | run k spurious =>
      obtain ⟨r, -, rfl⟩ := Option.map_eq_some_iff.mp hs
      exact hk
  cases l with
  | topic l =>
    intro _ j i m _ _ hload
    have hdyn := (Ok.of_reached h ho.before).load i _ hload
    rw [hk] at hdyn
    cases hdyn
  | consume k => trivial
  | run k spurious =>
    intro _ hdyn
    rw [hk] at hdyn
    cases hdyn

/-- Several consumers share a subscriber properly in exactly the runs that are calm throughout. -/
theorem sharing_iff (N : Nat) (zero : α) (topic : Sys τ α) (how : Subscription)
    (htopic : Machine.Steps (Sys.step N) (fun _ _ _ => True) (.new zero) topic) (labels : List (Label τ κ α)) :
    (∀ s, Reached (Shared.step N) (subscribed topic how) labels s → Sharing N s) ↔
      ∀ s l s', Occurs (Shared.step N) (subscribed topic how) labels s l s' → s.Calm l := by
  have hgrown : Grown N zero topic := .of_steps htopic
  constructor
  · intro h s l s' ho
    by_contra hc
    have hok := Ok.of_reached hgrown ho.before
    have hok' := Ok.of_reached hgrown ho.after
    obtain ⟨t, hsteps, hidle⟩ := (h s' ho.after).leaves
    obtain ⟨-, -, -, hstep⟩ := ho
    exact not_leaves_of_doomed hok' (doomed_of_not_calm hok hc hstep) hsteps hidle
  · intro hc s hs
    exact (Ok.of_reached hgrown hs).sharing (not_doomed_of_calm hgrown hc hs)

/-- Two consumers take an index each, of which the second one is about to be given back. -/
theorem sharing_two : ∃ s : Shared (Fin 1) (Fin 2) Nat, s.taken = [(0, 5)] ∧ s.head = 2 ∧
    (s.op 1).recedes = some 1 ∧ Sharing 1 s := by
  have hrun : (Machine.exec (Machine.restrict (Shared.step 1) fun s _ _ => decide (∀ k, (s.op k).recedes = none))
      (subscribed (.new 0) .newEventsOnly : Shared (Fin 1) (Fin 2) Nat)
      [.topic (.publish 0 (.movable 5)), .consume 0, .topic (.run 0 false), .topic (.run 0 false), .run 0 false,
       .consume 1, .run 1 false, .topic (.run 0 false), .run 0 false, .run 0 false, .run 1 false]).map
      (fun s => decide (s.taken = [(0, 5)] ∧ s.head = 2 ∧ (s.op 1).recedes = some 1)) = some true := by
    decide +kernel
  obtain ⟨s, hs, ht⟩ := Option.map_eq_some_iff.mp hrun
  rw [decide_eq_true_iff] at ht
  refine ⟨s, ht.1, ht.2.1, ht.2.2, (sharing_iff 1 0 (.new 0) .newEventsOnly .refl _).mpr ?_ s
    (.of_exec (Machine.Path.of_exec_restrict (fun _ _ _ _ => trivial) hs).exec_eq)⟩
  intro s l s' ho
  have hnone : ∀ k, (s.op k).recedes = none := of_decide_eq_true (ho.of_exec_restrict hs)
  cases l with
  | topic l =>
    intro _ j _ m hr
    rw [hnone j] at hr
    cases hr
  | consume k => trivial
  | run k spurious => exact fun _ _ _ => hnone

/-- The first consumer finds nothing, the second one takes the next index and finds the second of two entries published
in the meantime: the first one never returns, and nobody gets the first entry. -/
theorem retreat_stuck : ∃ (labels : List (Label (Fin 1) (Fin 2) Nat)) (s : Shared (Fin 1) (Fin 2) Nat),
    Reached (Shared.step 2) (subscribed (.new 0) .newEventsOnly) labels s ∧ s.topic.values = [5, 7] ∧
    s.taken = [(1, 7)] ∧ (s.op 0).recedes = some 0 ∧ ¬ Sharing 2 s := by
  have hrun : (Machine.exec (Shared.step 2) (subscribed (.new 0) .newEventsOnly : Shared (Fin 1) (Fin 2) Nat)
      [.consume 0, .run 0 false, .run 0 false, .consume 1, .run 1 false, .topic (.publish 0 (.movable 5)),
       .topic (.run 0 false), .topic (.run 0 false), .topic (.run 0 false), .topic (.publish 0 (.movable 7)),
       .topic (.run 0 false), .topic (.run 0 false), .topic (.run 0 false), .run 1 false, .run 1 false]).map
      (fun s => decide (s.topic.values = [5, 7] ∧ s.taken = [(1, 7)] ∧ (s.op 0).recedes = some 0)) = some true := by
    decide +kernel
  obtain ⟨s, hs, ht⟩ := Option.map_eq_some_iff.mp hrun
  rw [decide_eq_true_iff] at ht
  obtain ⟨hvalues, htaken, hr⟩ := ht
  have hreached := Reached.of_exec hs
  refine ⟨_, s, hreached, hvalues, htaken, hr, fun h => ?_⟩
  have hd : s.Doomed := ⟨0, 0, 1, hr, Nat.zero_lt_one, .inl (by rw [htaken]; exact List.mem_cons_self)⟩
  obtain ⟨s', hsteps, hidle⟩ := h.leaves
  exact not_leaves_of_doomed (.of_reached (.new 2 0) hreached) hd hsteps hidle

end Runs

end Ok

end Shared
end Mutiny.MMapMeta
