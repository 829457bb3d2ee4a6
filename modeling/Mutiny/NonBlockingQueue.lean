import Mutiny.Lib.Machine
import Mutiny.SlotContents

/-!
# The `full_sync` `NonBlockingQueue` and the destructors of its values

`dequeue` copies the bytes of a value out of its slot and then gives the slot back, which destroys the value there, so
the owner of the copy destroys it again. What is in the queue when that is dropped is never destroyed: the pool is
`ManuallyDrop` and the queue one of `u32`.
-/

namespace Mutiny

/-- `NonBlockingQueue<SlotType, BUFFER_SIZE, INSTRUMENTS>`, without its metrics. -/
abbrev NonBlockingQueue := ZeroCopy FullSyncMove FullSyncMove Content

namespace NonBlockingQueue

/-- `enqueue(element)`: the element back if it is refused. -/
def enqueue (B : Nat) (q : NonBlockingQueue) (element : Nat) : NonBlockingQueue × Option Nat :=
  match q.publishValue B element with
  | (q, some _, _) => (q, none)
  | (q, none, element) => (q, element)

/-- `dequeue()`: the value moved out, and what is destroyed when its slot is released. -/
def dequeue (B : Nat) (q : NonBlockingQueue) : NonBlockingQueue × Option (Content × Content) :=
  match q.consumeLeaking B with
  | (q, some slotId) =>
    let movedValue := q.allocator.refFromId B slotId
    let (q, dropped) := q.releaseLeakedId B slotId
    (q, some (movedValue, dropped))
  | (q, none) => (q, none)

/-- A destructor is run: by the owner of a dequeued or refused value, or by `drop_in_place`. -/
inductive Destruction
  | byOwner (v : Nat)
  | inPlace (content : Content)

def Destruction.value : Destruction → Option Nat
  | .byOwner v => some v
  | .inPlace content => content.value

/-- The queue, until it is dropped, and its values: those accepted, those handed out by `dequeue`, those in the hands
of owners, and the destructors run so far. -/
structure Owners where
  queue : Option NonBlockingQueue
  next : Nat
  accepted : List Nat
  handedOut : List Nat
  owned : List Nat
  destroyed : List Destruction

inductive Call
  -- of the next value
  | enqueue
  | dequeue
  | dropOwned (v : Nat)
  | dropQueue

namespace Owners

def init (B : Nat) : Owners := ⟨some (.new B fun _ => .raw), 0, [], [], [], []⟩

def step (B : Nat) (s : Owners) : Call → Option Owners
  | .enqueue => s.queue.map fun q =>
    match q.enqueue B s.next with
    | (q, none) => { s with queue := some q, next := s.next + 1, accepted := s.accepted ++ [s.next] }
    | (q, some element) => { s with queue := some q, next := s.next + 1, owned := element :: s.owned }
  | .dequeue => s.queue.map fun q =>
    match q.dequeue B with
    | (q, some (movedValue, dropped)) =>
      { s with queue := some q, handedOut := s.handedOut ++ movedValue.value.toList,
               owned := movedValue.value.toList ++ s.owned, destroyed := s.destroyed ++ [.inPlace dropped] }
    | (q, none) => { s with queue := some q }
  | .dropOwned v =>
    if v ∈ s.owned then some { s with owned := s.owned.erase v, destroyed := s.destroyed ++ [.byOwner v] } else none
  | .dropQueue => s.queue.map fun _ => { s with queue := none }

def destructions (s : Owners) (v : Nat) : Nat := (s.destroyed.map Destruction.value).count (some v)

/-- The queue and all values handed out have been dropped. -/
def Over (s : Owners) : Prop := s.queue = none ∧ s.owned = []

/-- What was accepted has been destroyed once, and what was handed out by its owner first. -/
structure Clean (s : Owners) : Prop where
  once : ∀ v ∈ s.accepted, s.destructions v = 1
  notEarly : ∀ v ∈ s.handedOut, ∀ before after content, s.destroyed = before ++ .inPlace content :: after →
    content.value = some v → .byOwner v ∈ before

/-! ### The books -/

/-- `pending` is or was in the queue. Each value handed out is destroyed a second time when its owner drops it. -/
structure Books (B : Nat) (s : Owners) (pending : List Nat) : Prop where
  queue : ∀ q, s.queue = some q → q.Holds B pending [] []
  accepted : s.accepted = s.handedOut ++ pending
  counts : ∀ v ∈ s.accepted, s.destructions v + s.owned.count v = 2 * s.handedOut.count v
  fresh : ∀ v, s.next ≤ v → v ∉ s.accepted ∧ v ∉ s.owned ∧ s.destructions v = 0

variable {B : Nat} {s s' : Owners} {pending : List Nat} {q : NonBlockingQueue} {c : Call}

theorem enqueue_cases (h : q.Holds B pending [] []) (hB : Ring.PowerOfTwo B) (v : Nat) :
    (∃ q', q.enqueue B v = (q', none) ∧ q'.Holds B (pending ++ [v]) [] [] ∧ q.HasSlot B) ∨
    (q.enqueue B v = (q, some v) ∧ ¬ q.HasSlot B) := by
  unfold enqueue
  rcases h.publishValue_cases hB v with ⟨q', len, hq, hholds, hslot⟩ | ⟨hq, hslot⟩
  · rw [hq]
    exact .inl ⟨q', rfl, hholds, hslot⟩
  · rw [hq]
    exact .inr ⟨rfl, hslot⟩

theorem dequeue_cases (h : q.Holds B pending [] []) (hB : Ring.PowerOfTwo B) :
    (∃ q' v rest, q.dequeue B = (q', some (.of v, .of v)) ∧ pending = v :: rest ∧ q'.Holds B rest [] []) ∨
    q.dequeue B = (q, none) := by
  unfold dequeue
  rcases h.consume_cases with ⟨q', slotId, v, rest, hq, hpending, hholds⟩ | ⟨hq, -⟩
  · obtain ⟨hdropped, hholds'⟩ := hholds.dropDelivered hB List.mem_cons_self
    rw [List.erase_cons_head] at hholds'
    have hmoved : q'.allocator.refFromId B slotId = .of v :=
      (hholds.settled.refFromId_eq List.mem_cons_self).trans (hholds.delivered _ List.mem_cons_self)
    rw [hq]
    refine .inl ⟨_, v, rest, ?_, hpending, hholds'⟩
    exact Prod.ext rfl (congrArg some (Prod.ext hmoved hdropped))
  · rw [hq]
    exact .inr rfl

theorem Books.init (hB : Ring.PowerOfTwo B) : Books B (.init B) [] := by
  refine ⟨?_, rfl, nofun, fun v _ => ⟨nofun, nofun, rfl⟩⟩
  rintro q ⟨⟩
  exact .new hB

theorem destructions_append (d : Destruction) (v : Nat) (owned : List Nat) :
    destructions { s with owned := owned, destroyed := s.destroyed ++ [d] } v =
      s.destructions v + if d.value = some v then 1 else 0 := by
  unfold destructions
  simp [List.count_singleton]

namespace Books

theorem accepted_one (h : Books B s pending) {q' : NonBlockingQueue} (hq : q'.Holds B (pending ++ [s.next]) [] []) :
    Books B { s with queue := some q', next := s.next + 1, accepted := s.accepted ++ [s.next] }
      (pending ++ [s.next]) := by
  obtain ⟨haccepted, howned, hdestroyed⟩ := h.fresh s.next (Nat.le_refl _)
  refine ⟨?_, ?_, ?_, ?_⟩
  · rintro q ⟨⟩
    exact hq
  · show s.accepted ++ [s.next] = s.handedOut ++ (pending ++ [s.next])
    rw [h.accepted, List.append_assoc]
  · intro v hv
    rcases List.mem_append.mp hv with hv | hv
    · exact h.counts v hv
    · rw [List.mem_singleton] at hv
      subst hv
      have hhanded : s.next ∉ s.handedOut := fun hm => haccepted (h.accepted ▸ List.mem_append_left _ hm)
      show s.destructions s.next + s.owned.count s.next = 2 * s.handedOut.count s.next
      rw [hdestroyed, List.count_eq_zero_of_not_mem howned, List.count_eq_zero_of_not_mem hhanded]
  · intro v (hv : s.next + 1 ≤ v)
    obtain ⟨h₁, h₂, h₃⟩ := h.fresh v (by omega)
    refine ⟨fun hm => ?_, h₂, h₃⟩
    rcases List.mem_append.mp hm with hm | hm
    · exact h₁ hm
    · rw [List.mem_singleton] at hm
      omega

theorem refused_one (h : Books B s pending) {q' : NonBlockingQueue} (hq : q'.Holds B pending [] []) :
    Books B { s with queue := some q', next := s.next + 1, owned := s.next :: s.owned } pending := by
  obtain ⟨haccepted, -, -⟩ := h.fresh s.next (Nat.le_refl _)
  refine ⟨?_, h.accepted, ?_, ?_⟩
  · rintro q ⟨⟩
    exact hq
  · intro v hv
    have hne : s.next ≠ v := fun he => haccepted (he ▸ hv)
    show s.destructions v + (s.next :: s.owned).count v = 2 * s.handedOut.count v
    rw [List.count_cons_of_ne hne]
    exact h.counts v hv
  · intro v (hv : s.next + 1 ≤ v)
    obtain ⟨h₁, h₂, h₃⟩ := h.fresh v (by omega)
    refine ⟨h₁, ?_, h₃⟩
    rw [List.mem_cons, not_or]
    exact ⟨by omega, h₂⟩

theorem dequeued_one {v : Nat} (h : Books B s (v :: pending)) {q' : NonBlockingQueue} (hq : q'.Holds B pending [] []) :
    Books B { s with queue := some q', handedOut := s.handedOut ++ [v], owned := v :: s.owned,
                     destroyed := s.destroyed ++ [.inPlace (.of v)] } pending := by
  have hmem : v ∈ s.accepted := h.accepted ▸ List.mem_append_right _ List.mem_cons_self
  refine ⟨?_, ?_, ?_, ?_⟩
  · rintro q ⟨⟩
    exact hq
  · show s.accepted = s.handedOut ++ [v] ++ pending
    rw [h.accepted, List.append_assoc]
    rfl
  · intro u hu
    have hcount := h.counts u hu
    have hdestructions := destructions_append (s := s) (.inPlace (.of v)) u (v :: s.owned)
    show destructions { s with owned := v :: s.owned, destroyed := s.destroyed ++ [.inPlace (.of v)] } u +
      (v :: s.owned).count u = 2 * (s.handedOut ++ [v]).count u
    rw [hdestructions, List.count_append, List.count_singleton, List.count_cons]
    by_cases huv : v = u
    · simp only [Destruction.value, Content.of, huv, if_true, beq_self_eq_true]
      omega
    · simp only [Destruction.value, Content.of, Option.some.injEq, huv, if_false, beq_iff_eq]
      omega
  · intro u hu
    obtain ⟨h₁, h₂, h₃⟩ := h.fresh u hu
    have hne : v ≠ u := by
      rintro rfl
      exact h₁ hmem
    refine ⟨h₁, ?_, ?_⟩
    · rw [List.mem_cons, not_or]
      exact ⟨hne.symm, h₂⟩
    · have hdestructions := destructions_append (s := s) (.inPlace (.of v)) u (v :: s.owned)
      rw [h₃, if_neg (by simpa [Destruction.value, Content.of] using hne)] at hdestructions
      exact hdestructions

theorem dropOwned (h : Books B s pending) {v : Nat} (hv : v ∈ s.owned) :
    Books B { s with owned := s.owned.erase v, destroyed := s.destroyed ++ [.byOwner v] } pending := by
  refine ⟨h.queue, h.accepted, ?_, ?_⟩
  · intro u hu
    have hcount := h.counts u hu
    show destructions { s with owned := s.owned.erase v, destroyed := s.destroyed ++ [.byOwner v] } u +
      (s.owned.erase v).count u = 2 * s.handedOut.count u
    rw [destructions_append, List.count_erase]
    by_cases huv : v = u
    · subst huv
      have := List.count_pos_iff.mpr hv
      simp only [Destruction.value, if_true, beq_self_eq_true]
      omega
    · simp only [Destruction.value, Option.some.injEq, huv, if_false, beq_iff_eq]
      omega
  · intro u hu
    obtain ⟨h₁, h₂, h₃⟩ := h.fresh u hu
    refine ⟨h₁, fun hm => h₂ (List.mem_of_mem_erase hm), ?_⟩
    have hne : v ≠ u := by
      rintro rfl
      exact h₂ hv
    rw [destructions_append, h₃, if_neg (by simpa [Destruction.value] using hne)]

theorem dropQueue (h : Books B s pending) : Books B { s with queue := none } pending :=
  ⟨nofun, h.accepted, h.counts, h.fresh⟩

/-- With nothing accepted so far there is a slot, unless the free list takes itself for empty. -/
theorem hasSlot_iff (h : Books B s pending) (hB : Ring.PowerOfTwo B) (hq : s.queue = some q) (hs : s.accepted = []) :
    q.HasSlot B ↔ B < 2 ^ 31 := by
  have hholds := h.queue q hq
  have hpending : pending = [] := (List.append_eq_nil_iff.mp (h.accepted ▸ hs)).2
  have hlen := hholds.settled.length_eq
  rw [hholds.length_pending, hpending] at hlen
  have hfree : (q.allocator.free B).length = Ring.room B := hlen
  have hpos := hB.pos
  unfold ZeroCopy.HasSlot
  rw [← List.length_pos_iff, hfree]
  rcases hB.room_cases with ⟨hroom, -, -⟩ | hroom
  · omega
  · have hle : 2 ^ 32 ≤ B := by
      by_contra hlt
      rw [Ring.room, Wrap.toNat_ofNat_of_lt (by omega)] at hroom
      omega
    omega

end Books

/-- A call keeps the books, and the first value to be enqueued is accepted if there are slots at all. -/
theorem Books.step (h : Books B s pending) (hB : Ring.PowerOfTwo B) (hs : s.step B c = some s') :
    (∃ pending', Books B s' pending') ∧ (s'.accepted = [] ↔ s.accepted = [] ∧ (c ≠ .enqueue ∨ 2 ^ 31 ≤ B)) := by
  cases c with
  | enqueue =>
    obtain ⟨q, hq, rfl⟩ := Option.map_eq_some_iff.mp hs
    rcases enqueue_cases (h.queue q hq) hB s.next with ⟨q', hq', hholds, hslot⟩ | ⟨hq', hslot⟩
    · rw [hq']
      refine ⟨⟨_, h.accepted_one hholds⟩, iff_of_false (by simp) ?_⟩
      rintro ⟨hnil, hc | hle⟩
      · exact hc rfl
      · have := (h.hasSlot_iff hB hq hnil).mp hslot
        omega
    · rw [hq']
      refine ⟨⟨_, h.refused_one (h.queue q hq)⟩, (and_iff_left_of_imp fun hnil => .inr ?_).symm⟩
      exact Nat.le_of_not_lt fun hlt => hslot ((h.hasSlot_iff hB hq hnil).mpr hlt)
  | dequeue =>
    obtain ⟨q, hq, rfl⟩ := Option.map_eq_some_iff.mp hs
    rcases dequeue_cases (h.queue q hq) hB with ⟨q', v, rest, hq', rfl, hholds⟩ | hq'
    · rw [hq']
      exact ⟨⟨rest, h.dequeued_one hholds⟩, (and_iff_left (.inl nofun)).symm⟩
    · rw [hq']
      refine ⟨⟨pending, ?_, h.accepted, h.counts, h.fresh⟩, (and_iff_left (.inl nofun)).symm⟩
      rintro _ ⟨⟩
      exact h.queue q hq
  | dropOwned v =>
    rw [Owners.step, Option.ite_none_right_eq_some, Option.some.injEq] at hs
    obtain ⟨hv, rfl⟩ := hs
    exact ⟨⟨pending, h.dropOwned hv⟩, (and_iff_left (.inl nofun)).symm⟩
  | dropQueue =>
    obtain ⟨q, hq, rfl⟩ := Option.map_eq_some_iff.mp hs
    exact ⟨⟨pending, h.dropQueue⟩, (and_iff_left (.inl nofun)).symm⟩

theorem Books.run (h : Books B s pending) (hB : Ring.PowerOfTwo B) {calls : List Call}
    (hs : Machine.exec (Owners.step B) s calls = some s') : (∃ pending', Books B s' pending') ∧
      (s'.accepted = [] ↔ s.accepted = [] ∧ (.enqueue ∉ calls ∨ 2 ^ 31 ≤ B)) := by
  induction calls generalizing s pending with
  | nil =>
    cases hs
    exact ⟨⟨pending, h⟩, (and_iff_left (.inl List.not_mem_nil)).symm⟩
  | cons c calls ih =>
    rw [Machine.exec_cons, Option.bind_eq_some_iff] at hs
    obtain ⟨s₁, hc, hcalls⟩ := hs
    obtain ⟨⟨pending₁, h₁⟩, hfirst⟩ := h.step hB hc
    obtain ⟨hbooks, hrest⟩ := ih h₁ hcalls
    refine ⟨hbooks, hrest.trans ?_⟩
    rw [hfirst, List.mem_cons, not_or, ne_comm, and_assoc, ← and_or_right]

/-- When all is over, each value handed out has been destroyed twice and the others never. -/
theorem Books.clean_iff (h : Books B s pending) (hover : s.Over) : s.Clean ↔ s.accepted = [] := by
  constructor
  · intro hclean
    cases haccepted : s.accepted with
    | nil => rfl
    | cons v rest =>
      have hv : v ∈ s.accepted := haccepted ▸ List.mem_cons_self
      have hcount := h.counts v hv
      rw [hclean.once v hv, hover.2, List.count_nil] at hcount
      omega
  · intro hnil
    have hhanded : s.handedOut = [] := (List.append_eq_nil_iff.mp (h.accepted ▸ hnil)).1
    refine ⟨?_, ?_⟩
    · rw [hnil]
      exact nofun
    · rw [hhanded]
      exact nofun

end Owners

open Owners in
/-- Every value is destroyed as it should be only if there is none. -/
theorem destroyed_once_iff {B : Nat} (hB : Ring.PowerOfTwo B) {calls : List Call} {s : Owners}
    (h : Machine.exec (step B) (init B) calls = some s) (hover : s.Over) :
    s.Clean ↔ .enqueue ∉ calls ∨ 2 ^ 31 ≤ B := by
  obtain ⟨⟨pending, hbooks⟩, hnone⟩ := (Books.init hB).run hB h
  exact (hbooks.clean_iff hover).trans (hnone.trans (and_iff_right rfl))

/-- Two slots: nothing is wrong with a queue that is found empty and dropped. With a value that is enqueued and found
again, something is. -/
theorem destroyed_once_two :
    (∃ s : Owners, Machine.exec (Owners.step 2) (.init 2) [.dequeue, .dropQueue] = some s ∧ s.Over ∧ s.Clean) ∧
    ∃ s : Owners, Machine.exec (Owners.step 2) (.init 2) [.enqueue, .enqueue, .dequeue, .dropOwned 0, .dequeue,
      .dropOwned 1, .dropQueue] = some s ∧ s.Over ∧ s.accepted = [0, 1] ∧ ¬ s.Clean := by
  constructor
  · have hrun : (Machine.exec (Owners.step 2) (.init 2) [.dequeue, .dropQueue]).map
        (fun s => decide (s.queue.isNone = true ∧ s.owned = [])) = some true := by decide +kernel
    obtain ⟨s, hs, ht⟩ := Option.map_eq_some_iff.mp hrun
    rw [decide_eq_true_iff, Option.isNone_iff_eq_none] at ht
    exact ⟨s, hs, ht, (destroyed_once_iff ⟨1, rfl⟩ hs ht).mpr (.inl (by simp))⟩
  · have hrun : (Machine.exec (Owners.step 2) (.init 2) [.enqueue, .enqueue, .dequeue, .dropOwned 0, .dequeue,
        .dropOwned 1, .dropQueue]).map (fun s => decide ((s.queue.isNone = true ∧ s.owned = []) ∧ s.accepted = [0, 1])) =
        some true := by decide +kernel
    obtain ⟨s, hs, ht⟩ := Option.map_eq_some_iff.mp hrun
    rw [decide_eq_true_iff, Option.isNone_iff_eq_none] at ht
    refine ⟨s, hs, ht.1, ht.2, fun hclean => ?_⟩
    rcases (destroyed_once_iff ⟨1, rfl⟩ hs ht.1).mp hclean with hnone | hhuge
    · exact hnone (by simp)
    · exact absurd hhuge (by decide)

/-- Two slots: the first value is dequeued and dropped by its owner, the second one is left in the queue. -/
theorem destroyed_twice : ∃ s : Owners,
    Machine.exec (Owners.step 2) (.init 2) [.enqueue, .dequeue, .dropOwned 0, .enqueue, .dropQueue] = some s ∧ s.Over ∧
    s.accepted = [0, 1] ∧ s.destructions 0 = 2 ∧ s.destructions 1 = 0 ∧ ¬ s.Clean := by
  have hrun : (Machine.exec (Owners.step 2) (.init 2) [.enqueue, .dequeue, .dropOwned 0, .enqueue, .dropQueue]).map
      (fun s => decide ((s.queue.isNone = true ∧ s.owned = []) ∧ s.accepted = [0, 1] ∧ s.destructions 0 = 2 ∧
        s.destructions 1 = 0)) = some true := by decide +kernel
  obtain ⟨s, hs, ht⟩ := Option.map_eq_some_iff.mp hrun
  rw [decide_eq_true_iff, Option.isNone_iff_eq_none] at ht
  obtain ⟨hover, haccepted, htwice, hnever⟩ := ht
  refine ⟨s, hs, hover, haccepted, htwice, hnever, fun hclean => ?_⟩
  have hone := hclean.once 0 (haccepted ▸ List.mem_cons_self)
  omega

end NonBlockingQueue
end Mutiny
