import Mutiny.AtomicMoveInv

/-!
# `AtomicMove` is a safe queue

What `Inv` says in terms of the 32-bit counters: who holds which slot id, that no two threads may
touch one buffer index at the same time, and that what is consumed is what was published, in order.
-/

namespace Mutiny.AtomicMove
variable {α τ : Type} {B : Nat} {s s' : Sys τ α}

/-- Fewer than `2 ^ 31 - BUFFER_SIZE` operations are in flight after the step. -/
def FewInFlight (B : Nat) (_ : Sys τ α) (_ : Label τ α) (s' : Sys τ α) : Prop :=
  s'.InFlightBelow (2 ^ 31 - B)

theorem Sys.inFlightBelow_of_card [Fintype τ] (s : Sys τ α) {k : Nat} (h : Fintype.card τ < k) :
    s.InFlightBelow k :=
  fun F _ => Nat.lt_of_le_of_lt (Finset.card_le_univ F) h

theorem Sys.inFlightBelow_init (hB : RingSize B) (buffer : Nat → α) :
    (Sys.init buffer : Sys τ α).InFlightBelow (2 ^ 31 - B) := by
  intro F hF
  obtain rfl : F = ∅ := Finset.eq_empty_of_forall_notMem fun t ht => by cases hF t ht
  have := hB.le
  rw [Finset.card_empty]
  omega

structure Logged (s : Sys τ α) : Prop where
  published : ∀ t l, s.op t = .published l → ∃ e ∈ s.published, e.thread = t ∧ e.call = s.calls t
  taken : ∀ t v, s.op t = .taken v → ∃ e ∈ s.consumed, e.thread = t ∧ e.call = s.calls t ∧ e.value = v

/-- In every reachable state: who holds the ids in flight, who may access the buffer, and what has
been published and consumed. -/
structure Safe (B : Nat) (s : Sys τ α) : Prop where
  /-- every id between `tail` and `enqueuer_tail` is held by exactly one publisher in progress -/
  prod : ∀ i, Wrap.InSpan i s.q.tail s.q.enqueuerTail → ∃! t, (s.op t).prodSlot = some i
  /-- a publisher in progress holds no other id -/
  prodOnly : ∀ t i, (s.op t).prodSlot = some i → Wrap.InSpan i s.q.tail s.q.enqueuerTail
  /-- every id between `head` and `dequeuer_head` is held by exactly one consumer in progress -/
  cons : ∀ i, Wrap.InSpan i s.q.head s.q.dequeuerHead → ∃! t, (s.op t).consSlot = some i
  /-- a consumer in progress holds no other id -/
  consOnly : ∀ t i, (s.op t).consSlot = some i → Wrap.InSpan i s.q.head s.q.dequeuerHead
  /-- no two threads are entitled to one buffer index -/
  exclusive : ∀ t u i j, t ≠ u → (s.op t).entitled = some i → (s.op u).entitled = some j →
    slotIndex B i ≠ slotIndex B j
  /-- the `n`-th publication is of slot id `n`, and stored what its call was given -/
  puts : ∀ n e, s.published[n]? = some e → e.slotId = UInt32.ofNat n ∧ ∃ old, e.value = e.payload.store old
  /-- the `n`-th consumption is of slot id `n`, and returned what the `n`-th publication stored -/
  tooks : ∀ n e, s.consumed[n]? = some e →
    e.slotId = UInt32.ofNat n ∧ ∃ e', s.published[n]? = some e' ∧ e'.value = e.value
  /-- every call that returned has its log entry -/
  logged : Logged s

/-- The unique holder of an id of a window, seen through the 32-bit images. -/
theorem existsUnique_holder {lo hi : Nat} {hold : τ → Option Nat} {slot : τ → Option UInt32}
    (hw : Ticket.Window lo hi hold) (hlt : hi < lo + 2 ^ 32) (hslot : ∀ t, slot t = (hold t).map UInt32.ofNat)
    {i : UInt32} (h : Wrap.InSpan i (UInt32.ofNat lo) (UInt32.ofNat hi)) : ∃! t, slot t = some i := by
  obtain ⟨n, h₁, h₂, rfl⟩ := (Wrap.inSpan_ofNat_iff hw.le hlt i).mp h
  obtain ⟨t, ht⟩ := hw.cover n h₁ h₂
  refine ⟨t, by simp only [hslot, ht, Option.map_some], fun u hu => ?_⟩
  obtain ⟨m, hm, hmn⟩ := Option.map_eq_some_iff.mp ((hslot u).symm.trans hu)
  have := hw.range u m hm
  obtain rfl := (Wrap.ofNat_inj_of_near (by omega) (by omega)).mp hmn
  exact hw.inj u t m hm ht

theorem inSpan_of_holder {lo hi : Nat} {hold : τ → Option Nat} {slot : τ → Option UInt32}
    (hw : Ticket.Window lo hi hold) (hlt : hi < lo + 2 ^ 32) (hslot : ∀ t, slot t = (hold t).map UInt32.ofNat)
    {t : τ} {i : UInt32} (h : slot t = some i) : Wrap.InSpan i (UInt32.ofNat lo) (UInt32.ofNat hi) := by
  obtain ⟨n, hn, rfl⟩ := Option.map_eq_some_iff.mp ((hslot t).symm.trans h)
  have := hw.range t n hn
  exact (Wrap.inSpan_ofNat_iff hw.le hlt _).mpr ⟨n, this.1, this.2, rfl⟩

namespace Inv
variable {g : Ghost τ}

/-- An entitled thread's id lies in the window of `BUFFER_SIZE` ids from `head` on, publishers above
`tail` and consumers below it. -/
theorem entitled_window (h : Inv B s g) {t : τ} {i : UInt32} (hi : (s.op t).entitled = some i) :
    ∃ n, i = UInt32.ofNat n ∧ s.consumed.length ≤ n ∧ n < s.consumed.length + B ∧
      ((s.published.length ≤ n ∧ g.pid t = some n) ∨ (n < s.published.length ∧ g.cid t = some n)) := by
  rw [Op.entitled] at hi
  have hle := h.le
  have hcap := h.cap
  cases hw : (s.op t).writing with
  | some j =>
    obtain ⟨n, hn, hj, hlt⟩ := (h.thread t).lt_of_writing (by rw [hw]; rfl)
    rw [hj, Option.some_or, Option.some.injEq] at hi
    have := h.prod.range t n hn
    exact ⟨n, hi.symm, by omega, hlt, .inl ⟨this.1, hn⟩⟩
  | none =>
    rw [hw, Option.none_or] at hi
    obtain ⟨n, hn, hj, hlt⟩ := (h.thread t).lt_of_reading (by rw [hi]; rfl)
    rw [hj, Option.some.injEq] at hi
    have := h.cons.range t n hn
    exact ⟨n, hi.symm, this.1, by omega, .inr ⟨hlt, hn⟩⟩

theorem exclusive (h : Inv B s g) (hB : RingSize B) {t u : τ} {i j : UInt32} (htu : t ≠ u)
    (hi : (s.op t).entitled = some i) (hj : (s.op u).entitled = some j) : slotIndex B i ≠ slotIndex B j := by
  obtain ⟨m, rfl, h₁, h₂, hm⟩ := h.entitled_window hi
  obtain ⟨n, rfl, h₃, h₄, hn⟩ := h.entitled_window hj
  rw [slotIndex, slotIndex, Wrap.toNat_ofNat_mod hB.dvd, Wrap.toNat_ofNat_mod hB.dvd]
  refine Wrap.mod_ne_of_window _ h₁ h₂ h₃ h₄ ?_
  rintro rfl
  rcases hm with ⟨ha, hm⟩ | ⟨ha, hm⟩ <;> rcases hn with ⟨hb, hn⟩ | ⟨hb, hn⟩
  · exact htu (h.prod.inj t u m hm hn)
  · omega
  · omega
  · exact htu (h.cons.inj t u m hm hn)

theorem safe (h : Inv B s g) (hB : RingSize B) (hf : s.InFlightBelow (2 ^ 31 - B)) (hl : Logged s) :
    Safe B s := by
  have hw := h.windows_lt hB hf
  have hp : ∀ t, (s.op t).prodSlot = (g.pid t).map UInt32.ofNat := fun t => (h.thread t).prodSlot
  have hc : ∀ t, (s.op t).consSlot = (g.cid t).map UInt32.ofNat := fun t => (h.thread t).consSlot
  refine ⟨fun i hi => ?_, fun t i hi => ?_, fun i hi => ?_, fun t i hi => ?_,
    fun t u i j htu hi hj => h.exclusive hB htu hi hj, h.puts, fun n e he => ?_, hl⟩
  · rw [h.tail, h.enq] at hi
    exact existsUnique_holder h.prod (by omega) hp hi
  · rw [h.tail, h.enq]
    exact inSpan_of_holder h.prod (by omega) hp hi
  · rw [h.head, h.deq] at hi
    exact existsUnique_holder h.cons (by omega) hc hi
  · rw [h.head, h.deq]
    exact inSpan_of_holder h.cons (by omega) hc hi
  · obtain ⟨h₁, h₂⟩ := h.tooks n e he
    exact ⟨h₁, Option.map_eq_some_iff.mp h₂⟩

end Inv

section Step
variable [DecidableEq τ]

theorem Logged.moves {t : τ} (h : Logged s) (hm : Sys.Moves B s t s') : Logged s' := by
  -- a thread other than `t` has returned what it had before
  have hset : ∀ (s₁ : Sys τ α) (o : Op α), s₁.op = s.op → s₁.calls = s.calls →
      (∀ e ∈ s.published, e ∈ s₁.published) → (∀ e ∈ s.consumed, e ∈ s₁.consumed) →
      (∀ l, o = .published l → ∃ e ∈ s₁.published, e.thread = t ∧ e.call = s.calls t) →
      (∀ v, o = .taken v → ∃ e ∈ s₁.consumed, e.thread = t ∧ e.call = s.calls t ∧ e.value = v) →
      Logged (s₁.setOp t o) := by
    intro s₁ o hop hcalls hpub hcon hp hv
    refine ⟨fun u l hu => ?_, fun u v hu => ?_⟩
    · change Function.update s₁.op t o u = _ at hu
      show ∃ e ∈ s₁.published, e.thread = u ∧ e.call = s₁.calls u
      rw [hcalls]
      by_cases hut : u = t
      · subst hut; rw [Function.update_self] at hu; exact hp l hu
      · rw [Function.update_of_ne hut, hop] at hu
        obtain ⟨e, he, h'⟩ := h.published u l hu
        exact ⟨e, hpub e he, h'⟩
    · change Function.update s₁.op t o u = _ at hu
      show ∃ e ∈ s₁.consumed, e.thread = u ∧ e.call = s₁.calls u ∧ e.value = v
      rw [hcalls]
      by_cases hut : u = t
      · subst hut; rw [Function.update_self] at hu; exact hv v hu
      · rw [Function.update_of_ne hut, hop] at hu
        obtain ⟨e, he, h'⟩ := h.taken u v hu
        exact ⟨e, hcon e he, h'⟩
  cases hm with
  | publish ho hcas =>
    refine hset _ _ rfl rfl (fun e he => List.mem_append_left _ he) (fun e he => he) (fun l hl => ?_)
      (fun v hv => by cases hv)
    exact ⟨_, List.mem_append_right _ (List.mem_singleton_self _), rfl, rfl⟩
  | release ho hcas =>
    refine hset _ _ rfl rfl (fun e he => he) (fun e he => List.mem_append_left _ he)
      (fun l hl => by cases hl) (fun v hv => ?_)
    cases hv
    exact ⟨_, List.mem_append_right _ (List.mem_singleton_self _), rfl, rfl, rfl⟩
  | spin => exact h
  | _ => exact hset _ _ rfl rfl (fun _ he => he) (fun _ he => he) (fun _ hl => by cases hl) (fun _ hv => by cases hv)

theorem Logged.call {t : τ} {o : Op α} (h : Logged s) (ho : o = .consumeReserve ∨ ∃ p, o = .leakReserve p) :
    Logged { s.setOp t o with calls := Function.update s.calls t (s.calls t + 1) } := by
  refine ⟨fun u l hu => ?_, fun u v hu => ?_⟩ <;> change Function.update s.op t o u = _ at hu <;>
    by_cases hut : u = t
  · subst hut; rw [Function.update_self] at hu; rcases ho with rfl | ⟨p, rfl⟩ <;> cases hu
  · rw [Function.update_of_ne hut] at hu
    show ∃ e ∈ s.published, e.thread = u ∧ e.call = Function.update s.calls t _ u
    rw [Function.update_of_ne hut]
    exact h.published u l hu
  · subst hut; rw [Function.update_self] at hu; rcases ho with rfl | ⟨p, rfl⟩ <;> cases hu
  · rw [Function.update_of_ne hut] at hu
    show ∃ e ∈ s.consumed, e.thread = u ∧ e.call = Function.update s.calls t _ u ∧ e.value = v
    rw [Function.update_of_ne hut]
    exact h.taken u v hu

theorem inv_of_steps (hB : RingSize B) {buffer : Nat → α}
    (h : Machine.Steps (Sys.step B) (FewInFlight B) (.init buffer) s) :
    (∃ g, Inv B s g) ∧ s.InFlightBelow (2 ^ 31 - B) :=
  h.invariant (I := fun s => (∃ g, Inv B s g) ∧ s.InFlightBelow (2 ^ 31 - B))
    (fun _ _ _ ⟨⟨_, hg⟩, hf⟩ hs hok => ⟨hg.step (hg.close hB hf) hs, hok⟩) ⟨⟨_, .init B buffer⟩, Sys.inFlightBelow_init hB buffer⟩

theorem logged_of_steps {ok : Sys τ α → Label τ α → Sys τ α → Prop} {buffer : Nat → α}
    (h : Machine.Steps (Sys.step B) ok (.init buffer) s) : Logged s := by
  refine h.invariant (I := Logged) (fun s l s' hl hs _ => ?_) ⟨fun _ _ h => (by cases h), fun _ _ h => (by cases h)⟩
  rcases Sys.step_cases hs with ⟨t, o, ho, -, rfl⟩ | ⟨t, hm⟩
  · exact hl.call ho
  · exact hl.moves hm

/-- `AtomicMove` is a safe multi-producer multi-consumer FIFO. -/
theorem atomicMove_safe (hB : RingSize B) {buffer : Nat → α}
    (h : Machine.Steps (Sys.step B) (FewInFlight B) (.init buffer) s) : Safe B s := by
  obtain ⟨⟨g, hg⟩, hf⟩ := inv_of_steps hB h
  exact hg.safe hB hf (logged_of_steps h)

end Step

/-- Thread 0 publishes 7 and thread 1 consumes it, each failing one compare-exchange spuriously;
meanwhile thread 0 finds the queue of one slot full and steps back. -/
def publishConsume : List (Label (Fin 2) Nat) :=
  [.publish 0 (.movable 7), .run 0 false false, .run 0 false false, .run 0 false false, .run 0 true false,
   .run 0 false false, .publish 0 (.movable 8), .run 0 false false, .run 0 false false, .run 0 true false,
   .consume 1, .run 1 false false, .run 1 false false, .run 1 false false, .run 0 false false,
   .run 0 false false, .run 0 false false, .run 1 true false, .run 1 false false]

theorem atomicMove_safe_publishConsume : ∃ s : Sys (Fin 2) Nat,
    s.consumed.map Took.value = [7] ∧ s.published.map Put.value = [7] ∧ Safe 1 s := by
  have hsome : (Machine.exec (Sys.step 1) (Sys.init fun _ => 0) publishConsume).isSome := by decide +kernel
  obtain ⟨s, hs⟩ := Option.isSome_iff_exists.mp hsome
  have hlogs : (Machine.exec (Sys.step 1) (Sys.init fun _ => 0) publishConsume).map
      (fun s => (s.consumed.map Took.value, s.published.map Put.value)) = some ([7], [7]) := by decide +kernel
  rw [hs, Option.map_some, Option.some.injEq, Prod.mk.injEq] at hlogs
  exact ⟨s, hlogs.1, hlogs.2, atomicMove_safe ⟨0, by decide, rfl⟩
    ((Machine.Path.of_exec hs).steps.mono fun _ _ s' _ => s'.inFlightBelow_of_card (by decide))⟩

end Mutiny.AtomicMove
