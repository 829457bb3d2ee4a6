import Mutiny.AtomicMoveSafety

/-!
# When `AtomicMove` reports empty or full

A thread that finds no room (no element) tests the bound against its own over-reserved id and then
steps back, provided nobody reserved after it. Between its test and its stepping back the queue may
have changed, and a second thread, invoked after that change, tests against an id that is one too
high because of the first one: both step back, and the second one has reported a condition that
never held during its call (`spurious_empty_run`).

`NotStale` rules this out: no thread fails its test while another one is about to step back from an
id that is within the bounds by now. Then every id below the one that failed is *secured* at that
moment: its holder can only go on to publish (return) it.
-/

namespace Mutiny.AtomicMove
variable {α τ : Type} {B : Nat} {s s' : Sys τ α}

/-- Element `n` was returned by call `c` of thread `t`, or that call holds its slot id. -/
def TakenBy (s : Sys τ α) (n : Nat) (t : τ) (c : Nat) : Prop :=
  (∃ e, s.consumed[n]? = some e ∧ e.thread = t ∧ e.call = c) ∨
  (s.consumed.length ≤ n ∧ s.calls t = c ∧ (s.op t).consSlot = some (UInt32.ofNat n))

/-- Element `n` was published by call `c` of thread `t`, or that call holds its slot id. -/
def PutBy (s : Sys τ α) (n : Nat) (t : τ) (c : Nat) : Prop :=
  (∃ e, s.published[n]? = some e ∧ e.thread = t ∧ e.call = c) ∨
  (s.published.length ≤ n ∧ s.calls t = c ∧ (s.op t).prodSlot = some (UInt32.ofNat n))

/-- In `s`, every element published so far has been taken by a call that, however the run goes on
from `r`, never returns without it. -/
def AllTaken (future : Sys τ α → Prop) (s : Sys τ α) : Prop :=
  ∀ n < s.published.length, ∃ t c, TakenBy s n t c ∧ ∀ r, future r → TakenBy r n t c

/-- In `s`, the `BUFFER_SIZE` ids from `head` on are published and not yet released, or being
published by calls that never give them up in `future`. -/
def AllPut (B : Nat) (future : Sys τ α → Prop) (s : Sys τ α) : Prop :=
  ∀ n, s.consumed.length ≤ n → n < s.consumed.length + B →
    n < s.published.length ∨ ∃ t c, PutBy s n t c ∧ ∀ r, future r → PutBy r n t c

section Reports
variable [DecidableEq τ]

/-- A call of thread `t`, started by `start`, is in progress from `s₁` on and returns with the step
from `s₂` to `s₃`, which leaves `t` at a state satisfying `ret`; then some state from `s₁` to `s₃`
satisfies `P`, a property that may speak of the continuations of the run. -/
def HasInstant (B : Nat) (ok : Sys τ α → Label τ α → Sys τ α → Prop) (start : Label τ α) (t : τ)
    (ret : Op α → Prop) (P : (Sys τ α → Prop) → Sys τ α → Prop) : Prop :=
  ∀ buffer s₀ s₁ s₂ s₃ l b, Machine.Steps (Sys.step B) ok (.init buffer) s₀ →
    s₀.step B start = some s₁ → ok s₀ start s₁ → Machine.Path (Sys.step B) ok s₁ l s₂ →
    s₂.calls t = s₁.calls t → (s₂.op t).atRest = false → s₂.step B b = some s₃ → ok s₂ b s₃ →
    ret (s₃.op t) →
    ∃ l₁ l₂ r, l ++ [b] = l₁ ++ l₂ ∧ Machine.exec (Sys.step B) s₁ l₁ = some r ∧
      P (Machine.Steps (Sys.step B) ok s₃) r

/-- A `consume_movable` that returns `None` had an instant at which everything published was taken. -/
def NoSpuriousEmpty (B : Nat) (ok : Sys τ α → Label τ α → Sys τ α → Prop) : Prop :=
  ∀ t, HasInstant B ok (.consume t) t (· = .empty) AllTaken

/-- A `publish_movable` that hands its item back had an instant at which there was no room. -/
def NoSpuriousFull (B : Nat) (ok : Sys τ α → Label τ α → Sys τ α → Prop) : Prop :=
  ∀ t item, HasInstant B ok (.publish t (.movable item)) t (· = .refused (.movable item)) (AllPut B)

end Reports

/-- A run in which the call started by `start` after `pre` returns with the step `ret` after `mid`, and
that goes on with `post`. -/
structure CallRun (τ α : Type) where
  pre : List (Label τ α)
  start : Label τ α
  mid : List (Label τ α)
  ret : Label τ α
  post : List (Label τ α)

/-- The steps pass the test `okb`, and the states after `start`, `mid`, `ret` and `post` pass `test`. -/
def CallRun.check [DecidableEq τ] (B : Nat) (buffer : Nat → α) (okb : Sys τ α → Label τ α → Sys τ α → Bool)
    (r : CallRun τ α) (test : Sys τ α → Sys τ α → Sys τ α → Sys τ α → Bool) : Option Bool := do
  let step := Machine.restrict (Sys.step B) okb
  let s₀ ← Machine.exec step (.init buffer) r.pre
  let s₁ ← step s₀ r.start
  let s₂ ← Machine.exec step s₁ r.mid
  let s₃ ← step s₂ r.ret
  let s₄ ← Machine.exec step s₃ r.post
  return test s₁ s₂ s₃ s₄

theorem CallRun.states [DecidableEq τ] {r : CallRun τ α} {buffer : Nat → α}
    {okb : Sys τ α → Label τ α → Sys τ α → Bool} {ok : Sys τ α → Label τ α → Sys τ α → Prop}
    {test : Sys τ α → Sys τ α → Sys τ α → Sys τ α → Bool} (hok : ∀ s b s', okb s b s' = true → ok s b s')
    (h : r.check B buffer okb test = some true) : ∃ s₀ s₁ s₂ s₃ s₄,
      Machine.Steps (Sys.step B) ok (.init buffer) s₀ ∧ s₀.step B r.start = some s₁ ∧ ok s₀ r.start s₁ ∧
      Machine.Path (Sys.step B) ok s₁ r.mid s₂ ∧ s₂.step B r.ret = some s₃ ∧ ok s₂ r.ret s₃ ∧
      Machine.Steps (Sys.step B) ok s₃ s₄ ∧ test s₁ s₂ s₃ s₄ = true := by
  simp only [check, Option.bind_eq_bind, Option.bind_eq_some_iff, Option.pure_def, Option.some.injEq] at h
  obtain ⟨s₀, h₀, s₁, h₁, s₂, h₂, s₃, h₃, s₄, h₄, ht⟩ := h
  rw [Machine.restrict, Option.filter_eq_some_iff] at h₁ h₃
  exact ⟨s₀, s₁, s₂, s₃, s₄, (Machine.Path.of_exec_restrict hok h₀).steps, h₁.1, hok _ _ _ h₁.2,
    Machine.Path.of_exec_restrict hok h₂, h₃.1, hok _ _ _ h₃.2, (Machine.Path.of_exec_restrict hok h₄).steps, ht⟩

/-- The step is not a failing test made while another thread is about to step back from an id that
would pass the same test. -/
def NotStale (B : Nat) (s : Sys τ α) : Label τ α → Prop
  | .run t _ _ =>
    match s.op t with
    | .consumeCheck i => ¬ 0 < (s.q.tail - i).toInt32 →
        ∀ u j, s.op u = .consumeRecede j → ¬ 0 < (s.q.tail - j).toInt32
    | .leakCheck _ i => ¬ i - s.q.head < UInt32.ofNat B →
        ∀ u p j, s.op u = .leakRecede p j → ¬ j - s.q.head < UInt32.ofNat B
    | _ => True
  | _ => True

/-- Element `n` is returned by call `c` of `t`, or on its way out: that call holds its id and cannot
step back. -/
def SecuredTake (s : Sys τ α) (n : Nat) (t : τ) (c : Nat) : Prop :=
  (∃ e, s.consumed[n]? = some e ∧ e.thread = t ∧ e.call = c) ∨
  (s.consumed.length ≤ n ∧ n < s.published.length ∧ s.calls t = c ∧
    (s.op t = .consumeCheck (UInt32.ofNat n) ∨ (s.op t).reading = some (UInt32.ofNat n)))

/-- Element `n` is published by call `c` of `t`, or on its way in. -/
def SecuredPut (B : Nat) (s : Sys τ α) (n : Nat) (t : τ) (c : Nat) : Prop :=
  (∃ e, s.published[n]? = some e ∧ e.thread = t ∧ e.call = c) ∨
  (s.published.length ≤ n ∧ n < s.consumed.length + B ∧ s.calls t = c ∧
    ((∃ p, s.op t = .leakCheck p (UInt32.ofNat n)) ∨ (s.op t).writing = some (UInt32.ofNat n)))

theorem SecuredTake.takenBy {n c : Nat} {t : τ} (h : SecuredTake s n t c) : TakenBy s n t c := by
  rcases h with h | ⟨h₁, -, h₂, h₃⟩
  · exact .inl h
  · refine .inr ⟨h₁, h₂, ?_⟩
    rcases h₃ with h₃ | h₃
    · rw [h₃]; rfl
    · cases ho : s.op t <;> rw [ho] at h₃ <;> first | exact h₃ | cases h₃

theorem SecuredPut.putBy {n c : Nat} {t : τ} (h : SecuredPut B s n t c) : PutBy s n t c := by
  rcases h with h | ⟨h₁, -, h₂, h₃⟩
  · exact .inl h
  · refine .inr ⟨h₁, h₂, ?_⟩
    rcases h₃ with ⟨p, h₃⟩ | h₃
    · rw [h₃]; rfl
    · cases ho : s.op t <;> rw [ho] at h₃ <;> first | exact h₃ | cases h₃

namespace Inv
variable {g : Ghost τ}

/-- The unbounded id behind a consumer's slot id that lies near `head`. -/
theorem cid_of_consSlot (h : Inv B s g) (hB : RingSize B) (hf : s.InFlightBelow (2 ^ 31 - B)) {t : τ} {n : Nat}
    (ht : (s.op t).consSlot = some (UInt32.ofNat n)) (h₁ : s.consumed.length ≤ n)
    (h₂ : n < s.consumed.length + 2 ^ 31) : g.cid t = some n := by
  obtain ⟨m, hm, hmn⟩ := Option.map_eq_some_iff.mp ((h.thread t).consSlot.symm.trans ht)
  have hw := h.windows_lt hB hf
  have hr := h.cons.range t m hm
  rw [hm, (Wrap.ofNat_inj_of_near (by omega) (by omega)).mp hmn]

/-- The unbounded id behind a publisher's slot id that lies near `tail`. -/
theorem pid_of_prodSlot (h : Inv B s g) (hB : RingSize B) (hf : s.InFlightBelow (2 ^ 31 - B)) {t : τ} {n : Nat}
    (ht : (s.op t).prodSlot = some (UInt32.ofNat n)) (h₁ : s.published.length ≤ n)
    (h₂ : n < s.published.length + 2 ^ 31) : g.pid t = some n := by
  obtain ⟨m, hm, hmn⟩ := Option.map_eq_some_iff.mp ((h.thread t).prodSlot.symm.trans ht)
  have hw := h.windows_lt hB hf
  have hr := h.prod.range t m hm
  rw [hm, (Wrap.ofNat_inj_of_near (by omega) (by omega)).mp hmn]

/-- When a consumer fails its test and nobody is about to step back from a published id, every
published element is secured. -/
theorem secured_of_consumeNone (h : Inv B s g) (hB : RingSize B) (hf : s.InFlightBelow (2 ^ 31 - B))
    {t : τ} {i : UInt32} (ho : s.op t = .consumeCheck i) (hlen : ¬ 0 < (s.q.tail - i).toInt32)
    (hst : ∀ u j, s.op u = .consumeRecede j → ¬ 0 < (s.q.tail - j).toInt32) {n : Nat}
    (hn : n < s.published.length) : ∃ u c, SecuredTake s n u c := by
  by_cases hlt : n < s.consumed.length
  · exact ⟨_, _, .inl ⟨_, List.getElem?_eq_getElem hlt, rfl, rfl⟩⟩
  obtain ⟨m, hm, -, hiff⟩ := h.consumeCheck_iff hB hf ho
  have hmT : s.published.length ≤ m := Nat.not_lt.mp fun h' => hlen (hiff.mpr h')
  have hr := h.cons.range t m hm
  obtain ⟨u, hu⟩ := h.cons.cover n (by omega) (by omega)
  refine ⟨u, s.calls u, .inr ⟨by omega, hn, rfl, ?_⟩⟩
  have hslot := (h.thread u).consSlot
  rw [hu, Option.map_some] at hslot
  have hw := h.windows_lt hB hf
  have hle := hB.le
  have hcap := h.cap
  cases hop : s.op u with
  | consumeCheck j => rw [hop] at hslot; cases hslot; exact .inl rfl
  | consumeRecede j =>
    rw [hop] at hslot; cases hslot
    refine absurd ?_ (hst u _ hop)
    rw [h.tail, Wrap.zero_lt_toInt32_sub_iff (by omega) (by omega)]
    exact hn
  | slotRead j | releaseLeaked j => rw [hop] at hslot; exact .inr hslot
  | _ => rw [hop] at hslot; cases hslot

/-- When a publisher fails its test and nobody is about to step back from an id that fits by now,
the `BUFFER_SIZE` ids from `head` on are published or secured. -/
theorem secured_of_leakFull (h : Inv B s g) (hB : RingSize B) (hf : s.InFlightBelow (2 ^ 31 - B))
    {t : τ} {p : Payload α} {i : UInt32} (ho : s.op t = .leakCheck p i) (hlen : ¬ i - s.q.head < UInt32.ofNat B)
    (hst : ∀ u p j, s.op u = .leakRecede p j → ¬ j - s.q.head < UInt32.ofNat B) {n : Nat}
    (hn : n < s.consumed.length + B) : n < s.published.length ∨ ∃ u c, SecuredPut B s n u c := by
  refine or_iff_not_imp_left.mpr fun hT => ?_
  obtain ⟨m, hm, -, hiff⟩ := h.leakCheck_iff (h.close hB hf) ho
  have hmH : s.consumed.length + B ≤ m := Nat.not_lt.mp fun h' => hlen (hiff.mpr h')
  have hr := h.prod.range t m hm
  obtain ⟨u, hu⟩ := h.prod.cover n (by omega) (by omega)
  refine ⟨u, s.calls u, .inr ⟨by omega, hn, rfl, ?_⟩⟩
  have hslot := (h.thread u).prodSlot
  rw [hu, Option.map_some] at hslot
  have hle := hB.le
  have := h.le
  cases hop : s.op u with
  | leakCheck p j => rw [hop] at hslot; cases hslot; exact .inl ⟨p, rfl⟩
  | leakRecede p j =>
    rw [hop] at hslot; cases hslot
    refine absurd ?_ (hst u p _ hop)
    rw [h.head, Wrap.ofNat_sub_lt_iff (by omega) (by omega) (by omega)]
    exact hn
  | slotWrite p j | publishLeaked p j => rw [hop] at hslot; exact .inr hslot
  | _ => rw [hop] at hslot; cases hslot

end Inv

theorem getElem?_of_prefix {β : Type} {l l' : List β} {n : Nat} {e : β} (h : l <+: l') (he : l[n]? = some e) :
    l'[n]? = some e := by
  obtain ⟨r, rfl⟩ := h
  rw [List.getElem?_append_left (List.getElem?_eq_some_iff.mp he).1, he]

section Step
variable [DecidableEq τ] {g : Ghost τ} {t u : τ} {n c : Nat}

theorem SecuredTake.moves (hs : SecuredTake s n u c) (h : Inv B s g) (hB : RingSize B)
    (hf : s.InFlightBelow (2 ^ 31 - B)) (hm : Sys.Moves B s t s') : SecuredTake s' n u c := by
  rcases hs with ⟨e, he, h'⟩ | ⟨hH, hT, hc, ho⟩
  · exact .inl ⟨e, getElem?_of_prefix hm.consumed_prefix he, h'⟩
  have hslot : (s.op u).consSlot = some (UInt32.ofNat n) := by
    rcases ho with ho | ho
    · rw [ho]; rfl
    · cases hop : s.op u <;> rw [hop] at ho <;> first | exact ho | cases ho
  have hcap := h.cap
  have hle := hB.le
  have hcid := h.cid_of_consSlot hB hf hslot hH (by omega)
  have hT' : n < s'.published.length := Nat.lt_of_lt_of_le hT hm.published_prefix.length_le
  by_cases hut : u = t
  · subst hut
    cases hm with
    | consumeOk hop hlen =>
      rw [hop] at hslot
      exact .inr ⟨hH, hT', hc, .inr (by simpa [Sys.setOp, Op.reading, Op.consSlot] using hslot)⟩
    | consumeNone hop hlen =>
      obtain ⟨m, hm', -, hiff⟩ := h.consumeCheck_iff hB hf hop
      obtain rfl : n = m := Option.some.inj (hcid.symm.trans hm')
      exact absurd (hiff.mpr hT) hlen
    | read hop =>
      rw [hop] at hslot
      exact .inr ⟨hH, hT', hc, .inr (by simpa [Sys.setOp, Op.reading, Op.consSlot] using hslot)⟩
    | release hop hcas =>
      obtain ⟨hid, -⟩ := h.release_id (h.close hB hf) hop hcas
      obtain rfl : n = s.consumed.length := Option.some.inj (hcid.symm.trans hid)
      exact .inl ⟨_, List.getElem?_concat_length .., rfl, hc⟩
    | spin => exact .inr ⟨hH, hT, hc, ho⟩
    | leakReserve hop | leakOk hop | leakFull hop | leakRecede hop | leakRetry hop | leakAgain hop | leakRefuse hop
    | write hop | publish hop | consumeReserve hop => rw [hop] at hslot; cases hslot
    | consumeRecede hop | consumeRetry hop =>
      rw [hop] at ho
      rcases ho with ho | ho <;> cases ho
  · refine .inr ⟨?_, hT', by rw [hm.calls_eq]; exact hc, by rw [hm.op_of_ne hut]; exact ho⟩
    -- the id released by another thread is not the one `u` holds
    rcases hm.consumed_cases with heq | ⟨i, v, hop, hcas, -, heq⟩
    · rw [heq]; exact hH
    · have hid := (h.release_id (h.close hB hf) hop hcas).1
      have : n ≠ s.consumed.length := fun hn => hut (h.cons.inj u t n hcid (hn ▸ hid))
      rw [heq, List.length_append, List.length_singleton]
      omega

theorem SecuredPut.moves (hs : SecuredPut B s n u c) (h : Inv B s g) (hB : RingSize B)
    (hf : s.InFlightBelow (2 ^ 31 - B)) (hm : Sys.Moves B s t s') : SecuredPut B s' n u c := by
  rcases hs with ⟨e, he, h'⟩ | ⟨hT, hH, hc, ho⟩
  · exact .inl ⟨e, getElem?_of_prefix hm.published_prefix he, h'⟩
  have hslot : (s.op u).prodSlot = some (UInt32.ofNat n) := by
    rcases ho with ⟨p, ho⟩ | ho
    · rw [ho]; rfl
    · cases hop : s.op u <;> rw [hop] at ho <;> first | exact ho | cases ho
  have hle := hB.le
  have hcle := h.le
  have hpid := h.pid_of_prodSlot hB hf hslot hT (by omega)
  have hH' : n < s'.consumed.length + B := by
    have := hm.consumed_prefix.length_le
    omega
  by_cases hut : u = t
  · subst hut
    cases hm with
    | leakOk hop hlen =>
      rw [hop] at hslot
      exact .inr ⟨hT, hH', hc, .inr (by simpa [Sys.setOp, Op.writing, Op.prodSlot] using hslot)⟩
    | leakFull hop hlen =>
      obtain ⟨m, hm', -, hiff⟩ := h.leakCheck_iff (h.close hB hf) hop
      obtain rfl : n = m := Option.some.inj (hpid.symm.trans hm')
      exact absurd (hiff.mpr hH) hlen
    | write hop v hv =>
      rw [hop] at hslot
      exact .inr ⟨hT, hH', hc, .inr (by simpa [Sys.setOp, Op.writing, Op.prodSlot] using hslot)⟩
    | publish hop hcas =>
      obtain ⟨hid, -⟩ := h.publish_id (h.close hB hf) hop hcas
      obtain rfl : n = s.published.length := Option.some.inj (hpid.symm.trans hid)
      exact .inl ⟨_, List.getElem?_concat_length .., rfl, hc⟩
    | spin => exact .inr ⟨hT, hH, hc, ho⟩
    | leakReserve hop | leakAgain hop | leakRefuse hop | consumeReserve hop | consumeOk hop | consumeNone hop
    | consumeRecede hop | consumeRetry hop | read hop | release hop => rw [hop] at hslot; cases hslot
    | leakRecede hop | leakRetry hop =>
      rw [hop] at ho
      rcases ho with ⟨p, ho⟩ | ho <;> cases ho
  · refine .inr ⟨?_, hH', by rw [hm.calls_eq]; exact hc, by rw [hm.op_of_ne hut]; exact ho⟩
    rcases hm.published_cases with heq | ⟨p, i, l, v, hop, hcas, -, heq⟩
    · rw [heq]; exact hT
    · have hid := (h.publish_id (h.close hB hf) hop hcas).1
      have : n ≠ s.published.length := fun hn => hut (h.prod.inj u t n hpid (hn ▸ hid))
      rw [heq, List.length_append, List.length_singleton]
      omega

/-- A call that starts leaves the other threads and the logs alone, and its own thread held no id. -/
theorem SecuredTake.call {o : Op α} (hs : SecuredTake s n u c) (ht : (s.op t).atRest = true) (k : Nat) :
    SecuredTake { s.setOp t o with calls := Function.update s.calls t k } n u c := by
  rcases hs with hs | ⟨hH, hT, hc, ho⟩
  · exact .inl hs
  have hut : u ≠ t := by
    rintro rfl
    cases hop : s.op u <;> rw [hop] at ho ht <;> first | (cases ht; done) | (rcases ho with ho | ho <;> cases ho)
  refine .inr ⟨hH, hT, (Function.update_of_ne hut _ _).trans hc, ?_⟩
  show Function.update s.op t o u = _ ∨ (Function.update s.op t o u).reading = _
  rw [Function.update_of_ne hut]; exact ho

theorem SecuredPut.call {o : Op α} (hs : SecuredPut B s n u c) (ht : (s.op t).atRest = true) (k : Nat) :
    SecuredPut B { s.setOp t o with calls := Function.update s.calls t k } n u c := by
  rcases hs with hs | ⟨hT, hH, hc, ho⟩
  · exact .inl hs
  have hut : u ≠ t := by
    rintro rfl
    cases hop : s.op u <;> rw [hop] at ho ht <;> first | (cases ht; done) | (rcases ho with ⟨p, ho⟩ | ho <;> cases ho)
  refine .inr ⟨hT, hH, (Function.update_of_ne hut _ _).trans hc, ?_⟩
  show (∃ p, Function.update s.op t o u = _) ∨ (Function.update s.op t o u).writing = _
  rw [Function.update_of_ne hut]; exact ho

/-- What every step keeps as long as few operations are in flight, every run keeps. -/
theorem steps_keep {ok : Sys τ α → Label τ α → Sys τ α → Prop} (hB : RingSize B)
    (hok : ∀ s b s', ok s b s' → FewInFlight B s b s') {P : Sys τ α → Prop}
    (hP : ∀ s s' b g, Inv B s g → s.InFlightBelow (2 ^ 31 - B) → P s → s.step B b = some s' → P s')
    (h : Machine.Steps (Sys.step B) ok s s') (hI : (∃ g, Inv B s g) ∧ s.InFlightBelow (2 ^ 31 - B))
    (hs : P s) : P s' := by
  refine (h.invariant (I := fun s => ((∃ g, Inv B s g) ∧ s.InFlightBelow (2 ^ 31 - B)) ∧ P s) ?_ ⟨hI, hs⟩).2
  rintro s b s' ⟨⟨⟨g, hg⟩, hf⟩, hs⟩ hb hb'
  exact ⟨⟨hg.step (hg.close hB hf) hb, hok _ _ _ hb'⟩, hP s s' b g hg hf hs hb⟩

theorem SecuredTake.steps {ok : Sys τ α → Label τ α → Sys τ α → Prop} (hB : RingSize B)
    (hok : ∀ s b s', ok s b s' → FewInFlight B s b s') (h : Machine.Steps (Sys.step B) ok s s')
    (hI : (∃ g, Inv B s g) ∧ s.InFlightBelow (2 ^ 31 - B)) (hs : SecuredTake s n u c) : SecuredTake s' n u c := by
  refine steps_keep (P := fun s => SecuredTake s n u c) hB hok (fun s s' b g hg hf hs hb => ?_) h hI hs
  rcases Sys.step_cases hb with ⟨t, o, -, ht, rfl⟩ | ⟨t, hm⟩
  · exact hs.call ht _
  · exact hs.moves hg hB hf hm

theorem SecuredPut.steps {ok : Sys τ α → Label τ α → Sys τ α → Prop} (hB : RingSize B)
    (hok : ∀ s b s', ok s b s' → FewInFlight B s b s') (h : Machine.Steps (Sys.step B) ok s s')
    (hI : (∃ g, Inv B s g) ∧ s.InFlightBelow (2 ^ 31 - B)) (hs : SecuredPut B s n u c) : SecuredPut B s' n u c := by
  refine steps_keep (P := fun s => SecuredPut B s n u c) hB hok (fun s s' b g hg hf hs hb => ?_) h hI hs
  rcases Sys.step_cases hb with ⟨t, o, -, ht, rfl⟩ | ⟨t, hm⟩
  · exact hs.call ht _
  · exact hs.moves hg hB hf hm

/-- A thread whose state changes in a step was at rest and started a call, or moved. -/
theorem step_op_cases {b : Label τ α} (h : s.step B b = some s') (t : τ) :
    s'.op t = s.op t ∨ ((s.op t).atRest = true ∧ (s'.op t = .consumeReserve ∨ ∃ p, s'.op t = .leakReserve p)) ∨
      ∃ spurious answer, b = .run t spurious answer ∧ Sys.Moves B s t s' := by
  cases b with
  | publish u p =>
    simp only [Sys.step, Sys.call, Option.ite_none_right_eq_some, Option.some.injEq] at h
    obtain ⟨hu, rfl⟩ := h
    by_cases ht : t = u
    · subst ht; exact .inr (.inl ⟨hu, .inr ⟨p, Function.update_self ..⟩⟩)
    · exact .inl (Function.update_of_ne ht _ _)
  | consume u =>
    simp only [Sys.step, Sys.call, Option.ite_none_right_eq_some, Option.some.injEq] at h
    obtain ⟨hu, rfl⟩ := h
    by_cases ht : t = u
    · subst ht; exact .inr (.inl ⟨hu, .inl (Function.update_self ..)⟩)
    · exact .inl (Function.update_of_ne ht _ _)
  | run u spurious answer =>
    have hm := Sys.moves_of_run h
    by_cases ht : t = u
    · subst ht; exact .inr (.inr ⟨_, _, rfl, hm⟩)
    · exact .inl (hm.op_of_ne ht)

theorem consumeNone_of_enter {b : Label τ α} (h : s.step B b = some s') (h₁ : ¬ ∃ i, s.op t = .consumeRecede i)
    (h₂ : ∃ i, s'.op t = .consumeRecede i) :
    ∃ i spurious answer, b = .run t spurious answer ∧ s.op t = .consumeCheck i ∧ ¬ 0 < (s.q.tail - i).toInt32 := by
  obtain ⟨i, hi⟩ := h₂
  rcases step_op_cases h t with heq | ⟨-, heq | ⟨p, heq⟩⟩ | ⟨sp, a, rfl, hm⟩
  · exact absurd ⟨i, heq ▸ hi⟩ h₁
  · rw [heq] at hi; cases hi
  · rw [heq] at hi; cases hi
  · cases hm with
    | consumeNone hop hlen => exact ⟨_, sp, a, rfl, hop, hlen⟩
    | spin => exact absurd ⟨i, hi⟩ h₁
    | _ => simp [Sys.setOp] at hi

/-- A publisher on its way from a failed test to handing its item back. -/
def GivingUp (o : Op α) : Prop := (∃ p i, o = .leakRecede p i) ∨ ∃ p, o = .leakReport p

theorem leakFull_of_enter {b : Label τ α} (h : s.step B b = some s') (h₁ : ¬ GivingUp (s.op t))
    (h₂ : GivingUp (s'.op t)) :
    ∃ p i spurious answer, b = .run t spurious answer ∧ s.op t = .leakCheck p i ∧
      ¬ i - s.q.head < UInt32.ofNat B := by
  rcases step_op_cases h t with heq | ⟨-, heq | ⟨p, heq⟩⟩ | ⟨sp, a, rfl, hm⟩
  · exact absurd (heq ▸ h₂) h₁
  · rw [heq] at h₂; simp [GivingUp] at h₂
  · rw [heq] at h₂; simp [GivingUp] at h₂
  · cases hm with
    | leakFull hop hlen => exact ⟨_, _, sp, a, rfl, hop, hlen⟩
    | leakRecede hop => exact absurd (.inl ⟨_, _, hop⟩) h₁
    | spin => exact absurd h₂ h₁
    | _ => simp [Sys.setOp, GivingUp] at h₂

/-- Few operations are in flight, and no test fails while another thread is about to step back from
an id that would pass it. -/
def NoStaleRecede (B : Nat) (s : Sys τ α) (b : Label τ α) (s' : Sys τ α) : Prop :=
  FewInFlight B s b s' ∧ NotStale B s b

/-- The instant is the last failed test: `G` says of a thread that it has failed its test and will
return with `ret` unless it tests again. -/
theorem hasInstant_of_test (hB : RingSize B) {start : Label τ α} {ret G : Op α → Prop}
    {P : (Sys τ α → Prop) → Sys τ α → Prop}
    (hstart : ∀ s s' : Sys τ α, s.step B start = some s' → ¬ G (s'.op t))
    (hret : ∀ (s s' : Sys τ α) b, s.step B b = some s' → (s.op t).atRest = false → ret (s'.op t) → G (s.op t))
    (htest : ∀ (s s' : Sys τ α) b, (∃ g, Inv B s g) ∧ s.InFlightBelow (2 ^ 31 - B) → s.step B b = some s' →
      NotStale B s b → ¬ G (s.op t) → G (s'.op t) →
      ∀ future, (∀ r, future r → Machine.Steps (Sys.step B) (NoStaleRecede B) s r) → P future s) :
    HasInstant B (NoStaleRecede B) start t ret P := by
  intro buffer s₀ s₁ s₂ s₃ l b h₀ hs₁ hok₁ hpath _ hrest hb hokb hret'
  obtain ⟨l₁, b', l₂, r, r', rfl, hpr, hrb, hrok, hn, hp, hpr'⟩ :=
    hpath.exists_enter (P := fun s => G (s.op t)) (hstart _ _ hs₁) (hret _ _ _ hb hrest hret')
  have hI := inv_of_steps hB (Machine.Steps.mono (fun _ _ _ h => h.1) ((h₀.tail ⟨_, hs₁, hok₁⟩).trans hpr.steps))
  refine ⟨l₁, _, r, by rw [List.append_assoc, List.cons_append], hpr.exec_eq, ?_⟩
  refine htest r r' b' hI hrb hrok.2 hn hp _ fun z hz => ?_
  exact ((Relation.ReflTransGen.head ⟨_, hrb, hrok⟩ hpr'.steps).tail ⟨b, hb, hokb⟩).trans hz

theorem noSpuriousEmpty (hB : RingSize B) : NoSpuriousEmpty B (NoStaleRecede B : Sys τ α → _ → _ → Prop) := by
  intro t
  refine hasInstant_of_test hB (G := fun o => ∃ i, o = .consumeRecede i) ?_ ?_ ?_
  · intro s s' h
    simp only [Sys.step, Sys.call, Option.ite_none_right_eq_some, Option.some.injEq] at h
    obtain ⟨-, rfl⟩ := h
    simp [Sys.setOp]
  · intro s s' b hb hrest hret
    rcases step_op_cases hb t with heq | ⟨-, heq | ⟨p, heq⟩⟩ | ⟨sp, a, rfl, hm⟩
    · rw [← heq, hret] at hrest; cases hrest
    · rw [heq] at hret; cases hret
    · rw [heq] at hret; cases hret
    · cases hm with
      | consumeRecede hop => exact ⟨_, hop⟩
      | spin => rw [hret] at hrest; cases hrest
      | _ => simp [Sys.setOp] at hret
  · intro s s' b hI hb hst hn hp future hfut n hn'
    obtain ⟨i, sp, a, rfl, hop, hlen⟩ := consumeNone_of_enter hb hn hp
    simp only [NotStale, hop] at hst
    obtain ⟨u, c, hsec⟩ := hI.1.choose_spec.secured_of_consumeNone hB hI.2 hop hlen (hst hlen) hn'
    exact ⟨u, c, hsec.takenBy, fun z hz => (hsec.steps hB (fun _ _ _ h => h.1) (hfut z hz) hI).takenBy⟩

theorem noSpuriousFull (hB : RingSize B) : NoSpuriousFull B (NoStaleRecede B : Sys τ α → _ → _ → Prop) := by
  intro t item
  refine hasInstant_of_test hB (G := GivingUp) ?_ ?_ ?_
  · intro s s' h
    simp only [Sys.step, Sys.call, Option.ite_none_right_eq_some, Option.some.injEq] at h
    obtain ⟨-, rfl⟩ := h
    simp [Sys.setOp, GivingUp]
  · intro s s' b hb hrest hret
    rcases step_op_cases hb t with heq | ⟨-, heq | ⟨p, heq⟩⟩ | ⟨sp, a, rfl, hm⟩
    · rw [← heq, hret] at hrest; cases hrest
    · rw [heq] at hret; cases hret
    · rw [heq] at hret; cases hret
    · cases hm with
      | leakRefuse hop => exact .inr ⟨_, hop⟩
      | spin => rw [hret] at hrest; cases hrest
      | _ => simp [Sys.setOp] at hret
  · intro s s' b hI hb hst hn hp future hfut n _ hn'
    obtain ⟨p, i, sp, a, rfl, hop, hlen⟩ := leakFull_of_enter hb hn hp
    simp only [NotStale, hop] at hst
    refine (hI.1.choose_spec.secured_of_leakFull hB hI.2 hop hlen (hst hlen) hn').imp_right ?_
    rintro ⟨u, c, hsec⟩
    exact ⟨u, c, hsec.putBy, fun z hz => (hsec.steps hB (fun _ _ _ h => h.1) (hfut z hz) hI).putBy⟩

/-- `AtomicMove` reports empty or full only when it was, in every run without a stale test. -/
theorem noSpuriousReport (hB : RingSize B) :
    NoSpuriousEmpty B (NoStaleRecede B : Sys τ α → _ → _ → Prop) ∧
    NoSpuriousFull B (NoStaleRecede B : Sys τ α → _ → _ → Prop) :=
  ⟨noSpuriousEmpty hB, noSpuriousFull hB⟩

def Op.receding : Op α → Bool
  | .leakRecede .. | .consumeRecede _ => true
  | _ => false

/-- No thread but the one that runs is about to step back. -/
def Sys.othersStay [Fintype τ] (s : Sys τ α) : Label τ α → Bool
  | .run t _ _ => decide (∀ u, u ≠ t → (s.op u).receding = false)
  | _ => true

theorem NotStale.of_othersStay [Fintype τ] {b : Label τ α} (h : s.othersStay b = true) : NotStale B s b := by
  cases b with
  | publish | consume => trivial
  | run t spurious answer =>
    have hstay : ∀ u, u ≠ t → (s.op u).receding = false := of_decide_eq_true h
    cases hop : s.op t <;> simp only [NotStale, hop] <;> try trivial
    case consumeCheck i =>
      intro _ u j hu
      have := hstay u fun he => by rw [he, hop] at hu; cases hu
      rw [hu] at this
      cases this
    case leakCheck p i =>
      intro _ u p' j hu
      have := hstay u fun he => by rw [he, hop] at hu; cases hu
      rw [hu] at this
      cases this

/-- Thread 1 has the element and not yet released its slot when consumer 2 is called. -/
def foundTaken : CallRun (Fin 3) Nat where
  pre := [.publish 0 (.movable 7), .run 0 false false, .run 0 false false, .run 0 false false, .run 0 false false,
    .consume 1, .run 1 false false, .run 1 false false]
  start := .consume 2
  mid := [.run 2 false false, .run 2 false false]
  ret := .run 2 false false
  post := []

/-- The same, and it is thread 0 that is called, to publish. -/
def foundHeld : CallRun (Fin 3) Nat :=
  { foundTaken with
    start := .publish 0 (.movable 8)
    mid := [.run 0 false false, .run 0 false false, .run 0 false false]
    ret := .run 0 false false }

/-- One slot: thread 1 has the element but still holds its slot. Consumer 2 finds nothing, and publisher 0 no room. -/
theorem noSpuriousReport_slotHeld :
    (∃ s₀ s₁ s₃ r : Sys (Fin 3) Nat, ∃ l l', Machine.Steps (Sys.step 1) (NoStaleRecede 1) (.init fun _ => 0) s₀ ∧
      s₁.published.length = 1 ∧ s₀.step 1 (.consume 2) = some s₁ ∧ Machine.exec (Sys.step 1) s₁ l = some r ∧
      Machine.exec (Sys.step 1) s₁ (l ++ l') = some s₃ ∧ s₃.op 2 = .empty ∧
      AllTaken (Machine.Steps (Sys.step 1) (NoStaleRecede 1) s₃) r) ∧
    (∃ s₀ s₁ s₃ r : Sys (Fin 3) Nat, ∃ l l', Machine.Steps (Sys.step 1) (NoStaleRecede 1) (.init fun _ => 0) s₀ ∧
      s₁.published.length = 1 ∧ s₀.step 1 (.publish 0 (.movable 8)) = some s₁ ∧ Machine.exec (Sys.step 1) s₁ l = some r ∧
      Machine.exec (Sys.step 1) s₁ (l ++ l') = some s₃ ∧ s₃.op 0 = .refused (.movable 8) ∧
      AllPut 1 (Machine.Steps (Sys.step 1) (NoStaleRecede 1) s₃) r) := by
  have hok : ∀ (s : Sys (Fin 3) Nat) b s', s.othersStay b = true → NoStaleRecede 1 s b s' := fun s b s' hb =>
    ⟨s'.inFlightBelow_of_card (by decide), .of_othersStay hb⟩
  have hend : ∀ {s₁ s₂ s₃ : Sys (Fin 3) Nat} {l : List (Label (Fin 3) Nat)} b,
      Machine.Path (Sys.step 1) (NoStaleRecede 1) s₁ l s₂ → s₂.step 1 b = some s₃ →
      Machine.exec (Sys.step 1) s₁ (l ++ [b]) = some s₃ := by
    intro s₁ s₂ s₃ l b hpath hb
    rw [Machine.exec_append, hpath.exec_eq, Option.bind_some, Machine.exec_cons, hb]
    rfl
  constructor
  · have hrun : foundTaken.check 1 (fun _ => 0) (fun s b _ => s.othersStay b) (fun s₁ s₂ s₃ _ =>
        decide (s₂.calls 2 = s₁.calls 2 ∧ (s₂.op 2).atRest = false ∧ s₁.published.length = 1) &&
        match s₃.op 2 with | .empty => true | _ => false) = some true := by decide +kernel
    obtain ⟨s₀, s₁, s₂, s₃, -, h₀, h₁, h₁', h₂, h₃, h₃', -, ht⟩ := CallRun.states hok hrun
    rw [Bool.and_eq_true, decide_eq_true_iff] at ht
    obtain ⟨⟨hcalls, hrest, hpub⟩, hret⟩ := ht
    have hret' : s₃.op 2 = .empty := by split at hret <;> [assumption; cases hret]
    obtain ⟨l₁, l₂, r, hl, hr, hall⟩ := (noSpuriousReport ⟨0, by decide, rfl⟩).1 2 _ _ _ _ _ _ _ h₀ h₁ h₁' h₂ hcalls hrest
      h₃ h₃' hret'
    exact ⟨s₀, s₁, s₃, r, l₁, l₂, h₀, hpub, h₁, hr, hl ▸ hend _ h₂ h₃, hret', hall⟩
  · have hrun : foundHeld.check 1 (fun _ => 0) (fun s b _ => s.othersStay b) (fun s₁ s₂ s₃ _ =>
        decide (s₂.calls 0 = s₁.calls 0 ∧ (s₂.op 0).atRest = false ∧ s₁.published.length = 1) &&
        match s₃.op 0 with | .refused (.movable 8) => true | _ => false) = some true := by decide +kernel
    obtain ⟨s₀, s₁, s₂, s₃, -, h₀, h₁, h₁', h₂, h₃, h₃', -, ht⟩ := CallRun.states hok hrun
    rw [Bool.and_eq_true, decide_eq_true_iff] at ht
    obtain ⟨⟨hcalls, hrest, hpub⟩, hret⟩ := ht
    have hret' : s₃.op 0 = .refused (.movable 8) := by split at hret <;> [assumption; cases hret]
    obtain ⟨l₁, l₂, r, hl, hr, hall⟩ := (noSpuriousReport ⟨0, by decide, rfl⟩).2 0 8 _ _ _ _ _ _ _ h₀ h₁ h₁' h₂ hcalls
      hrest h₃ h₃' hret'
    exact ⟨s₀, s₁, s₃, r, l₁, l₂, h₀, hpub, h₁, hr, hl ▸ hend _ h₂ h₃, hret', hall⟩

end Step

/-- `publish_movable` and `consume_movable` only. -/
def Label.isMovable : Label τ α → Bool
  | .publish _ (.setter _) => false
  | _ => true

/-- The runs of `publish_movable` and `consume_movable` with few operations in flight. -/
def MovableRuns (B : Nat) (s : Sys τ α) (b : Label τ α) (s' : Sys τ α) : Prop :=
  FewInFlight B s b s' ∧ b.isMovable = true

/-- Consumer 1 fails its test on the empty queue; thread 0 publishes; consumer 2, called after that,
reserves the next id and returns `None`; then consumer 1 does too. -/
def emptyRun : CallRun (Fin 3) Nat where
  pre := [.consume 1, .run 1 false false, .run 1 false false,
    .publish 0 (.movable 7), .run 0 false false, .run 0 false false, .run 0 false false, .run 0 false false]
  start := .consume 2
  mid := [.run 2 false false, .run 2 false false]
  ret := .run 2 false false
  post := [.run 1 false false]

/-- Publisher 1 fails its test on the full queue; thread 0 consumes; publisher 2, called after that,
reserves the next id and is refused; then publisher 1 is too. -/
def fullRun : CallRun (Fin 3) Nat where
  pre := [.publish 0 (.movable 7), .run 0 false false, .run 0 false false, .run 0 false false, .run 0 false false,
    .publish 1 (.movable 8), .run 1 false false, .run 1 false false,
    .consume 0, .run 0 false false, .run 0 false false, .run 0 false false, .run 0 false false]
  start := .publish 2 (.movable 9)
  mid := [.run 2 false false, .run 2 false false, .run 2 false false]
  ret := .run 2 false false
  post := [.run 1 false false]

theorem prefix_of_steps [DecidableEq τ] {ok : Sys τ α → Label τ α → Sys τ α → Prop}
    (h : Machine.Steps (Sys.step B) ok s s') :
    s.published <+: s'.published ∧ s.consumed <+: s'.consumed := by
  refine h.invariant (I := fun r => s.published <+: r.published ∧ s.consumed <+: r.consumed) ?_
    ⟨List.prefix_rfl, List.prefix_rfl⟩
  intro r b r' ⟨hp, hc⟩ hb _
  rcases Sys.step_cases hb with ⟨t, o, -, -, rfl⟩ | ⟨t, hm⟩
  · exact ⟨hp, hc⟩
  · exact ⟨hp.trans hm.published_prefix, hc.trans hm.consumed_prefix⟩

/-- Both reports can be spurious, with one slot and three threads. -/
theorem spurious_report_run :
    ¬ NoSpuriousEmpty 1 (MovableRuns 1 : Sys (Fin 3) Nat → _ → _ → Prop) ∧
    ¬ NoSpuriousFull 1 (MovableRuns 1 : Sys (Fin 3) Nat → _ → _ → Prop) := by
  have hok : ∀ (s : Sys (Fin 3) Nat) b s', b.isMovable = true → MovableRuns 1 s b s' := fun s b s' hb =>
    ⟨s'.inFlightBelow_of_card (by decide), hb⟩
  constructor
  · intro h
    have hrun : emptyRun.check 1 (fun _ => 0) (fun _ b _ => b.isMovable) (fun s₁ s₂ s₃ s₄ =>
        decide (s₂.calls 2 = s₁.calls 2 ∧ (s₂.op 2).atRest = false ∧ s₁.published.length = 1 ∧
          s₄.consumed.length = 0 ∧ ∀ t, (s₄.op t).consSlot = none) &&
        match s₃.op 2 with | .empty => true | _ => false) = some true := by decide +kernel
    obtain ⟨s₀, s₁, s₂, s₃, s₄, h₀, h₁, h₁', h₂, h₃, h₃', h₄, ht⟩ := CallRun.states hok hrun
    rw [Bool.and_eq_true, decide_eq_true_iff] at ht
    obtain ⟨⟨hcalls, hrest, hpub, hcon, hslot⟩, hret⟩ := ht
    have hret' : s₃.op 2 = .empty := by split at hret <;> [assumption; cases hret]
    obtain ⟨l₁, l₂, r, -, hr, hall⟩ := h 2 _ _ _ _ _ _ _ h₀ h₁ h₁' h₂ hcalls hrest h₃ h₃' hret'
    -- element 0 is published all along, and in the end nobody has it
    obtain ⟨t, c, -, hfut⟩ := hall 0 (by have := (prefix_of_steps (Machine.Path.of_exec hr).steps).1.length_le; omega)
    rcases hfut s₄ h₄ with ⟨e, he, -⟩ | ⟨-, -, hs⟩
    · rw [List.length_eq_zero_iff.mp hcon] at he; cases he
    · rw [hslot t] at hs; cases hs
  · intro h
    have hrun : fullRun.check 1 (fun _ => 0) (fun _ b _ => b.isMovable) (fun s₁ s₂ s₃ s₄ =>
        decide (s₂.calls 2 = s₁.calls 2 ∧ (s₂.op 2).atRest = false ∧ s₁.consumed.length = 1 ∧
          s₄.consumed.length = 1 ∧ s₄.published.length = 1 ∧ ∀ t, (s₄.op t).prodSlot = none) &&
        match s₃.op 2 with | .refused (.movable 9) => true | _ => false) = some true := by decide +kernel
    obtain ⟨s₀, s₁, s₂, s₃, s₄, h₀, h₁, h₁', h₂, h₃, h₃', h₄, ht⟩ := CallRun.states hok hrun
    rw [Bool.and_eq_true, decide_eq_true_iff] at ht
    obtain ⟨⟨hcalls, hrest, hcon, hcon', hpub, hslot⟩, hret⟩ := ht
    have hret' : s₃.op 2 = .refused (.movable 9) := by split at hret <;> [assumption; cases hret]
    obtain ⟨l₁, l₂, r, hl, hr, hall⟩ := h 2 9 _ _ _ _ _ _ _ h₀ h₁ h₁' h₂ hcalls hrest h₃ h₃' hret'
    -- id 1 has room all along, and in the end nobody publishes it
    have hr' : Machine.exec (Sys.step 1) r l₂ = some s₃ := by
      have hexec : Machine.exec (Sys.step 1) s₁ (l₁ ++ l₂) = _ := Machine.exec_append l₁ l₂
      rw [hr, Option.bind_some, ← hl, Machine.exec_append, h₂.exec_eq, Option.bind_some, Machine.exec_cons, h₃]
        at hexec
      exact hexec.symm
    have hle := prefix_of_steps (Machine.Path.of_exec hr).steps
    have hle' := prefix_of_steps (Machine.Path.of_exec hr').steps
    have hle'' := prefix_of_steps h₄
    have h1 := hle.2.length_le
    have h2 := (hle'.2.trans hle''.2).length_le
    have h3 := (hle'.1.trans hle''.1).length_le
    rcases hall 1 (by omega) (by omega) with hlt | ⟨t, c, -, hfut⟩
    · omega
    · rcases hfut s₄ h₄ with ⟨e, he, -⟩ | ⟨-, -, hs⟩
      · have := (List.getElem?_eq_some_iff.mp he).1
        omega
      · rw [hslot t] at hs; cases hs

end Mutiny.AtomicMove
