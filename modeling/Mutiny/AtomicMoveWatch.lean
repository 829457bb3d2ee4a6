import Mutiny.AtomicMoveSpurious

/-!
# Consumers that still watch the queue

A consumer *watches* as long as its call has yet to make its test, or has secured an element. A
consumer that fails its test on a non-empty queue leaves another one watching, unless somebody is
about to step back from a published element.
-/

namespace Mutiny.AtomicMove
variable {α τ : Type} {B : Nat} {s s' : Sys τ α} {t u : τ}

namespace Op

/-- The thread is inside `consume_movable`, or returned from it. -/
def isConsume : Op α → Bool
  | consumeReserve | consumeCheck _ | consumeRecede _ | slotRead _ | releaseLeaked _ _ | taken _ | empty => true
  | _ => false

/-- The thread is inside `publish_movable` or `publish`, or returned from it. -/
def isPublish : Op α → Bool
  | leakReserve _ | leakCheck _ _ | leakRecede _ _ | leakReport _ | slotWrite _ _ _ | publishLeaked _ _ _ _
  | published _ | refused _ => true
  | _ => false

/-- The call of the consumer has yet to make its test, or it has an element. -/
def watches : Op α → Bool
  | consumeReserve | consumeCheck _ | slotRead _ | releaseLeaked _ _ | taken _ => true
  | _ => false

theorem isPublish_or_isConsume {o : Op α} (h : o.atRest = false) :
    o.isPublish = true ∧ o.isConsume = false ∨ o.isConsume = true ∧ o.isPublish = false := by
  cases o <;> first | exact .inl ⟨rfl, rfl⟩ | exact .inr ⟨rfl, rfl⟩ | cases h

theorem isPublish_ne_isConsume {o : Op α} (h : o.isPublish = true) : o.isConsume = false := by
  cases o <;> first | rfl | cases h

theorem isConsume_ne_isPublish {o : Op α} (h : o.isConsume = true) : o.isPublish = false := by
  cases o <;> first | rfl | cases h

theorem isConsume_of_consSlot {o : Op α} {i : UInt32} (h : o.consSlot = some i) : o.isConsume = true := by
  cases o <;> first | rfl | cases h

end Op

/-- Whether the queue holds an element, by its counters and by its logs. -/
theorem Inv.head_ne_tail_iff {g : Ghost τ} (h : Inv B s g) (hB : RingSize B) :
    s.q.head ≠ s.q.tail ↔ s.consumed.length < s.published.length := by
  have hle := h.le
  have hcap := h.cap
  have hB' := hB.le
  rw [h.head, h.tail, Ne, Wrap.ofNat_inj_of_near (by omega) (by omega)]
  omega

/-- If a consumer fails its test on a non-empty queue and nobody is about to step back from a
published element, some other consumer has secured one. -/
theorem Inv.exists_watch {g : Ghost τ} (h : Inv B s g) (hB : RingSize B) (hf : s.InFlightBelow (2 ^ 31 - B))
    {i : UInt32} (ho : s.op t = .consumeCheck i) (hlen : ¬ 0 < (s.q.tail - i).toInt32)
    (hst : ∀ u j, s.op u = .consumeRecede j → ¬ 0 < (s.q.tail - j).toInt32)
    (hne : s.consumed.length < s.published.length) :
    ∃ u, u ≠ t ∧ (s.op u).watches = true ∧ (s.op u).atRest = false ∧ (s.op u).isConsume = true := by
  obtain ⟨u, c, hsec⟩ := h.secured_of_consumeNone hB hf ho hlen hst hne
  rcases hsec with ⟨e, he, -⟩ | ⟨-, -, -, hu⟩
  · exact absurd (List.getElem?_eq_some_iff.mp he).1 (Nat.lt_irrefl _)
  have hslot : (s.op u).consSlot = some (UInt32.ofNat s.consumed.length) := by
    rcases hu with hu | hu
    · rw [hu]; rfl
    · cases hop : s.op u <;> rw [hop] at hu <;> first | exact hu | cases hu
  refine ⟨u, ?_, ?_, ?_, Op.isConsume_of_consSlot hslot⟩
  · rintro rfl
    obtain ⟨m, hm, -, hiff⟩ := h.consumeCheck_iff hB hf ho
    have hid := h.cid_of_consSlot hB hf hslot (Nat.le_refl _) (by omega)
    rw [hm, Option.some.injEq] at hid
    exact hlen (hiff.mpr (by omega))
  · rcases hu with hu | hu
    · rw [hu]; rfl
    · cases hop : s.op u <;> rw [hop] at hu <;> first | rfl | cases hu
  · rcases hu with hu | hu
    · rw [hu]; rfl
    · cases hop : s.op u <;> rw [hop] at hu <;> first | rfl | cases hu

namespace Sys.Moves
variable [DecidableEq τ]

theorem atRest_eq_false (h : Moves B s t s') : (s.op t).atRest = false := by
  cases h with
  | spin h => cases ho : s.op t <;> rw [ho] at h <;> first | rfl | cases h
  | leakReserve ho | leakOk ho | leakFull ho | leakRecede ho | leakRetry ho | leakAgain ho | leakRefuse ho
  | write ho | publish ho | consumeReserve ho | consumeOk ho | consumeNone ho | consumeRecede ho | consumeRetry ho
  | read ho | release ho => rw [ho]; rfl

theorem isConsume (h : Moves B s t s') (hc : (s.op t).isConsume = true) : (s'.op t).isConsume = true := by
  cases h with
  | spin => exact hc
  | consumeReserve ho | consumeOk ho | consumeNone ho | consumeRecede ho | consumeRetry ho
  | read ho | release ho => simp [setOp, Op.isConsume]
  | leakReserve ho | leakOk ho | leakFull ho | leakRecede ho | leakRetry ho | leakAgain ho | leakRefuse ho
  | write ho | publish ho => rw [ho] at hc; cases hc

theorem isPublish (h : Moves B s t s') (hc : (s.op t).isPublish = true) : (s'.op t).isPublish = true := by
  cases h with
  | spin => exact hc
  | leakReserve ho | leakOk ho | leakFull ho | leakRecede ho | leakRetry ho | leakAgain ho | leakRefuse ho
  | write ho | publish ho => simp [setOp, Op.isPublish]
  | consumeReserve ho | consumeOk ho | consumeNone ho | consumeRecede ho | consumeRetry ho
  | read ho | release ho => rw [ho] at hc; cases hc

theorem published_of_isConsume (h : Moves B s t s') (hc : (s.op t).isConsume = true) :
    s'.published = s.published := by
  rcases h.published_cases with h | ⟨_, _, _, _, ho, -⟩
  · exact h
  · rw [ho] at hc; cases hc

theorem published_cases_of_run {spurious answer : Bool} (h : s.run B t spurious answer = some s') :
    s'.published = s.published ∨ ∃ p i l v, spurious = false ∧ s.op t = .publishLeaked p i l v ∧ s.q.tail = i ∧
      s'.op t = .published l := by
  rcases (moves_of_run h).published_cases with heq | ⟨p, i, l, v, ho, hcas, ho', -⟩
  · exact .inl heq
  · cases spurious with
    | false => exact .inr ⟨p, i, l, v, rfl, ho, hcas, ho'⟩
    | true =>
      simp only [run, ho, Bool.true_eq_false, false_and, if_false, Option.some.injEq] at h
      exact .inl (by rw [h])

theorem consumed_of_isPublish (h : Moves B s t s') (hc : (s.op t).isPublish = true) :
    s'.consumed = s.consumed := by
  rcases h.consumed_cases with h | ⟨_, _, ho, -⟩
  · exact h
  · rw [ho] at hc; cases hc

theorem watches (h : Moves B s t s') (hw : (s.op t).watches = true) : (s'.op t).watches = true ∨
    ∃ i, s.op t = .consumeCheck i ∧ ¬ 0 < (s.q.tail - i).toInt32 := by
  cases h with
  | spin => exact .inl hw
  | consumeNone ho hlen => exact .inr ⟨_, ho, hlen⟩
  | consumeReserve ho | consumeOk ho | consumeRetry ho | read ho | release ho =>
    exact .inl (by simp [setOp, Op.watches])
  | consumeRecede ho | leakReserve ho | leakOk ho | leakFull ho | leakRecede ho | leakRetry ho | leakAgain ho
  | leakRefuse ho | write ho | publish ho => rw [ho] at hw; cases hw

end Sys.Moves
end Mutiny.AtomicMove
