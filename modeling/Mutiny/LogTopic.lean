import Mutiny.MMapMeta

/-!
# The log topic, however long it gets

What `MMapMeta` keeps does not depend on the length of the log, except for what its publishers return: that is the
length as a `u32`. Without it the invariant holds of every run (`Grown`).
-/

namespace Mutiny.MMapMeta
variable {τ α : Type}

def Consuming.slot : Consuming → Option Nat
  | .load slot | .recede slot _ | .read slot _ => some slot
  | .idle | .reserve => none

def Consuming.resting : Consuming → Bool
  | .idle => true
  | _ => false

/-- The next step of a call of `consume`: `head` after it and where the call goes on, and at its end the slot that
it had taken and what it returns. -/
def Consuming.next (N : Nat) (contents : MMapContents α) (kind : Kind) (head : Nat) (op : Consuming) (spurious : Bool) :
    Option (Nat × Consuming × Option (Nat × Returned α)) :=
  match op with
  | .idle => none
  | .reserve =>
    match kind with
    | .dynamic => some (head + 1, .load head, none)
    | .fixed fixedTail =>
      if head ≥ fixedTail then some (head + 1, .recede head fixedTail, none)
      else some (head + 1, .read head fixedTail, none)
  | .load slot =>
    let tail := contents.consumerTail
    if slot ≥ tail then some (head, .recede slot tail, none) else some (head, .read slot tail, none)
  | .recede slot tail =>
    if spurious = false ∧ head = slot + 1 then some (slot, .idle, some (slot, .none tail))
    else some (head, .recede slot tail, none)
  | .read slot tail =>
    if slot < N then
      let item := contents.buffer slot
      let len := Int32.ofNat (tail - slot)
      some (head, .idle, some (slot, .item item len))
    else none

theorem runConsume_eq {s : Sys τ α} {i : Nat} {u : Subscriber α} (hu : s.subscribers[i]? = some u) (N : Nat)
    (spurious : Bool) : s.runConsume N i u spurious = (u.op.next N s.contents u.kind u.head spurious).map fun r =>
      s.setSubscriber i { u with head := r.1, op := r.2.1, returned := u.returned ++ r.2.2.toList.map Prod.snd } := by
  obtain ⟨kind, head, op, start, returned⟩ := u
  cases op with
  | idle => rfl
  | reserve =>
    cases kind with
    | dynamic => simp [Sys.runConsume, Consuming.next]
    | fixed fixedTail =>
      simp only [Sys.runConsume, Consuming.next]
      split <;> simp
  | load slot =>
    simp only [Sys.runConsume, Consuming.next]
    split <;> simp
  | recede slot tail =>
    obtain ⟨hi, he⟩ := List.getElem?_eq_some_iff.mp hu
    have hself : s.setSubscriber i ⟨kind, head, .recede slot tail, start, returned⟩ = s := by
      unfold Sys.setSubscriber
      rw [← he, List.set_getElem_self]
    simp only [Sys.runConsume, Consuming.next]
    split <;> simp [hself]
  | read slot tail =>
    simp only [Sys.runConsume, Consuming.next]
    split <;> simp

def Publishing.forget : Publishing α → Publishing α
  | .published _ => .idle
  | o => o

def Sys.forget (s : Sys τ α) : Sys τ α := { s with publishing := fun t => (s.publishing t).forget }

/-- The topic is in order, and the publishers have stayed within the `N` slots of the buffer. -/
structure Grown (N : Nat) (zero : α) (s : Sys τ α) : Prop where
  inv : Inv zero s.forget
  filled : ∀ t p tail stored, s.publishing t = .publish p tail stored → tail < N
  exposed : s.contents.consumerTail ≤ N

section Step
variable {N : Nat} {zero : α} {s s' : Sys τ α} {t : τ}

theorem Grown.new (N : Nat) (zero : α) : Grown N zero (.new zero : Sys τ α) :=
  ⟨.new zero, fun _ _ _ _ h => (by cases h), Nat.zero_le N⟩

theorem Grown.values_length (h : Grown N zero s) : s.values.length = s.contents.consumerTail := h.inv.values_length

theorem Grown.buffer_eq (h : Grown N zero s) {n : Nat} (hn : n < s.contents.consumerTail) :
    s.values[n]? = some (s.contents.buffer n) :=
  h.inv.buffer_eq hn

variable [DecidableEq τ]

theorem forget_setPublishing (s : Sys τ α) (t : τ) (o : Publishing α) :
    (s.setPublishing t o).forget = s.forget.setPublishing t o.forget := by
  unfold Sys.forget Sys.setPublishing
  congr 1
  funext u
  by_cases hu : u = t
  · subst hu; simp
  · simp [hu]

theorem Grown.setPublishing {o : Publishing α} (h : Grown N zero s) (hinv : Inv zero (s'.setPublishing t o).forget)
    (hs : s'.publishing = s.publishing) (hc : s'.contents.consumerTail ≤ N)
    (ho : ∀ p tail stored, o = .publish p tail stored → tail < N) : Grown N zero (s'.setPublishing t o) := by
  refine ⟨hinv, fun u p tail stored hu => ?_, hc⟩
  change Function.update s'.publishing t o u = _ at hu
  by_cases hut : u = t
  · subst hut
    rw [Function.update_self] at hu
    exact ho p tail stored hu
  · rw [Function.update_of_ne hut, hs] at hu
    exact h.filled u p tail stored hu

theorem Grown.run {spurious : Bool} (h : Grown N zero s) (hs : s.run N t spurious = some s') : Grown N zero s' := by
  have hf : ∀ o, s.publishing t = o → s.forget.publishing t = o.forget := fun o ho => by rw [← ho]; rfl
  rcases Sys.run_cases hs with ⟨p, ho, rfl⟩ | ⟨p, tail, ho, hlt, rfl⟩ | ⟨p, tail, stored, ho, ⟨-, htail, rfl⟩ | rfl⟩
  · refine h.setPublishing ?_ rfl h.exposed nofun
    rw [forget_setPublishing]
    exact h.inv.reserve (hf _ ho)
  · refine h.setPublishing ?_ rfl h.exposed ?_
    · rw [forget_setPublishing]
      exact h.inv.write (hf _ ho)
    · rintro _ _ _ ⟨⟩
      exact hlt
  · refine h.setPublishing ?_ rfl (h.filled t p tail stored ho) nofun
    rw [forget_setPublishing]
    exact h.inv.expose (hf _ ho) htail rfl trivial
  · exact h

theorem Grown.step {l : Label τ α} (h : Grown N zero s) (hs : s.step N l = some s') : Grown N zero s' := by
  cases l with
  | publish t p =>
    have hcall : (s.forget.publishing t).slot = none → Grown N zero (s.setPublishing t (.reserve p)) := by
      intro hslot
      refine h.setPublishing ?_ rfl h.exposed nofun
      rw [forget_setPublishing]
      refine h.inv.setPublishing (c := s.contents) ?_ (fun u _ => h.inv.publisher u) trivial h.inv.untouched rfl
        fun n _ => rfl
      rw [Inv.slot_update_same hslot]
      exact h.inv.window
    cases ho : s.publishing t with
    | idle | published _ =>
      simp only [Sys.step, ho] at hs
      cases hs
      exact hcall (by simp [Sys.forget, ho, Publishing.forget, Publishing.slot])
    | _ => simp [Sys.step, ho] at hs
  | run t spurious => exact h.run hs
  | subscribeToNewEventsOnly =>
    cases hs
    exact ⟨h.inv.subscribe (Nat.le_of_eq h.values_length.symm), h.filled, h.exposed⟩
  | subscribeToSeparatedOldAndNewEvents =>
    cases hs
    exact ⟨h.inv.subscribePair, h.filled, h.exposed⟩
  | subscribeToJoinedOldAndNewEvents =>
    cases hs
    exact ⟨h.inv.subscribe (Nat.zero_le _), h.filled, h.exposed⟩
  | consume i =>
    obtain ⟨u, hu, hs⟩ := Option.bind_eq_some_iff.mp hs
    have hok := h.inv.subscriber i u hu
    have hop := hok.op
    cases ho : u.op with
    | idle =>
      simp only [ho] at hs hop
      cases hs
      exact ⟨h.inv.setSubscriber hu (hok.goOn u.head .reserve hop) rfl rfl, h.filled, h.exposed⟩
    | _ => simp [ho] at hs
  | runConsume i spurious =>
    obtain ⟨u, hu, hs⟩ := Option.bind_eq_some_iff.mp hs
    have hf : s.forget.runConsume N i u spurious = some s'.forget := by
      rw [runConsume_eq hu] at hs
      rw [runConsume_eq (s := s.forget) hu]
      obtain ⟨r, hr, rfl⟩ := Option.map_eq_some_iff.mp hs
      exact Option.map_eq_some_iff.mpr ⟨r, hr, rfl⟩
    rw [runConsume_eq hu] at hs
    obtain ⟨r, -, rfl⟩ := Option.map_eq_some_iff.mp hs
    exact ⟨h.inv.runConsume hu hf, h.filled, h.exposed⟩

def Sys.Exposes (s : Sys τ α) (l : Label τ α) : Prop :=
  ∃ t p stored, l = .run t false ∧ s.publishing t = .publish p s.contents.consumerTail stored

theorem consumerTail_step {l : Label τ α} (hs : s.step N l = some s') :
    (s.Exposes l ∧ s'.contents.consumerTail = s.contents.consumerTail + 1) ∨
    s'.contents.consumerTail = s.contents.consumerTail := by
  cases l with
  | publish t p =>
    simp only [Sys.step] at hs
    split at hs <;> cases hs <;> exact .inr rfl
  | run t spurious =>
    rcases Sys.run_cases hs with ⟨p, -, rfl⟩ | ⟨p, tail, -, -, rfl⟩ | ⟨p, _, stored, ho, ⟨rfl, rfl, rfl⟩ | rfl⟩
    · exact .inr rfl
    · exact .inr rfl
    · exact .inl ⟨⟨t, p, stored, rfl, ho⟩, rfl⟩
    · exact .inr rfl
  | subscribeToNewEventsOnly => cases hs; exact .inr rfl
  | subscribeToSeparatedOldAndNewEvents => cases hs; exact .inr rfl
  | subscribeToJoinedOldAndNewEvents => cases hs; exact .inr rfl
  | consume i =>
    obtain ⟨u, -, hs⟩ := Option.bind_eq_some_iff.mp hs
    split at hs <;> cases hs
    exact .inr rfl
  | runConsume i spurious =>
    obtain ⟨u, hu, hs⟩ := Option.bind_eq_some_iff.mp hs
    rw [runConsume_eq hu] at hs
    obtain ⟨r, -, rfl⟩ := Option.map_eq_some_iff.mp hs
    exact .inr rfl

theorem Sys.Exposes.consumerTail {l : Label τ α} (h : s.Exposes l) (hs : s.step N l = some s') :
    s'.contents.consumerTail = s.contents.consumerTail + 1 := by
  obtain ⟨t, p, stored, rfl, ho⟩ := h
  change s.run N t false = some s' at hs
  simp only [Sys.run, ho, and_self, if_true, Option.some.injEq] at hs
  subst hs
  rfl

theorem subscribers_step {l : Label τ α} (hs : s.step N l = some s') : s.subscribers.length ≤ s'.subscribers.length := by
  cases l with
  | publish t p =>
    simp only [Sys.step] at hs
    split at hs <;> cases hs <;> exact Nat.le_refl _
  | run t spurious =>
    rcases Sys.run_cases hs with ⟨p, -, rfl⟩ | ⟨p, tail, -, -, rfl⟩ | ⟨p, tail, stored, -, ⟨-, -, rfl⟩ | rfl⟩ <;>
      exact Nat.le_refl _
  | subscribeToNewEventsOnly | subscribeToSeparatedOldAndNewEvents | subscribeToJoinedOldAndNewEvents =>
    cases hs
    simp [Sys.subscribe]
  | consume i =>
    obtain ⟨u, -, hs⟩ := Option.bind_eq_some_iff.mp hs
    split at hs <;> cases hs
    simp [Sys.setSubscriber]
  | runConsume i spurious =>
    obtain ⟨u, hu, hs⟩ := Option.bind_eq_some_iff.mp hs
    rw [runConsume_eq hu] at hs
    obtain ⟨r, -, rfl⟩ := Option.map_eq_some_iff.mp hs
    simp [Sys.setSubscriber]

theorem values_step {l : Label τ α} (hs : s.step N l = some s') : s.values <+: s'.values :=
  (step_log hs).map Entry.value

theorem Grown.of_steps {ok : Sys τ α → Label τ α → Sys τ α → Prop} (h : Machine.Steps (Sys.step N) ok (.new zero) s) :
    Grown N zero s :=
  h.invariant (I := Grown N zero) (fun _ _ _ hi hs _ => hi.step hs) (.new N zero)

end Step

end Mutiny.MMapMeta
