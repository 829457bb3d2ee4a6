import Mathlib.Data.List.Perm.Subperm
import Mathlib.Logic.Function.Basic
import Mutiny.Lib.Machine

/-!
# Compare-exchange loops

Threads update a shared word: they load it, compute the new word from what they loaded and exchange the two if the word
still is what they loaded; if not, they go on with what it is by then. `compute w o` is the new word operation `o`
computes from `w`, `none` if that panics.

The word is what the operations make of the first one, carried out one after the other in the order in which they took
effect (`Folds`); the operations called are those that took effect and those under way (`Accounts`).
-/

namespace CasLoop
open Machine

variable {τ ω ο : Type}

/-- Where a thread is: about to load the word, or to compute from `current` and to exchange. -/
inductive Call (ω ο : Type)
  | idle
  | loading (o : ο)
  | computing (o : ο) (current : ω)
  | panicked (o : ο)
deriving DecidableEq

def Call.op : Call ω ο → Option ο
  | .idle => none
  | .loading o | .computing o _ | .panicked o => some o

/-- `taken` are the operations that took effect, in that order. -/
structure State (τ ω ο : Type) where
  word : ω
  calls : τ → Call ω ο
  taken : List ο

inductive Act (τ ο : Type)
  | call (t : τ) (o : ο)
  -- the next load or compare-exchange of thread `t`
  | go (t : τ)
  -- thread `t` loads the word, outside of any call
  | probe (t : τ)

/-- How many steps a thread takes at most before its exchange, as long as the word stays what it is. -/
def Call.steps [DecidableEq ω] (word : ω) : Call ω ο → Nat
  | .idle => 3
  | .loading _ => 2
  | .computing _ current => if word = current then 0 else 1
  | .panicked _ => 0

theorem Call.steps_le [DecidableEq ω] (word : ω) (c : Call ω ο) : c.steps word ≤ 3 := by
  cases c with
  | computing o current =>
    rw [Call.steps]
    split_ifs <;> decide
  | _ => simp [Call.steps]

def start (w : ω) : State τ ω ο := ⟨w, fun _ => .idle, []⟩

/-- The word is what the operations made of `w`. -/
def Folds (compute : ω → ο → Option ω) (w : ω) (s : State τ ω ο) : Prop := s.taken.foldlM compute w = some s.word

/-- The operations that are called. -/
def ops (l : List (Act τ ο)) : List ο := l.filterMap fun
  | .call _ o => some o
  | _ => none

theorem ops_cons (a : Act τ ο) (l : List (Act τ ο)) : ops (a :: l) = ops [a] ++ ops l := by
  rw [ops, ← List.singleton_append, List.filterMap_append]
  rfl

/-- `called` have taken effect or are under way, those of the threads `busy`. -/
structure Accounts (called : List ο) (s : State τ ω ο) (busy : List τ) : Prop where
  nodup : busy.Nodup
  mem : ∀ t, t ∈ busy ↔ (s.calls t).op ≠ none
  perm : called.Perm (s.taken ++ busy.filterMap fun t => (s.calls t).op)

theorem Folds.start (compute : ω → ο → Option ω) (w : ω) : Folds compute w (start w : State τ ω ο) := rfl

namespace Accounts
variable {called : List ο} {s : State τ ω ο} {busy : List τ}

theorem start (w : ω) : Accounts [] (start w : State τ ω ο) [] := by
  refine ⟨List.nodup_nil, fun t => ?_, .refl _⟩
  simp [CasLoop.start, Call.op]

theorem taken_subperm (h : Accounts called s busy) : s.taken.Subperm called :=
  (List.sublist_append_left _ _).subperm.trans h.perm.symm.subperm

theorem perm_of_idle (h : Accounts called s busy) (hi : ∀ t, s.calls t = .idle) : called.Perm s.taken := by
  have hb : busy = [] := List.eq_nil_iff_forall_not_mem.mpr fun t ht => (h.mem t).mp ht (by rw [hi t]; rfl)
  have := h.perm
  rwa [hb, List.filterMap_nil, List.append_nil] at this

end Accounts

section Turn
variable [DecidableEq τ]

def State.setCall (s : State τ ω ο) (t : τ) (c : Call ω ο) : State τ ω ο :=
  { s with calls := Function.update s.calls t c }

/-- The compare-exchange of `o` to `new` by thread `t` succeeds. -/
def State.exchange (s : State τ ω ο) (t : τ) (o : ο) (new : ω) : State τ ω ο :=
  { s.setCall t .idle with word := new, taken := s.taken ++ [o] }

section Fields
variable (s : State τ ω ο) (t : τ) (c : Call ω ο) (o : ο) (new : ω)

@[simp] theorem setCall_calls_self : (s.setCall t c).calls t = c := Function.update_self ..

@[simp] theorem exchange_calls_self : (s.exchange t o new).calls t = .idle := Function.update_self ..

variable {t} in
theorem setCall_calls_of_ne {u : τ} (h : u ≠ t) : (s.setCall t c).calls u = s.calls u := Function.update_of_ne h ..

variable {t} in
theorem exchange_calls_of_ne {u : τ} (h : u ≠ t) : (s.exchange t o new).calls u = s.calls u :=
  Function.update_of_ne h ..

@[simp] theorem setCall_word : (s.setCall t c).word = s.word := rfl

@[simp] theorem exchange_word : (s.exchange t o new).word = new := rfl

@[simp] theorem exchange_taken : (s.exchange t o new).taken = s.taken ++ [o] := rfl

end Fields

def step [DecidableEq ω] (compute : ω → ο → Option ω) (s : State τ ω ο) :
    Act τ ο → Option (State τ ω ο)
  | .call t o => if s.calls t matches .idle then some (s.setCall t (.loading o)) else none
  | .go t =>
    match s.calls t with
    | .loading o => some (s.setCall t (.computing o s.word))
    | .computing o current =>
      match compute current o with
      | some new => if s.word = current then some (s.exchange t o new) else some (s.setCall t (.computing o s.word))
      | none => some (s.setCall t (.panicked o))
    | .idle | .panicked _ => none
  | .probe t => if s.calls t matches .idle then some s else none

/-- Everything a step can do. -/
inductive Turn (compute : ω → ο → Option ω) (s : State τ ω ο) : Act τ ο → State τ ω ο → Prop
  | call {t : τ} {o : ο} (hc : s.calls t = .idle) : Turn compute s (.call t o) (s.setCall t (.loading o))
  | load {t : τ} {o : ο} (hc : s.calls t = .loading o) : Turn compute s (.go t) (s.setCall t (.computing o s.word))
  | exchange {t : τ} {o : ο} {new : ω} (hc : s.calls t = .computing o s.word) (hn : compute s.word o = some new) :
    Turn compute s (.go t) (s.exchange t o new)
  | reload {t : τ} {o : ο} {current : ω} (hc : s.calls t = .computing o current) (hne : s.word ≠ current) :
    Turn compute s (.go t) (s.setCall t (.computing o s.word))
  | panic {t : τ} {o : ο} {current : ω} (hc : s.calls t = .computing o current) (hn : compute current o = none) :
    Turn compute s (.go t) (s.setCall t (.panicked o))
  | probe {t : τ} (hc : s.calls t = .idle) : Turn compute s (.probe t) s

variable {compute : ω → ο → Option ω} {s s' : State τ ω ο} {a : Act τ ο} {t : τ}

theorem Folds.exchange {w new : ω} {o : ο} (hf : Folds compute w s) (hn : compute s.word o = some new) :
    Folds compute w (s.exchange t o new) := by
  show (s.taken ++ [o]).foldlM compute w = some new
  rw [List.foldlM_append, show s.taken.foldlM compute w = some s.word from hf]
  show (compute s.word o).bind some = some new
  rw [hn]
  rfl

theorem Folds.turn {w : ω} (hf : Folds compute w s) (h : Turn compute s a s') : Folds compute w s' := by
  cases h with
  | call | load | reload | panic | probe => exact hf
  | exchange hc hn => exact hf.exchange hn

theorem not_panicked_turn (hp : ∀ w o, compute w o ≠ none) (h : Turn compute s a s')
    (hs : ∀ t o, s.calls t ≠ .panicked o) (t : τ) (o : ο) : s'.calls t ≠ .panicked o := by
  have hset : ∀ (u : τ) (c : Call ω ο), c ≠ .panicked o → Function.update s.calls u c t ≠ .panicked o := by
    intro u c hc
    by_cases hu : t = u
    · rwa [hu, Function.update_self]
    · rw [Function.update_of_ne hu]
      exact hs t o
  cases h with
  | call | load | reload | exchange => exact hset _ _ (by simp)
  | panic hc hn => exact absurd hn (hp _ _)
  | probe => exact hs t o

/-- A thread that does not panic comes closer to its exchange or makes it. -/
theorem Turn.closer [DecidableEq ω] {o : ο} (h : Turn compute s a s')
    (ha : a = .call t o ∨ a = .go t ∧ (s.calls t).op = some o) (hp : ∀ w, compute w o ≠ none) :
    (∃ c, s' = s.setCall t c ∧ (c = .loading o ∨ c = .computing o s.word) ∧ c.steps s.word < (s.calls t).steps s.word) ∨
    ∃ new, compute s.word o = some new ∧ s.calls t = .computing o s.word ∧ s' = s.exchange t o new := by
  rcases ha with rfl | ⟨rfl, ho⟩
  · cases h with
    | call hc => exact .inl ⟨_, rfl, .inl rfl, by simp [hc, Call.steps]⟩
  · cases h with
    | load hc =>
      rw [hc] at ho ⊢
      cases ho
      exact .inl ⟨_, rfl, .inr rfl, by simp [Call.steps]⟩
    | exchange hc hn =>
      have ho' := ho
      rw [hc] at ho'
      cases ho'
      exact .inr ⟨_, hn, hc, rfl⟩
    | reload hc hne =>
      rw [hc] at ho ⊢
      cases ho
      exact .inl ⟨_, rfl, .inr rfl, by simp [Call.steps, hne]⟩
    | panic hc hn =>
      rw [hc] at ho
      cases ho
      exact absurd hn (hp _)

namespace Accounts
variable {called : List ο} {busy : List τ}

theorem filterMap_update (f : τ → Call ω ο) {t : τ} (c : Call ω ο) (ht : t ∉ busy) :
    (busy.filterMap fun u => (Function.update f t c u).op) = busy.filterMap fun u => (f u).op := by
  refine List.filterMap_congr fun u hu => ?_
  rw [Function.update_of_ne fun hut => ht (by rwa [← hut])]

theorem stay (h : Accounts called s busy) {c : Call ω ο} (hc : c.op = (s.calls t).op) :
    Accounts called (s.setCall t c) busy := by
  have hop : ∀ u, (Function.update s.calls t c u).op = (s.calls u).op := by
    intro u
    by_cases hu : u = t
    · rw [hu, Function.update_self, hc]
    · rw [Function.update_of_ne hu]
  refine ⟨h.nodup, fun u => ?_, ?_⟩
  · exact (h.mem u).trans (by rw [← hop]; rfl)
  · show called.Perm (s.taken ++ busy.filterMap fun u => (Function.update s.calls t c u).op)
    simp only [hop]
    exact h.perm

theorem call (h : Accounts called s busy) {o : ο} (hc : s.calls t = .idle) :
    Accounts (called ++ [o]) (s.setCall t (.loading o)) (t :: busy) := by
  have ht : t ∉ busy := fun ht => (h.mem t).mp ht (by rw [hc]; rfl)
  refine ⟨List.nodup_cons.mpr ⟨ht, h.nodup⟩, fun u => ?_, ?_⟩
  · show u ∈ t :: busy ↔ (Function.update s.calls t (.loading o) u).op ≠ none
    by_cases hu : u = t
    · simp [hu, Call.op]
    · rw [Function.update_of_ne hu, List.mem_cons, or_iff_right hu]
      exact h.mem u
  · show (called ++ [o]).Perm (s.taken ++ (t :: busy).filterMap fun u => (Function.update s.calls t (.loading o) u).op)
    have hops : ((t :: busy).filterMap fun u => (Function.update s.calls t (Call.loading o : Call ω ο) u).op) =
        o :: busy.filterMap fun u => (s.calls u).op := by
      rw [List.filterMap_cons_some (b := o) (by rw [Function.update_self]; rfl), filterMap_update s.calls _ ht]
    rw [hops]
    exact (List.perm_append_singleton o called).trans ((h.perm.cons o).trans List.perm_middle.symm)

theorem exchange (h : Accounts called s busy) {o : ο} {w new : ω} (hc : s.calls t = .computing o w) :
    Accounts called (s.exchange t o new) (busy.erase t) := by
  have ht : t ∈ busy := (h.mem t).mpr (by simp [hc, Call.op])
  have hte : t ∉ busy.erase t := fun hm => (h.nodup.mem_erase_iff.mp hm).1 rfl
  refine ⟨h.nodup.erase t, fun u => ?_, ?_⟩
  · show u ∈ busy.erase t ↔ (Function.update s.calls t .idle u).op ≠ none
    by_cases hu : u = t
    · subst hu
      simp [hte, Call.op]
    · rw [Function.update_of_ne hu, List.mem_erase_of_ne hu]
      exact h.mem u
  · show called.Perm ((s.taken ++ [o]) ++ (busy.erase t).filterMap fun u => (Function.update s.calls t .idle u).op)
    rw [filterMap_update s.calls _ hte, List.append_assoc, List.singleton_append]
    have hbusy := (List.perm_cons_erase ht).filterMap fun u => (s.calls u).op
    rw [List.filterMap_cons_some (b := o) (by rw [hc]; rfl)] at hbusy
    exact h.perm.trans (hbusy.append_left s.taken)

theorem turn (h : Accounts called s busy) (ht : Turn compute s a s') :
    ∃ busy', Accounts (called ++ ops [a]) s' busy' := by
  have hnil : ops [a] = [] → called ++ ops [a] = called := fun h => by rw [h, List.append_nil]
  cases ht with
  | call hc => exact ⟨_, h.call hc⟩
  | exchange hc => exact ⟨_, (hnil rfl).symm ▸ h.exchange hc⟩
  | load hc | reload hc | panic hc => exact ⟨_, (hnil rfl).symm ▸ h.stay (by rw [hc]; rfl)⟩
  | probe => exact ⟨_, (hnil rfl).symm ▸ h⟩

end Accounts

end Turn

section Step
variable [DecidableEq τ] [DecidableEq ω]

variable {compute : ω → ο → Option ω} {s s' : State τ ω ο} {a : Act τ ο} {t : τ}

theorem turn_of_step (h : step compute s a = some s') : Turn compute s a s' := by
  cases a with
  | call t o =>
    cases hc : s.calls t <;> simp [step, hc] at h
    subst h
    exact .call hc
  | go t =>
    cases hc : s.calls t with
    | idle | panicked o => simp [step, hc] at h
    | loading o =>
      simp only [step, hc, Option.some.injEq] at h
      subst h
      exact .load hc
    | computing o current =>
      simp only [step, hc] at h
      cases hn : compute current o with
      | some new =>
        simp only [hn] at h
        split_ifs at h with hw
        · cases h
          subst hw
          exact .exchange hc hn
        · cases h
          exact .reload hc hw
      | none =>
        simp only [hn] at h
        cases h
        exact .panic hc hn
  | probe t =>
    cases hc : s.calls t <;> simp [step, hc] at h
    subst h
    exact .probe hc

theorem isSome_call {o : ο} (hc : s.calls t = .idle) : (step compute s (.call t o)).isSome := by
  simp [step, hc]

theorem isSome_go {o : ο} (hc : s.calls t = .loading o ∨ ∃ current, s.calls t = .computing o current) :
    (step compute s (.go t)).isSome := by
  rcases hc with hc | ⟨current, hc⟩
  · simp [step, hc]
  · simp only [step, hc]
    split
    · split_ifs <;> rfl
    · rfl

theorem Folds.exec {w : ω} {l : List (Act τ ο)} (h : exec (step compute) s l = some s') (hf : Folds compute w s) :
    Folds compute w s' :=
  (Path.of_exec h).steps.invariant (fun _ _ _ hf hb _ => hf.turn (turn_of_step hb)) hf

theorem not_panicked_of_exec (hp : ∀ w o, compute w o ≠ none) {w : ω} {l : List (Act τ ο)}
    (h : exec (step compute) (start w) l = some s) (t : τ) (o : ο) : s.calls t ≠ .panicked o :=
  (Path.of_exec h).steps.invariant (I := fun s => ∀ t o, s.calls t ≠ .panicked o)
    (fun _ _ _ hs hb _ => not_panicked_turn hp (turn_of_step hb) hs) (fun _ _ => by simp [start]) t o

theorem Accounts.exec {l : List (Act τ ο)} {called : List ο} {busy : List τ} (h : Accounts called s busy)
    (hl : Machine.exec (step compute) s l = some s') : ∃ busy', Accounts (called ++ ops l) s' busy' := by
  induction l generalizing s called busy with
  | nil =>
    cases hl
    exact ⟨busy, by rwa [show ops ([] : List (Act τ ο)) = [] from rfl, List.append_nil]⟩
  | cons a l ih =>
    rw [exec_cons, Option.bind_eq_some_iff] at hl
    obtain ⟨s₁, ha, hl⟩ := hl
    obtain ⟨busy₁, h₁⟩ := h.turn (turn_of_step ha)
    obtain ⟨busy', h'⟩ := ih h₁ hl
    refine ⟨busy', ?_⟩
    rwa [ops_cons, ← List.append_assoc]

end Step

end CasLoop
