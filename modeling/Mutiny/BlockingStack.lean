import Mutiny.Lib.Machine
import Mutiny.Lib.Tally

/-!
# The blocking stack

`Stack` of `ogre_stacks/blocking_stack.rs`: every `lock` and `unlock` of a guard and every critical section is one step
of the thread that performs it. The guards are binary locks that nobody owns. `N` is `BUFFER_SIZE as u32`.

`new` locks `empty_guard` and `full_guard`, and nothing locks them again but a thread that waits, to unlock them at
once. So a guard is good for one time: `Balanced` counts its locks and unlocks, and what is owed to it.
-/

namespace Mutiny
namespace BlockingStack

inductive Guard
  | empty
  | full
  | concurrency
deriving DecidableEq

inductive Op (α : Type)
  | idle
  -- `push`, or `report_full` after the wait: about to `concurrency_guard.lock()`
  | pushLock (element : α)
  -- `push`: about to test `head`, and to store the element if there is room
  | pushBody (element : α)
  -- `report_no_longer_empty`
  | emptyOpen
  -- `push`: about to `concurrency_guard.unlock()`
  | pushUnlock
  -- `report_full`: about to `concurrency_guard.unlock()`
  | fullRelease (element : α)
  -- `report_full`: at `full_guard.lock()` or `try_lock_for`
  | fullLock (element : α)
  -- `report_full`: about to `full_guard.unlock()`
  | fullUnlock (element : α)
  -- `push` returned
  | pushed (ok : Bool)
  -- `pop`, or `report_empty` after the wait: about to `concurrency_guard.lock()`
  | popLock
  -- `pop`: about to test `head`, and to take the element if there is one
  | popBody
  -- `report_no_longer_full`
  | fullOpen (element : α)
  -- `pop`: about to `concurrency_guard.unlock()`
  | popUnlock (element : α)
  -- `report_empty`: about to `concurrency_guard.unlock()`
  | emptyRelease
  -- `report_empty`: at `empty_guard.lock()` or `try_lock_for`
  | emptyLock
  -- `report_empty`: about to `empty_guard.unlock()`
  | emptyUnlock
  -- `pop` returned
  | popped (element : Option α)

namespace Op
variable {α : Type}

def atRest : Op α → Bool
  | idle | pushed _ | popped _ => true
  | _ => false

/-- The unlocks of a guard that are still to come from the section the thread is in. -/
def owes : Guard → Op α → Nat
  | .empty, emptyOpen | .empty, emptyUnlock | .full, fullOpen _ | .full, fullUnlock _ => 1
  | .concurrency, pushBody _ | .concurrency, emptyOpen | .concurrency, pushUnlock | .concurrency, fullRelease _
  | .concurrency, popBody | .concurrency, fullOpen _ | .concurrency, popUnlock _ | .concurrency, emptyRelease => 1
  | _, _ => 0

theorem owes_of_atRest {o : Op α} (h : o.atRest = true) (g : Guard) : o.owes g = 0 := by
  cases o <;> first | (cases g <;> rfl) | cases h

end Op

end BlockingStack

open BlockingStack in
/-- `Stack`, and its threads. Nothing in the code reads `opened`, how often `push` or `pop` found it its turn to open a
guard, and `misused`, whether a guard was unlocked that was not locked. -/
structure BlockingStack (τ α : Type) where
  buffer : Nat → α
  head : Nat
  guards : Guard → Bool
  op : τ → Op α
  opened : Guard → Nat
  misused : Bool

namespace BlockingStack
variable {τ α : Type}
open Machine (Reached Occurs)
open Tally (total)

inductive Label (τ α : Type)
  | push (t : τ) (element : α)
  | pop (t : τ)
  -- the next step of thread `t`
  | run (t : τ)
  -- the `try_lock_for` of thread `t` returns `false`
  | timeOut (t : τ)

def new (zero : α) : BlockingStack τ α :=
  ⟨fun _ => zero, 0, fun g => g ≠ .concurrency, fun _ => .idle, fun _ => 0, false⟩

section Step
variable [DecidableEq τ]

def setOp (s : BlockingStack τ α) (t : τ) (o : Op α) : BlockingStack τ α := { s with op := Function.update s.op t o }

/-- A thread that is not inside a call starts one. -/
def call (s : BlockingStack τ α) (t : τ) (o : Op α) : Option (BlockingStack τ α) :=
  if (s.op t).atRest then some (s.setOp t o) else none

/-- `lock()`, which waits while the guard is locked. -/
def lock (s : BlockingStack τ α) (g : Guard) (t : τ) (o : Op α) : Option (BlockingStack τ α) :=
  if s.guards g then none else some ({ s with guards := Function.update s.guards g true }.setOp t o)

def unlock (s : BlockingStack τ α) (g : Guard) (t : τ) (o : Op α) : BlockingStack τ α :=
  { s with guards := Function.update s.guards g false, misused := s.misused || !s.guards g }.setOp t o

def opening (s : BlockingStack τ α) (g : Guard) : BlockingStack τ α :=
  { s with opened := Function.update s.opened g (s.opened g + 1) }

def pushBody (N : Nat) (s : BlockingStack τ α) (t : τ) (element : α) : BlockingStack τ α :=
  if s.head ≥ N then s.setOp t (.fullRelease element)
  else
    let s := { s with buffer := Function.update s.buffer s.head element, head := s.head + 1 }
    if s.head = 1 then (s.opening .empty).setOp t .emptyOpen else s.setOp t .pushUnlock

def popBody (N : Nat) (s : BlockingStack τ α) (t : τ) : BlockingStack τ α :=
  if s.head = 0 then s.setOp t .emptyRelease
  else
    let element := s.buffer (s.head - 1)
    let s := { s with head := s.head - 1 }
    if s.head = N - 1 then (s.opening .full).setOp t (.fullOpen element) else s.setOp t (.popUnlock element)

def run (N : Nat) (s : BlockingStack τ α) (t : τ) : Option (BlockingStack τ α) :=
  match s.op t with
  | .idle | .pushed _ | .popped _ => none
  | .pushLock element => s.lock .concurrency t (.pushBody element)
  | .pushBody element => some (s.pushBody N t element)
  | .emptyOpen => some (s.unlock .empty t .pushUnlock)
  | .pushUnlock => some (s.unlock .concurrency t (.pushed true))
  | .fullRelease element => some (s.unlock .concurrency t (.fullLock element))
  | .fullLock element => s.lock .full t (.fullUnlock element)
  | .fullUnlock element => some (s.unlock .full t (.pushLock element))
  | .popLock => s.lock .concurrency t .popBody
  | .popBody => some (s.popBody N t)
  | .fullOpen element => some (s.unlock .full t (.popUnlock element))
  | .popUnlock element => some (s.unlock .concurrency t (.popped (some element)))
  | .emptyRelease => some (s.unlock .concurrency t .emptyLock)
  | .emptyLock => s.lock .empty t .emptyUnlock
  | .emptyUnlock => some (s.unlock .empty t .popLock)

def step (N lockTimeoutMillis : Nat) (s : BlockingStack τ α) : Label τ α → Option (BlockingStack τ α)
  | .push t element => s.call t (.pushLock element)
  | .pop t => s.call t .popLock
  | .run t => s.run N t
  | .timeOut t =>
    if lockTimeoutMillis = 0 then none
    else
      match s.op t with
      | .fullLock _ => some (s.setOp t (.pushed false))
      | .emptyLock => some (s.setOp t (.popped none))
      | _ => none

end Step

def Quiet (s : BlockingStack τ α) : Prop := ∀ t, (s.op t).atRest = true

/-- The guards are unlocked only when locked, and keep `pop` from an empty stack and `push` from a full one. -/
structure Sound (N : Nat) (s : BlockingStack τ α) : Prop where
  unlocks : s.misused = false
  empty : s.Quiet → s.head = 0 → s.guards .empty = true
  full : s.Quiet → N ≤ s.head → s.guards .full = true

/-- The step of a thread at `o` takes neither the last element of the stack nor, once `full_guard` was opened, its last
free slot. -/
def OneTimeAt (N : Nat) (s : BlockingStack τ α) : Op α → Prop
  | .popBody => s.head ≠ 1
  | .pushBody _ => s.head + 1 = N → s.opened .full = 0
  | _ => True

def OneTime (N : Nat) (s : BlockingStack τ α) : Label τ α → Prop
  | .run t => s.OneTimeAt N (s.op t)
  | _ => True

/-! ### What a step does -/

/-- What became of the head: `pop` and `push` change it, and then may have to open a guard. -/
inductive HeadMoves (N : Nat) (s s' : BlockingStack τ α) (t : τ) : Prop
  | stays (head : s'.head = s.head) (opened : s'.opened = s.opened)
  | push {element : α} (op : s.op t = .pushBody element) (room : s.head < N) (head : s'.head = s.head + 1)
    (opened : ∀ g, s'.opened g = s.opened g + if g = .empty ∧ s.head = 0 then 1 else 0)
  | pop (op : s.op t = .popBody) (some : 0 < s.head) (head : s'.head + 1 = s.head)
    (opened : ∀ g, s'.opened g = s.opened g + if g = .full ∧ s.head = N then 1 else 0)

section Turn
variable [DecidableEq τ] {N lockTimeoutMillis : Nat} {s s' : BlockingStack τ α} {t : τ} {o : Op α}

/-- A step of thread `t`, to where it stands at `o`. -/
structure Turn (N : Nat) (s s' : BlockingStack τ α) (t : τ) (o : Op α) : Prop where
  op : s'.op = Function.update s.op t o
  head : HeadMoves N s s' t
  /-- What is locked and what was opened changes by what is owed. -/
  balance : s'.misused = false → ∀ g,
    (s'.guards g).toNat + s'.opened g + (s.op t).owes g = (s.guards g).toNat + s.opened g + o.owes g
  /-- Who unlocks a guard owed it that. -/
  misused : s'.misused = true → s.misused = true ∨ ∃ g, s.guards g = false ∧ 0 < (s.op t).owes g
  stays_misused : s.misused = true → s'.misused = true

theorem Turn.setOp (h : ∀ g, (s.op t).owes g = o.owes g) : Turn N s (s.setOp t o) t o :=
  ⟨rfl, .stays rfl rfl, fun _ g => by rw [h g]; rfl, .inl, id⟩

theorem Turn.lock {g : Guard} (hs : s.lock g t o = some s')
    (h : ∀ g', o.owes g' = (s.op t).owes g' + if g' = g then 1 else 0) : Turn N s s' t o := by
  unfold BlockingStack.lock at hs
  split_ifs at hs with hg
  · cases hs
    refine ⟨rfl, .stays rfl rfl, fun _ g' => ?_, .inl, id⟩
    rw [h g']
    show (Function.update s.guards g true g').toNat + s.opened g' + _ = _
    by_cases hgg : g' = g
    · subst hgg
      simp only [Bool.not_eq_true] at hg
      simp [hg]
      omega
    · simp [hgg]

theorem Turn.unlock {g : Guard} (h : ∀ g', (s.op t).owes g' = o.owes g' + if g' = g then 1 else 0) :
    Turn N s (s.unlock g t o) t o := by
  refine ⟨rfl, .stays rfl rfl, fun hm g' => ?_, fun hm => ?_, fun hm => ?_⟩
  · have hg : s.guards g = true := by
      have : (s.misused || !s.guards g) = false := hm
      simpa using (Bool.or_eq_false_iff.mp this).2
    rw [h g']
    show (Function.update s.guards g false g').toNat + s.opened g' + _ = _
    by_cases hgg : g' = g
    · subst hgg
      simp [hg]
      omega
    · simp [hgg]
  · rcases (Bool.or_eq_true _ _).mp hm with hm | hm
    · exact .inl hm
    · exact .inr ⟨g, by simpa using hm, by simp [h g]⟩
  · show (s.misused || !s.guards g) = true
    rw [hm, Bool.true_or]

omit [DecidableEq τ] in
theorem opening_opened (s : BlockingStack τ α) (g g' : Guard) :
    (s.opening g).opened g' = s.opened g' + if g' = g then 1 else 0 := by
  by_cases hg : g' = g
  · subst hg
    simp [opening]
  · simp [opening, hg]

theorem Turn.pushBody {element : α} (ho : s.op t = .pushBody element) : ∃ o, Turn N s (s.pushBody N t element) t o := by
  unfold BlockingStack.pushBody
  split_ifs with hlt
  · exact ⟨_, .setOp fun g => by rw [ho]; cases g <;> rfl⟩
  · dsimp only
    split_ifs with hone
    · have hz : s.head = 0 := by omega
      refine ⟨.emptyOpen, rfl, .push ho (by omega) rfl fun g => ?_, fun _ g => ?_, .inl, id⟩
      · simp only [hz, and_true]
        exact opening_opened ..
      · rw [ho]
        cases g <;> simp [opening, BlockingStack.setOp, Op.owes]
        omega
    · have hz : ¬ s.head = 0 := by omega
      refine ⟨.pushUnlock, rfl, .push ho (by omega) rfl fun g => ?_, fun _ g => ?_, .inl, id⟩
      · simp [hz, BlockingStack.setOp]
      · rw [ho]
        cases g <;> rfl

theorem Turn.popBody (hle : s.head ≤ N) (ho : s.op t = .popBody) : ∃ o, Turn N s (s.popBody N t) t o := by
  unfold BlockingStack.popBody
  split_ifs with hpos
  · exact ⟨_, .setOp fun g => by rw [ho]; cases g <;> rfl⟩
  · have hhead : s.head - 1 + 1 = s.head := by omega
    dsimp only
    split_ifs with hfull
    · have hN : s.head = N := by omega
      refine ⟨.fullOpen _, rfl, .pop ho (by omega) hhead fun g => ?_, fun _ g => ?_, .inl, id⟩
      · simp only [hN, and_true]
        exact opening_opened ..
      · rw [ho]
        cases g <;> simp [opening, BlockingStack.setOp, Op.owes]
        omega
    · have hN : ¬ s.head = N := by omega
      refine ⟨.popUnlock _, rfl, .pop ho (by omega) hhead fun g => ?_, fun _ g => ?_, .inl, id⟩
      · simp [hN, BlockingStack.setOp]
      · rw [ho]
        cases g <;> rfl

theorem Turn.of_run (hle : s.head ≤ N) (hs : s.run N t = some s') : ∃ o, Turn N s s' t o := by
  unfold BlockingStack.run at hs
  cases ho : s.op t with
  | idle | pushed | popped => simp [ho] at hs
  | pushBody element =>
    simp only [ho, Option.some.injEq] at hs
    exact hs ▸ Turn.pushBody ho
  | popBody =>
    simp only [ho, Option.some.injEq] at hs
    exact hs ▸ Turn.popBody hle ho
  | pushLock | fullLock | popLock | emptyLock =>
    simp only [ho] at hs
    exact ⟨_, .lock hs fun g => by rw [ho]; cases g <;> rfl⟩
  | emptyOpen | pushUnlock | fullRelease | fullUnlock | fullOpen | popUnlock | emptyRelease | emptyUnlock =>
    simp only [ho, Option.some.injEq] at hs
    cases hs
    exact ⟨_, .unlock fun g => by rw [ho]; cases g <;> rfl⟩

theorem Turn.of_call (hs : s.call t o = some s') (hzero : ∀ g, o.owes g = 0) : Turn N s s' t o := by
  simp only [BlockingStack.call, Option.ite_none_right_eq_some, Option.some.injEq] at hs
  obtain ⟨hrest, rfl⟩ := hs
  exact .setOp fun g => by rw [Op.owes_of_atRest hrest g, hzero g]

theorem Turn.of_step {l : Label τ α} (hle : s.head ≤ N) (hs : s.step N lockTimeoutMillis l = some s') :
    ∃ t o, Turn N s s' t o ∧ (l = .run t ∨ (s'.head = s.head ∧ s'.opened = s.opened)) := by
  cases l with
  | push t element =>
    have hturn : Turn N s s' t (.pushLock element) := .of_call hs fun g => by cases g <;> rfl
    simp only [BlockingStack.step, BlockingStack.call, Option.ite_none_right_eq_some, Option.some.injEq] at hs
    exact ⟨t, _, hturn, .inr (hs.2 ▸ ⟨rfl, rfl⟩)⟩
  | pop t =>
    have hturn : Turn N s s' t .popLock := .of_call hs fun g => by cases g <;> rfl
    simp only [BlockingStack.step, BlockingStack.call, Option.ite_none_right_eq_some, Option.some.injEq] at hs
    exact ⟨t, _, hturn, .inr (hs.2 ▸ ⟨rfl, rfl⟩)⟩
  | run t =>
    obtain ⟨o, hturn⟩ := Turn.of_run hle hs
    exact ⟨t, o, hturn, .inl rfl⟩
  | timeOut t =>
    cases ho : s.op t <;> simp [BlockingStack.step, ho] at hs
    case fullLock | emptyLock =>
      obtain ⟨-, rfl⟩ := hs
      exact ⟨t, _, .setOp fun g => by rw [ho]; cases g <;> rfl, .inr ⟨rfl, rfl⟩⟩

end Turn

/-! ### The count of locks and unlocks -/

def Guard.initial : Guard → Nat
  | .empty | .full => 1
  | .concurrency => 0

structure Balanced (N : Nat) (s : BlockingStack τ α) : Prop where
  few : {t | (s.op t).atRest = false}.Finite
  balance : s.misused = false → ∀ g, (s.guards g).toNat + s.opened g = g.initial + total (Op.owes g) s.op
  concurrency : s.opened .concurrency = 0
  /-- `empty_guard` was opened, or will be, when there are elements. -/
  nonempty : 0 < s.head → 0 < s.opened .empty
  head_le : s.head ≤ N

/-- What the guard makes a thread wait for is missing. -/
def Missing (N : Nat) (s : BlockingStack τ α) : Guard → Prop
  | .empty => s.head = 0
  | .full => s.head = N
  | .concurrency => False

/-- It is missing although the guard was to be opened before. -/
def Again (N : Nat) (s : BlockingStack τ α) (g : Guard) : Prop := (s.Missing N g ∧ 0 < s.opened g) ∨ 1 < s.opened g

section Balanced
variable {N lockTimeoutMillis : Nat} {s s' : BlockingStack τ α} {t : τ} {o : Op α}

theorem Balanced.small (h : Balanced N s) (g : Guard) : Tally.Small (Op.owes g) s.op := by
  refine h.few.subset fun t ht => ?_
  cases hr : (s.op t).atRest with
  | true => exact absurd (Op.owes_of_atRest hr g) ht
  | false => exact hr

theorem Balanced.new (zero : α) : Balanced N (.new zero : BlockingStack τ α) where
  few := by simp [BlockingStack.new, Op.atRest]
  balance _ g := by
    have hz : total (Op.owes g) (BlockingStack.new zero : BlockingStack τ α).op = 0 :=
      Tally.total_eq_zero fun t => by cases g <;> rfl
    rw [hz]
    cases g <;> rfl
  concurrency := rfl
  nonempty h := absurd h (Nat.lt_irrefl 0)
  head_le := Nat.zero_le N

theorem Balanced.quiet (h : Balanced N s) (hm : s.misused = false) (hq : s.Quiet) (g : Guard) :
    (s.guards g).toNat + s.opened g = g.initial := by
  rw [h.balance hm g, Tally.total_eq_zero fun t => Op.owes_of_atRest (hq t) g, Nat.add_zero]

section Step
variable [DecidableEq τ]

theorem Balanced.step (h : Balanced N s) (ht : Turn N s s' t o) : Balanced N s' := by
  have hop := ht.op
  refine ⟨?_, fun hm g => ?_, ?_, fun hpos => ?_, ?_⟩
  · refine (h.few.insert t).subset fun u hu => ?_
    by_cases hut : u = t
    · exact .inl hut
    · rw [Set.mem_ofPred_eq, hop, Function.update_of_ne hut] at hu
      exact .inr hu
  · have hbal := ht.balance hm g
    have hm' : s.misused = false := by
      cases hc : s.misused with
      | false => rfl
      | true => rw [ht.stays_misused hc] at hm; exact hm
    have hup := Tally.total_update (h.small g) t o
    have hold := h.balance hm' g
    rw [hop]
    omega
  · have hold := h.concurrency
    cases ht.head with
    | stays _ hopened => rw [hopened, hold]
    | push _ _ _ hopened => simp [hopened, hold]
    | pop _ _ _ hopened => simp [hopened, hold]
  · cases ht.head with
    | stays hhead hopened =>
      rw [hopened]
      exact h.nonempty (hhead ▸ hpos)
    | push _ _ _ hopened =>
      have hold := h.nonempty
      rw [hopened]
      by_cases hz : s.head = 0
      · simp [hz]
      · exact Nat.lt_of_lt_of_le (hold (by omega)) (Nat.le_add_right ..)
    | pop _ hsome _ hopened =>
      rw [hopened]
      exact Nat.lt_of_lt_of_le (h.nonempty hsome) (Nat.le_add_right ..)
  · have hle := h.head_le
    cases ht.head with
    | stays hhead _ => omega
    | push _ hroom hhead _ => omega
    | pop _ _ hhead _ => omega

/-- A guard that was opened no more often than it was locked is not misused. -/
theorem Balanced.unlocks (h : Balanced N s) (ht : Turn N s s' t o) (hm : s.misused = false)
    (hopened : ∀ g, s.opened g ≤ g.initial) : s'.misused = false := by
  by_contra hm'
  rw [Bool.not_eq_false] at hm'
  rcases ht.misused hm' with hc | ⟨g, hg, howes⟩
  · rw [hm] at hc
    cases hc
  · have hbal := h.balance hm g
    have hup := Tally.total_update (h.small g) t Op.idle
    rw [show Op.owes g (Op.idle : Op α) = 0 from Op.owes_of_atRest rfl g] at hup
    rw [hg, Bool.toNat_false] at hbal
    have := hopened g
    omega

theorem Turn.opened_le (ht : Turn N s s' t o) (g : Guard) : s.opened g ≤ s'.opened g := by
  cases ht.head with
  | stays _ hopened => exact Nat.le_of_eq (by rw [hopened])
  | push _ _ _ hopened => rw [hopened]; exact Nat.le_add_right ..
  | pop _ _ _ hopened => rw [hopened]; exact Nat.le_add_right ..

/-- What was missing is still missing, or the guard is opened once more. -/
theorem Turn.missing (ht : Turn N s s' t o) (g : Guard) (hg : s.Missing N g) :
    s'.Missing N g ∨ s'.opened g = s.opened g + 1 := by
  cases g with
  | concurrency => exact .inl hg
  | empty =>
    change s.head = 0 at hg
    cases ht.head with
    | stays hhead _ => exact .inl (hhead.trans hg)
    | push _ _ _ hopened => exact .inr (by simp [hopened, hg])
    | pop _ hsome _ _ => omega
  | full =>
    change s.head = N at hg
    cases ht.head with
    | stays hhead _ => exact .inl (hhead.trans hg)
    | push _ hroom _ _ => omega
    | pop _ _ _ hopened => exact .inr (by simp [hopened, hg])

theorem Again.step {g : Guard} (ha : Again N s g) (ht : Turn N s s' t o) : Again N s' g := by
  have hle := ht.opened_le g
  rcases ha with ⟨hg, hpos⟩ | hmore
  · rcases ht.missing g hg with hg' | hone
    · exact .inl ⟨hg', by omega⟩
    · exact .inr (by omega)
  · exact .inr (by omega)

/-- A step that neither takes the last element nor, once more, the last slot. -/
theorem Again.of_step {g : Guard} {l : Label τ α} (ht : Turn N s s' t o) (hle : s.head ≤ N)
    (hc : s'.opened .concurrency = 0)
    (hl : l = .run t ∨ (s'.head = s.head ∧ s'.opened = s.opened)) (hone : s.OneTime N l) (ha : Again N s' g) :
    Again N s g := by
  have hsame : s'.head = s.head → s'.opened = s.opened → Again N s g := by
    intro hhead hopened
    unfold Again at ha ⊢
    rw [hopened] at ha
    cases g <;> simpa only [Missing, hhead] using ha
  rcases hl with rfl | ⟨hhead, hopened⟩
  · cases ht.head with
    | stays hhead hopened => exact hsame hhead hopened
    | push hop hroom hhead hopened =>
      simp only [OneTime, OneTimeAt, hop] at hone
      cases g with
      | concurrency =>
        rcases ha with ⟨hg, -⟩ | hmore
        · exact absurd hg not_false
        · omega
      | empty =>
        simp only [Again, Missing, hopened, hhead, true_and] at ha ⊢
        split at ha <;> omega
      | full =>
        simp only [Again, Missing, hopened, hhead, reduceCtorEq, false_and, if_false, Nat.add_zero] at ha ⊢
        rcases ha with ⟨hN, hpos⟩ | hmore
        · have := hone hN
          omega
        · exact .inr hmore
    | pop hop hsome hhead hopened =>
      simp only [OneTime, OneTimeAt, hop] at hone
      cases g with
      | concurrency =>
        rcases ha with ⟨hg, -⟩ | hmore
        · exact absurd hg not_false
        · omega
      | empty =>
        simp only [Again, Missing, hopened, reduceCtorEq, false_and, if_false, Nat.add_zero] at ha ⊢
        omega
      | full =>
        simp only [Again, Missing, hopened, true_and] at ha ⊢
        split at ha <;> omega
  · exact hsame hhead hopened

theorem Balanced.again (h : Balanced N s) {l : Label τ α} (hs : s.step N lockTimeoutMillis l = some s')
    (hone : ¬ s.OneTime N l) : ∃ g, Again N s' g := by
  cases l with
  | push | pop | timeOut => exact absurd trivial hone
  | run t =>
    simp only [BlockingStack.step, BlockingStack.run] at hs
    cases ho : s.op t with
    | popBody =>
      simp only [OneTime, OneTimeAt, ho, not_not] at hone
      simp only [ho, Option.some.injEq] at hs
      obtain ⟨o, ht⟩ := Turn.popBody (N := N) h.head_le ho
      rw [hs] at ht
      have hhead : s'.head = 0 := by
        rw [← hs, BlockingStack.popBody, if_neg (by omega)]
        dsimp only
        split <;> simp [hone, BlockingStack.setOp, opening]
      exact ⟨.empty, .inl ⟨hhead, Nat.lt_of_lt_of_le (h.nonempty (by omega)) (ht.opened_le .empty)⟩⟩
    | pushBody element =>
      simp only [OneTime, OneTimeAt, ho, Classical.not_imp] at hone
      simp only [ho, Option.some.injEq] at hs
      obtain ⟨o, ht⟩ := Turn.pushBody (N := N) ho
      rw [hs] at ht
      have hhead : s'.head = N := by
        rw [← hs, BlockingStack.pushBody, if_neg (by omega)]
        dsimp only
        split <;> simpa [BlockingStack.setOp, opening] using hone.1
      exact ⟨.full, .inl ⟨hhead, Nat.lt_of_lt_of_le (Nat.pos_of_ne_zero hone.2) (ht.opened_le .full)⟩⟩
    | _ => simp [OneTime, OneTimeAt, ho] at hone

theorem Balanced.of_step {l : Label τ α} (h : Balanced N s) (hs : s.step N lockTimeoutMillis l = some s') :
    Balanced N s' := by
  obtain ⟨t, o, ht, -⟩ := Turn.of_step h.head_le hs
  exact h.step ht

/-- Nothing was misused, and the stack is not empty or full once more. -/
structure FirstTime (N : Nat) (s : BlockingStack τ α) : Prop where
  balanced : Balanced N s
  unlocks : s.misused = false
  once : ∀ g, ¬ Again N s g

omit [DecidableEq τ] in
theorem FirstTime.opened_le (h : FirstTime N s) (g : Guard) : s.opened g ≤ g.initial := by
  have hone := h.once g
  cases g with
  | concurrency => exact Nat.le_of_eq h.balanced.concurrency
  | empty | full => exact Nat.le_of_not_lt fun hmore => hone (.inr hmore)

theorem FirstTime.step {l : Label τ α} (h : FirstTime N s) (hs : s.step N lockTimeoutMillis l = some s')
    (hone : s.OneTime N l) : FirstTime N s' := by
  obtain ⟨t, o, ht, hl⟩ := Turn.of_step h.balanced.head_le hs
  have hb := h.balanced.step ht
  exact ⟨hb, h.balanced.unlocks ht h.unlocks h.opened_le, fun g ha =>
    h.once g (ha.of_step ht h.balanced.head_le hb.concurrency hl hone)⟩

omit [DecidableEq τ] in
theorem FirstTime.sound (h : FirstTime N s) : s.Sound N := by
  have hlocked : ∀ g, g.initial = 1 → s.Quiet → s.Missing N g → s.guards g = true := by
    intro g hg hq hmiss
    have hbal := h.balanced.quiet h.unlocks hq g
    have hzero : ¬ 0 < s.opened g := fun hpos => h.once g (.inl ⟨hmiss, hpos⟩)
    cases hguard : s.guards g with
    | true => rfl
    | false => rw [hguard, hg, Bool.toNat_false] at hbal; omega
  exact ⟨h.unlocks, hlocked .empty rfl, fun hq hfull =>
    hlocked .full rfl hq (Nat.le_antisymm h.balanced.head_le hfull)⟩

omit [DecidableEq τ] in
/-- With no operation in progress, an empty or full stack without its guard gives it away. -/
theorem Again.not_sound {g : Guard} (ha : Again N s g) (h : Balanced N s) (hq : s.Quiet) : ¬ s.Sound N := by
  intro hs
  have hbal := h.quiet hs.unlocks hq g
  cases g with
  | concurrency =>
    have hzero := h.concurrency
    rcases ha with ⟨hmiss, -⟩ | hmore
    · exact hmiss
    · omega
  | empty =>
    simp only [Guard.initial] at hbal
    rcases ha with ⟨hmiss, hpos⟩ | hmore
    · rw [hs.empty hq hmiss, Bool.toNat_true] at hbal
      omega
    · omega
  | full =>
    simp only [Guard.initial] at hbal
    rcases ha with ⟨hmiss, hpos⟩ | hmore
    · rw [hs.full hq (Nat.le_of_eq hmiss.symm), Bool.toNat_true] at hbal
      omega
    · omega

end Step

end Balanced

/-- The guards are sound in every run that neither takes the last element of the stack nor, after an element of the
full stack was taken, its last free slot; and in no other run that comes to rest. -/
theorem stack_guards_sound [DecidableEq τ] (N lockTimeoutMillis : Nat) (zero : α) (labels : List (Label τ α)) :
    ((∀ s l s', Occurs (step N lockTimeoutMillis) (new zero) labels s l s' → s.OneTime N l) →
      ∀ s, Reached (step N lockTimeoutMillis) (new zero) labels s → s.Sound N) ∧
    ∀ u, Machine.exec (step N lockTimeoutMillis) (new zero) labels = some u → u.Quiet →
      (∀ s, Reached (step N lockTimeoutMillis) (new zero) labels s → s.Sound N) →
      ∀ s l s', Occurs (step N lockTimeoutMillis) (new zero) labels s l s' → s.OneTime N l := by
  constructor
  · intro hone s hs
    refine (hs.invariant (I := FirstTime N) ?_ ⟨.new zero, rfl, ?_⟩).sound
    · intro u l u' _ hu ho
      have hl := hone u l u' ho
      obtain ⟨-, -, -, hstep⟩ := ho
      exact hu.step hstep hl
    · intro g
      simp [Again, new]
  · intro u hu hquiet hsound s l s' ho
    by_contra hone
    have hbal : Balanced N s := ho.before.invariant (fun v l v' _ hv ho' => by
      obtain ⟨-, -, -, hstep⟩ := ho'
      exact hv.of_step hstep) (.new zero)
    obtain ⟨l₂, hrest⟩ := ho.exists_exec hu
    obtain ⟨-, -, -, hstep⟩ := ho
    obtain ⟨g, ha⟩ := hbal.again hstep hone
    have hend : Balanced N u ∧ Again N u g := by
      refine (Machine.Path.of_exec hrest).steps.invariant (I := fun v => Balanced N v ∧ Again N v g) ?_
        ⟨hbal.of_step hstep, ha⟩
      rintro v b v' ⟨hv, hav⟩ hb -
      obtain ⟨t, o, ht, -⟩ := Turn.of_step hv.head_le hb
      exact ⟨hv.step ht, hav.step ht⟩
    exact hend.2.not_sound hend.1 hquiet (hsound u (.of_exec hu))

instance (N : Nat) (s : BlockingStack τ α) : (o : Op α) → Decidable (s.OneTimeAt N o)
  | .popBody => inferInstanceAs (Decidable (s.head ≠ 1))
  | .pushBody _ => inferInstanceAs (Decidable (s.head + 1 = N → s.opened .full = 0))
  | .idle | .pushLock _ | .emptyOpen | .pushUnlock | .fullRelease _ | .fullLock _ | .fullUnlock _ | .pushed _ | .popLock
  | .fullOpen _ | .popUnlock _ | .emptyRelease | .emptyLock | .emptyUnlock | .popped _ => inferInstanceAs (Decidable True)

instance (N : Nat) (s : BlockingStack τ α) : (l : Label τ α) → Decidable (s.OneTime N l)
  | .run t => inferInstanceAs (Decidable (s.OneTimeAt N (s.op t)))
  | .push _ _ | .pop _ | .timeOut _ => inferInstanceAs (Decidable True)

theorem stack_guards_sound_two : ∃ (labels : List (Label (Fin 1) Nat)) (s : BlockingStack (Fin 1) Nat),
    Reached (step 2 0) (new 0) labels s ∧ s.head = 1 ∧ s.guards .full = false ∧ s.Sound 2 := by
  -- two pushes fill the stack, and a pop makes room
  let labels : List (Label (Fin 1) Nat) :=
    .push 0 5 :: List.replicate 4 (.run 0) ++ .push 0 6 :: List.replicate 3 (.run 0) ++ .pop 0 :: List.replicate 4 (.run 0)
  have hrun : (Machine.exec (Machine.restrict (step 2 0) fun s l _ => decide (s.OneTime 2 l)) (new 0) labels).map
      (fun s => (s.head, s.guards .full)) = some (1, false) := by decide +kernel
  obtain ⟨s, hs, ht⟩ := Option.map_eq_some_iff.mp hrun
  simp only [Prod.mk.injEq] at ht
  have hexec := (Machine.Path.of_exec_restrict (fun _ _ _ _ => trivial) hs).exec_eq
  exact ⟨labels, s, .of_exec hexec, ht.1, ht.2, (stack_guards_sound 2 0 0 labels).1
    (fun _ _ _ ho => of_decide_eq_true (ho.of_exec_restrict hs)) s (.of_exec hexec)⟩

/-- The stack is empty after a push and a pop, and `empty_guard` open; and the next push unlocks it once more. -/
theorem stack_guard_reopened :
    (∃ (labels : List (Label (Fin 1) Nat)) (s : BlockingStack (Fin 1) Nat), Reached (step 2 0) (new 0) labels s ∧
      s.Quiet ∧ s.head = 0 ∧ s.guards .empty = false ∧ ¬ s.Sound 2) ∧
    ∃ (labels : List (Label (Fin 1) Nat)) (s : BlockingStack (Fin 1) Nat), Reached (step 2 0) (new 0) labels s ∧
      s.misused = true ∧ ¬ s.Sound 2 := by
  let labels : List (Label (Fin 1) Nat) := .push 0 5 :: List.replicate 4 (.run 0) ++ .pop 0 :: List.replicate 3 (.run 0)
  constructor
  · have hrun : (Machine.exec (step 2 0) (new 0) labels).map (fun s => ((s.op 0).atRest, s.head, s.guards .empty)) =
        some (true, 0, false) := by decide +kernel
    obtain ⟨s, hs, ht⟩ := Option.map_eq_some_iff.mp hrun
    simp only [Prod.mk.injEq] at ht
    obtain ⟨hrest, hhead, hguard⟩ := ht
    have hquiet : s.Quiet := fun t => by rwa [Subsingleton.elim t 0]
    refine ⟨labels, s, .of_exec hs, hquiet, hhead, hguard, fun hsound => ?_⟩
    rw [hsound.empty hquiet hhead] at hguard
    cases hguard
  · have hrun : (Machine.exec (step 2 0) (new 0) (labels ++ .push 0 6 :: List.replicate 3 (.run 0))).map
        (fun s => s.misused) = some true := by decide +kernel
    obtain ⟨s, hs, ht⟩ := Option.map_eq_some_iff.mp hrun
    refine ⟨_, s, .of_exec hs, ht, fun hsound => ?_⟩
    rw [hsound.unlocks] at ht
    cases ht

end BlockingStack
end Mutiny
