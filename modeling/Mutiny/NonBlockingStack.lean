import Mathlib.Data.List.Range
import Mathlib.Data.Nat.ModEq
import Mutiny.Lib.Linear
import Mutiny.Lib.Lock
import Mutiny.Lib.Tally

/-!
# The non-blocking stacks

`Stack` of `ogre_stacks/non_blocking_atomic_stack.rs` and of `ogre_stacks/non_blocking_parking_lot_stack.rs`, one memory
operation at a time. They differ in the lock, in when `pop` reads the element and in how the metrics are counted: by
`fetch_add` after the unlock, or by a plain `+= 1` before it. `len`, `is_empty` and the messages of `DEBUG` do not take the
lock. A panic inside the critical section keeps it for good.

`BUFFER_SIZE` may be any number: no more than `BUFFER_SIZE as u32` elements fit.
-/

namespace Mutiny

inductive StackOp (α : Type)
  | push (element : α)
  | pop
  | len
  | isEmpty

inductive StackResult (α : Type)
  | pushed (ok : Bool)
  | popped (element : Option α)
  | len (n : Nat)
  | isEmpty (b : Bool)
deriving DecidableEq

/-- A stack of at most `n` elements, of which the last one comes first. -/
def lifo {α : Type} (n : Nat) (q : List α) : StackOp α → List α × StackResult α
  | .push element => if q.length < n then (element :: q, .pushed true) else (q, .pushed false)
  | .pop => (q.tail, .popped q.head?)
  | .len => (q, .len q.length)
  | .isEmpty => (q, .isEmpty q.isEmpty)

/-- `BUFFER_SIZE as u32` -/
def stackCapacity (B : Nat) : Nat := (UInt32.ofNat B).toNat

namespace NonBlockingStack
open Linear (Object Status)

/-- Which of the two. -/
inductive Impl
  | atomic
  | parkingLot
deriving DecidableEq

/-- The const parameters, and whether the build checks for overflows. -/
structure Params where
  B : Nat
  METRICS : Bool
  DEBUG : Bool
  checks : Bool

inductive Panic
  -- at an access to `buffer` or `head`
  | access
  -- at the `+= 1` of a counter
  | count
  -- at the `self.head-1` of the message of `push`
  | message
deriving DecidableEq

inductive Op (α : Type)
  | idle
  | returned (r : StackResult α)
  -- at `flag.swap(true)`, resp. `concurrency_guard.lock()`
  | pushLock (element : α)
  -- atomic: about to count the collision
  | pushCollision (element : α)
  -- about to test `head >= BUFFER_SIZE as u32`
  | pushCheck (element : α)
  -- about to fill `buffer[head]`
  | pushWrite (element : α)
  -- about to `head += 1`
  | pushAdvance
  | popLock
  | popCollision
  -- about to test `head == 0`
  | popCheck
  -- atomic: about to `head -= 1`
  | popRetreat
  -- atomic: about to read `buffer[head]`
  | popRead
  -- parking lot: about to read `buffer[head-1]`
  | popReadTop
  -- parking lot: about to `head -= 1`
  | popRetreatWith (element : α)
  -- atomic: about to `fetch_add` the counter of the result; parking lot: about to read it
  | count (r : StackResult α)
  -- parking lot: about to write the counter, which it found at `n`
  | countWrite (r : StackResult α) (n : UInt64)
  -- about to unlock
  | unlock (r : StackResult α)
  -- about to load `head` for the message
  | message (r : StackResult α)
  -- about to load `head`
  | len
  | isEmpty
  | panicked (p : Panic)

namespace Op
variable {α : Type}

def atRest : Op α → Bool
  | idle | returned _ => true
  | _ => false

def start : StackOp α → Op α
  | .push element => pushLock element
  | .pop => popLock
  | .len => len
  | .isEmpty => isEmpty

def result : Op α → Option (StackResult α)
  | returned r => some r
  | _ => none

def panic : Op α → Option Panic
  | panicked p => some p
  | _ => none

def inside (m : Impl) : Op α → Bool
  | pushCheck _ | pushWrite _ | pushAdvance | popCheck | popRetreat | popRead | popReadTop | popRetreatWith _
  | countWrite .. | unlock _ | panicked .access | panicked .count => true
  | count _ => m = Impl.parkingLot
  | _ => false

/-- What follows the access to the stack: the parking lot counts before it unlocks. -/
def afterAccess (p : Params) (r : StackResult α) : Impl → Op α
  | .parkingLot => if p.METRICS then .count r else .unlock r
  | .atomic => .unlock r

/-- `if DEBUG { eprintln!(..) }`, where an element was pushed or popped. -/
def debug (p : Params) (r : StackResult α) : Op α :=
  match r with
  | .pushed true | .popped (some _) => if p.DEBUG then .message r else .returned r
  | _ => .returned r

def afterUnlock (p : Params) (r : StackResult α) : Impl → Op α
  | .parkingLot => debug p r
  | .atomic => if p.METRICS then .count r else debug p r

end Op

inductive Counter
  | pushCount
  | popCount
  | pushCollisions
  | popCollisions
  | pushFullCount
  | popEmptyCount
deriving DecidableEq

def Counter.of {α : Type} : StackResult α → Option Counter
  | .pushed true => some pushCount
  | .pushed false => some pushFullCount
  | .popped (some _) => some popCount
  | .popped none => some popEmptyCount
  | .len _ | .isEmpty _ => none

abbrev Metrics := Counter → UInt64

namespace Metrics
variable {α : Type}

def read (metrics : Metrics) (r : StackResult α) : UInt64 := (Counter.of r).elim 0 metrics

def write (metrics : Metrics) (r : StackResult α) (n : UInt64) : Metrics :=
  (Counter.of r).elim metrics fun c => Function.update metrics c n

def fetchAdd (metrics : Metrics) (c : Counter) : Metrics := Function.update metrics c (metrics c + 1)

end Metrics

structure Sys (τ α : Type) where
  head : UInt32
  buffer : Nat → α
  -- `flag`, resp. `concurrency_guard`
  locked : Bool
  metrics : Metrics
  op : τ → Op α

inductive Label (τ α : Type)
  | call (t : τ) (o : StackOp α)
  -- the next step of thread `t`
  | run (t : τ)

variable {α τ : Type}

/-- The elements below `head`, the last one first. -/
def below (head : UInt32) (buffer : Nat → α) : List α := (List.range head.toNat).reverse.map buffer

namespace Sys

def new (zeroed : α) : Sys τ α := ⟨0, fun _ => zeroed, false, fun _ => 0, fun _ => .idle⟩

section Step
variable [DecidableEq τ]

def setOp (s : Sys τ α) (t : τ) (o : Op α) : Sys τ α := { s with op := Function.update s.op t o }

/-- A thread that is not inside a call starts one. -/
def call (s : Sys τ α) (t : τ) (o : StackOp α) : Option (Sys τ α) :=
  if (s.op t).atRest then some (s.setOp t (.start o)) else none

/-- The lock is taken, or the thread waits for it: with `concurrency_guard` it sleeps, with `flag` it tries again. -/
def lock (m : Impl) (p : Params) (s : Sys τ α) (t : τ) (o collision : Op α) : Option (Sys τ α) :=
  match m, s.locked with
  | _, false => some ({ s with locked := true }.setOp t o)
  | .atomic, true => some (if p.METRICS then s.setOp t collision else s)
  | .parkingLot, true => none

/-- `flag.store(false)`, resp. `concurrency_guard.unlock()` -/
def unlock (m : Impl) (p : Params) (s : Sys τ α) (t : τ) (r : StackResult α) : Sys τ α :=
  { s with locked := false }.setOp t (.afterUnlock p r m)

def count (m : Impl) (p : Params) (s : Sys τ α) (t : τ) (r : StackResult α) : Sys τ α :=
  match m with
  | .atomic => { s with metrics := s.metrics.write r (s.metrics.read r + 1) }.setOp t (.debug p r)
  | .parkingLot => s.setOp t (.countWrite r (s.metrics.read r))

/-- The second half of the `+= 1` of a counter found at `n`. -/
def countWrite (p : Params) (s : Sys τ α) (t : τ) (r : StackResult α) (n : UInt64) : Sys τ α :=
  if p.checks = true ∧ n.toNat + 1 = 2 ^ 64 then s.setOp t (.panicked .count)
  else { s with metrics := s.metrics.write r (n + 1) }.setOp t (.unlock r)

/-- The message of `push` has `self.head-1`, that of `pop` `self.head`. -/
def message (p : Params) (s : Sys τ α) (t : τ) (r : StackResult α) : Sys τ α :=
  match r with
  | .pushed true => if p.checks = true ∧ s.head = 0 then s.setOp t (.panicked .message) else s.setOp t (.returned r)
  | _ => s.setOp t (.returned r)

def run (m : Impl) (p : Params) (s : Sys τ α) (t : τ) : Option (Sys τ α) :=
  match s.op t with
  | .idle | .returned _ | .panicked _ => none
  | .pushLock element => s.lock m p t (.pushCheck element) (.pushCollision element)
  | .pushCollision element =>
    some ({ s with metrics := s.metrics.fetchAdd .pushCollisions }.setOp t (.pushLock element))
  | .pushCheck element =>
    if s.head ≥ UInt32.ofNat p.B then some (s.setOp t (.afterAccess p (.pushed false) m))
    else some (s.setOp t (.pushWrite element))
  | .pushWrite element =>
    if s.head.toNat < p.B then
      some ({ s with buffer := Function.update s.buffer s.head.toNat element }.setOp t .pushAdvance)
    else some (s.setOp t (.panicked .access))
  | .pushAdvance =>
    if p.checks = true ∧ s.head.toNat + 1 = 2 ^ 32 then some (s.setOp t (.panicked .access))
    else some ({ s with head := s.head + 1 }.setOp t (.afterAccess p (.pushed true) m))
  | .popLock => s.lock m p t .popCheck .popCollision
  | .popCollision => some ({ s with metrics := s.metrics.fetchAdd .popCollisions }.setOp t .popLock)
  | .popCheck =>
    if s.head = 0 then some (s.setOp t (.afterAccess p (.popped none) m))
    else
      match m with
      | .atomic => some (s.setOp t .popRetreat)
      | .parkingLot => some (s.setOp t .popReadTop)
  | .popRetreat =>
    if p.checks = true ∧ s.head.toNat = 0 then some (s.setOp t (.panicked .access))
    else some ({ s with head := s.head - 1 }.setOp t .popRead)
  | .popRead =>
    if s.head.toNat < p.B then some (s.setOp t (.afterAccess p (.popped (some (s.buffer s.head.toNat))) m))
    else some (s.setOp t (.panicked .access))
  | .popReadTop =>
    if 0 < s.head.toNat ∧ s.head.toNat - 1 < p.B then
      some (s.setOp t (.popRetreatWith (s.buffer (s.head.toNat - 1))))
    else some (s.setOp t (.panicked .access))
  | .popRetreatWith element =>
    if p.checks = true ∧ s.head.toNat = 0 then some (s.setOp t (.panicked .access))
    else some ({ s with head := s.head - 1 }.setOp t (.afterAccess p (.popped (some element)) m))
  | .count r => some (s.count m p t r)
  | .countWrite r n => some (s.countWrite p t r n)
  | .unlock r => some (s.unlock m p t r)
  | .message r => some (s.message p t r)
  | .len => some (s.setOp t (.returned (.len s.head.toNat)))
  | .isEmpty => some (s.setOp t (.returned (.isEmpty (s.head = 0))))

def step (m : Impl) (p : Params) (s : Sys τ α) : Label τ α → Option (Sys τ α)
  | .call t o => s.call t o
  | .run t => s.run m p t

end Step

def events (_ : Sys τ α) (l : Label τ α) (s' : Sys τ α) : List (τ × Linear.Event (StackOp α) (StackResult α)) :=
  match l with
  | .call t o => [(t, .call o)]
  | .run t => (s'.op t).result.toList.map fun r => (t, .ret r)

def elements (s : Sys τ α) : List α := below s.head s.buffer

end Sys

/-! ### Both are linearizable -/

namespace Op
variable {m : Impl} {p : Params} {r : StackResult α}

/-- The thread at `o` stands at `st`, with what it has done to the stack. -/
def Stands (m : Impl) (p : Params) (head : UInt32) (buffer : Nat → α) (metrics : Metrics)
    (st : Status (StackOp α) (StackResult α)) : Op α → Prop
  | .idle | .returned _ => st = .idle
  | .pushLock element | .pushCheck element => st = .called (.push element)
  | .pushCollision element => st = .called (.push element) ∧ m = .atomic
  | .pushWrite element => st = .called (.push element) ∧ head.toNat < stackCapacity p.B
  | .pushAdvance => st = .called (.push (buffer head.toNat)) ∧ head.toNat < stackCapacity p.B
  | .popLock | .popCheck => st = .called .pop
  | .popCollision => st = .called .pop ∧ m = .atomic
  | .popRetreat | .popReadTop => st = .called .pop ∧ 0 < head.toNat
  | .popRead => st = .done (.popped (some (buffer head.toNat))) ∧ head.toNat < stackCapacity p.B
  | .popRetreatWith element => st = .called .pop ∧ 0 < head.toNat ∧ element = buffer (head.toNat - 1)
  | .count r => st = .done r ∧ p.METRICS = true
  | .countWrite r n => st = .done r ∧ p.METRICS = true ∧ m = .parkingLot ∧ n = metrics.read r
  | .unlock r => st = .done r
  | .message r => st = .done r ∧ p.DEBUG = true
  | .len => st = .called .len
  | .isEmpty => st = .called .isEmpty
  | .panicked .access => False
  | .panicked .count => p.METRICS = true ∧ p.checks = true ∧ m = .parkingLot ∧
    ∃ r : StackResult α, st = .done r ∧ (metrics.read r).toNat + 1 = 2 ^ 64
  | .panicked .message => p.DEBUG = true ∧ p.checks = true ∧ ∃ r : StackResult α, st = .done r

section Frames
variable {head head' : UInt32} {buffer buffer' : Nat → α} {metrics metrics' : Metrics}
  {st : Status (StackOp α) (StackResult α)} {o : Op α}

/-- Outside of the critical section, nothing of the stack matters. -/
theorem Stands.outside (h : o.Stands m p head buffer metrics st) (ho : o.inside m = false) :
    o.Stands m p head' buffer' metrics' st := by
  cases o with
  | panicked q => cases q <;> first | exact h | cases ho
  | _ => first | exact h | cases ho

/-- The counters of the atomic stack are read and written at once. -/
theorem Stands.counting (h : o.Stands m p head buffer metrics st) (hm : m = .atomic) :
    o.Stands m p head buffer metrics' st := by
  subst hm
  cases o with
  | countWrite r n => cases h.2.2.1
  | panicked q =>
    cases q with
    | count => cases h.2.2.1
    | _ => exact h
  | _ => exact h

theorem stands_of_atRest (h : o.atRest = true) : o.Stands m p head buffer metrics st ↔ st = .idle := by
  cases o <;> first | exact .rfl | cases h

theorem inside_of_atRest (h : o.atRest = true) : o.inside m = false := by
  cases o <;> first | rfl | cases h

theorem inside_start (o : StackOp α) : (start o).inside m = false := by cases o <;> rfl

theorem stands_start (o : StackOp α) : (start o).Stands m p head buffer metrics (.called o) := by cases o <;> rfl

@[simp] theorem inside_afterAccess : (afterAccess p r m).inside m = true := by
  unfold afterAccess
  cases m <;> cases p.METRICS <;> rfl

@[simp] theorem result_afterAccess : (afterAccess p r m).result = none := by
  unfold afterAccess
  cases m <;> cases p.METRICS <;> rfl

theorem stands_afterAccess : (afterAccess p r m).Stands m p head buffer metrics (.done r) := by
  cases m with
  | atomic => rfl
  | parkingLot =>
    by_cases hM : p.METRICS = true
    · rw [afterAccess, if_pos hM]
      exact ⟨rfl, hM⟩
    · rw [afterAccess, if_neg hM]
      rfl

end Frames

theorem debug_cases (p : Params) (r : StackResult α) :
    (debug p r = .message r ∧ p.DEBUG = true) ∨ debug p r = .returned r := by
  unfold debug
  split
  · split
    · exact .inl ⟨rfl, ‹_›⟩
    · exact .inr rfl
  · split
    · exact .inl ⟨rfl, ‹_›⟩
    · exact .inr rfl
  · exact .inr rfl

theorem inside_debug : (debug p r).inside m = false := by
  rcases debug_cases p r with ⟨h, -⟩ | h <;> rw [h] <;> rfl

end Op

variable {m : Impl} {p : Params} {s s' : Sys τ α} {t : τ} {a : Object τ (List α) (StackOp α) (StackResult α)}

theorem toNat_add_one {head : UInt32} (h : head.toNat + 1 < 2 ^ 32) : (head + 1).toNat = head.toNat + 1 := by
  rw [UInt32.toNat_add, UInt32.toNat_one, Nat.mod_eq_of_lt h]

theorem toNat_sub_one {head : UInt32} (h : 0 < head.toNat) : (head - 1).toNat = head.toNat - 1 := by
  have := head.toNat_lt
  rw [UInt32.toNat_sub, UInt32.toNat_one]
  omega

theorem below_advance {head : UInt32} (h : head.toNat + 1 < 2 ^ 32) (buffer : Nat → α) :
    below (head + 1) buffer = buffer head.toNat :: below head buffer := by
  rw [below, toNat_add_one h, List.range_succ, List.reverse_append]
  rfl

theorem below_retreat {head : UInt32} (h : 0 < head.toNat) (buffer : Nat → α) :
    below head buffer = buffer (head.toNat - 1) :: below (head - 1) buffer := by
  have hsucc : head = head - 1 + 1 := by simp
  have hnat := toNat_sub_one h
  have := head.toNat_lt
  conv_lhs => rw [hsucc]
  rw [below_advance (by omega), hnat]

theorem below_write (head : UInt32) (buffer : Nat → α) (x : α) :
    below head (Function.update buffer head.toNat x) = below head buffer := by
  refine List.map_congr_left fun i hi => Function.update_of_ne ?_ ..
  have := List.mem_range.mp (List.mem_reverse.mp hi)
  omega

@[simp] theorem length_below (head : UInt32) (buffer : Nat → α) : (below head buffer).length = head.toNat := by
  simp [below]

theorem below_eq_nil {head : UInt32} {buffer : Nat → α} : below head buffer = [] ↔ head = 0 := by
  rw [← List.length_eq_zero_iff, length_below, ← UInt32.toNat_inj]
  rfl

theorem isEmpty_below (head : UInt32) (buffer : Nat → α) : (below head buffer).isEmpty = decide (head = 0) := by
  rw [Bool.eq_iff_iff, List.isEmpty_iff, below_eq_nil, decide_eq_true_iff]

theorem lifo_pop {n : Nat} {head : UInt32} (h : 0 < head.toNat) {buffer : Nat → α} :
    lifo n (below head buffer) .pop = (below (head - 1) buffer, .popped (some (buffer (head - 1).toNat))) := by
  rw [below_retreat h, toNat_sub_one h]
  rfl

/-- A stack of as many elements as fit. -/
def Spec (B : Nat) (q : List α) (o : StackOp α) (r : StackResult α) (q' : List α) : Prop :=
  lifo (stackCapacity B) q o = (q', r)

/-- The object has the elements of the stack, and each thread stands there where it does here. -/
structure Matches (m : Impl) (p : Params) (s : Sys τ α) (a : Object τ (List α) (StackOp α) (StackResult α)) : Prop where
  lock : Lock.Exclusive (Op.inside m) s.op s.locked
  le : s.head.toNat ≤ stackCapacity p.B
  state : a.state = s.elements
  stands : ∀ t, (s.op t).Stands m p s.head s.buffer s.metrics (a.status t)

/-- The threads other than `t` do not notice what has changed from `s` to `s'`. -/
def Unnoticed (m : Impl) (s : Sys τ α) (t : τ) (s' : Sys τ α) : Prop :=
  (s'.head = s.head ∧ s'.buffer = s.buffer ∧ (s'.metrics = s.metrics ∨ m = .atomic)) ∨
    ∀ u ≠ t, (s.op u).inside m = false

theorem unnoticed_self (m : Impl) {s s' : Sys τ α} (t : τ) (h : s'.head = s.head) (h' : s'.buffer = s.buffer)
    (h'' : s'.metrics = s.metrics) : Unnoticed m s t s' := .inl ⟨h, h', .inl h''⟩

namespace Matches
variable {o : Op α}

theorem alone (h : Matches m p s a) (ho : s.op t = o) (hin : o.inside m = true) : Unnoticed m s t s' :=
  .inr (h.lock.others (by rw [ho]; exact hin))

theorem here (h : Matches m p s a) (ho : s.op t = o) : o.Stands m p s.head s.buffer s.metrics (a.status t) :=
  ho ▸ h.stands t

theorem new (m : Impl) (p : Params) (zeroed : α) : Matches m p (.new zeroed : Sys τ α) (.new []) where
  lock := .start fun _ => rfl
  le := Nat.zero_le _
  state := rfl
  stands _ := rfl

variable [DecidableEq τ]

theorem goOn (h : Matches m p s a) (hlock : Lock.Exclusive (Op.inside m) s'.op s'.locked)
    (hop : s'.op = Function.update s.op t o) (hothers : Unnoticed m s t s')
    (hle : s'.head.toNat ≤ stackCapacity p.B) {st : Status (StackOp α) (StackResult α)}
    (hst : o.Stands m p s'.head s'.buffer s'.metrics st) {q : List α} (hq : q = s'.elements) :
    Matches m p s' { a.setStatus t st with state := q } := by
  refine ⟨hlock, hle, hq, fun u => ?_⟩
  rw [hop]
  show (Function.update s.op t o u).Stands m p s'.head s'.buffer s'.metrics (Function.update a.status t st u)
  by_cases hut : u = t
  · subst hut
    rwa [Function.update_self, Function.update_self]
  · rw [Function.update_of_ne hut, Function.update_of_ne hut]
    rcases hothers with ⟨hhead, hbuf, hmetrics⟩ | hothers
    · rw [hhead, hbuf]
      rcases hmetrics with hmetrics | hm
      · rw [hmetrics]
        exact h.stands u
      · exact (h.stands u).counting hm
    · exact (h.stands u).outside (hothers u hut)

/-- The object follows a step of thread `t`. -/
def Followed (m : Impl) (p : Params) (s : Sys τ α) (a : Object τ (List α) (StackOp α) (StackResult α)) (t : τ)
    (s' : Sys τ α) : Prop :=
  ∃ log a', Object.Steps (Spec p.B) a (s.events (.run t) s') log a' ∧ Matches m p s' a'

theorem events_of_result (hop : s'.op = Function.update s.op t o) :
    s.events (.run t) s' = o.result.toList.map fun r => (t, .ret r) := by
  rw [Sys.events, hop, Function.update_self]

theorem silent (h : Matches m p s a) (hlock : Lock.Exclusive (Op.inside m) s'.op s'.locked)
    (hop : s'.op = Function.update s.op t o) (hothers : Unnoticed m s t s')
    (hle : s'.head.toNat ≤ stackCapacity p.B) (hres : o.result = none) (hel : s.elements = s'.elements)
    (hst : o.Stands m p s'.head s'.buffer s'.metrics (a.status t)) : Followed m p s a t s' := by
  refine ⟨[], a, ?_, ?_⟩
  · rw [events_of_result hop, hres]
    exact .refl
  · have := h.goOn hlock hop hothers hle hst (h.state.trans hel)
    rwa [Object.setStatus_of_eq rfl] at this

theorem take (h : Matches m p s a) (hlock : Lock.Exclusive (Op.inside m) s'.op s'.locked)
    (hop : s'.op = Function.update s.op t o) (hothers : Unnoticed m s t s')
    (hle : s'.head.toNat ≤ stackCapacity p.B) (hres : o.result = none) {so : StackOp α} {r : StackResult α}
    (hcalled : a.status t = .called so) (hspec : lifo (stackCapacity p.B) s.elements so = (s'.elements, r))
    (hst : o.Stands m p s'.head s'.buffer s'.metrics (.done r)) : Followed m p s a t s' := by
  refine ⟨[(t, so, r)], _, ?_, h.goOn hlock hop hothers hle hst rfl⟩
  rw [events_of_result hop, hres]
  exact (Object.Step.take hcalled (by rw [h.state]; exact hspec)).steps

theorem ret (h : Matches m p s a) (hlock : Lock.Exclusive (Op.inside m) s'.op s'.locked) {r : StackResult α}
    (hop : s'.op = Function.update s.op t (.returned r)) (hothers : Unnoticed m s t s') (hhead : s'.head = s.head)
    (hbuf : s'.buffer = s.buffer) (hdone : a.status t = .done r) : Followed m p s a t s' := by
  have hle : s'.head.toNat ≤ stackCapacity p.B := by rw [hhead]; exact h.le
  have hel : a.state = s'.elements := by rw [h.state, Sys.elements, Sys.elements, hhead, hbuf]
  refine ⟨[], _, ?_, h.goOn (o := .returned r) hlock hop hothers hle rfl hel⟩
  rw [events_of_result hop]
  exact (Object.Step.ret hdone).steps

theorem answer (h : Matches m p s a) (hlock : Lock.Exclusive (Op.inside m) s'.op s'.locked) {r : StackResult α}
    (hop : s'.op = Function.update s.op t (.returned r)) (hothers : Unnoticed m s t s') (hhead : s'.head = s.head)
    (hbuf : s'.buffer = s.buffer) {so : StackOp α} (hcalled : a.status t = .called so)
    (hspec : lifo (stackCapacity p.B) s.elements so = (s.elements, r)) : Followed m p s a t s' := by
  have hle : s'.head.toNat ≤ stackCapacity p.B := by rw [hhead]; exact h.le
  have hel : s.elements = s'.elements := by rw [Sys.elements, Sys.elements, hhead, hbuf]
  refine ⟨[(t, so, r)], _, ?_, h.goOn (o := .returned r) hlock hop hothers hle rfl hel⟩
  rw [events_of_result hop]
  exact .answer hcalled (by rw [h.state]; exact hspec)

theorem stay (h : Matches m p s a) {o' : Op α} (ho : s.op t = o) (hin : o'.inside m = o.inside m) :
    Lock.Exclusive (Op.inside m) (Function.update s.op t o') s.locked := h.lock.stay (hin.trans (by rw [ho]))

theorem lockStep (h : Matches m p s a) {collision : Op α} (hs : s.lock m p t o collision = some s')
    (ht : (s.op t).inside m = false) (hself : (s.op t).result = none) (ho : o.inside m = true)
    (hc : collision.inside m = false) (hres : o.result = none) (hcres : collision.result = none)
    (hst : o.Stands m p s.head s.buffer s.metrics (a.status t))
    (hcst : m = .atomic → collision.Stands m p s.head s.buffer s.metrics (a.status t)) : Followed m p s a t s' := by
  unfold Sys.lock at hs
  cases hl : s.locked with
  | false =>
    simp only [hl, Option.some.injEq] at hs
    subst hs
    exact h.silent ((hl ▸ h.lock).acquire ho) rfl (unnoticed_self _ t rfl rfl rfl) h.le hres rfl hst
  | true =>
    cases m with
    | atomic =>
      simp only [hl, Option.some.injEq] at hs
      subst hs
      split
      · exact h.silent (h.lock.stay (hc.trans ht.symm)) rfl (unnoticed_self _ t rfl rfl rfl) h.le hcres rfl (hcst rfl)
      · exact h.silent h.lock (Function.update_eq_self ..).symm (unnoticed_self _ t rfl rfl rfl) h.le hself rfl (h.stands t)
    | parkingLot => simp [hl] at hs

theorem collided (h : Matches m p s a) (c : Counter) (ho : (s.op t).inside m = o.inside m) (hm : m = .atomic)
    (hres : o.result = none) (hst : ∀ metrics, o.Stands m p s.head s.buffer metrics (a.status t)) :
    Followed m p s a t ({ s with metrics := s.metrics.fetchAdd c }.setOp t o) :=
  h.silent (h.lock.stay ho.symm) rfl (.inl ⟨rfl, rfl, .inr hm⟩) h.le hres rfl (hst _)

theorem pushCheck (h : Matches m p s a) {element : α} (ho : s.op t = .pushCheck element)
    (hs : s.run m p t = some s') : Followed m p s a t s' := by
  have hcalled := h.here ho
  have hlen : s.elements.length = s.head.toNat := length_below ..
  simp only [Sys.run, ho] at hs
  split at hs
  case isTrue hfull =>
    cases hs
    have hge : stackCapacity p.B ≤ s.head.toNat := UInt32.le_iff_toNat_le.mp hfull
    refine h.take (h.stay ho Op.inside_afterAccess) rfl (unnoticed_self m t rfl rfl rfl) h.le Op.result_afterAccess
      hcalled ?_ Op.stands_afterAccess
    rw [lifo, if_neg (by omega)]
    rfl
  case isFalse hroom =>
    cases hs
    have hlt : s.head.toNat < stackCapacity p.B := UInt32.lt_iff_toNat_lt.mp (UInt32.not_le.mp hroom)
    exact h.silent (h.stay ho rfl) rfl (unnoticed_self m t rfl rfl rfl) h.le rfl rfl ⟨hcalled, hlt⟩

theorem capacity_le (B : Nat) : stackCapacity B ≤ B := Nat.mod_le ..

theorem capacity_lt (B : Nat) : stackCapacity B < 2 ^ 32 := UInt32.toNat_lt _

theorem pushWrite (h : Matches m p s a) {element : α} (ho : s.op t = .pushWrite element)
    (hs : s.run m p t = some s') : Followed m p s a t s' := by
  obtain ⟨hcalled, hlt⟩ := h.here ho
  have := capacity_le p.B
  simp only [Sys.run, ho] at hs
  rw [if_pos (by omega)] at hs
  cases hs
  refine h.silent (h.stay ho rfl) rfl (h.alone ho rfl) h.le rfl (below_write ..).symm ⟨?_, hlt⟩
  rw [hcalled]
  show _ = Status.called (StackOp.push (Function.update s.buffer s.head.toNat element s.head.toNat))
  rw [Function.update_self]

theorem pushAdvance (h : Matches m p s a) (ho : s.op t = .pushAdvance) (hs : s.run m p t = some s') :
    Followed m p s a t s' := by
  obtain ⟨hcalled, hlt⟩ := h.here ho
  have hmax := capacity_lt p.B
  have hlen : s.elements.length = s.head.toNat := length_below ..
  simp only [Sys.run, ho] at hs
  rw [if_neg (by omega)] at hs
  cases hs
  have hle : (s.head + 1).toNat ≤ stackCapacity p.B := by
    rw [toNat_add_one (by omega)]
    exact hlt
  refine h.take (h.stay ho Op.inside_afterAccess) rfl (h.alone ho rfl) hle Op.result_afterAccess hcalled ?_
    Op.stands_afterAccess
  rw [lifo, if_pos (by omega)]
  exact congrArg (·, _) (below_advance (by omega) _).symm

theorem popCheck (h : Matches m p s a) (ho : s.op t = .popCheck) (hs : s.run m p t = some s') :
    Followed m p s a t s' := by
  have hcalled := h.here ho
  simp only [Sys.run, ho] at hs
  split at hs
  case isTrue hzero =>
    cases hs
    have hnil : s.elements = [] := below_eq_nil.mpr hzero
    refine h.take (h.stay ho Op.inside_afterAccess) rfl (unnoticed_self m t rfl rfl rfl) h.le Op.result_afterAccess
      hcalled ?_ Op.stands_afterAccess
    show _ = (s.elements, _)
    rw [hnil]
    rfl
  case isFalse hne =>
    have hpos : 0 < s.head.toNat := Nat.pos_of_ne_zero fun h0 => hne (UInt32.toNat_inj.mp h0)
    cases m <;> cases hs <;>
      exact h.silent (h.stay ho rfl) rfl (unnoticed_self _ t rfl rfl rfl) h.le rfl rfl ⟨hcalled, hpos⟩

theorem popRetreat (h : Matches m p s a) (ho : s.op t = .popRetreat) (hs : s.run m p t = some s') :
    Followed m p s a t s' := by
  obtain ⟨hcalled, hpos⟩ := h.here ho
  have hle := h.le
  simp only [Sys.run, ho] at hs
  rw [if_neg (by omega)] at hs
  cases hs
  have hlt : (s.head - 1).toNat < stackCapacity p.B := by
    rw [toNat_sub_one hpos]
    omega
  exact h.take (h.stay ho rfl) rfl (h.alone ho rfl) hlt.le rfl hcalled (lifo_pop hpos) ⟨rfl, hlt⟩

theorem popRead (h : Matches m p s a) (ho : s.op t = .popRead) (hs : s.run m p t = some s') :
    Followed m p s a t s' := by
  obtain ⟨hdone, hlt⟩ := h.here ho
  have := capacity_le p.B
  simp only [Sys.run, ho] at hs
  rw [if_pos (by omega)] at hs
  cases hs
  refine h.silent (h.stay ho Op.inside_afterAccess) rfl (unnoticed_self m t rfl rfl rfl) h.le Op.result_afterAccess rfl ?_
  rw [hdone]
  exact Op.stands_afterAccess

theorem popReadTop (h : Matches m p s a) (ho : s.op t = .popReadTop) (hs : s.run m p t = some s') :
    Followed m p s a t s' := by
  obtain ⟨hcalled, hpos⟩ := h.here ho
  have hle := h.le
  have := capacity_le p.B
  simp only [Sys.run, ho] at hs
  rw [if_pos (by omega)] at hs
  cases hs
  exact h.silent (h.stay ho rfl) rfl (unnoticed_self m t rfl rfl rfl) hle rfl rfl ⟨hcalled, hpos, rfl⟩

theorem popRetreatWith (h : Matches m p s a) {element : α} (ho : s.op t = .popRetreatWith element)
    (hs : s.run m p t = some s') : Followed m p s a t s' := by
  obtain ⟨hcalled, hpos, rfl⟩ := h.here ho
  have hle := h.le
  simp only [Sys.run, ho] at hs
  rw [if_neg (by omega)] at hs
  cases hs
  have hle' : (s.head - 1).toNat ≤ stackCapacity p.B := by
    rw [toNat_sub_one hpos]
    omega
  refine h.take (h.stay ho Op.inside_afterAccess) rfl (h.alone ho rfl) hle' Op.result_afterAccess hcalled ?_
    Op.stands_afterAccess
  rw [← toNat_sub_one hpos]
  exact lifo_pop hpos

theorem debug (h : Matches m p s a) {r : StackResult α} (hlock : Lock.Exclusive (Op.inside m) s'.op s'.locked)
    (hop : s'.op = Function.update s.op t (.debug p r)) (hothers : Unnoticed m s t s') (hhead : s'.head = s.head)
    (hbuf : s'.buffer = s.buffer) (hdone : a.status t = .done r) : Followed m p s a t s' := by
  have hle : s'.head.toNat ≤ stackCapacity p.B := by rw [hhead]; exact h.le
  have hel : s.elements = s'.elements := by rw [Sys.elements, Sys.elements, hhead, hbuf]
  rcases Op.debug_cases p r with ⟨hd, hD⟩ | hd
  · rw [hd] at hop
    exact h.silent hlock hop hothers hle rfl hel ⟨hdone, hD⟩
  · rw [hd] at hop
    exact h.ret hlock hop hothers hhead hbuf hdone

theorem count (h : Matches m p s a) {r : StackResult α} (ho : s.op t = .count r) :
    Followed m p s a t (s.count m p t r) := by
  obtain ⟨hdone, hM⟩ := h.here ho
  cases m with
  | atomic => exact h.debug (h.stay ho Op.inside_debug) rfl (.inl ⟨rfl, rfl, .inr rfl⟩) rfl rfl hdone
  | parkingLot =>
    exact h.silent (h.stay ho rfl) rfl (unnoticed_self _ t rfl rfl rfl) h.le rfl rfl ⟨hdone, hM, rfl, rfl⟩

theorem countWrite (h : Matches m p s a) {r : StackResult α} {n : UInt64} (ho : s.op t = .countWrite r n) :
    Followed m p s a t (s.countWrite p t r n) := by
  obtain ⟨hdone, hM, hm, rfl⟩ := h.here ho
  unfold Sys.countWrite
  split
  case isTrue hmax =>
    exact h.silent (h.stay ho rfl) rfl (unnoticed_self m t rfl rfl rfl) h.le rfl rfl
      ⟨hM, hmax.1, hm, r, hdone, hmax.2⟩
  case isFalse => exact h.silent (h.stay ho rfl) rfl (h.alone ho rfl) h.le rfl rfl hdone

theorem unlock (h : Matches m p s a) {r : StackResult α} (ho : s.op t = .unlock r) :
    Followed m p s a t (s.unlock m p t r) := by
  have hdone : a.status t = .done r := h.here ho
  have hinside : (s.op t).inside m = true := by rw [ho]; rfl
  cases m with
  | atomic =>
    cases hM : p.METRICS with
    | true =>
      have hop : (s.unlock .atomic p t r).op = Function.update s.op t (.count r) := by
        simp [Sys.unlock, Sys.setOp, Op.afterUnlock, hM]
      exact h.silent (hop ▸ h.lock.release hinside rfl) hop (unnoticed_self _ t rfl rfl rfl) h.le rfl rfl ⟨hdone, hM⟩
    | false =>
      have hop : (s.unlock .atomic p t r).op = Function.update s.op t (.debug p r) := by
        simp [Sys.unlock, Sys.setOp, Op.afterUnlock, hM]
      exact h.debug (hop ▸ h.lock.release hinside Op.inside_debug) hop (unnoticed_self _ t rfl rfl rfl) rfl rfl hdone
  | parkingLot =>
    exact h.debug (h.lock.release hinside Op.inside_debug) rfl (unnoticed_self _ t rfl rfl rfl) rfl rfl hdone

theorem message (h : Matches m p s a) {r : StackResult α} (ho : s.op t = .message r) :
    Followed m p s a t (s.message p t r) := by
  obtain ⟨hdone, hD⟩ := h.here ho
  have hret : Followed m p s a t (s.setOp t (.returned r)) :=
    h.ret (h.stay ho rfl) rfl (unnoticed_self m t rfl rfl rfl) rfl rfl hdone
  unfold Sys.message
  split
  · split
    case isTrue hzero =>
      exact h.silent (h.stay ho rfl) rfl (unnoticed_self m t rfl rfl rfl) h.le rfl rfl ⟨hD, hzero.1, _, hdone⟩
    case isFalse => exact hret
  · exact hret

theorem run (h : Matches m p s a) (hs : s.run m p t = some s') : Followed m p s a t s' := by
  cases ho : s.op t with
  | idle | returned | panicked =>
    simp only [Sys.run, ho] at hs
    cases hs
  | pushLock element =>
    have hcalled := h.here ho
    simp only [Sys.run, ho] at hs
    exact h.lockStep hs (by rw [ho]; rfl) (by rw [ho]; rfl) rfl rfl rfl rfl hcalled fun hm => ⟨hcalled, hm⟩
  | popLock =>
    have hcalled := h.here ho
    simp only [Sys.run, ho] at hs
    exact h.lockStep hs (by rw [ho]; rfl) (by rw [ho]; rfl) rfl rfl rfl rfl hcalled fun hm => ⟨hcalled, hm⟩
  | pushCollision element =>
    obtain ⟨hcalled, hm⟩ := h.here ho
    simp only [Sys.run, ho] at hs
    cases hs
    exact h.collided _ (by rw [ho]; rfl) hm rfl fun _ => hcalled
  | popCollision =>
    obtain ⟨hcalled, hm⟩ := h.here ho
    simp only [Sys.run, ho] at hs
    cases hs
    exact h.collided _ (by rw [ho]; rfl) hm rfl fun _ => hcalled
  | pushCheck element => exact h.pushCheck ho hs
  | pushWrite element => exact h.pushWrite ho hs
  | pushAdvance => exact h.pushAdvance ho hs
  | popCheck => exact h.popCheck ho hs
  | popRetreat => exact h.popRetreat ho hs
  | popRead => exact h.popRead ho hs
  | popReadTop => exact h.popReadTop ho hs
  | popRetreatWith element => exact h.popRetreatWith ho hs
  | count r =>
    simp only [Sys.run, ho] at hs
    cases hs
    exact h.count ho
  | countWrite r n =>
    simp only [Sys.run, ho] at hs
    cases hs
    exact h.countWrite ho
  | unlock r =>
    simp only [Sys.run, ho] at hs
    cases hs
    exact h.unlock ho
  | message r =>
    simp only [Sys.run, ho] at hs
    cases hs
    exact h.message ho
  | len =>
    have hcalled := h.here ho
    simp only [Sys.run, ho] at hs
    cases hs
    refine h.answer (h.stay ho rfl) rfl (unnoticed_self m t rfl rfl rfl) rfl rfl hcalled ?_
    rw [lifo, Sys.elements, length_below]
  | isEmpty =>
    have hcalled := h.here ho
    simp only [Sys.run, ho] at hs
    cases hs
    refine h.answer (h.stay ho rfl) rfl (unnoticed_self m t rfl rfl rfl) rfl rfl hcalled ?_
    rw [lifo, Sys.elements, isEmpty_below]

theorem call {o : StackOp α} (h : Matches m p s a) (hs : s.call t o = some s') :
    ∃ log a', Object.Steps (Spec p.B) a [(t, .call o)] log a' ∧ Matches m p s' a' := by
  obtain ⟨ht, hs⟩ := Option.ite_none_right_eq_some.mp hs
  cases hs
  have hidle := (Op.stands_of_atRest ht).mp (h.stands t)
  have hlock := h.lock.stay ((Op.inside_start o).trans (Op.inside_of_atRest ht).symm)
  have hop : (s.setOp t (.start o)).op = Function.update s.op t (.start o) := rfl
  refine ⟨[], _, (Object.Step.call hidle).steps, ?_⟩
  exact h.goOn hlock hop (unnoticed_self m t rfl rfl rfl) h.le (Op.stands_start o) h.state

end Matches

theorem simulates_object [DecidableEq τ] (m : Impl) (p : Params) :
    Linear.Simulates (Sys.step m p) (fun _ _ _ => True) Sys.events (Spec p.B) (Matches m p : Sys τ α → _ → Prop) := by
  intro s a l s' h hs _
  cases l with
  | call t o => exact h.call hs
  | run t => exact h.run hs

/-- The panics of a build with overflow checks: a counter of the parking lot stack has come to its end, or the message of
a `push` finds the stack empty. -/
def Sys.Excused (m : Impl) (p : Params) (s : Sys τ α) : Panic → Prop
  | .access => False
  | .count => m = .parkingLot ∧ p.METRICS = true ∧ p.checks = true ∧ ∃ c, (s.metrics c).toNat + 1 = 2 ^ 64
  | .message => p.DEBUG = true ∧ p.checks = true

theorem Matches.excused (h : Matches m p s a) {panic : Panic} (ht : s.op t = .panicked panic) : s.Excused m p panic := by
  have hst := h.stands t
  rw [ht] at hst
  cases panic with
  | access => exact hst
  | count =>
    obtain ⟨hM, hchecks, hm, r, -, hmax⟩ := hst
    refine ⟨hm, hM, hchecks, ?_⟩
    unfold Metrics.read at hmax
    cases hc : Counter.of r with
    | none =>
      rw [hc] at hmax
      cases hmax
    | some c => exact ⟨c, by rw [hc] at hmax; exact hmax⟩
  | message => exact ⟨hst.1, hst.2.1⟩

/-- The calls take effect one after the other, those of `len` and `is_empty` too, and no access to the stack panics. -/
theorem nonBlockingStack_linearizable [DecidableEq τ] {zeroed : α}
    {events : List (τ × Linear.Event (StackOp α) (StackResult α))}
    (h : Linear.Run (Sys.step m p) (fun _ _ _ => True) Sys.events (.new zeroed) events s) :
    Linear.Linearizable (Spec p.B) [] events s.elements ∧ ∀ t panic, s.op t = .panicked panic → s.Excused m p panic := by
  obtain ⟨a, ha, hlin⟩ := (simulates_object m p).linearizable (.new m p zeroed) h
  rw [ha.state] at hlin
  exact ⟨hlin, fun t panic ht => ha.excused ht⟩

/-- With one slot: thread 1 fails to take the lock while thread 0 pushes 7, then pushes 8 on the full stack; thread 0 reads
its length and thread 1 takes the 7. Then thread 1 takes what thread 0 has just pushed, which panics at its message. -/
def pushAndPop : List (Label Nat Nat) :=
  [.call 0 (.push 7), .run 0, .run 0, .call 1 (.push 8), .run 1] ++ List.replicate 5 (.run 0) ++
    List.replicate 5 (.run 1) ++ [.call 0 .len, .run 0, .call 1 .pop] ++ List.replicate 7 (.run 1) ++
    .call 0 (.push 9) :: List.replicate 6 (.run 0) ++ .call 1 .pop :: List.replicate 7 (.run 1) ++ [.run 0]

def oneSlot : Params := ⟨1, true, true, true⟩

theorem nonBlockingStack_linearizable_pushAndPop :
    ∃ (events : List (Nat × Linear.Event (StackOp Nat) (StackResult Nat))) (s : Sys Nat Nat),
      Linear.returns events = [(0, .pushed true), (1, .pushed false), (0, .len 1), (1, .popped (some 7)),
        (1, .popped (some 9))] ∧ (s.op 0).panic = some .message ∧ Linear.Linearizable (Spec 1) [] events s.elements ∧
      ∀ t panic, s.op t = .panicked panic → s.Excused .atomic oneSlot panic := by
  have hresults : (Linear.trace (Sys.step .atomic oneSlot) Sys.events (Sys.new 0) pushAndPop).map
      (fun x => (Linear.returns x.1, (x.2.op 0).panic)) =
        some ([(0, .pushed true), (1, .pushed false), (0, .len 1), (1, .popped (some 7)), (1, .popped (some 9))],
          some .message) := by decide +kernel
  obtain ⟨⟨events, s⟩, htrace, hres⟩ := Option.map_eq_some_iff.mp hresults
  obtain ⟨hreturns, hpanic⟩ := Prod.mk.inj hres
  exact ⟨events, s, hreturns, hpanic, nonBlockingStack_linearizable (.of_trace (fun _ _ _ => trivial) .refl htrace)⟩

/-! ### The metrics -/

def weight (c : Counter) (r : StackResult α) : Nat := if Counter.of r = some c then 1 else 0

/-- How many of the results belong to the counter. -/
def resultsOf (c : Counter) (results : List (τ × StackResult α)) : Nat := (results.map fun x => weight c x.2).sum

namespace Op
variable {c : Counter} {r : StackResult α}

/-- The result of a call that has been counted and has not returned: one that is yet to unlock or to print its message, or
that panicked there. -/
def counted (m : Impl) : Op α → Option (StackResult α)
  | unlock r => if m = Impl.parkingLot then some r else none
  | message r => some r
  | panicked .message => some (.pushed true)
  | _ => none

/-- How much a call that has not returned yet has added to the counter. -/
def pending (m : Impl) (c : Counter) (o : Op α) : Nat := (o.counted m).elim 0 (weight c)

def credit (m : Impl) (c : Counter) (o : Op α) : Nat := o.pending m c + o.result.elim 0 (weight c)

theorem pending_of_atRest {o : Op α} (h : o.atRest = true) : o.pending m c = 0 := by
  cases o <;> first | rfl | cases h

theorem pending_start (o : StackOp α) : (start o).pending m c = 0 := by cases o <;> rfl

theorem credit_debug : (debug p r).credit m c = weight c r := by
  rcases debug_cases p r with ⟨h, -⟩ | h <;> rw [h]
  · exact Nat.add_zero _
  · exact Nat.zero_add _

theorem credit_afterAccess (hM : p.METRICS = true) : (afterAccess p r m).credit m c = 0 := by
  cases m with
  | atomic => rfl
  | parkingLot => rw [afterAccess, if_pos hM]; rfl

end Op

theorem Metrics.write_apply (metrics : Metrics) (r : StackResult α) (c : Counter) :
    metrics.write r (metrics.read r + 1) c = metrics c + UInt64.ofNat (weight c r) := by
  unfold Metrics.write Metrics.read weight
  cases hr : Counter.of r with
  | none => simp
  | some c' =>
    by_cases hc : c' = c
    · subst hc
      simp
    · simp [hc, Function.update_of_ne (Ne.symm hc)]

/-- The counter has what was returned, and what has been counted by the threads that have not returned. -/
structure Counts (m : Impl) (c : Counter) (s : Sys τ α) (results : List (τ × StackResult α)) : Prop where
  small : Tally.Small (Op.pending m c) s.op
  eq : s.metrics c = UInt64.ofNat (resultsOf c results + Tally.total (Op.pending m c) s.op)

namespace Counts
variable [DecidableEq τ] {c : Counter} {o : Op α} {results : List (τ × StackResult α)}

theorem go (h : Counts m c s results) (hop : s'.op = Function.update s.op t o) {n : Nat}
    (hmetrics : s'.metrics c = s.metrics c + UInt64.ofNat n) (ho : o.credit m c = (s.op t).pending m c + n) :
    Counts m c s' (results ++ Linear.returns (s.events (.run t) s')) := by
  have hres : resultsOf c (results ++ Linear.returns (s.events (.run t) s')) =
      resultsOf c results + o.result.elim 0 (weight c) := by
    rw [Matches.events_of_result hop, resultsOf, List.map_append, List.sum_append]
    cases o.result <;> simp [resultsOf, Linear.returns]
  have htotal := Tally.total_update h.small t o
  refine ⟨hop ▸ h.small.update t o, ?_⟩
  unfold Op.credit at ho
  rw [hmetrics, h.eq, ← UInt64.ofNat_add, hop, hres]
  congr 1
  omega

theorem plain (h : Counts m c s results) (hop : s'.op = Function.update s.op t o)
    (hmetrics : s'.metrics c = s.metrics c) (ho : o.credit m c = (s.op t).pending m c) :
    Counts m c s' (results ++ Linear.returns (s.events (.run t) s')) := by
  refine h.go hop (n := 0) ?_ ho
  rw [hmetrics]
  exact (UInt64.add_zero _).symm

theorem lockStep (h : Counts m c s results) {collision : Op α} (hs : s.lock m p t o collision = some s')
    (ht : (s.op t).pending m c = 0) (hself : (s.op t).credit m c = 0) (ho : o.credit m c = 0)
    (hc : collision.credit m c = 0) : Counts m c s' (results ++ Linear.returns (s.events (.run t) s')) := by
  unfold Sys.lock at hs
  split at hs
  · cases hs
    exact h.plain rfl rfl (ho.trans ht.symm)
  · cases hs
    split
    · exact h.plain rfl rfl (hc.trans ht.symm)
    · exact h.plain (Function.update_eq_self ..).symm rfl (hself.trans ht.symm)
  · cases hs

theorem count (h : Counts m c s results) {r : StackResult α} (ho : s.op t = .count r) :
    Counts m c (s.count m p t r) (results ++ Linear.returns (s.events (.run t) (s.count m p t r))) := by
  cases m with
  | atomic =>
    refine h.go rfl (Metrics.write_apply ..) (Op.credit_debug.trans ?_)
    rw [ho]
    exact (Nat.zero_add _).symm
  | parkingLot => exact h.plain rfl rfl (by rw [ho]; rfl)

theorem countWrite (h : Counts .parkingLot c s results) {r : StackResult α} {n : UInt64}
    (ho : s.op t = .countWrite r n) (hn : n = s.metrics.read r) :
    Counts .parkingLot c (s.countWrite p t r n) (results ++ Linear.returns (s.events (.run t) (s.countWrite p t r n))) := by
  unfold Sys.countWrite
  split
  · exact h.plain rfl rfl (by rw [ho]; rfl)
  · subst hn
    refine h.go rfl (Metrics.write_apply ..) ?_
    rw [ho]
    exact Nat.add_comm _ _

theorem unlock (h : Counts m c s results) (hM : p.METRICS = true) {r : StackResult α} (ho : s.op t = .unlock r) :
    Counts m c (s.unlock m p t r) (results ++ Linear.returns (s.events (.run t) (s.unlock m p t r))) := by
  cases m with
  | atomic =>
    have hop : (s.unlock .atomic p t r).op = Function.update s.op t (.count r) := by
      simp [Sys.unlock, Sys.setOp, Op.afterUnlock, hM]
    exact h.plain hop rfl (by rw [ho]; rfl)
  | parkingLot =>
    refine h.plain rfl rfl (Op.credit_debug.trans ?_)
    rw [ho]
    rfl

theorem message (h : Counts m c s results) {r : StackResult α} (ho : s.op t = .message r) :
    Counts m c (s.message p t r) (results ++ Linear.returns (s.events (.run t) (s.message p t r))) := by
  have hret : Counts m c (s.setOp t (.returned r)) (results ++ Linear.returns (s.events (.run t) (s.setOp t (.returned r)))) :=
    h.plain rfl rfl (by rw [ho]; exact Nat.zero_add _)
  unfold Sys.message
  split
  · split
    · exact h.plain rfl rfl (by rw [ho]; rfl)
    · exact hret
  · exact hret

theorem run (h : Counts m c s results) (ha : Matches m p s a) (hM : p.METRICS = true)
    (hc : c ≠ .pushCollisions) (hc' : c ≠ .popCollisions) (hs : s.run m p t = some s') :
    Counts m c s' (results ++ Linear.returns (s.events (.run t) s')) := by
  cases ho : s.op t with
  | idle | returned | panicked =>
    simp only [Sys.run, ho] at hs
    cases hs
  | pushLock | popLock =>
    simp only [Sys.run, ho] at hs
    exact h.lockStep hs (by rw [ho]; rfl) (by rw [ho]; rfl) rfl rfl
  | pushCollision | popCollision =>
    simp only [Sys.run, ho] at hs
    cases hs
    exact h.plain rfl (Function.update_of_ne (by assumption) ..) (by rw [ho]; rfl)
  | pushCheck | pushAdvance | popRead | popRetreatWith =>
    simp only [Sys.run, ho] at hs
    split at hs <;> cases hs <;>
      exact h.plain rfl rfl (by rw [ho]; first | rfl | exact Op.credit_afterAccess hM)
  | pushWrite | popRetreat | popReadTop =>
    simp only [Sys.run, ho] at hs
    split at hs <;> cases hs <;> exact h.plain rfl rfl (by rw [ho]; rfl)
  | popCheck =>
    simp only [Sys.run, ho] at hs
    split at hs
    · cases hs
      exact h.plain rfl rfl (by rw [ho]; exact Op.credit_afterAccess hM)
    · cases m <;> cases hs <;> exact h.plain rfl rfl (by rw [ho]; rfl)
  | count r =>
    simp only [Sys.run, ho] at hs
    cases hs
    exact h.count ho
  | countWrite r n =>
    obtain ⟨-, -, rfl, hn⟩ := ha.here ho
    simp only [Sys.run, ho] at hs
    cases hs
    exact h.countWrite ho hn
  | unlock r =>
    simp only [Sys.run, ho] at hs
    cases hs
    exact h.unlock hM ho
  | message r =>
    simp only [Sys.run, ho] at hs
    cases hs
    exact h.message ho
  | len | isEmpty =>
    simp only [Sys.run, ho] at hs
    cases hs
    exact h.plain rfl rfl (by rw [ho]; rfl)

theorem call {so : StackOp α} (h : Counts m c s results) (hs : s.call t so = some s') : Counts m c s' results := by
  obtain ⟨ht, hs⟩ := Option.ite_none_right_eq_some.mp hs
  cases hs
  have htotal := Tally.total_update h.small t (.start so)
  rw [Op.pending_start, Op.pending_of_atRest ht, Nat.add_zero, Nat.add_zero] at htotal
  refine ⟨h.small.update t _, h.eq.trans ?_⟩
  show _ = UInt64.ofNat (_ + Tally.total (Op.pending m c) (Function.update s.op t (.start so)))
  rw [htotal]

end Counts

/-- At every moment each counter is the number of the calls that have returned that way, or are about to. -/
theorem nonBlockingStack_metrics [DecidableEq τ] (hM : p.METRICS = true) {c : Counter} (hc : c ≠ .pushCollisions)
    (hc' : c ≠ .popCollisions) {zeroed : α} {events : List (τ × Linear.Event (StackOp α) (StackResult α))}
    (h : Linear.Run (Sys.step m p) (fun _ _ _ => True) Sys.events (.new zeroed) events s) :
    s.metrics c = UInt64.ofNat (resultsOf c (Linear.returns events) + Tally.total (Op.pending m c) s.op) := by
  have hcounts : (∃ a, Matches m p s a) ∧ Counts m c s (Linear.returns events) := by
    induction h with
    | refl =>
      have hzero : Tally.total (Op.pending m c) (Sys.new zeroed : Sys τ α).op = 0 := Tally.total_eq_zero fun _ => rfl
      refine ⟨⟨_, .new m p zeroed⟩, .of_forall fun _ => rfl, ?_⟩
      rw [hzero]
      rfl
    | @tail events l s s' _ hs _ ih =>
      obtain ⟨⟨a, ha⟩, hcounts⟩ := ih
      obtain ⟨-, a', -, ha'⟩ := simulates_object m p s a l s' ha hs trivial
      refine ⟨⟨a', ha'⟩, ?_⟩
      rw [Linear.returns_append]
      cases l with
      | call t o => simpa [Linear.returns, Sys.events] using hcounts.call hs
      | run t => exact hcounts.run ha hM hc hc' hs
  exact hcounts.2.eq

theorem nonBlockingStack_metrics_pushAndPop :
    ∃ (events : List (Nat × Linear.Event (StackOp Nat) (StackResult Nat))) (s : Sys Nat Nat),
      s.metrics .pushCount = 2 ∧ s.metrics .pushFullCount = 1 ∧
      (Linear.returns events).count (0, .pushed true) = 1 ∧ (s.op 0).pending .atomic .pushCount = 1 ∧
      s.metrics .pushCount = UInt64.ofNat (resultsOf .pushCount (Linear.returns events) +
        Tally.total (Op.pending .atomic .pushCount) s.op) := by
  have hmetrics : (Linear.trace (Sys.step .atomic oneSlot) Sys.events (Sys.new 0) pushAndPop).map
      (fun x => decide (x.2.metrics .pushCount = 2 ∧ x.2.metrics .pushFullCount = 1 ∧
        (Linear.returns x.1).count (0, .pushed true) = 1 ∧ (x.2.op 0).pending .atomic .pushCount = 1)) = some true := by
    decide +kernel
  obtain ⟨⟨events, s⟩, htrace, hres⟩ := Option.map_eq_some_iff.mp hmetrics
  obtain ⟨hpush, hfull, hcount, hpending⟩ := of_decide_eq_true hres
  exact ⟨events, s, hpush, hfull, hcount, hpending, nonBlockingStack_metrics (m := .atomic) (p := oneSlot) rfl
    (c := .pushCount) nofun nofun (.of_trace (fun _ _ _ => trivial) .refl htrace)⟩

end NonBlockingStack
end Mutiny
