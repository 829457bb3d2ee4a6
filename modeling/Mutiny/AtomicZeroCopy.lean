import Mathlib.Data.Fintype.Option
import Mutiny.ArrayPool
import Mutiny.LinearQueues

/-!
# `AtomicZeroCopy` over its atomic operations

The queue of slot ids and the free list of the allocator are `AtomicMove<u32, BUFFER_SIZE>`s, whose atomic operations
interleave with each other and with the accesses to the slots. `publish` and `publish_movable` take a slot id from the
free list, fill the slot and put the id into the queue; `consume` takes an id from the queue, reads the slot and puts the
id back. The length that `consume` reports goes to a callback that nobody uses.

`NonBlockingQueue` of `ogre_queues/atomic/non_blocking_queue.rs` calls `publish_movable` and `consume`, and counts what
they came to if `METRICS`.

There are no more slot ids than either ring has room for, and each of them is in one place (`Places`): so neither ring is
ever found full, and nobody writes to a slot whose id is in the queue or in the hands of somebody else.
-/

namespace Mutiny
open AtomicMove (Payload Inv Close)
open Linear (Object Status)

namespace AtomicZeroCopy

inductive Op (α : Type)
  | idle
  | returned (r : QueueResult α)
  -- in `alloc_ref()`
  | alloc (p : Payload α)
  -- about to fill the slot
  | fill (p : Payload α) (slotId : UInt32)
  -- in `queue.publish_movable(slot_id)`
  | publishId (p : Payload α) (slotId : UInt32)
  -- returned `(None, None)`
  | swallowed
  -- in `queue.consume_movable()`
  | take
  -- about to call `getter_fn(slot_ref)`
  | get (slotId : UInt32)
  -- in `dealloc_id(slot_id)`
  | dealloc (slotId : UInt32) (item : α)
  -- about to count the result
  | count (r : QueueResult α)

inductive Counter
  | enqueueCount
  | queueFullCount
  | dequeueCount
  | queueEmptyCount
deriving DecidableEq

def Counter.of {α : Type} : QueueResult α → Counter
  | .published _ => enqueueCount
  | .full => queueFullCount
  | .consumed _ => dequeueCount
  | .empty => queueEmptyCount

namespace Op
variable {α : Type}

def atRest : Op α → Bool
  | idle | returned _ => true
  | _ => false

def finish (METRICS : Bool) (r : QueueResult α) : Op α := if METRICS then .count r else .returned r

def result : Op α → Option (QueueResult α)
  | returned r => some r
  | _ => none

def afterAlloc (METRICS : Bool) (p : Payload α) : AtomicMove.Op UInt32 → Op α
  | .taken slotId => .fill p slotId
  | .empty => .finish METRICS .full
  | _ => .alloc p

/-- What follows a step of `publish_leaked_id(slot_id)`. -/
def afterPublish (METRICS : Bool) (p : Payload α) (slotId : UInt32) : AtomicMove.Op UInt32 → Op α
  | .published lenBefore => .finish METRICS (.published (lenBefore + 1))
  | .refused _ => .swallowed
  | _ => .publishId p slotId

/-- What follows a step of `consume_leaking()`. -/
def afterTake (METRICS : Bool) : AtomicMove.Op UInt32 → Op α
  | .taken slotId => .get slotId
  | .empty => .finish METRICS .empty
  | _ => .take

/-- What follows a step of `release_leaked_id(slot_id)`, which does not notice if the free list is full. -/
def afterDealloc (METRICS : Bool) (slotId : UInt32) (item : α) : AtomicMove.Op UInt32 → Op α
  | .published _ | .refused _ => .finish METRICS (.consumed item)
  | _ => .dealloc slotId item

def slot : Op α → Option UInt32
  | fill _ slotId | publishId _ slotId | get slotId | dealloc slotId _ => some slotId
  | _ => none

end Op

/-- `pool` are the slots. -/
structure Sys (τ α : Type) where
  freeList : AtomicMove.Sys τ UInt32
  pool : Nat → α
  queue : AtomicMove.Sys τ UInt32
  metrics : Counter → UInt64
  op : τ → Op α

inductive Label (τ α : Type)
  -- `publish_movable(item)` or `publish(setter)`, resp. `enqueue(element)`
  | publish (t : τ) (p : Payload α)
  -- `consume(..)`, resp. `dequeue()`
  | consume (t : τ)
  -- the next step of thread `t`
  | run (t : τ) (spurious : Bool)

variable {α τ : Type}

namespace Sys

def new (B : Nat) (pool : Nat → α) (t : τ) : Sys τ α :=
  ⟨(ArrayPool.new B t).freeList, pool, .init fun _ => 0, fun _ => 0, fun _ => .idle⟩

def elements (s : Sys τ α) : List α := s.queue.elements.map fun slotId => s.pool slotId.toNat

/-- There are at most `2 ^ 31 + 1` calls under way. -/
def FewCalls (s : Sys τ α) : Prop := ∀ F : Finset τ, (∀ t ∈ F, (s.op t).atRest = false) → F.card ≤ 2 ^ 31 + 1

def events (_ : Sys τ α) (l : Label τ α) (s' : Sys τ α) : List (τ × Linear.Event (QueueOp α) (QueueResult α)) :=
  match l with
  | .publish t p => [(t, .call (.publish p))]
  | .consume t => [(t, .call .consume)]
  | .run t _ => (s'.op t).result.toList.map fun r => (t, .ret r)

section Step
variable [DecidableEq τ]

def setOp (s : Sys τ α) (t : τ) (o : Op α) : Sys τ α := { s with op := Function.update s.op t o }

def run (METRICS : Bool) (B : Nat) (s : Sys τ α) (t : τ) (spurious : Bool) : Option (Sys τ α) :=
  match s.op t with
  | .idle | .returned _ | .swallowed => none
  | .alloc p =>
    (s.freeList.run B t spurious false).map fun freeList =>
      { s with freeList }.setOp t (.afterAlloc METRICS p (freeList.op t))
  | .fill p slotId =>
    (s.queue.call t (.leakReserve (.movable slotId))).map fun queue =>
      let stored := p.store (s.pool slotId.toNat)
      { s with pool := Function.update s.pool slotId.toNat stored, queue }.setOp t (.publishId p slotId)
  | .publishId p slotId =>
    (s.queue.run B t spurious false).map fun queue =>
      { s with queue }.setOp t (.afterPublish METRICS p slotId (queue.op t))
  | .take =>
    (s.queue.run B t spurious false).map fun queue =>
      { s with queue }.setOp t (.afterTake METRICS (queue.op t))
  | .get slotId =>
    (s.freeList.call t (.leakReserve (.movable slotId))).map fun freeList =>
      { s with freeList }.setOp t (.dealloc slotId (s.pool (slotId.toNat % B)))
  | .dealloc slotId item =>
    (s.freeList.run B t spurious false).map fun freeList =>
      { s with freeList }.setOp t (.afterDealloc METRICS slotId item (freeList.op t))
  | .count r =>
    let c := Counter.of r
    some ({ s with metrics := Function.update s.metrics c (s.metrics c + 1) }.setOp t (.returned r))

def step (METRICS : Bool) (B : Nat) (s : Sys τ α) : Label τ α → Option (Sys τ α)
  | .publish t p =>
    if (s.op t).atRest then
      (s.freeList.call t .consumeReserve).map fun freeList => { s with freeList }.setOp t (.alloc p)
    else none
  | .consume t =>
    if (s.op t).atRest then (s.queue.call t .consumeReserve).map fun queue => { s with queue }.setOp t .take
    else none
  | .run t spurious => s.run METRICS B t spurious

end Step
end Sys

/-! ### What a thread does in a ring of slot ids -/

inductive Role
  | rest
  | takes
  | brings (slotId : UInt32)
deriving DecidableEq

def Role.Fits : Role → AtomicMove.Op UInt32 → Prop
  | rest, o => o.atRest = true ∧ ArrayPool.accepted o = true
  | takes, o => ArrayPool.allocating o = true
  | brings slotId, o => ArrayPool.bringsBack o = some slotId ∧ ArrayPool.accepted o = true

def Op.freeRole : Op α → Role
  | alloc _ => .takes
  | dealloc slotId _ => .brings slotId
  | _ => .rest

def Op.queueRole : Op α → Role
  | take => .takes
  | publishId _ slotId => .brings slotId
  | _ => .rest

namespace Role.Fits
variable {role : Role} {o : AtomicMove.Op UInt32} {slotId : UInt32}

theorem accepted (h : role.Fits o) : ArrayPool.accepted o = true := by
  cases role with
  | rest | brings => exact h.2
  | takes => cases o <;> first | rfl | cases h

theorem brings_iff (h : role.Fits o) : role = .brings slotId ↔ ArrayPool.bringsBack o = some slotId := by
  have hnone : role = .rest ∨ role = .takes → ArrayPool.bringsBack o = none := by
    rintro (rfl | rfl)
    · obtain ⟨hrest, -⟩ := h
      cases o <;> first | rfl | cases hrest
    · cases o <;> first | rfl | cases h
  cases role with
  | rest => simp [hnone (.inl rfl)]
  | takes => simp [hnone (.inr rfl)]
  | brings slotId' => simp [h.1]

theorem takes_of_allocating (h : role.Fits o) (ho : ArrayPool.allocating o = true) : role = .takes := by
  cases role with
  | takes => rfl
  | rest =>
    have hbusy : o.atRest = false := by cases o <;> first | rfl | cases ho
    cases hbusy.symm.trans h.1
  | brings slotId' =>
    have hnone : ArrayPool.bringsBack o = none := by cases o <;> first | rfl | cases ho
    cases hnone.symm.trans h.1

theorem goOn {o' : AtomicMove.Op UInt32} (h : role.Fits o) (ho : o.atRest = false)
    (hback : ArrayPool.bringsBack o' = ArrayPool.bringsBack o) (halloc : ArrayPool.allocating o' = ArrayPool.allocating o)
    (hacc : ArrayPool.accepted o' = true) : role.Fits o' := by
  cases role with
  | rest => cases ho.symm.trans h.1
  | takes => exact halloc.trans h
  | brings slotId => exact ⟨hback.trans h.1, hacc⟩

end Role.Fits

/-- A ring of slot ids, whose threads play the roles `role`. -/
structure Bag (B : Nat) (role : τ → Role) (r : AtomicMove.Sys τ UInt32) : Prop where
  inv : ∃ g, Inv B r g
  fits : ∀ t, (role t).Fits (r.op t)
  lens : ∀ t, (r.op t).LenOk B

/-- What the next atomic operation of thread `t` does, by its role. -/
inductive Turn (B : Nat) (r r' : AtomicMove.Sys τ UInt32) (t : τ) : Role → Prop
  | stays {role : Role} (ht : (r'.op t).atRest = false) (h : role.Fits (r'.op t)) (he : r'.elements = r.elements) :
    Turn B r r' t role
  | puts {slotId lenBefore : UInt32} (h : r'.op t = .published lenBefore) (hlen : lenBefore.toNat < B)
    (room : r.elements.length < B) (he : r'.elements = r.elements ++ [slotId]) : Turn B r r' t (.brings slotId)
  | gets {slotId : UInt32} (h : r'.op t = .taken slotId) (he : r.elements = slotId :: r'.elements) :
    Turn B r r' t .takes
  | misses (h : r'.op t = .empty) (he : r'.elements = r.elements) : Turn B r r' t .takes

namespace Bag
variable {B : Nat} {role role' : τ → Role} {r r' : AtomicMove.Sys τ UInt32} {t : τ} {held : List (τ × UInt32)}
  {out : List UInt32}

theorem congr (h : Bag B role r) (hrole : ∀ t, role' t = role t) : Bag B role' r :=
  ⟨h.inv, fun t => by rw [hrole]; exact h.fits t, h.lens⟩

/-- The slot ids are in the ring, in the hands of the threads or elsewhere. -/
theorem accounts (h : Bag B role r) (hnodup : (held.map Prod.fst).Nodup)
    (hheld : ∀ t slotId, role t = .brings slotId → (t, slotId) ∈ held)
    (hslots : (r.elements ++ held.map Prod.snd ++ out).Perm (idRange 0 (UInt32.ofNat B))) :
    ∃ busy out', ArrayPool.Accounts B ⟨r, out'⟩ busy := by
  let brings : τ × UInt32 → Bool := fun x => role x.1 = .brings x.2
  refine ⟨held.filter brings, (held.filter fun x => !brings x).map Prod.snd ++ out, ?_, fun t slotId => ?_,
    fun t => (h.fits t).accepted, ?_⟩
  · exact (List.filter_sublist.map Prod.fst).nodup hnodup
  · rw [List.mem_filter, decide_eq_true_iff, ← (h.fits t).brings_iff]
    exact ⟨And.right, fun hb => ⟨hheld t slotId hb, hb⟩⟩
  · refine List.Perm.trans ?_ hslots
    have hsplit : ((held.filter brings).map Prod.snd ++ (held.filter fun x => !brings x).map Prod.snd).Perm
        (held.map Prod.snd) := by
      rw [← List.map_append]
      exact (List.filter_append_perm brings held).map _
    show (r.elements ++ _ ++ (_ ++ out)).Perm _
    rw [← List.append_assoc, List.append_assoc r.elements]
    exact (hsplit.append_left _).append_right out

variable [DecidableEq τ]

theorem moves {busy : List (τ × UInt32)} (hB : B ∣ 2 ^ 32) (hlt : B < 2 ^ 32) (h : Bag B role r)
    (hacc : ArrayPool.Accounts B ⟨r, out⟩ busy) (hfew : ArrayPool.FewAllocs ⟨r, out⟩) (hm : AtomicMove.Sys.Moves B r t r') :
    Turn B r r' t (role t) ∧ ∀ role', (∀ u, u ≠ t → role' u = role u) → (role' t).Fits (r'.op t) → Bag B role' r' := by
  obtain ⟨g, hg⟩ := h.inv
  have hw := hacc.close hg hB hlt hfew
  have hlens := h.lens t
  have hfit := h.fits t
  have haccepted := hfit.accepted
  have hgoes : (r'.op t).LenOk B →
      ∀ role', (∀ u, u ≠ t → role' u = role u) → (role' t).Fits (r'.op t) → Bag B role' r' := by
    refine fun hlen role' hrole hfits => ⟨hg.moves hw hm, fun u => ?_, fun u => ?_⟩ <;> by_cases hut : u = t
    · rw [hut]
      exact hfits
    · rw [hm.op_of_ne hut, hrole u hut]
      exact h.fits u
    · rw [hut]
      exact hlen
    · rw [hm.op_of_ne hut]
      exact h.lens u
  -- an operation that neither puts nor gets anything
  have hset : ∀ (q : AtomicMove UInt32) (o : AtomicMove.Op UInt32), (r.op t).atRest = false → o.atRest = false →
      ArrayPool.bringsBack o = ArrayPool.bringsBack (r.op t) → ArrayPool.allocating o = ArrayPool.allocating (r.op t) →
      ArrayPool.accepted o = true → Turn B r ({ r with q }.setOp t o) t (role t) := by
    intro q o ht ho hback halloc hacc'
    have hself : ({ r with q }.setOp t o).op t = o := Function.update_self ..
    refine .stays (by rw [hself]; exact ho) ?_ rfl
    rw [hself]
    exact hfit.goOn ht hback halloc hacc'
  have hself : ∀ (r₁ : AtomicMove.Sys τ UInt32) (o : AtomicMove.Op UInt32), o.LenOk B → ((r₁.setOp t o).op t).LenOk B := by
    intro r₁ o ho
    show (Function.update r₁.op t o t).LenOk B
    rwa [Function.update_self]
  cases hm with
  | @leakReserve p ho =>
    rw [ho] at haccepted
    cases p with
    | movable w => exact ⟨hset _ _ (by rw [ho]; rfl) rfl (by rw [ho]; rfl) (by rw [ho]; rfl) rfl, hgoes (hself _ _ trivial)⟩
    | setter => cases haccepted
  | @leakOk p i ho hlen =>
    rw [ho] at haccepted
    cases p with
    | movable w => exact ⟨hset _ _ (by rw [ho]; rfl) rfl (by rw [ho]; rfl) (by rw [ho]; rfl) rfl, hgoes (hself _ _ hlen)⟩
    | setter => cases haccepted
  | leakFull ho hlen =>
    obtain ⟨n, hn, -, hiff⟩ := hg.leakCheck_iff hw ho
    have hr := hg.prod.range _ n hn
    have henq : g.enq ≤ r.consumed.length + B := hacc.enq_le hg hlt
    exact absurd (hiff.mpr (by omega)) hlen
  | leakRecede ho | leakRetry ho | leakAgain ho | leakRefuse ho =>
    rw [ho] at haccepted
    cases haccepted
  | @write p i l ho v hv =>
    rw [ho] at haccepted hlens
    cases p with
    | movable w => exact ⟨hset _ _ (by rw [ho]; rfl) rfl (by rw [ho]; rfl) (by rw [ho]; rfl) rfl, hgoes (hself _ _ hlens)⟩
    | setter => cases haccepted
  | @publish p i l v ho hcas =>
    obtain ⟨-, hroom, -, -, old, hv⟩ := hg.publish_id hw ho hcas
    rw [ho] at haccepted hlens
    cases p with
    | setter => cases haccepted
    | movable w =>
      obtain rfl : v = w := hv
      have hrole : role t = .brings v := hfit.brings_iff.mpr (by rw [ho]; rfl)
      refine ⟨?_, hgoes (hself _ _ trivial)⟩
      rw [hrole]
      have hl := UInt32.lt_iff_toNat_lt.mp hlens
      rw [Wrap.toNat_ofNat_of_lt hlt] at hl
      refine .puts (Function.update_self ..) hl ?_ (AtomicMove.Matches.elements_publish hg.le _)
      rw [AtomicMove.Sys.elements, List.length_map, List.length_drop]
      omega
  | @release i v ho hcas =>
    obtain ⟨-, hv, -⟩ := hg.release_id hw ho hcas
    refine ⟨?_, hgoes (hself _ _ trivial)⟩
    rw [hfit.takes_of_allocating (by rw [ho]; rfl)]
    exact .gets (Function.update_self ..) (AtomicMove.Matches.elements_release hv _)
  | consumeRecede ho =>
    refine ⟨?_, hgoes (hself _ _ trivial)⟩
    rw [hfit.takes_of_allocating (by rw [ho]; rfl)]
    exact .misses (Function.update_self ..) rfl
  | spin ho => exact ⟨.stays (by cases hop : r.op t <;> rw [hop] at ho <;> first | rfl | cases ho) hfit rfl, hgoes hlens⟩
  | consumeReserve ho | consumeOk ho | consumeNone ho | consumeRetry ho | read ho =>
    exact ⟨hset _ _ (by rw [ho]; rfl) rfl (by rw [ho]; rfl) (by rw [ho]; rfl) rfl, hgoes (hself _ _ trivial)⟩

theorem call {o : AtomicMove.Op UInt32} (h : Bag B role r) (ho : o = .consumeReserve ∨ ∃ p, o = .leakReserve p)
    (hs : r.call t o = some r') : r'.op t = o ∧ r'.elements = r.elements ∧
      ∀ role', (∀ u, u ≠ t → role' u = role u) → (role' t).Fits (r'.op t) → Bag B role' r' := by
  obtain ⟨g, hg⟩ := h.inv
  obtain ⟨hrest, hs⟩ := Option.ite_none_right_eq_some.mp hs
  cases hs
  have hlen : o.LenOk B := by rcases ho with rfl | ⟨p, rfl⟩ <;> trivial
  refine ⟨Function.update_self .., rfl, fun role' hrole hfits => ⟨⟨g, hg.call hrest ho _⟩, fun u => ?_, fun u => ?_⟩⟩
  · by_cases hut : u = t
    · rw [hut]
      exact hfits
    · show (role' u).Fits (Function.update r.op t o u)
      rw [Function.update_of_ne hut, hrole u hut]
      exact h.fits u
  · show (Function.update r.op t o u).LenOk B
    by_cases hut : u = t
    · subst hut
      rwa [Function.update_self]
    · rw [Function.update_of_ne hut]
      exact h.lens u

end Bag

/-! ### Every slot id is in one place -/

/-- `held` are the slot ids in the hands of the threads. -/
structure Places (B : Nat) (s : Sys τ α) (held : List (τ × UInt32)) : Prop where
  nodup : (held.map Prod.fst).Nodup
  mem : ∀ t slotId, (t, slotId) ∈ held ↔ (s.op t).slot = some slotId
  slots : (s.freeList.elements ++ s.queue.elements ++ held.map Prod.snd).Perm (idRange 0 (UInt32.ofNat B))

namespace Places
variable {B : Nat} {s s' : Sys τ α} {held : List (τ × UInt32)} {t : τ} {o : Op α} {slotId : UInt32}

theorem apart (h : Places B s held) (hlt : B < 2 ^ 32) (ht : (s.op t).slot = some slotId) :
    slotId.toNat < B ∧ slotId ∉ s.queue.elements ∧ ∀ u, u ≠ t → (s.op u).slot ≠ some slotId := by
  have hmem := (h.mem t slotId).mpr ht
  have hin : slotId ∈ held.map Prod.snd := List.mem_map_of_mem hmem
  have hnodup := h.slots.nodup_iff.mpr nodup_idRange
  obtain ⟨-, hheld, hdisjoint⟩ := List.nodup_append.mp hnodup
  refine ⟨?_, fun hq => hdisjoint _ (List.mem_append_right _ hq) _ hin rfl, fun u hut hu => hut ?_⟩
  · have hrange := (mem_idRange.mp (h.slots.mem_iff.mp (List.mem_append_right _ hin))).2
    rwa [UInt32.lt_iff_toNat_lt, Wrap.toNat_ofNat_of_lt hlt] at hrange
  · exact congrArg Prod.fst (List.inj_on_of_nodup_map hheld ((h.mem u slotId).mpr hu) hmem rfl)

variable [DecidableEq τ]

theorem keeps (h : Places B s held) (hop : s'.op = Function.update s.op t o) (ho : o.slot = (s.op t).slot)
    (hfree : s'.freeList.elements = s.freeList.elements) (hqueue : s'.queue.elements = s.queue.elements) :
    Places B s' held := by
  refine ⟨h.nodup, fun u slotId => ?_, by rw [hfree, hqueue]; exact h.slots⟩
  rw [h.mem, hop]
  by_cases hut : u = t
  · subst hut
    rw [Function.update_self, ho]
  · rw [Function.update_of_ne hut]

theorem gets (h : Places B s held) (hop : s'.op = Function.update s.op t o) (ht : (s.op t).slot = none)
    (ho : o.slot = some slotId) (he : (s.freeList.elements ++ s.queue.elements).Perm
      (slotId :: (s'.freeList.elements ++ s'.queue.elements))) : Places B s' ((t, slotId) :: held) := by
  refine ⟨List.nodup_cons.mpr ⟨fun hm => ?_, h.nodup⟩, fun u x => ?_, ?_⟩
  · obtain ⟨⟨u, x⟩, hux, rfl⟩ := List.mem_map.mp hm
    cases ht.symm.trans ((h.mem u x).mp hux)
  · rw [List.mem_cons, h.mem, hop]
    by_cases hut : u = t
    · subst hut
      rw [Function.update_self, ho, ht]
      simp [eq_comm]
    · rw [Function.update_of_ne hut]
      simp [hut]
  · refine List.Perm.trans ?_ h.slots
    exact List.perm_middle.trans (he.symm.append_right _)

theorem puts (h : Places B s held) (hop : s'.op = Function.update s.op t o) (ht : (s.op t).slot = some slotId)
    (ho : o.slot = none) (he : (s'.freeList.elements ++ s'.queue.elements).Perm
      (slotId :: (s.freeList.elements ++ s.queue.elements))) : Places B s' (held.erase (t, slotId)) := by
  have hmem := (h.mem t slotId).mpr ht
  have hperm := List.perm_cons_erase hmem
  refine ⟨(List.erase_sublist.map Prod.fst).nodup h.nodup, fun u x => ?_, ?_⟩
  · rw [hop]
    by_cases hut : u = t
    · subst hut
      rw [Function.update_self, ho]
      refine ⟨fun hm => ?_, nofun⟩
      obtain rfl : x = slotId := Option.some.inj (((h.mem u x).mp (List.mem_of_mem_erase hm)).symm.trans ht)
      exact absurd hm (h.nodup.of_map _).not_mem_erase
    · rw [Function.update_of_ne hut, List.mem_erase_of_ne (by simp [hut]), h.mem]
  · refine List.Perm.trans ?_ h.slots
    refine (he.append_right _).trans ?_
    rw [List.cons_append]
    exact List.perm_middle.symm.trans ((hperm.map Prod.snd).symm.append_left _)

end Places

/-! ### The queue is linearizable -/

namespace Op
variable {METRICS : Bool} {p : Payload α} {o : AtomicMove.Op UInt32} {slotId : UInt32} {item : α} {r : QueueResult α}

/-- The thread at `o` stands at `st`, with what is in its slot. -/
def Stands (pool : Nat → α) (st : Status (QueueOp α) (QueueResult α)) : Op α → Prop
  | idle | returned _ => st = .idle
  | alloc p | fill p _ => st = .called (.publish p)
  | publishId p slotId => st = .called (.publish p) ∧ ∃ old, pool slotId.toNat = p.store old
  | swallowed => False
  | take => st = .called .consume
  | get slotId => st = .done (.consumed (pool slotId.toNat))
  | dealloc _ item => st = .done (.consumed item)
  | count r => st = .done r

theorem Stands.congr {pool pool' : Nat → α} {st : Status (QueueOp α) (QueueResult α)} {o : Op α} (h : o.Stands pool st)
    (hpool : ∀ slotId, o.slot = some slotId → pool' slotId.toNat = pool slotId.toNat) : o.Stands pool' st := by
  cases o with
  | publishId p slotId =>
    rw [Stands, hpool slotId rfl]
    exact h
  | get slotId =>
    rw [Stands, hpool slotId rfl]
    exact h
  | _ => exact h

theorem afterAlloc_of_busy (h : o.atRest = false) : (afterAlloc METRICS p o : Op α) = .alloc p := by
  cases o <;> first | rfl | cases h

theorem afterPublish_of_busy (h : o.atRest = false) : (afterPublish METRICS p slotId o : Op α) = .publishId p slotId := by
  cases o <;> first | rfl | cases h

theorem afterTake_of_busy (h : o.atRest = false) : (afterTake METRICS o : Op α) = .take := by
  cases o <;> first | rfl | cases h

theorem afterDealloc_of_busy (h : o.atRest = false) : (afterDealloc METRICS slotId item o : Op α) = .dealloc slotId item := by
  cases o <;> first | rfl | cases h

@[simp] theorem slot_finish : (finish METRICS r).slot = none := by cases METRICS <;> rfl

@[simp] theorem freeRole_finish : (finish METRICS r).freeRole = .rest := by cases METRICS <;> rfl

@[simp] theorem queueRole_finish : (finish METRICS r).queueRole = .rest := by cases METRICS <;> rfl

theorem stands_of_atRest {o : Op α} (h : o.atRest = true) (pool : Nat → α) (st : Status (QueueOp α) (QueueResult α)) :
    o.Stands pool st ↔ st = .idle := by
  cases o <;> first | exact .rfl | cases h

theorem atRest_of_freeRole {o : Op α} (h : o.freeRole ≠ .rest) : o.atRest = false := by
  cases o <;> first | rfl | exact absurd rfl h

theorem atRest_of_queueRole {o : Op α} (h : o.queueRole ≠ .rest) : o.atRest = false := by
  cases o <;> first | rfl | exact absurd rfl h

theorem slot_of_freeRole {o : Op α} (h : o.freeRole = .brings slotId) : o.slot = some slotId := by
  cases o <;> cases h
  rfl

theorem slot_of_queueRole {o : Op α} (h : o.queueRole = .brings slotId) : o.slot = some slotId := by
  cases o <;> cases h
  rfl

end Op

variable {METRICS : Bool} {B : Nat} {s s' : Sys τ α} {t : τ} {o : Op α}
  {a : Object τ (List α) (QueueOp α) (QueueResult α)}

/-- The object has the elements of the queue, and each thread stands there where it does here. -/
structure Matches (B : Nat) (s : Sys τ α) (a : Object τ (List α) (QueueOp α) (QueueResult α)) : Prop where
  free : Bag B (fun t => (s.op t).freeRole) s.freeList
  queue : Bag B (fun t => (s.op t).queueRole) s.queue
  few : s.FewCalls
  places : ∃ held, Places B s held
  stands : ∀ t, (s.op t).Stands s.pool (a.status t)
  state : a.state = s.elements

namespace Matches
variable [DecidableEq τ]

theorem freeTurn {r : AtomicMove.Sys τ UInt32} (h : Matches B s a) (hB : B ∣ 2 ^ 32) (hlt : B < 2 ^ 32)
    (hm : AtomicMove.Sys.Moves B s.freeList t r) : Turn B s.freeList r t (s.op t).freeRole ∧
      ∀ role', (∀ u, u ≠ t → role' u = (s.op u).freeRole) → (role' t).Fits (r.op t) → Bag B role' r := by
  obtain ⟨held, hp⟩ := h.places
  have hslots : (s.freeList.elements ++ held.map Prod.snd ++ s.queue.elements).Perm (idRange 0 (UInt32.ofNat B)) := by
    refine List.Perm.trans ?_ hp.slots
    rw [List.append_assoc, List.append_assoc]
    exact List.perm_append_comm.append_left _
  obtain ⟨busy, out, hacc⟩ := h.free.accounts hp.nodup
    (fun u slotId hu => (hp.mem u slotId).mpr (Op.slot_of_freeRole hu)) hslots
  refine h.free.moves hB hlt hacc (fun F hF => h.few F fun u hu => ?_) hm
  refine Op.atRest_of_freeRole ?_
  rw [(h.free.fits u).takes_of_allocating (hF u hu)]
  nofun

theorem queueTurn {r : AtomicMove.Sys τ UInt32} (h : Matches B s a) (hB : B ∣ 2 ^ 32) (hlt : B < 2 ^ 32)
    (hm : AtomicMove.Sys.Moves B s.queue t r) : Turn B s.queue r t (s.op t).queueRole ∧
      ∀ role', (∀ u, u ≠ t → role' u = (s.op u).queueRole) → (role' t).Fits (r.op t) → Bag B role' r := by
  obtain ⟨held, hp⟩ := h.places
  have hslots : (s.queue.elements ++ held.map Prod.snd ++ s.freeList.elements).Perm (idRange 0 (UInt32.ofNat B)) := by
    refine List.Perm.trans ?_ hp.slots
    exact List.perm_append_comm.trans (List.Perm.of_eq (List.append_assoc ..).symm)
  obtain ⟨busy, out, hacc⟩ := h.queue.accounts hp.nodup
    (fun u slotId hu => (hp.mem u slotId).mpr (Op.slot_of_queueRole hu)) hslots
  refine h.queue.moves hB hlt hacc (fun F hF => h.few F fun u hu => ?_) hm
  refine Op.atRest_of_queueRole ?_
  rw [(h.queue.fits u).takes_of_allocating (hF u hu)]
  nofun

/-- What the object knows nothing of: thread `t` has moved on to `o`. -/
structure Follows (B : Nat) (s : Sys τ α) (t : τ) (o : Op α) (s' : Sys τ α) : Prop where
  op : s'.op = Function.update s.op t o
  free : Bag B (fun u => (s'.op u).freeRole) s'.freeList
  queue : Bag B (fun u => (s'.op u).queueRole) s'.queue
  few : s'.FewCalls
  places : ∃ held, Places B s' held
  pool : ∀ u, u ≠ t → ∀ slotId, (s.op u).slot = some slotId → s'.pool slotId.toNat = s.pool slotId.toNat

theorem role_setOp {role : Op α → Role} (ho : role o = role (s.op t)) (u : τ) :
    role (Function.update s.op t o u) = role (s.op u) := by
  by_cases hut : u = t
  · subst hut
    rw [Function.update_self, ho]
  · rw [Function.update_of_ne hut]

theorem followsFree {r : AtomicMove.Sys τ UInt32} (h : Matches B s a)
    (hbag : ∀ role', (∀ u, u ≠ t → role' u = (s.op u).freeRole) → (role' t).Fits (r.op t) → Bag B role' r)
    (hfits : o.freeRole.Fits (r.op t)) (hrole : o.queueRole = (s.op t).queueRole)
    (hfew : ({ s with freeList := r }.setOp t o).FewCalls)
    (hplaces : ∃ held, Places B ({ s with freeList := r }.setOp t o) held) :
    Follows B s t o ({ s with freeList := r }.setOp t o) where
  op := rfl
  free := by
    refine hbag _ (fun u hu => ?_) ?_
    · exact congrArg Op.freeRole (Function.update_of_ne hu ..)
    · show (Function.update s.op t o t).freeRole.Fits _
      rwa [Function.update_self]
  queue := h.queue.congr fun u => role_setOp hrole u
  few := hfew
  places := hplaces
  pool _ _ _ _ := rfl

theorem followsQueue {r : AtomicMove.Sys τ UInt32} {pool : Nat → α} (h : Matches B s a)
    (hbag : ∀ role', (∀ u, u ≠ t → role' u = (s.op u).queueRole) → (role' t).Fits (r.op t) → Bag B role' r)
    (hfits : o.queueRole.Fits (r.op t)) (hrole : o.freeRole = (s.op t).freeRole)
    (hfew : ({ s with pool, queue := r }.setOp t o).FewCalls)
    (hplaces : ∃ held, Places B ({ s with pool, queue := r }.setOp t o) held)
    (hpool : ∀ u, u ≠ t → ∀ slotId, (s.op u).slot = some slotId → pool slotId.toNat = s.pool slotId.toNat) :
    Follows B s t o ({ s with pool, queue := r }.setOp t o) where
  op := rfl
  free := h.free.congr fun u => role_setOp hrole u
  queue := by
    refine hbag _ (fun u hu => ?_) ?_
    · exact congrArg Op.queueRole (Function.update_of_ne hu ..)
    · show (Function.update s.op t o t).queueRole.Fits _
      rwa [Function.update_self]
  few := hfew
  places := hplaces
  pool := hpool

theorem goOn {st : Status (QueueOp α) (QueueResult α)} (h : Matches B s a) (hf : Follows B s t o s')
    (hst : o.Stands s'.pool st) : Matches B s' { a.setStatus t st with state := s'.elements } := by
  refine ⟨hf.free, hf.queue, hf.few, hf.places, fun u => ?_, rfl⟩
  show (s'.op u).Stands s'.pool (Function.update a.status t st u)
  rw [hf.op]
  by_cases hut : u = t
  · subst hut
    rw [Function.update_self, Function.update_self]
    exact hst
  · rw [Function.update_of_ne hut, Function.update_of_ne hut]
    exact (h.stands u).congr (hf.pool u hut)

theorem events_run {spurious : Bool} (hf : Follows B s t o s') :
    s.events (.run t spurious) s' = o.result.toList.map fun r => (t, .ret r) := by
  show ((s'.op t).result.toList.map fun r => (t, Linear.Event.ret r)) = _
  rw [hf.op, Function.update_self]

variable {spurious : Bool} {r : QueueResult α}

theorem silent (h : Matches B s a) (hf : Follows B s t o s') (hst : o.Stands s'.pool (a.status t))
    (hres : o.result = none) (he : s'.elements = s.elements) :
    ∃ log a', Object.Steps (FifoSpec B false) a (s.events (.run t spurious) s') log a' ∧ Matches B s' a' := by
  have hm := h.goOn hf hst
  rw [Object.setStatus_of_eq rfl, he, ← h.state] at hm
  rw [events_run hf, hres]
  exact ⟨[], a, .refl, hm⟩

theorem takes {qo : QueueOp α} (h : Matches B s a) (hf : Follows B s t o s') (hcalled : a.status t = .called qo)
    (hspec : FifoSpec B false s.elements qo r s'.elements) (hst : o.Stands s'.pool (.done r)) (hres : o.result = none) :
    ∃ log a', Object.Steps (FifoSpec B false) a (s.events (.run t spurious) s') log a' ∧ Matches B s' a' := by
  rw [← h.state] at hspec
  rw [events_run hf, hres]
  exact ⟨_, _, (Object.Step.take hcalled hspec).steps, h.goOn hf hst⟩

/-- An operation that has taken effect returns, unless it has to be counted. -/
theorem finishes (h : Matches B s a) (hf : Follows B s t (.finish METRICS r) s') (hdone : a.status t = .done r)
    (he : s'.elements = s.elements) :
    ∃ log a', Object.Steps (FifoSpec B false) a (s.events (.run t spurious) s') log a' ∧ Matches B s' a' := by
  cases METRICS with
  | true => exact h.silent hf hdone rfl he
  | false =>
    have hm : Matches B s' { a.setStatus t .idle with state := s'.elements } := h.goOn hf rfl
    rw [he, ← h.state] at hm
    rw [events_run hf]
    exact ⟨[], _, (Object.Step.ret hdone).steps, hm⟩

/-- The operation takes effect and returns, unless it has to be counted. -/
theorem answers {qo : QueueOp α} (h : Matches B s a) (hf : Follows B s t (.finish METRICS r) s')
    (hcalled : a.status t = .called qo) (hspec : FifoSpec B false s.elements qo r s'.elements) :
    ∃ log a', Object.Steps (FifoSpec B false) a (s.events (.run t spurious) s') log a' ∧ Matches B s' a' := by
  cases METRICS with
  | true => exact h.takes hf hcalled hspec rfl rfl
  | false =>
    rw [← h.state] at hspec
    rw [events_run hf]
    exact ⟨_, _, .answer hcalled hspec, h.goOn hf rfl⟩

/-! One lemma for each place where a thread can stand. -/

theorem alloc {p : Payload α} {f : AtomicMove.Sys τ UInt32} (h : Matches B s a) (hB : B ∣ 2 ^ 32) (hlt : B < 2 ^ 32)
    (ho : s.op t = .alloc p) (hm : AtomicMove.Sys.Moves B s.freeList t f)
    (hfew : ({ s with freeList := f }.setOp t (.afterAlloc METRICS p (f.op t))).FewCalls) :
    let s' := { s with freeList := f }.setOp t (.afterAlloc METRICS p (f.op t))
    ∃ log a', Object.Steps (FifoSpec B false) a (s.events (.run t spurious) s') log a' ∧ Matches B s' a' := by
  obtain ⟨hturn, hbag⟩ := h.freeTurn hB hlt hm
  obtain ⟨held, hp⟩ := h.places
  have hst := h.stands t
  rw [ho] at hst hturn
  cases (show Turn B s.freeList f t .takes from hturn) with
  | stays hbusy hfits he =>
    rw [Op.afterAlloc_of_busy hbusy] at hfew ⊢
    have hf := h.followsFree (o := .alloc p) hbag hfits (by rw [ho]) hfew ⟨held, hp.keeps rfl (by rw [ho]) he rfl⟩
    exact h.silent hf hst rfl rfl
  | @gets slotId hop he =>
    rw [hop] at hfew ⊢
    have hfits : (Op.fill p slotId).freeRole.Fits (f.op t) := by rw [hop]; exact ⟨rfl, rfl⟩
    have hslots : (s.freeList.elements ++ s.queue.elements).Perm (slotId :: (f.elements ++ s.queue.elements)) := by
      rw [he, List.cons_append]
    have hf := h.followsFree (o := .fill p slotId) hbag hfits (by rw [ho]; rfl) hfew
      ⟨_, hp.gets rfl (by rw [ho]; rfl) rfl hslots⟩
    exact h.silent hf hst rfl rfl
  | misses hop he =>
    rw [hop] at hfew ⊢
    have hfits : (Op.finish METRICS (.full : QueueResult α)).freeRole.Fits (f.op t) := by
      rw [hop, Op.freeRole_finish]
      exact ⟨rfl, rfl⟩
    have hf := h.followsFree (o := .finish METRICS .full) hbag hfits (by rw [ho, Op.queueRole_finish]; rfl) hfew
      ⟨held, hp.keeps rfl (by rw [ho, Op.slot_finish]; rfl) he rfl⟩
    exact h.answers hf hst (.full fun hx => (Bool.false_ne_true hx).elim)

omit [DecidableEq τ] in
theorem elements_write {slotId : UInt32} {x : α} (hq : slotId ∉ s.queue.elements) :
    (s.queue.elements.map fun i => Function.update s.pool slotId.toNat x i.toNat) = s.elements := by
  refine List.map_congr_left fun i hi => Function.update_of_ne ?_ ..
  intro heq
  rw [UInt32.toNat_inj.mp heq] at hi
  exact hq hi

theorem fill {p : Payload α} {slotId : UInt32} {q : AtomicMove.Sys τ UInt32} (h : Matches B s a) (hlt : B < 2 ^ 32)
    (ho : s.op t = .fill p slotId) (hs : s.queue.call t (.leakReserve (.movable slotId)) = some q)
    (hfew : Sys.FewCalls ({ s with pool := Function.update s.pool slotId.toNat (p.store (s.pool slotId.toNat)),
                                   queue := q }.setOp t (.publishId p slotId))) :
    let s' := { s with pool := Function.update s.pool slotId.toNat (p.store (s.pool slotId.toNat)),
                       queue := q }.setOp t (.publishId p slotId)
    ∃ log a', Object.Steps (FifoSpec B false) a (s.events (.run t spurious) s') log a' ∧ Matches B s' a' := by
  obtain ⟨held, hp⟩ := h.places
  obtain ⟨-, hnot, hapart⟩ := hp.apart hlt (by rw [ho]; rfl)
  obtain ⟨hop, he, hbag⟩ := h.queue.call (.inr ⟨_, rfl⟩) hs
  have hst := h.stands t
  rw [ho] at hst
  have hfits : (Op.publishId p slotId).queueRole.Fits (q.op t) := by rw [hop]; exact ⟨rfl, rfl⟩
  have hf := h.followsQueue (o := .publishId p slotId) hbag hfits (by rw [ho]; rfl) hfew
    ⟨held, hp.keeps rfl (by rw [ho]; rfl) rfl he⟩ fun u hu i hi => Function.update_of_ne ?_ ..
  · refine h.silent hf ⟨hst, s.pool slotId.toNat, Function.update_self ..⟩ rfl ?_
    show (q.elements.map fun i => Function.update s.pool slotId.toNat _ i.toNat) = _
    rw [he, elements_write hnot]
  · intro heq
    rw [UInt32.toNat_inj.mp heq] at hi
    exact hapart u hu hi

theorem publishId {p : Payload α} {slotId : UInt32} {q : AtomicMove.Sys τ UInt32} (h : Matches B s a) (hB : B ∣ 2 ^ 32)
    (hlt : B < 2 ^ 32) (ho : s.op t = .publishId p slotId) (hm : AtomicMove.Sys.Moves B s.queue t q)
    (hfew : ({ s with queue := q }.setOp t (.afterPublish METRICS p slotId (q.op t))).FewCalls) :
    let s' := { s with queue := q }.setOp t (.afterPublish METRICS p slotId (q.op t))
    ∃ log a', Object.Steps (FifoSpec B false) a (s.events (.run t spurious) s') log a' ∧ Matches B s' a' := by
  obtain ⟨hturn, hbag⟩ := h.queueTurn hB hlt hm
  obtain ⟨held, hp⟩ := h.places
  have hst := h.stands t
  rw [ho] at hst hturn
  cases (show Turn B s.queue q t (.brings slotId) from hturn) with
  | stays hbusy hfits he =>
    rw [Op.afterPublish_of_busy hbusy] at hfew ⊢
    have hf := h.followsQueue (o := .publishId p slotId) hbag hfits (by rw [ho]) hfew
      ⟨held, hp.keeps rfl (by rw [ho]) rfl he⟩ fun _ _ _ _ => rfl
    exact h.silent hf hst rfl (congrArg (List.map _) he)
  | @puts _ l hop hl hroom he =>
    rw [hop] at hfew ⊢
    have hfits : (Op.finish METRICS (.published (l + 1) : QueueResult α)).queueRole.Fits (q.op t) := by
      rw [hop, Op.queueRole_finish]
      exact ⟨rfl, rfl⟩
    have hslots : (s.freeList.elements ++ q.elements).Perm (slotId :: (s.freeList.elements ++ s.queue.elements)) := by
      rw [he, ← List.append_assoc]
      exact List.perm_append_singleton ..
    have hf := h.followsQueue (o := .finish METRICS (.published (l + 1))) hbag hfits
      (by rw [ho, Op.freeRole_finish]; rfl) hfew ⟨_, hp.puts rfl (by rw [ho]; rfl) (Op.slot_finish ..) hslots⟩
      fun _ _ _ _ => rfl
    obtain ⟨hcalled, old, hold⟩ := hst
    refine h.answers hf hcalled ?_
    have helements : (q.elements.map fun i => s.pool i.toNat) = s.elements ++ [p.store old] := by
      rw [he, List.map_append, ← hold]
      rfl
    have hlen : (l + 1).toNat = l.toNat + 1 := by
      rw [UInt32.toNat_add, UInt32.toNat_one, Nat.mod_eq_of_lt (by omega)]
    show FifoSpec B false _ _ _ (q.elements.map fun i => s.pool i.toNat)
    rw [helements]
    refine .published ?_ old (by omega) (by omega) fun hx => (Bool.false_ne_true hx).elim
    rwa [Sys.elements, List.length_map]

theorem take {q : AtomicMove.Sys τ UInt32} (h : Matches B s a) (hB : B ∣ 2 ^ 32) (hlt : B < 2 ^ 32) (ho : s.op t = .take)
    (hm : AtomicMove.Sys.Moves B s.queue t q)
    (hfew : ({ s with queue := q }.setOp t (.afterTake METRICS (q.op t))).FewCalls) :
    let s' := { s with queue := q }.setOp t (.afterTake METRICS (q.op t))
    ∃ log a', Object.Steps (FifoSpec B false) a (s.events (.run t spurious) s') log a' ∧ Matches B s' a' := by
  obtain ⟨hturn, hbag⟩ := h.queueTurn hB hlt hm
  obtain ⟨held, hp⟩ := h.places
  have hst := h.stands t
  rw [ho] at hst hturn
  cases (show Turn B s.queue q t .takes from hturn) with
  | stays hbusy hfits he =>
    rw [Op.afterTake_of_busy hbusy] at hfew ⊢
    have hf := h.followsQueue (o := .take) hbag hfits (by rw [ho]) hfew ⟨held, hp.keeps rfl (by rw [ho]) rfl he⟩
      fun _ _ _ _ => rfl
    exact h.silent hf hst rfl (congrArg (List.map _) he)
  | @gets slotId hop he =>
    rw [hop] at hfew ⊢
    have hfits : (Op.get slotId : Op α).queueRole.Fits (q.op t) := by rw [hop]; exact ⟨rfl, rfl⟩
    have hslots : (s.freeList.elements ++ s.queue.elements).Perm (slotId :: (s.freeList.elements ++ q.elements)) := by
      rw [he]
      exact List.perm_middle
    have hf := h.followsQueue (o := .get slotId) hbag hfits (by rw [ho]; rfl) hfew
      ⟨_, hp.gets rfl (by rw [ho]; rfl) rfl hslots⟩ fun _ _ _ _ => rfl
    refine h.takes hf hst ?_ rfl rfl
    rw [Sys.elements, he]
    exact .consumed _ _
  | misses hop he =>
    rw [hop] at hfew ⊢
    have hfits : (Op.finish METRICS (.empty : QueueResult α)).queueRole.Fits (q.op t) := by
      rw [hop, Op.queueRole_finish]
      exact ⟨rfl, rfl⟩
    have hf := h.followsQueue (o := .finish METRICS .empty) hbag hfits (by rw [ho, Op.freeRole_finish]; rfl) hfew
      ⟨held, hp.keeps rfl (by rw [ho, Op.slot_finish]; rfl) rfl he⟩ fun _ _ _ _ => rfl
    refine h.answers hf hst ?_
    show FifoSpec B false _ _ _ (q.elements.map fun i => s.pool i.toNat)
    rw [he]
    exact .empty fun hx => (Bool.false_ne_true hx).elim

theorem get {slotId : UInt32} {f : AtomicMove.Sys τ UInt32} (h : Matches B s a) (hlt : B < 2 ^ 32)
    (ho : s.op t = .get slotId) (hs : s.freeList.call t (.leakReserve (.movable slotId)) = some f)
    (hfew : ({ s with freeList := f }.setOp t (.dealloc slotId (s.pool (slotId.toNat % B)))).FewCalls) :
    let s' := { s with freeList := f }.setOp t (.dealloc slotId (s.pool (slotId.toNat % B)))
    ∃ log a', Object.Steps (FifoSpec B false) a (s.events (.run t spurious) s') log a' ∧ Matches B s' a' := by
  obtain ⟨held, hp⟩ := h.places
  obtain ⟨hslot, -, -⟩ := hp.apart hlt (show (s.op t).slot = some slotId by rw [ho]; rfl)
  obtain ⟨hop, he, hbag⟩ := h.free.call (.inr ⟨_, rfl⟩) hs
  have hst := h.stands t
  rw [ho] at hst
  rw [Nat.mod_eq_of_lt hslot] at hfew ⊢
  have hfits : (Op.dealloc slotId (s.pool slotId.toNat)).freeRole.Fits (f.op t) := by rw [hop]; exact ⟨rfl, rfl⟩
  have hf := h.followsFree (o := .dealloc slotId (s.pool slotId.toNat)) hbag hfits (by rw [ho]; rfl) hfew
    ⟨held, hp.keeps rfl (by rw [ho]; rfl) he rfl⟩
  exact h.silent hf hst rfl rfl

theorem dealloc {slotId : UInt32} {item : α} {f : AtomicMove.Sys τ UInt32} (h : Matches B s a) (hB : B ∣ 2 ^ 32)
    (hlt : B < 2 ^ 32) (ho : s.op t = .dealloc slotId item) (hm : AtomicMove.Sys.Moves B s.freeList t f)
    (hfew : ({ s with freeList := f }.setOp t (.afterDealloc METRICS slotId item (f.op t))).FewCalls) :
    let s' := { s with freeList := f }.setOp t (.afterDealloc METRICS slotId item (f.op t))
    ∃ log a', Object.Steps (FifoSpec B false) a (s.events (.run t spurious) s') log a' ∧ Matches B s' a' := by
  obtain ⟨hturn, hbag⟩ := h.freeTurn hB hlt hm
  obtain ⟨held, hp⟩ := h.places
  have hst := h.stands t
  rw [ho] at hst hturn
  cases (show Turn B s.freeList f t (.brings slotId) from hturn) with
  | stays hbusy hfits he =>
    rw [Op.afterDealloc_of_busy hbusy] at hfew ⊢
    have hf := h.followsFree (o := .dealloc slotId item) hbag hfits (by rw [ho]) hfew
      ⟨held, hp.keeps rfl (by rw [ho]) he rfl⟩
    exact h.silent hf hst rfl rfl
  | puts hop _ _ he =>
    rw [hop] at hfew ⊢
    have hfits : (Op.finish METRICS (.consumed item)).freeRole.Fits (f.op t) := by
      rw [hop, Op.freeRole_finish]
      exact ⟨rfl, rfl⟩
    have hslots : (f.elements ++ s.queue.elements).Perm (slotId :: (s.freeList.elements ++ s.queue.elements)) := by
      rw [he, List.append_assoc]
      exact List.perm_middle
    have hf := h.followsFree (o := .finish METRICS (.consumed item)) hbag hfits (by rw [ho, Op.queueRole_finish]; rfl) hfew
      ⟨_, hp.puts rfl (by rw [ho]; rfl) (Op.slot_finish ..) hslots⟩
    exact h.finishes hf hst rfl

theorem count (h : Matches B s a) (ho : s.op t = .count r) {metrics : Counter → UInt64}
    (hfew : ({ s with metrics }.setOp t (.returned r)).FewCalls) :
    let s' := { s with metrics }.setOp t (.returned r)
    ∃ log a', Object.Steps (FifoSpec B false) a (s.events (.run t spurious) s') log a' ∧ Matches B s' a' := by
  obtain ⟨held, hp⟩ := h.places
  have hst := h.stands t
  rw [ho] at hst
  have hf : Follows B s t (.finish false r) ({ s with metrics }.setOp t (.returned r)) :=
    ⟨rfl, h.free.congr (role_setOp (by rw [ho]; rfl)), h.queue.congr (role_setOp (by rw [ho]; rfl)), hfew,
      ⟨held, hp.keeps rfl (by rw [ho]; rfl) rfl rfl⟩, fun _ _ _ _ => rfl⟩
  exact h.finishes hf hst rfl

theorem run (h : Matches B s a) (hB : B ∣ 2 ^ 32) (hlt : B < 2 ^ 32) (hs : s.run METRICS B t spurious = some s')
    (hfew : s'.FewCalls) :
    ∃ log a', Object.Steps (FifoSpec B false) a (s.events (.run t spurious) s') log a' ∧ Matches B s' a' := by
  cases ho : s.op t with
  | idle | returned _ | swallowed => simp [Sys.run, ho] at hs
  | alloc p =>
    simp only [Sys.run, ho] at hs
    obtain ⟨f, hf, rfl⟩ := Option.map_eq_some_iff.mp hs
    exact h.alloc hB hlt ho (AtomicMove.Sys.moves_of_run hf) hfew
  | fill p slotId =>
    simp only [Sys.run, ho] at hs
    obtain ⟨q, hq, rfl⟩ := Option.map_eq_some_iff.mp hs
    exact h.fill hlt ho hq hfew
  | publishId p slotId =>
    simp only [Sys.run, ho] at hs
    obtain ⟨q, hq, rfl⟩ := Option.map_eq_some_iff.mp hs
    exact h.publishId hB hlt ho (AtomicMove.Sys.moves_of_run hq) hfew
  | take =>
    simp only [Sys.run, ho] at hs
    obtain ⟨q, hq, rfl⟩ := Option.map_eq_some_iff.mp hs
    exact h.take hB hlt ho (AtomicMove.Sys.moves_of_run hq) hfew
  | get slotId =>
    simp only [Sys.run, ho] at hs
    obtain ⟨f, hf, rfl⟩ := Option.map_eq_some_iff.mp hs
    exact h.get hlt ho hf hfew
  | dealloc slotId item =>
    simp only [Sys.run, ho] at hs
    obtain ⟨f, hf, rfl⟩ := Option.map_eq_some_iff.mp hs
    exact h.dealloc hB hlt ho (AtomicMove.Sys.moves_of_run hf) hfew
  | count r =>
    simp only [Sys.run, ho] at hs
    cases hs
    exact h.count ho hfew

theorem begins {qo : QueueOp α} {l : Label τ α} (h : Matches B s a) (ht : (s.op t).atRest = true) (hf : Follows B s t o s')
    (hst : o.Stands s'.pool (.called qo)) (he : s'.elements = s.elements)
    (hevent : s.events l s' = [(t, .call qo)]) :
    ∃ log a', Object.Steps (FifoSpec B false) a (s.events l s') log a' ∧ Matches B s' a' := by
  have hidle := (Op.stands_of_atRest ht ..).mp (h.stands t)
  have hm := h.goOn hf hst
  rw [he, ← h.state] at hm
  rw [hevent]
  exact ⟨[], _, (Object.Step.call hidle).steps, hm⟩

end Matches

section Main
variable [DecidableEq τ]

theorem simulates_object (hB : B ∣ 2 ^ 32) (hlt : B < 2 ^ 32) :
    Linear.Simulates (Sys.step METRICS B) (fun _ _ s' => s'.FewCalls) Sys.events (FifoSpec B false)
      (Matches B : Sys τ α → _ → Prop) := by
  intro s a l s' h hs hfew
  obtain ⟨held, hp⟩ := h.places
  cases l with
  | publish t p =>
    obtain ⟨ht, hs⟩ := Option.ite_none_right_eq_some.mp hs
    obtain ⟨f, hf, rfl⟩ := Option.map_eq_some_iff.mp hs
    obtain ⟨hop, he, hbag⟩ := h.free.call (.inl rfl) hf
    have hrest : (s.op t).slot = none ∧ (s.op t).queueRole = .rest := by
      cases ho : s.op t <;> rw [ho] at ht <;> first | exact ⟨rfl, rfl⟩ | cases ht
    have hfits : (Op.alloc p).freeRole.Fits (f.op t) := by rw [hop]; rfl
    have hfollows := h.followsFree (o := .alloc p) hbag hfits hrest.2.symm hfew ⟨held, hp.keeps rfl hrest.1.symm he rfl⟩
    exact h.begins ht hfollows rfl rfl rfl
  | consume t =>
    obtain ⟨ht, hs⟩ := Option.ite_none_right_eq_some.mp hs
    obtain ⟨q, hq, rfl⟩ := Option.map_eq_some_iff.mp hs
    obtain ⟨hop, he, hbag⟩ := h.queue.call (.inl rfl) hq
    have hrest : (s.op t).slot = none ∧ (s.op t).freeRole = .rest := by
      cases ho : s.op t <;> rw [ho] at ht <;> first | exact ⟨rfl, rfl⟩ | cases ht
    have hfits : (Op.take : Op α).queueRole.Fits (q.op t) := by rw [hop]; rfl
    have hfollows := h.followsQueue (o := .take) hbag hfits hrest.2.symm hfew ⟨held, hp.keeps rfl hrest.1.symm rfl he⟩
      fun _ _ _ _ => rfl
    exact h.begins ht hfollows rfl (congrArg (List.map _) he) rfl
  | run t spurious => exact h.run hB hlt hs hfew

omit [DecidableEq τ] in
theorem matches_new (hlt : B < 2 ^ 32) (pool : Nat → α) (t : τ) : Matches B (.new B pool t : Sys τ α) (.new []) := by
  refine ⟨⟨⟨_, ArrayPool.inv_new hlt t⟩, fun _ => ⟨rfl, rfl⟩, fun _ => trivial⟩,
    ⟨⟨_, .init B _⟩, fun _ => ⟨rfl, rfl⟩, fun _ => trivial⟩, fun F hF => ?_, ⟨[], .nil, fun _ _ => ⟨nofun, nofun⟩, ?_⟩,
    fun _ => rfl, rfl⟩
  · obtain rfl : F = ∅ := Finset.eq_empty_of_forall_notMem fun u hu => by cases hF u hu
    exact Nat.zero_le _
  · exact (ArrayPool.accounts_new t).slots

/-- The calls take effect one after the other, on a FIFO whose reports may be spurious. No element is swallowed, and no
slot id is lost because a ring is found full. -/
theorem atomicZeroCopy_linearizable (hB : Ring.PowerOfTwo B) (hlt : B < 2 ^ 32) {pool : Nat → α} {t₀ : τ}
    {events : List (τ × Linear.Event (QueueOp α) (QueueResult α))}
    (h : Linear.Run (Sys.step METRICS B) (fun _ _ s' => s'.FewCalls) Sys.events (.new B pool t₀) events s) :
    Linear.Linearizable (FifoSpec B false) [] events s.elements ∧
      ∀ t, s.op t ≠ .swallowed ∧ (∀ p, s.freeList.op t ≠ .refused p) ∧ ∀ p, s.queue.op t ≠ .refused p := by
  obtain ⟨a, ha, hlin⟩ := (simulates_object (hB.dvd_of_lt hlt) hlt).linearizable (matches_new hlt pool t₀) h
  rw [ha.state] at hlin
  refine ⟨hlin, fun t => ⟨fun ho => ?_, fun p ho => ?_, fun p ho => ?_⟩⟩
  · have hst := ha.stands t
    rwa [ho] at hst
  · have hacc := (ha.free.fits t).accepted
    rw [ho] at hacc
    cases hacc
  · have hacc := (ha.queue.fits t).accepted
    rw [ho] at hacc
    cases hacc

omit [DecidableEq τ] in
theorem fewCalls_of_card [Fintype τ] (h : Fintype.card τ ≤ 2 ^ 31 + 1) (s : Sys τ α) : s.FewCalls :=
  fun F _ => (Finset.card_le_univ F).trans h

/-- Two elements fill both slots. One of them is consumed, but a third publication is refused, since the slot has not been
put back yet. -/
def fillAndTake : List (Label (Option Bool) Nat) :=
  .publish none (.movable 7) :: List.replicate 10 (.run none false) ++
    .publish none (.setter (· + 8)) :: List.replicate 10 (.run none false) ++
    .consume (some true) :: List.replicate 4 (.run (some true) false) ++
    .publish (some false) (.movable 9) :: List.replicate 4 (.run (some false) false) ++
    List.replicate 6 (.run (some true) false)

theorem atomicZeroCopy_linearizable_fillAndTake :
    ∃ (events : List (Option Bool × Linear.Event (QueueOp Nat) (QueueResult Nat))) (s : Sys (Option Bool) Nat),
      Linear.returns events =
        [(none, .published 1), (none, .published 2), (some false, .full), (some true, .consumed 7)] ∧
      Linear.Linearizable (FifoSpec 2 false) [] events s.elements ∧
      ∀ t, s.op t ≠ .swallowed ∧ (∀ p, s.freeList.op t ≠ .refused p) ∧ ∀ p, s.queue.op t ≠ .refused p := by
  have hresults : (Linear.trace (Sys.step true 2) Sys.events (.new 2 (fun _ => 0) none) fillAndTake).map
      (fun x => Linear.returns x.1) =
        some [(none, .published 1), (none, .published 2), (some false, .full), (some true, .consumed 7)] := by
    decide +kernel
  obtain ⟨⟨events, s⟩, htrace, hres⟩ := Option.map_eq_some_iff.mp hresults
  exact ⟨events, s, hres, atomicZeroCopy_linearizable ⟨1, rfl⟩ (by decide)
    (.of_trace (fun _ _ s' => fewCalls_of_card (by decide) s') .refl htrace)⟩

/-! ### The metrics -/

/-- How many of the results belong to the counter. -/
def resultsOf (c : Counter) (results : List (τ × QueueResult α)) : Nat := (results.map fun x => Counter.of x.2).count c

omit [DecidableEq τ] in
theorem resultsOf_concat (c : Counter) (results : List (τ × QueueResult α)) (t : τ) (r : QueueResult α) :
    resultsOf c (results ++ [(t, r)]) = resultsOf c results + if Counter.of r = c then 1 else 0 := by
  rw [resultsOf, resultsOf, List.map_append, List.count_append, List.map_singleton, List.count_singleton]
  simp only [beq_iff_eq]

/-- What has been counted has been returned, and the other way round. -/
theorem metrics_step {l : Label τ α} {results : List (τ × QueueResult α)}
    (h : ∀ c, s.metrics c = UInt64.ofNat (resultsOf c results)) (hs : s.step true B l = some s') (c : Counter) :
    s'.metrics c = UInt64.ofNat (resultsOf c (results ++ Linear.returns (s.events l s'))) := by
  have hplain : ∀ {t o spurious}, s'.op = Function.update s.op t o → o.result = none → s'.metrics = s.metrics →
      s'.metrics c = UInt64.ofNat (resultsOf c (results ++ Linear.returns (s.events (.run t spurious) s'))) := by
    intro t o spurious hop hres hmetrics
    have hevents : s.events (.run t spurious) s' = [] := by
      show ((s'.op t).result.toList.map fun r => (t, Linear.Event.ret r)) = []
      rw [hop, Function.update_self, hres]
      rfl
    rw [hevents, Linear.returns_nil, List.append_nil, hmetrics, h]
  cases l with
  | publish t p =>
    obtain ⟨-, hs⟩ := Option.ite_none_right_eq_some.mp hs
    obtain ⟨f, -, rfl⟩ := Option.map_eq_some_iff.mp hs
    have hcall : Linear.returns (s.events (.publish t p) ({ s with freeList := f }.setOp t (.alloc p))) = [] := rfl
    rw [hcall, List.append_nil]
    exact h c
  | consume t =>
    obtain ⟨-, hs⟩ := Option.ite_none_right_eq_some.mp hs
    obtain ⟨q, -, rfl⟩ := Option.map_eq_some_iff.mp hs
    have hcall : Linear.returns (s.events (.consume t) ({ s with queue := q }.setOp t .take)) = [] := rfl
    rw [hcall, List.append_nil]
    exact h c
  | run t spurious =>
    cases ho : s.op t with
    | idle | returned _ | swallowed => simp [Sys.step, Sys.run, ho] at hs
    | fill _ _ | get _ =>
      simp only [Sys.step, Sys.run, ho] at hs
      obtain ⟨r, -, rfl⟩ := Option.map_eq_some_iff.mp hs
      exact hplain rfl rfl rfl
    | alloc _ | publishId _ _ | take | dealloc _ _ =>
      simp only [Sys.step, Sys.run, ho] at hs
      obtain ⟨r, -, rfl⟩ := Option.map_eq_some_iff.mp hs
      refine hplain rfl ?_ rfl
      cases r.op t <;> rfl
    | count r =>
      simp only [Sys.step, Sys.run, ho] at hs
      cases hs
      have hret : Linear.returns (s.events (.run t spurious)
          ({ s with metrics := Function.update s.metrics (.of r) (s.metrics (.of r) + 1) }.setOp t (.returned r))) =
            [(t, r)] := by
        simp [Sys.events, Sys.setOp, Op.result, Linear.returns]
      rw [hret, resultsOf_concat]
      by_cases hc : Counter.of r = c
      · subst hc
        rw [if_pos rfl]
        refine (Function.update_self ..).trans ?_
        rw [h, UInt64.ofNat_add]
        rfl
      · rw [if_neg hc]
        exact (Function.update_of_ne (Ne.symm hc) ..).trans (h c)

omit [DecidableEq τ] in
theorem legal_length {q : List α} {log : List (τ × QueueOp α × QueueResult α)} {exact : Bool}
    (h : Linear.Legal (FifoSpec B exact) [] log q) :
    q.length + resultsOf .dequeueCount (log.map (Prod.map id Prod.snd)) =
      resultsOf .enqueueCount (log.map (Prod.map id Prod.snd)) := by
  induction h with
  | nil => rfl
  | @concat log t o r q q' _ ho ih =>
    rw [List.map_append, List.map_singleton, Prod.map_apply, resultsOf_concat, resultsOf_concat]
    cases ho <;> simp [Counter.of] at ih ⊢ <;> omega

/-- Every counter counts the calls that have returned that way. While no call is under way, `enqueue_count` is ahead of
`dequeue_count` by the elements in the queue. -/
theorem nonBlockingQueue_metrics (hB : Ring.PowerOfTwo B) (hlt : B < 2 ^ 32) {pool : Nat → α} {t₀ : τ}
    {events : List (τ × Linear.Event (QueueOp α) (QueueResult α))}
    (h : Linear.Run (Sys.step true B) (fun _ _ s' => s'.FewCalls) Sys.events (.new B pool t₀) events s) :
    (∀ c, s.metrics c = UInt64.ofNat (resultsOf c (Linear.returns events))) ∧
      ((∀ t, (s.op t).atRest = true) →
        s.metrics .enqueueCount = s.metrics .dequeueCount + UInt64.ofNat s.elements.length) := by
  have hcounts : ∀ c, s.metrics c = UInt64.ofNat (resultsOf c (Linear.returns events)) := by
    induction h with
    | refl => exact fun _ => rfl
    | tail _ hs _ ih =>
      intro c
      rw [Linear.returns_append]
      exact metrics_step ih hs c
  refine ⟨hcounts, fun hrest => ?_⟩
  obtain ⟨log, a, ha, hm⟩ := (simulates_object (hB.dvd_of_lt hlt) hlt).run (matches_new hlt pool t₀) h
  have hidle : ∀ t, a.status t = .idle := fun t => (Op.stands_of_atRest (hrest t) ..).mp (hm.stands t)
  have hperm := ha.fitting.returns_perm hidle
  have hresults : ∀ c, resultsOf c (Linear.returns events) = resultsOf c (log.map (Prod.map id Prod.snd)) := fun c =>
    (hperm.map fun x : τ × QueueResult α => Counter.of x.2).count_eq c
  have hlength := legal_length ha.legal
  rw [hm.state] at hlength
  rw [hcounts, hcounts, hresults, hresults, ← hlength, ← UInt64.ofNat_add, Nat.add_comm]

theorem nonBlockingQueue_metrics_fillAndTake :
    ∃ (events : List (Option Bool × Linear.Event (QueueOp Nat) (QueueResult Nat))) (s : Sys (Option Bool) Nat),
      (∀ t, (s.op t).atRest = true) ∧ s.elements = [8] ∧ s.metrics .queueFullCount = 1 ∧
      (∀ c, s.metrics c = UInt64.ofNat (resultsOf c (Linear.returns events))) ∧
      ((∀ t, (s.op t).atRest = true) →
        s.metrics .enqueueCount = s.metrics .dequeueCount + UInt64.ofNat s.elements.length) := by
  have hends : (Linear.trace (Sys.step true 2) Sys.events (.new 2 (fun _ => 0) none) fillAndTake).map
      (fun x => decide ((∀ t, (x.2.op t).atRest = true) ∧ x.2.elements = [8] ∧ x.2.metrics .queueFullCount = 1)) =
        some true := by
    decide +kernel
  obtain ⟨⟨events, s⟩, htrace, hend⟩ := Option.map_eq_some_iff.mp hends
  rw [decide_eq_true_iff] at hend
  obtain ⟨hrest, helements, hfull⟩ := hend
  exact ⟨events, s, hrest, helements, hfull, nonBlockingQueue_metrics ⟨1, rfl⟩ (by decide)
    (.of_trace (fun _ _ s' => fewCalls_of_card (by decide) s') .refl htrace)⟩

end Main

end AtomicZeroCopy
end Mutiny
