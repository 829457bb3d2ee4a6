import Mutiny.AtomicMoveInv
import Mutiny.AtomicMoveSolo
import Mutiny.OgreAlloc

/-!
# `OgreArrayPoolAllocator` over the steps of `AtomicMove`

`AllocatorAtomicArray`: the free list is an `AtomicMove<u32, POOL_SIZE>`, `alloc_ref` is its
`consume_movable` and `dealloc_id` its `publish_movable`, all of them running concurrently, one atomic
operation at a time. `outstanding` are the slot ids returned by `alloc_ref` and not yet passed to
`dealloc_id`.

The free list is exactly as large as the pool. A deallocation finds room because the slot id it brings
back was released by the allocation that returned it: the ids in the ring, those on their way back and
those outstanding are the pool.
-/

namespace Mutiny
open AtomicMove

/-- The free list with its threads, and the slot ids in the hands of callers. -/
structure ArrayPool (τ : Type) where
  freeList : Sys τ UInt32
  outstanding : List UInt32

namespace ArrayPool
variable {τ : Type}

inductive Label (τ : Type)
  -- thread `t` calls `alloc_ref()`
  | allocRef (t : τ)
  -- thread `t` calls `dealloc_id(slot_id)`
  | deallocId (t : τ) (slotId : UInt32)
  -- thread `t` calls `dealloc_ref(slot)`
  | deallocRef (t : τ) (slot : Nat)
  -- the next atomic operation of thread `t`
  | run (t : τ) (spurious : Bool)

/-- `OgreArrayPoolAllocator::new()`, by thread `t`: no other thread has the free list yet. -/
def new (B : Nat) (t : τ) : ArrayPool τ where
  freeList :=
    { q := (idRange 0 (UInt32.ofNat B)).foldl (fun q slotId => (q.publishMovable B slotId).1)
        (.withInitializer fun _ => 0)
      op := fun _ => .idle
      calls := fun _ => 0
      published := (idRange 0 (UInt32.ofNat B)).map fun slotId => Put.mk t 0 slotId (.movable slotId) slotId
      consumed := [] }
  outstanding := []

def free (B : Nat) (s : ArrayPool τ) : List UInt32 := LawfulMoveContainer.elems B s.freeList.q

/-- `alloc_ref` returns as soon as its `consume_movable` does. -/
def settle (freeList : Sys τ UInt32) (t : τ) (outstanding : List UInt32) : ArrayPool τ :=
  match freeList.op t with
  | .taken slotId => ⟨freeList, slotId :: outstanding⟩
  | _ => ⟨freeList, outstanding⟩

theorem settle_eq {t : τ} {freeList : Sys τ UInt32} {outstanding : List UInt32} (h : ∀ v, freeList.op t ≠ .taken v) :
    settle freeList t outstanding = ⟨freeList, outstanding⟩ := by
  cases hv : freeList.op t with
  | taken v => exact absurd hv (h v)
  | _ => simp only [settle, hv]

section Step
variable [DecidableEq τ]

/-- `dealloc_id(slot_id)` of a slot id in the caller's hands. -/
def deallocId (B : Nat) (s : ArrayPool τ) (t : τ) (slotId : UInt32) : Option (ArrayPool τ) :=
  if slotId ∈ s.outstanding then
    (s.freeList.step B (.publish t (.movable slotId))).map fun freeList => ⟨freeList, s.outstanding.erase slotId⟩
  else none

def step (B : Nat) (s : ArrayPool τ) : Label τ → Option (ArrayPool τ)
  | .allocRef t => (s.freeList.step B (.consume t)).map fun freeList => { s with freeList }
  | .deallocId t slotId => s.deallocId B t slotId
  | .deallocRef t slot => s.deallocId B t (idFromRef slot)
  | .run t spurious => (s.freeList.step B (.run t spurious false)).map fun freeList => settle freeList t s.outstanding

end Step

/-! ### Accounting -/

/-- The slot id a deallocation under way brings back. -/
def bringsBack : Op UInt32 → Option UInt32
  | .leakReserve (.movable slotId) | .leakCheck (.movable slotId) _ | .leakRecede (.movable slotId) _
  | .leakReport (.movable slotId) | .slotWrite (.movable slotId) _ _ | .publishLeaked (.movable slotId) _ _ _ => some slotId
  | _ => none

/-- Nothing but slot ids is published, and the free list was not found full. -/
def accepted : Op UInt32 → Bool
  | .leakReserve (.setter _) | .leakCheck (.setter _) _ | .slotWrite (.setter _) _ _ | .publishLeaked (.setter _) _ _ _
  | .leakRecede _ _ | .leakReport _ | .refused _ => false
  | _ => true

def allocating : Op UInt32 → Bool
  | .consumeReserve | .consumeCheck _ | .consumeRecede _ | .slotRead _ | .releaseLeaked _ _ => true
  | _ => false

/-- At most `2 ^ 31 + 1` calls of `alloc_ref` are under way. -/
def FewAllocs (s : ArrayPool τ) : Prop :=
  ∀ F : Finset τ, (∀ t ∈ F, allocating (s.freeList.op t) = true) → F.card ≤ 2 ^ 31 + 1

/-- Every slot id is in the free list, on its way back, or outstanding; `busy` are the threads inside
`dealloc_id`, each with its slot id. -/
structure Accounts (B : Nat) (s : ArrayPool τ) (busy : List (τ × UInt32)) : Prop where
  nodup : (busy.map Prod.fst).Nodup
  mem : ∀ t slotId, (t, slotId) ∈ busy ↔ bringsBack (s.freeList.op t) = some slotId
  accepted : ∀ t, accepted (s.freeList.op t) = true
  slots : ((s.freeList.published.drop s.freeList.consumed.length).map Put.value ++ busy.map Prod.snd ++
    s.outstanding).Perm (idRange 0 (UInt32.ofNat B))

namespace Accounts
variable {B : Nat} {s : ArrayPool τ} {busy : List (τ × UInt32)} {g : Ghost τ} {t : τ}

theorem bringsBack_of_prodSlot {o : Op UInt32} (ha : ArrayPool.accepted o = true) (ho : o.prodSlot.isSome) :
    (bringsBack o).isSome := by
  cases o with
  | leakCheck p | slotWrite p | publishLeaked p =>
    cases p with
    | movable => rfl
    | setter => cases ha
  | leakRecede => cases ha
  | _ => cases ho

theorem enq_le (h : Accounts B s busy) (hi : Inv B s.freeList g) (hB : B < 2 ^ 32) :
    g.enq ≤ s.freeList.consumed.length + B := by
  have hlen := h.slots.length_eq
  rw [List.length_append, List.length_append, List.length_map, List.length_map, List.length_drop, length_idRange,
    Wrap.toNat_ofNat_of_lt hB, UInt32.toNat_zero] at hlen
  obtain ⟨F, hF, hhold⟩ := hi.prod.exists_holders
  have hsub : F.card ≤ busy.length := by
    classical
    rw [← List.length_map Prod.fst, ← List.toFinset_card_of_nodup h.nodup]
    refine Finset.card_le_card fun t ht => List.mem_toFinset.mpr ?_
    have hback : (bringsBack (s.freeList.op t)).isSome := by
      refine bringsBack_of_prodSlot (h.accepted t) ?_
      rw [(hi.thread t).prodSlot, Option.isSome_map]
      exact hhold t ht
    obtain ⟨slotId, hs⟩ := Option.isSome_iff_exists.mp hback
    exact List.mem_map.mpr ⟨_, (h.mem t slotId).mpr hs, rfl⟩
  have := hi.prod.le
  have := hi.le
  omega

theorem close (h : Accounts B s busy) (hi : Inv B s.freeList g) (hB : B ∣ 2 ^ 32) (hlt : B < 2 ^ 32)
    (hf : s.FewAllocs) : Close B s.freeList g := by
  have henq := h.enq_le hi hlt
  have hle := hi.le
  have hdeq : g.deq < s.freeList.consumed.length + (2 ^ 31 + 2) := by
    refine hi.cons.length_lt fun F hF => Nat.lt_succ_of_le (hf F fun t ht => ?_)
    have hc := (hi.thread t).consSlot
    obtain ⟨n, hn⟩ := Option.isSome_iff_exists.mp (hF t ht)
    rw [hn] at hc
    cases ho : s.freeList.op t <;> rw [ho] at hc <;> first | rfl | cases hc
  exact ⟨hlt, hB, by omega, by omega, by omega⟩

section Step
variable [DecidableEq τ]

theorem setOp {o : Op UInt32} (h : Accounts B s busy) (hb : bringsBack o = bringsBack (s.freeList.op t))
    (ha : ArrayPool.accepted o = true) (q : AtomicMove UInt32) (calls : τ → Nat) :
    Accounts B ⟨{ { s.freeList with q := q, calls := calls } with op := Function.update s.freeList.op t o },
      s.outstanding⟩ busy := by
  refine ⟨h.nodup, fun u slotId => ?_, fun u => ?_, h.slots⟩ <;> by_cases hu : u = t
  · subst hu
    rw [h.mem, ← hb]
    simp only [Function.update_self]
  · rw [h.mem]
    simp only [Function.update_of_ne hu]
  · subst hu
    simp only [Function.update_self, ha]
  · simp only [Function.update_of_ne hu, h.accepted u]

theorem publish {p : Payload UInt32} {i l v : UInt32} (h : Accounts B s busy) (hi : Inv B s.freeList g)
    (hw : Close B s.freeList g) (ho : s.freeList.op t = .publishLeaked p i l v) (hcas : s.freeList.q.tail = i) :
    ∃ busy', Accounts B ⟨{ s.freeList with
        q := { s.freeList.q with tail := i + 1 }
        published := s.freeList.published ++ [Put.mk t (s.freeList.calls t) i p v]
        op := Function.update s.freeList.op t (.published l) }, s.outstanding⟩ busy' := by
  obtain ⟨-, -, -, -, old, hold⟩ := hi.publish_id hw ho hcas
  have ha := h.accepted t
  rw [ho] at ha
  cases p with
  | setter => cases ha
  | movable w =>
    obtain rfl : v = w := hold
    have hmem : (t, v) ∈ busy := (h.mem t v).mpr (by rw [ho]; rfl)
    have hp := List.perm_cons_erase hmem
    have hnd := (List.Nodup.of_map _ h.nodup)
    refine ⟨busy.erase (t, v), ?_, fun u slotId => ?_, fun u => ?_, ?_⟩
    · have hnd' := (hp.map Prod.fst).nodup_iff.mp h.nodup
      exact (List.nodup_cons.mp hnd').2
    · by_cases hu : u = t
      · subst hu
        simp only [Function.update_self]
        refine ⟨fun hm => ?_, fun hm => by cases hm⟩
        have hs := (h.mem u slotId).mp (List.mem_of_mem_erase hm)
        rw [ho] at hs
        cases hs
        exact absurd hm hnd.not_mem_erase
      · rw [List.mem_erase_of_ne (by simp [hu]), h.mem]
        simp only [Function.update_of_ne hu]
    · by_cases hu : u = t
      · subst hu; simp only [Function.update_self, ArrayPool.accepted]
      · simp only [Function.update_of_ne hu, h.accepted u]
    · refine List.Perm.trans ?_ h.slots
      simp only [List.drop_append_of_le_length hi.le, List.map_append, List.map_cons, List.map_nil]
      rw [List.append_assoc _ [v], List.singleton_append]
      exact ((hp.map Prod.snd).symm.append_left _).append_right _

theorem release {i v : UInt32} (h : Accounts B s busy) (hi : Inv B s.freeList g) (hw : Close B s.freeList g)
    (ho : s.freeList.op t = .releaseLeaked i v) (hcas : s.freeList.q.head = i) :
    Accounts B ⟨{ s.freeList with
        q := { s.freeList.q with head := i + 1 }
        consumed := s.freeList.consumed ++ [Took.mk t (s.freeList.calls t) i v]
        op := Function.update s.freeList.op t (.taken v) }, v :: s.outstanding⟩ busy := by
  obtain ⟨-, hv, -⟩ := hi.release_id hw ho hcas
  obtain ⟨e, he, rfl⟩ := Option.map_eq_some_iff.mp hv
  obtain ⟨hlt, hget⟩ := List.getElem?_eq_some_iff.mp he
  have h' := h.setOp (t := t) (o := .taken e.value) (by rw [ho]; rfl) rfl s.freeList.q s.freeList.calls
  refine ⟨h'.nodup, h'.mem, h'.accepted, List.Perm.trans ?_ h.slots⟩
  have hdrop : s.freeList.published.drop s.freeList.consumed.length =
      e :: s.freeList.published.drop (s.freeList.consumed.length + 1) := by
    rw [List.drop_eq_getElem_cons hlt, hget]
  rw [hdrop]
  simp only [List.length_append, List.length_singleton, List.map_cons, List.cons_append]
  exact List.perm_middle

theorem call {slotId : UInt32} (h : Accounts B s busy) (hmem : slotId ∈ s.outstanding)
    (hrest : (s.freeList.op t).atRest = true) (calls : τ → Nat) :
    Accounts B ⟨{ s.freeList with
        op := Function.update s.freeList.op t (.leakReserve (.movable slotId)), calls := calls },
      s.outstanding.erase slotId⟩ ((t, slotId) :: busy) := by
  have hnone : bringsBack (s.freeList.op t) = none := by
    cases ho : s.freeList.op t <;> rw [ho] at hrest <;> first | rfl | cases hrest
  refine ⟨?_, fun u x => ?_, fun u => ?_, List.Perm.trans ?_ h.slots⟩
  · refine List.nodup_cons.mpr ⟨fun hm => ?_, h.nodup⟩
    obtain ⟨⟨u, x⟩, hux, rfl⟩ := List.mem_map.mp hm
    have := (h.mem u x).mp hux
    rw [hnone] at this
    cases this
  · by_cases hu : u = t
    · subst hu
      have hback : bringsBack (.leakReserve (.movable slotId)) = some slotId := rfl
      simp only [Function.update_self, hback, List.mem_cons, Prod.mk.injEq, true_and, h.mem, hnone, reduceCtorEq,
        or_false, Option.some.injEq]
      exact eq_comm
    · simp only [Function.update_of_ne hu, List.mem_cons, Prod.mk.injEq, hu, false_and, false_or, h.mem]
  · by_cases hu : u = t
    · subst hu; simp only [Function.update_self, ArrayPool.accepted]
    · simp only [Function.update_of_ne hu, h.accepted u]
  · simp only [List.map_cons]
    rw [List.append_assoc, List.append_assoc]
    refine List.Perm.append_left _ ?_
    exact List.perm_middle.symm.trans ((List.perm_cons_erase hmem).symm.append_left _)

/-- An atomic operation keeps the accounts. The free list is never found full. -/
theorem moves {freeList : Sys τ UInt32} (h : Accounts B s busy) (hi : Inv B s.freeList g) (hw : Close B s.freeList g)
    (hm : Sys.Moves B s.freeList t freeList) : ∃ busy', Accounts B (settle freeList t s.outstanding) busy' := by
  have ha := h.accepted t
  -- a thread that goes on to `o`, which is not the return of `alloc_ref`
  have hset : ∀ (q : AtomicMove UInt32) (o : Op UInt32), bringsBack o = bringsBack (s.freeList.op t) →
      ArrayPool.accepted o = true → (∀ v, o ≠ .taken v) →
      ∃ busy', Accounts B (settle ({ s.freeList with q := q }.setOp t o) t s.outstanding) busy' := by
    intro q o hb hao hne
    rw [settle_eq (fun v => by simpa [Sys.setOp] using hne v)]
    exact ⟨busy, h.setOp hb hao q s.freeList.calls⟩
  cases hm with
  | @leakReserve p ho =>
    rw [ho] at ha
    cases p with
    | movable w => exact hset _ _ (by rw [ho]; rfl) rfl (fun _ he => by cases he)
    | setter => cases ha
  | @leakOk p i ho hlen =>
    rw [ho] at ha
    cases p with
    | movable w => exact hset _ _ (by rw [ho]; rfl) rfl (fun _ he => by cases he)
    | setter => cases ha
  | leakFull ho hlen =>
    obtain ⟨n, hn, -, hiff⟩ := hi.leakCheck_iff hw ho
    have hr := hi.prod.range _ n hn
    have henq := h.enq_le hi hw.lt
    exact absurd (hiff.mpr (by omega)) hlen
  | leakRecede ho | leakRetry ho | leakAgain ho | leakRefuse ho =>
    rw [ho] at ha
    cases ha
  | @write p i l ho v hv =>
    rw [ho] at ha
    cases p with
    | movable w => exact hset _ _ (by rw [ho]; rfl) rfl (fun _ he => by cases he)
    | setter => cases ha
  | publish ho hcas =>
    rw [settle_eq (fun v => by simp [Sys.setOp])]
    exact h.publish hi hw ho hcas
  | release ho hcas =>
    refine ⟨busy, ?_⟩
    have h' := h.release hi hw ho hcas
    simp only [settle, Sys.setOp, Function.update_self]
    exact h'
  | spin ho =>
    refine ⟨busy, ?_⟩
    rw [settle_eq fun v hv => by rw [hv] at ho; cases ho]
    exact h
  | consumeReserve ho | consumeOk ho | consumeNone ho | consumeRecede ho | consumeRetry ho | read ho =>
    exact hset _ _ (by rw [ho]; rfl) rfl (fun _ he => by cases he)

end Step
end Accounts

/-! ### The new allocator -/

theorem foldl_publish {B n : Nat} (hB : B < 2 ^ 32) (hn : n ≤ B) :
    ((List.range n).map UInt32.ofNat).foldl (fun q slotId => (q.publishMovable B slotId).1)
      (.withInitializer fun _ => 0) =
    (⟨0, UInt32.ofNat n, fun i => if i < n then UInt32.ofNat i else 0, 0, UInt32.ofNat n⟩ : AtomicMove UInt32) := by
  induction n with
  | zero => rfl
  | succ n ih =>
    rw [List.range_succ, List.map_append, List.foldl_append, ih (by omega)]
    have hlen : UInt32.ofNat n - 0 < UInt32.ofNat B := by
      rw [UInt32.sub_zero, UInt32.lt_iff_toNat_lt, Wrap.toNat_ofNat_of_lt hB, Wrap.toNat_ofNat_of_lt (by omega)]
      omega
    have hidx : slotIndex B (UInt32.ofNat n) = n := by
      rw [slotIndex, Wrap.toNat_ofNat_of_lt (by omega), Nat.mod_eq_of_lt (by omega)]
    simp only [List.map_cons, List.map_nil, List.foldl_cons, List.foldl_nil, publishMovable, hlen, if_true, hidx,
      Wrap.ofNat_succ, AtomicMove.mk.injEq, true_and, and_true]
    funext i
    rcases Nat.lt_trichotomy i n with hi | rfl | hi
    · rw [Function.update_of_ne (by omega), if_pos hi, if_pos (by omega)]
    · rw [Function.update_self, if_pos (by omega)]
    · rw [Function.update_of_ne (by omega), if_neg (by omega), if_neg (by omega)]

theorem idRange_eq {B : Nat} (hB : B < 2 ^ 32) : idRange 0 (UInt32.ofNat B) = (List.range B).map UInt32.ofNat := by
  rw [idRange, UInt32.toNat_zero, Wrap.toNat_ofNat_of_lt hB, Nat.sub_zero]
  simp only [UInt32.zero_add]

theorem getElem?_new {B : Nat} {t : τ} (hB : B < 2 ^ 32) {n : Nat} {e : Put τ UInt32}
    (he : (new B t).freeList.published[n]? = some e) :
    n < B ∧ e = Put.mk t 0 (UInt32.ofNat n) (.movable (UInt32.ofNat n)) (UInt32.ofNat n) := by
  have hp : (new B t).freeList.published = (List.range B).map fun k =>
      Put.mk t 0 (UInt32.ofNat k) (.movable (UInt32.ofNat k)) (UInt32.ofNat k) := by
    simp only [new, idRange_eq hB, List.map_map]
    rfl
  rw [hp, List.getElem?_map] at he
  obtain ⟨k, hk, rfl⟩ := Option.map_eq_some_iff.mp he
  obtain ⟨hlt, rfl⟩ := List.getElem?_eq_some_iff.mp hk
  rw [List.length_range] at hlt
  exact ⟨hlt, by rw [List.getElem_range]⟩

section Run
variable {B : Nat} {s s' : ArrayPool τ} {t : τ}

theorem fewAllocs_new (B : Nat) (t : τ) : (new B t).FewAllocs := by
  intro F hF
  obtain rfl : F = ∅ := Finset.eq_empty_of_forall_notMem fun t ht => by cases hF t ht
  rw [Finset.card_empty]
  omega

theorem q_new (hB : B < 2 ^ 32) (t : τ) : (new B t).freeList.q =
    ⟨0, UInt32.ofNat B, fun i => if i < B then UInt32.ofNat i else 0, 0, UInt32.ofNat B⟩ := by
  simp only [new, idRange_eq hB, foldl_publish hB (Nat.le_refl B)]

theorem inv_new (hB : B < 2 ^ 32) (t : τ) : Inv B (new B t).freeList ⟨B, 0, fun _ => none, fun _ => none⟩ := by
  have hq := q_new hB t
  have hlen : (new B t).freeList.published.length = B := by
    simp only [new, idRange_eq hB, List.length_map, List.length_range]
  refine ⟨?_, .empty 0, by rw [hq]; rfl, by rw [hq, hlen], by rw [hq], by rw [hq]; rfl, Nat.zero_le _, ?_,
    fun _ => ⟨rfl, rfl⟩, fun n e _ he => ?_, fun n e he => ?_, fun _ _ he => by cases he⟩
  · rw [hlen]
    exact .empty B
  · rw [hlen]
    exact Nat.le_add_left ..
  · obtain ⟨hn, rfl⟩ := getElem?_new hB he
    rw [hq, Nat.mod_eq_of_lt hn]
    exact if_pos hn
  · obtain ⟨hn, rfl⟩ := getElem?_new hB he
    exact ⟨rfl, 0, rfl⟩

theorem accounts_new (t : τ) : Accounts B (new B t) [] := by
  refine ⟨.nil, fun u x => ?_, fun _ => rfl, ?_⟩
  · simp [new, bringsBack]
  · simp only [new, List.length_nil, List.drop_zero, List.map_map, List.map_nil, List.append_nil]
    show ((idRange 0 (UInt32.ofNat B)).map id).Perm _
    rw [List.map_id]

variable [DecidableEq τ]

theorem accounts_step {l : Label τ} {busy : List (τ × UInt32)} {g : Ghost τ} (h : Accounts B s busy)
    (hi : Inv B s.freeList g) (hw : Close B s.freeList g) (hs : s.step B l = some s') :
    (∃ g', Inv B s'.freeList g') ∧ ∃ busy', Accounts B s' busy' := by
  have hdealloc : ∀ {t slotId}, s.deallocId B t slotId = some s' →
      (∃ g', Inv B s'.freeList g') ∧ ∃ busy', Accounts B s' busy' := by
    intro t slotId hs
    simp only [deallocId, Option.ite_none_right_eq_some] at hs
    obtain ⟨hmem, hs⟩ := hs
    obtain ⟨freeList, hf, rfl⟩ := Option.map_eq_some_iff.mp hs
    refine ⟨hi.step hw hf, (t, slotId) :: busy, ?_⟩
    simp only [Sys.step, Sys.call, Option.ite_none_right_eq_some, Option.some.injEq] at hf
    obtain ⟨hrest, rfl⟩ := hf
    exact h.call hmem hrest _
  cases l with
  | allocRef t =>
    obtain ⟨freeList, hf, rfl⟩ := Option.map_eq_some_iff.mp hs
    refine ⟨hi.step hw hf, busy, ?_⟩
    simp only [Sys.step, Sys.call, Option.ite_none_right_eq_some, Option.some.injEq] at hf
    obtain ⟨hrest, rfl⟩ := hf
    refine h.setOp ?_ rfl s.freeList.q _
    cases ho : s.freeList.op t <;> rw [ho] at hrest <;> first | rfl | cases hrest
  | deallocId t slotId => exact hdealloc hs
  | deallocRef t slot => exact hdealloc hs
  | run t spurious =>
    obtain ⟨freeList, hf, rfl⟩ := Option.map_eq_some_iff.mp hs
    have hsettle : (settle freeList t s.outstanding).freeList = freeList := by
      unfold settle
      split <;> rfl
    rw [hsettle]
    exact ⟨hi.step hw hf, h.moves hi hw (Sys.moves_of_run hf)⟩

end Run

/-! ### No slot is handed out twice, none is lost -/

/-- What holds in every reachable state. -/
structure Sound (B : Nat) (s : ArrayPool τ) : Prop where
  /-- no two outstanding allocations have the same slot id -/
  nodup : s.outstanding.Nodup
  lt : ∀ slotId ∈ s.outstanding, slotId.toNat < B
  /-- the `publish_movable` of `dealloc_id` does not return `(None, Some(slot_id))` -/
  accepted : ∀ t p, s.freeList.op t ≠ .refused p
  /-- between the calls, the free list and the outstanding ids are `0..POOL_SIZE` -/
  slots : (∀ t, (s.freeList.op t).atRest = true) →
    ((s.free B ++ s.outstanding).map UInt32.toNat).Perm (List.range B)

section Sound
variable {B : Nat} {s : ArrayPool τ} {busy : List (τ × UInt32)} {g : Ghost τ}

theorem free_eq (hi : Inv B s.freeList g) (hB : B ∣ 2 ^ 32) (hlt : B < 2 ^ 32) :
    s.free B = (s.freeList.published.drop s.freeList.consumed.length).map Put.value := by
  have hle := hi.le
  have hcap := hi.cap
  have hlen : (s.freeList.q.sync).len = s.freeList.published.length - s.freeList.consumed.length := by
    show (s.freeList.q.tail - s.freeList.q.head).toNat = _
    rw [hi.tail, hi.head, Wrap.toNat_ofNat_sub hle (by omega)]
  show Ring.view B s.freeList.q.buffer s.freeList.q.head (s.freeList.q.sync).len = _
  refine List.ext_getElem (by simp [hlen]) fun i h₁ h₂ => ?_
  rw [Ring.length_view, hlen] at h₁
  have hget : s.freeList.published[s.freeList.consumed.length + i]? =
      some (s.freeList.published.get ⟨s.freeList.consumed.length + i, by omega⟩) := List.getElem?_eq_getElem _
  simp only [Ring.view, List.getElem_map, List.getElem_range, List.getElem_drop]
  rw [Ring.cell, hi.head, ← UInt32.ofNat_add, Wrap.toNat_ofNat_mod hB]
  exact hi.slots _ _ (by omega) hget

theorem Accounts.sound (h : Accounts B s busy) (hi : Inv B s.freeList g) (hB : B ∣ 2 ^ 32) (hlt : B < 2 ^ 32) :
    Sound B s := by
  have hnd := h.slots.nodup_iff.mpr nodup_idRange
  refine ⟨(List.nodup_append.mp hnd).2.1, fun slotId hs => ?_, fun t p hp => ?_, fun hrest => ?_⟩
  · have hm := h.slots.mem_iff.mp (List.mem_append_right _ hs)
    have := (mem_idRange.mp hm).2
    rwa [UInt32.lt_iff_toNat_lt, Wrap.toNat_ofNat_of_lt hlt] at this
  · have := h.accepted t
    rw [hp] at this
    cases this
  · have hbusy : busy = [] := by
      refine List.eq_nil_iff_forall_not_mem.mpr fun ⟨t, x⟩ hm => ?_
      have hb := (h.mem t x).mp hm
      have hr := hrest t
      cases ho : s.freeList.op t <;> rw [ho] at hb hr <;> first | cases hb | cases hr
    have hs := h.slots
    rw [hbusy, List.map_nil, List.append_nil] at hs
    rw [← map_toNat_idRange hlt, free_eq hi hB hlt]
    exact hs.map _

variable [DecidableEq τ]

/-- The array pool allocator never hands out a slot twice and never loses one. -/
theorem arrayPool_sound (hB : Ring.PowerOfTwo B) (hlt : B < 2 ^ 32) {t : τ}
    (h : Machine.Steps (ArrayPool.step B) (fun _ _ s' => s'.FewAllocs) (new B t) s) : Sound B s := by
  have hdvd := hB.dvd_of_lt hlt
  have hI : ((∃ g, Inv B s.freeList g) ∧ ∃ busy, Accounts B s busy) ∧ s.FewAllocs := by
    refine h.invariant (I := fun s => ((∃ g, Inv B s.freeList g) ∧ ∃ busy, Accounts B s busy) ∧ s.FewAllocs) ?_
      ⟨⟨⟨_, inv_new hlt t⟩, _, accounts_new t⟩, fewAllocs_new B t⟩
    intro s l s' hi hs hok
    obtain ⟨⟨⟨g, hg⟩, busy, hb⟩, hf⟩ := hi
    exact ⟨accounts_step hb hg (hb.close hg hdvd hlt hf) hs, hok⟩
  obtain ⟨⟨⟨g, hg⟩, busy, hb⟩, -⟩ := hI
  exact hb.sound hg hdvd hlt

end Sound

theorem fewAllocs_of_card [Fintype τ] (s : ArrayPool τ) (h : Fintype.card τ ≤ 2 ^ 31 + 1) : s.FewAllocs :=
  fun F _ => Nat.le_trans (Finset.card_le_univ F) h

/-- A pool of two slots: two threads allocate both slots, a third allocation finds none, and one of the
slots is deallocated by its reference and allocated again. -/
theorem arrayPool_sound_reused : ∃ s : ArrayPool (Fin 2), s.outstanding = [1, 0] ∧ s.free 2 = [] ∧ Sound 2 s := by
  have hrun : (Machine.exec (ArrayPool.step 2) (new 2 (0 : Fin 2))
      [.allocRef 0, .allocRef 1, .run 0 false, .run 1 false, .run 1 false, .run 0 false, .run 0 false, .run 1 false,
       .run 1 false, .run 0 false, .run 1 false, .allocRef 0, .run 0 false, .run 0 false, .run 0 false, .deallocRef 1 1,
       .run 1 false, .run 1 false, .run 1 false, .run 1 true, .run 1 false, .allocRef 1, .run 1 false, .run 1 false,
       .run 1 false, .run 1 false]).map (fun s => decide (s.outstanding = [1, 0] ∧ s.free 2 = [])) = some true := by
    decide +kernel
  obtain ⟨s, hs, ht⟩ := Option.map_eq_some_iff.mp hrun
  rw [decide_eq_true_iff] at ht
  exact ⟨s, ht.1, ht.2, arrayPool_sound ⟨1, rfl⟩ (by decide)
    ((Machine.Path.of_exec hs).steps.mono fun _ _ s' _ => s'.fewAllocs_of_card (by decide))⟩

/-! ### What the bounds are for

A pool of one slot and more than `2 ^ 31 + 1` threads inside `alloc_ref`. The last of them, far ahead of
`tail`, takes the distance for a positive one and reads the slot at once; it returns when the others,
one after the other, have allocated and deallocated the slot. -/

section Crowd
variable {s : ArrayPool Nat} {t n : Nat}

abbrev Runs : ArrayPool Nat → ArrayPool Nat → Prop := Machine.Steps (ArrayPool.step 1) fun _ _ _ => True

theorem Runs.run {freeList : Sys Nat UInt32} (h : s.freeList.run 1 t false false = some freeList) :
    Runs s (settle freeList t s.outstanding) :=
  .single ⟨.run t false, by simp only [step, Sys.step, h, Option.map_some], trivial⟩

theorem Runs.run_setOp {q : AtomicMove UInt32} {o : Op UInt32} (hne : ∀ v, o ≠ .taken v)
    (h : s.freeList.run 1 t false false = some ({ s.freeList with q := q }.setOp t o)) :
    Runs s ⟨{ s.freeList with q := q }.setOp t o, s.outstanding⟩ := by
  have hr := Runs.run h
  rwa [settle_eq fun v => by simpa [Sys.setOp] using hne v] at hr

theorem slotIndex_one (i : UInt32) : slotIndex 1 i = 0 := Nat.mod_one _

theorem reserves (ho : s.freeList.op t = .idle) : ∃ s', Runs s s' ∧
    s'.freeList.q = { s.freeList.q with dequeuerHead := s.freeList.q.dequeuerHead + 1 } ∧
    s'.freeList.op = Function.update s.freeList.op t (.consumeCheck s.freeList.q.dequeuerHead) ∧
    s'.outstanding = s.outstanding := by
  let s₁ : ArrayPool Nat := ⟨{ s.freeList.setOp t .consumeReserve with
    calls := Function.update s.freeList.calls t (s.freeList.calls t + 1) }, s.outstanding⟩
  have h₁ : Runs s s₁ := by
    refine .single ⟨.allocRef t, ?_, trivial⟩
    simp only [step, Sys.step, Sys.call, ho, Op.atRest, if_true, Option.map_some]
    rfl
  have ho₁ : s₁.freeList.op t = .consumeReserve := Function.update_self ..
  have h₂ : Runs s₁ _ := Runs.run_setOp (t := t) (o := .consumeCheck s₁.freeList.q.dequeuerHead)
    (fun _ he => by cases he) (by simp only [Sys.run, ho₁]; rfl)
  exact ⟨_, h₁.trans h₂, rfl, Function.update_idem .., rfl⟩

theorem reads {i : UInt32} (ho : s.freeList.op t = .consumeCheck i) (hlen : 0 < (s.freeList.q.tail - i).toInt32) :
    ∃ s', Runs s s' ∧ s'.freeList.q = s.freeList.q ∧
      s'.freeList.op = Function.update s.freeList.op t (.releaseLeaked i (s.freeList.q.buffer 0)) ∧
      s'.outstanding = s.outstanding := by
  have h₁ : Runs s _ := Runs.run_setOp (t := t) (q := s.freeList.q) (o := .slotRead i) (fun _ he => by cases he)
    (by simp only [Sys.run, ho, hlen, if_true])
  have ho₁ : (s.freeList.setOp t (.slotRead i)).op t = .slotRead i := Function.update_self ..
  have h₂ : Runs _ _ := Runs.run_setOp (s := ⟨s.freeList.setOp t (.slotRead i), s.outstanding⟩) (t := t)
    (q := s.freeList.q) (o := .releaseLeaked i (s.freeList.q.buffer 0)) (fun _ he => by cases he)
    (by simp only [Sys.run, ho₁, slotIndex_one]; rfl)
  exact ⟨_, h₁.trans h₂, rfl, Function.update_idem .., rfl⟩

theorem releases {i v : UInt32} (ho : s.freeList.op t = .releaseLeaked i v) (hcas : s.freeList.q.head = i) :
    ∃ s', Runs s s' ∧ s'.freeList.q = { s.freeList.q with head := i + 1 } ∧
      s'.freeList.op = Function.update s.freeList.op t (.taken v) ∧ s'.outstanding = v :: s.outstanding := by
  have h : s.freeList.run 1 t false false = some ({ s.freeList with
      q := { s.freeList.q with head := i + 1 }
      consumed := s.freeList.consumed ++ [Took.mk t (s.freeList.calls t) i v] }.setOp t (.taken v)) := by
    simp only [Sys.run, ho, hcas, and_self, if_true]
  refine ⟨_, Runs.run h, ?_⟩
  simp only [settle, Sys.setOp, Function.update_self, true_and]

theorem deallocates {i : UInt32} (ho : (s.freeList.op t).atRest = true) (hout : s.outstanding = [0])
    (hhead : s.freeList.q.head = i) (htail : s.freeList.q.tail = i) (henq : s.freeList.q.enqueuerTail = i) :
    ∃ s', Runs s s' ∧ s'.freeList.q = { s.freeList.q with
        enqueuerTail := i + 1, tail := i + 1, buffer := Function.update s.freeList.q.buffer 0 0 } ∧
      (∀ u, u ≠ t → s'.freeList.op u = s.freeList.op u) ∧ s'.outstanding = [] := by
  have hexec : (Machine.exec (ArrayPool.step 1) s (.deallocId t 0 :: List.replicate 4 (.run t false))).map
      (fun s' => (s'.freeList.q, s'.outstanding, s'.freeList.op)) = some ({ s.freeList.q with
        enqueuerTail := i + 1, tail := i + 1, buffer := Function.update s.freeList.q.buffer 0 0 }, [],
        Function.update s.freeList.op t (.published (i - i))) := by
    have hlen : (i - i : UInt32) < UInt32.ofNat 1 := by rw [UInt32.sub_self]; decide
    simp only [List.replicate, Machine.exec_cons, step, deallocId, hout, List.mem_singleton, if_true, Sys.step, Sys.call, ho,
      Option.map_some, Option.bind_some, Sys.run, Sys.setOp, Function.update_self, settle, henq, hhead, hlen, htail,
      and_self, Payload.store, slotIndex_one]
    simp [Machine.exec]
  obtain ⟨s', hs', he⟩ := Option.map_eq_some_iff.mp hexec
  simp only [Prod.mk.injEq] at he
  refine ⟨s', (Machine.Path.of_exec hs').steps, he.1, fun u hu => ?_, he.2.1⟩
  rw [he.2.2, Function.update_of_ne hu]

/-- After `k` rounds: the threads from `k` on wait for their turn, and thread `M` has read the slot already. -/
structure Crowd (M k : Nat) (s : ArrayPool Nat) : Prop where
  head : s.freeList.q.head = UInt32.ofNat k
  tail : s.freeList.q.tail = UInt32.ofNat (k + 1)
  enq : s.freeList.q.enqueuerTail = UInt32.ofNat (k + 1)
  buffer : s.freeList.q.buffer 0 = 0
  waiting : ∀ t, k ≤ t → t < M → s.freeList.op t = .consumeCheck (UInt32.ofNat t)
  early : s.freeList.op M = .releaseLeaked (UInt32.ofNat M) 0
  outstanding : s.outstanding = []

theorem exists_reserved (n : Nat) : ∃ s, Runs (new 1 0) s ∧
    s.freeList.q = { (new 1 0 : ArrayPool Nat).freeList.q with dequeuerHead := UInt32.ofNat n } ∧
    (∀ t, s.freeList.op t = if t < n then .consumeCheck (UInt32.ofNat t) else .idle) ∧ s.outstanding = [] := by
  induction n with
  | zero =>
    refine ⟨_, .refl, ?_, fun _ => rfl, rfl⟩
    rw [q_new (by decide)]
    rfl
  | succ n ih =>
    obtain ⟨s, hs, hq, hop, hout⟩ := ih
    obtain ⟨s', hs', hq', hop', hout'⟩ := reserves (s := s) (t := n) (by rw [hop, if_neg (Nat.lt_irrefl n)])
    have hdeq : s.freeList.q.dequeuerHead = UInt32.ofNat n := by rw [hq]
    refine ⟨s', hs.trans hs', ?_, fun t => ?_, hout'.trans hout⟩
    · rw [hq', hq, Wrap.ofNat_succ]
    · rw [hop', hdeq]
      by_cases ht : t = n
      · subst ht
        rw [Function.update_self, if_pos (Nat.lt_succ_self t)]
      · rw [Function.update_of_ne ht, hop]
        exact if_congr (by omega) rfl rfl

theorem exists_crowd {M : Nat} (hM : 0 < (1 - UInt32.ofNat M).toInt32) : ∃ s, Runs (new 1 0) s ∧ Crowd M 0 s := by
  obtain ⟨s, hs, hq, hop, hout⟩ := exists_reserved (M + 1)
  have hq0 := q_new (B := 1) (by decide) (0 : Nat)
  have htail : s.freeList.q.tail = 1 := by rw [hq, hq0]; rfl
  have hbuf : s.freeList.q.buffer 0 = 0 := by rw [hq, hq0]; rfl
  obtain ⟨s', hs', hq', hop', hout'⟩ := reads (s := s) (t := M) (i := UInt32.ofNat M)
    (by rw [hop, if_pos (Nat.lt_succ_self M)]) (by rw [htail]; exact hM)
  refine ⟨s', hs.trans hs', ?_, ?_, ?_, by rw [hq']; exact hbuf, fun t _ ht => ?_, ?_, hout'.trans hout⟩
  · rw [hq', hq, hq0]; rfl
  · rw [hq', hq, hq0]
  · rw [hq', hq, hq0]
  · rw [hop', Function.update_of_ne (Nat.ne_of_lt ht), hop, if_pos (by omega)]
  · rw [hop', Function.update_self, hbuf]

theorem Crowd.allocates {M k : Nat} (h : Crowd M k s) (hk : k < M) : ∃ s', Runs s s' ∧
    s'.freeList.q = { s.freeList.q with head := UInt32.ofNat (k + 1) } ∧
    s'.freeList.op = Function.update s.freeList.op k (.taken 0) ∧ s'.outstanding = [0] := by
  have hlen : 0 < (s.freeList.q.tail - UInt32.ofNat k).toInt32 := by
    rw [h.tail, Wrap.zero_lt_toInt32_sub_iff (by omega) (by omega)]
    exact Nat.lt_succ_self k
  obtain ⟨s₁, hs₁, hq₁, hop₁, hout₁⟩ := reads (h.waiting k (Nat.le_refl k) hk) hlen
  obtain ⟨s₂, hs₂, hq₂, hop₂, hout₂⟩ := releases (s := s₁) (t := k) (i := UInt32.ofNat k) (v := 0)
    (by rw [hop₁, Function.update_self, h.buffer]) (by rw [hq₁]; exact h.head)
  refine ⟨s₂, hs₁.trans hs₂, ?_, ?_, ?_⟩
  · rw [hq₂, hq₁, Wrap.ofNat_succ]
  · rw [hop₂, hop₁, Function.update_idem]
  · rw [hout₂, hout₁, h.outstanding]

theorem Crowd.round {M k : Nat} (h : Crowd M k s) (hk : k < M) : ∃ s', Runs s s' ∧ Crowd M (k + 1) s' := by
  obtain ⟨s₁, hs₁, hq₁, hop₁, hout₁⟩ := h.allocates hk
  obtain ⟨s₂, hs₂, hq₂, hop₂, hout₂⟩ := deallocates (s := s₁) (t := k) (i := UInt32.ofNat (k + 1))
    (by rw [hop₁, Function.update_self]; rfl) hout₁ (by rw [hq₁]) (by rw [hq₁]; exact h.tail) (by rw [hq₁]; exact h.enq)
  have hop : ∀ t, t ≠ k → s₂.freeList.op t = s.freeList.op t := by
    intro t ht
    rw [hop₂ t ht, hop₁, Function.update_of_ne ht]
  refine ⟨s₂, hs₁.trans hs₂, ?_, ?_, ?_, ?_, fun t h₁ h₂ => ?_, ?_, hout₂⟩
  · rw [hq₂, hq₁]
  · rw [hq₂, Wrap.ofNat_succ (k + 1)]
  · rw [hq₂, Wrap.ofNat_succ (k + 1)]
  · rw [hq₂]
    exact Function.update_self 0 (0 : UInt32) s₁.freeList.q.buffer
  · rw [hop t (by omega)]; exact h.waiting t (by omega) h₂
  · rw [hop M (by omega)]; exact h.early

theorem Crowd.rounds {M k : Nat} (hk : k < M) (h : Crowd M 0 s) : ∃ s', Runs s s' ∧ Crowd M k s' := by
  induction k with
  | zero => exact ⟨s, .refl, h⟩
  | succ k ih =>
    obtain ⟨s₁, hs₁, h₁⟩ := ih (by omega)
    obtain ⟨s₂, hs₂, h₂⟩ := h₁.round (by omega)
    exact ⟨s₂, hs₁.trans hs₂, h₂⟩

/-- The last turn of the others, and then that of the thread that had read the slot before. -/
theorem exists_twice {M : Nat} (hpos : 0 < M) (hM : 0 < (1 - UInt32.ofNat M).toInt32) :
    ∃ s, Runs (new 1 0) s ∧ s.outstanding = [0, 0] := by
  obtain ⟨s, hs, h⟩ := exists_crowd hM
  obtain ⟨s₁, hs₁, h₁⟩ := h.rounds (k := M - 1) (by omega)
  obtain ⟨s₂, hs₂, hq₂, hop₂, hout₂⟩ := h₁.allocates (by omega)
  obtain ⟨s₃, hs₃, -, -, hout₃⟩ := releases (s := s₂) (t := M) (i := UInt32.ofNat M) (v := 0)
    (by rw [hop₂, Function.update_of_ne (by omega)]; exact h₁.early) (by rw [hq₂, Nat.sub_add_cancel hpos])
  exact ⟨s₃, ((hs.trans hs₁).trans hs₂).trans hs₃, by rw [hout₃, hout₂]⟩

end Crowd

/-- With `2 ^ 31 + 2` other calls of `alloc_ref` under way the only slot of a pool is handed out twice; and the free
list of a pool of `2 ^ 32` slots is empty from the start. -/
theorem handed_out_twice :
    (∃ s : ArrayPool Nat, Machine.Steps (ArrayPool.step 1) (fun _ _ _ => True) (new 1 0) s ∧ ¬ Sound 1 s) ∧
    ¬ Sound (2 ^ 32) (new (2 ^ 32) 0 : ArrayPool Nat) := by
  refine ⟨?_, fun h => ?_⟩
  · obtain ⟨s, hs, hout⟩ := exists_twice (M := 2 ^ 31 + 2) (by decide) (by decide)
    refine ⟨s, hs, fun h => ?_⟩
    have hnd := h.nodup
    rw [hout] at hnd
    simp at hnd
  · have hlen := (h.slots fun _ => rfl).length_eq
    have hfree : ((new (2 ^ 32) 0 : ArrayPool Nat).free (2 ^ 32)).length = 0 := by
      have hi : idRange 0 (UInt32.ofNat (2 ^ 32)) = [] := by
        rw [← List.length_eq_zero_iff, length_idRange, UInt32.toNat_ofNat']
        omega
      show (Ring.view _ _ _ _).length = 0
      rw [Ring.length_view]
      simp only [new, hi, List.foldl_nil]
      rfl
    rw [List.length_map, List.length_append, hfree, List.length_range] at hlen
    exact absurd hlen (by simp [new])

end ArrayPool
end Mutiny
