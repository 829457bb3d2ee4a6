import Mutiny.AtomicMoveSolo
import Mutiny.Lib.Machine
import Mutiny.SlotContents

/-!
# The destructors of the payloads of the zero-copy Uni channels

The life of a channel with the array pool allocator, up to the drop of the channel. A payload delivered as an
`OgreUnique` is destroyed in its slot when that is dropped. `try_cancel_slot_reserve` gives its slot back in the same
way, so that whatever is there is destroyed; and what is still queued when the channel is dropped never is.

Slot ids stand for the references of the code, which finds the id again by `id_from_ref`: payloads of size 0, whose
references are all the same, are excluded (`refs_identify_slots_iff`).
-/

namespace Mutiny.ZeroCopyDrops
variable {C D : Type → Type}

/-- The channel, until it is dropped, the slots of the `OgreUnique`s and those reserved, the payloads stored into a slot
so far, and what `drop_in_place` was run on. -/
structure Life (C D : Type → Type) where
  channel : Option (ZeroCopy C D Content)
  next : Nat
  uniques : List UInt32
  reserved : List UInt32
  stored : List Nat
  dropped : List Content

inductive Call
  -- of the next payload
  | send
  -- whose setter initialises the slot with the next payload
  | sendWith
  | reserveSlot
  -- the next payload is written to the slot first
  | trySendReserved (slotId : UInt32)
  -- the slot has not been written to
  | tryCancelSlotReserve (slotId : UInt32)
  | consume
  | dropUnique (slotId : UInt32)
  | dropChannel

namespace Call

def isCancel : Call → Bool
  | tryCancelSlotReserve _ => true
  | _ => false

end Call

namespace Life

section Ops
variable [MoveContainer C] [MoveContainer D]

def init (B : Nat) : Life C D := ⟨some (.new B fun _ => .raw), 0, [], [], [], []⟩

/-- The channel after a send, which panics when the queue refuses the slot (`none`). -/
def store (B : Nat) (s : Life C D) (z : ZeroCopy C D Content) : Option (Life C D) :=
  match z.publishValue B s.next with
  | (z, some _, _) => some { s with channel := some z, next := s.next + 1, stored := s.stored ++ [s.next] }
  | (z, none, some _) => some { s with channel := some z, next := s.next + 1 }
  | (_, none, none) => none

/-- `dealloc_ref` of the reference to the slot. -/
def release (B : Nat) (s : Life C D) (z : ZeroCopy C D Content) (slotId : UInt32) : Life C D :=
  let (z, content) := z.releaseLeakedId B (idFromRef slotId.toNat)
  { s with channel := some z, dropped := s.dropped ++ [content] }

def step (B : Nat) (s : Life C D) : Call → Option (Life C D)
  | .send | .sendWith => s.channel.bind (s.store B)
  | .reserveSlot => s.channel.map fun z =>
    match z.leakSlot B with
    | (z, some slotId) => { s with channel := some z, reserved := slotId :: s.reserved }
    | (z, none) => { s with channel := some z }
  | .trySendReserved slotId =>
    if slotId ∈ s.reserved then s.channel.map fun z =>
      match (z.write slotId fun _ => .of s.next).publishLeakedId B (idFromRef slotId.toNat) with
      | (z, some _) => { s with channel := some z, next := s.next + 1, reserved := s.reserved.erase slotId,
                                stored := s.stored ++ [s.next] }
      | (z, none) => { s with channel := some z, next := s.next + 1, stored := s.stored ++ [s.next] }
    else none
  | .tryCancelSlotReserve slotId =>
    if slotId ∈ s.reserved then s.channel.map fun z =>
      { s.release B z slotId with reserved := s.reserved.erase slotId }
    else none
  | .consume => s.channel.map fun z =>
    match z.consumeLeaking B with
    | (z, some slotId) => { s with channel := some z, uniques := slotId :: s.uniques }
    | (z, none) => { s with channel := some z }
  | .dropUnique slotId =>
    if slotId ∈ s.uniques then s.channel.map fun z => { s.release B z slotId with uniques := s.uniques.erase slotId }
    else none
  | .dropChannel => if s.uniques = [] ∧ s.reserved = [] then s.channel.map fun _ => { s with channel := none } else none

end Ops

/-- Each payload stored has been destroyed once, and only slots whose content had been stored since they were last
given back were dropped. -/
structure Clean (s : Life C D) : Prop where
  once : ∀ v ∈ s.stored, (s.dropped.map Content.value).count (some v) = 1
  live : ∀ content ∈ s.dropped, content.stored = true

variable {B : Nat} {s s' : Life C D} {pending destroyed : List Nat} {delivered : List (UInt32 × Nat)}

/-- While no reservation is cancelled: every payload stored is queued, delivered or destroyed. -/
structure Ledger (s : Life C D) (pending : List Nat) (delivered : List (UInt32 × Nat)) (destroyed : List Nat) : Prop where
  dropped : s.dropped = destroyed.map .of
  places : (pending ++ delivered.map Prod.snd ++ destroyed).Perm s.stored
  nodup : s.stored.Nodup
  lt : ∀ v ∈ s.stored, v < s.next

/-- With nothing in the hands of callers, what is still queued has not been destroyed. -/
theorem Ledger.clean_iff (h : Ledger s pending [] destroyed) : s.Clean ↔ pending = [] := by
  have hvalues : s.dropped.map Content.value = destroyed.map some := by
    rw [h.dropped, List.map_map]
    rfl
  have hcount : ∀ v, (s.dropped.map Content.value).count (some v) = destroyed.count v := by
    intro v
    rw [hvalues, List.count_map_of_injective _ _ (Option.some_injective Nat)]
  have hplaces : (pending ++ destroyed).Perm s.stored := by
    have := h.places
    rwa [List.map_nil, List.append_nil] at this
  have hnodup := hplaces.nodup_iff.mpr h.nodup
  constructor
  · intro hclean
    by_contra hne
    obtain ⟨v, hv⟩ := List.exists_mem_of_ne_nil _ hne
    have hone := hclean.once v (hplaces.mem_iff.mp (List.mem_append_left _ hv))
    rw [hcount] at hone
    have hmem : v ∈ destroyed := List.count_pos_iff.mp (by omega)
    exact (List.nodup_append.mp hnodup).2.2 v hv v hmem rfl
  · rintro rfl
    refine ⟨?_, ?_⟩
    · intro v hv
      rw [hcount]
      exact List.count_eq_one_of_mem hnodup (hplaces.mem_iff.mpr hv)
    · intro content hm
      rw [h.dropped] at hm
      obtain ⟨v, -, rfl⟩ := List.mem_map.mp hm
      rfl

structure Effect (s s' : Life C D) (cancel : Bool) (pending pending' : List Nat) (delivered delivered' : List (UInt32 × Nat)) :
    Prop where
  ledger : cancel = false → ∀ destroyed, Ledger s pending delivered destroyed →
    ∃ destroyed', Ledger s' pending' delivered' destroyed'
  stale : cancel = true → ∃ content ∈ s'.dropped, content.stored = false
  grows : ∀ content ∈ s.dropped, content ∈ s'.dropped

theorem Ledger.store (h : Ledger s pending delivered destroyed) (hdropped : s'.dropped = s.dropped)
    (hstored : s'.stored = s.stored ++ [s.next]) (hnext : s'.next = s.next + 1) :
    Ledger s' (pending ++ [s.next]) delivered destroyed := by
  refine ⟨hdropped.trans h.dropped, ?_, ?_, ?_⟩
  · rw [hstored]
    refine List.Perm.trans ?_ (h.places.append_right [s.next])
    rw [List.append_assoc, List.append_assoc, List.append_assoc pending, List.append_assoc pending]
    exact List.perm_append_comm.append_left pending
  · rw [hstored]
    refine List.nodup_append.mpr ⟨h.nodup, List.nodup_singleton _, ?_⟩
    rintro v hv w hw rfl
    exact absurd (h.lt v hv) (by rw [List.mem_singleton.mp hw]; exact Nat.lt_irrefl _)
  · rw [hstored, hnext]
    intro v hv
    rcases List.mem_append.mp hv with hv | hv
    · exact Nat.lt_succ_of_lt (h.lt v hv)
    · rw [List.mem_singleton.mp hv]
      exact Nat.lt_succ_self _

theorem Ledger.move {pending' destroyed' : List Nat} {delivered' : List (UInt32 × Nat)}
    (h : Ledger s pending delivered destroyed) (hdropped : s'.dropped = destroyed'.map .of)
    (hstored : s'.stored = s.stored) (hnext : s.next ≤ s'.next)
    (hperm : (pending' ++ delivered'.map Prod.snd ++ destroyed').Perm
      (pending ++ delivered.map Prod.snd ++ destroyed)) : Ledger s' pending' delivered' destroyed' := by
  refine ⟨hdropped, hstored ▸ hperm.trans h.places, hstored ▸ h.nodup, ?_⟩
  rw [hstored]
  intro v hv
  exact Nat.lt_of_lt_of_le (h.lt v hv) hnext

theorem Effect.of_eq (hdropped : s'.dropped = s.dropped) (hstored : s'.stored = s.stored) (hnext : s.next ≤ s'.next) :
    Effect s s' false pending pending delivered delivered := by
  refine ⟨?_, nofun, fun _ hc => hdropped ▸ hc⟩
  intro _ destroyed h
  exact ⟨destroyed, h.move (hdropped.trans h.dropped) hstored hnext (.refl _)⟩

theorem Effect.store (hdropped : s'.dropped = s.dropped) (hstored : s'.stored = s.stored ++ [s.next])
    (hnext : s'.next = s.next + 1) : Effect s s' false pending (pending ++ [s.next]) delivered delivered := by
  refine ⟨?_, nofun, fun _ hc => hdropped ▸ hc⟩
  intro _ destroyed h
  exact ⟨destroyed, h.store hdropped hstored hnext⟩

section Books
variable [LawfulMoveContainer C] [LawfulMoveContainer D] {z : ZeroCopy C D Content} {c : Call} {calls : List Call}
  {slotId : UInt32}

/-- The channel has these payloads queued and delivered these. -/
structure Kept (B : Nat) (s : Life C D) (pending : List Nat) (delivered : List (UInt32 × Nat)) : Prop where
  channel : ∀ z, s.channel = some z → z.Holds B pending delivered s.reserved
  uniques : delivered.map Prod.fst = s.uniques

theorem Kept.init (hB : Ring.PowerOfTwo B) : Kept B (.init B : Life C D) [] [] := by
  refine ⟨?_, rfl⟩
  rintro z ⟨⟩
  exact .new hB

theorem Ledger.init : Ledger (.init B : Life C D) [] [] [] := ⟨rfl, .refl _, List.nodup_nil, nofun⟩

namespace Kept

theorem set (h : Kept B s pending delivered) (hz : z.Holds B pending delivered s.reserved) {n : Nat} :
    Kept B { s with channel := some z, next := n } pending delivered := by
  refine ⟨?_, h.uniques⟩
  rintro _ ⟨⟩
  exact hz

theorem store (h : Kept B s pending delivered) (hB : Ring.PowerOfTwo B) (hz : s.channel = some z)
    (hs : s.store B z = some s') :
    ∃ pending', Kept B s' pending' delivered ∧ Effect s s' false pending pending' delivered delivered := by
  have hholds := h.channel z hz
  unfold Life.store at hs
  rcases hholds.publishValue_cases hB s.next with ⟨z', len, hq, hholds', -⟩ | ⟨hq, -⟩
  · rw [hq] at hs
    cases hs
    refine ⟨_, ⟨?_, h.uniques⟩, .store rfl rfl rfl⟩
    rintro _ ⟨⟩
    exact hholds'
  · rw [hq] at hs
    cases hs
    exact ⟨_, h.set hholds, .of_eq rfl rfl (Nat.le_succ _)⟩

theorem reserveSlot (h : Kept B s pending delivered) (hz : s.channel = some z)
    (hs : s.step B .reserveSlot = some s') :
    Kept B s' pending delivered ∧ Effect s s' false pending pending delivered delivered := by
  have hholds := h.channel z hz
  rw [step, hz, Option.map_some, Option.some.injEq] at hs
  subst hs
  rcases hholds.reserve_cases with ⟨z', slotId, hq, hholds', -⟩ | ⟨hq, -⟩
  · rw [hq]
    refine ⟨⟨?_, h.uniques⟩, .of_eq rfl rfl (Nat.le_refl _)⟩
    rintro _ ⟨⟩
    exact hholds'
  · rw [hq]
    exact ⟨h.set hholds, .of_eq rfl rfl (Nat.le_refl _)⟩

theorem trySendReserved (h : Kept B s pending delivered) (hB : Ring.PowerOfTwo B) (hz : s.channel = some z)
    (hs : s.step B (.trySendReserved slotId) = some s') : Kept B s' (pending ++ [s.next]) delivered ∧
      Effect s s' false pending (pending ++ [s.next]) delivered delivered := by
  rw [step, Option.ite_none_right_eq_some, hz, Option.map_some, Option.some.injEq] at hs
  obtain ⟨hmem, rfl⟩ := hs
  obtain ⟨z', len, hq, hholds'⟩ := (h.channel z hz).send hB hmem s.next
  rw [idFromRef_toNat, hq]
  refine ⟨⟨?_, h.uniques⟩, .store rfl rfl rfl⟩
  rintro _ ⟨⟩
  exact hholds'

theorem tryCancelSlotReserve (h : Kept B s pending delivered) (hB : Ring.PowerOfTwo B) (hz : s.channel = some z)
    (hs : s.step B (.tryCancelSlotReserve slotId) = some s') : Kept B s' pending delivered ∧
      Effect s s' true pending pending delivered delivered := by
  rw [step, Option.ite_none_right_eq_some, hz, Option.map_some, Option.some.injEq] at hs
  obtain ⟨hmem, rfl⟩ := hs
  obtain ⟨hstale, hholds'⟩ := (h.channel z hz).dropReserved hB hmem
  unfold release
  rw [idFromRef_toNat]
  refine ⟨⟨?_, h.uniques⟩, nofun, fun _ => ⟨_, List.mem_append_right _ (List.mem_singleton_self _), hstale⟩,
    fun _ => List.mem_append_left _⟩
  rintro _ ⟨⟩
  exact hholds'

theorem consume (h : Kept B s pending delivered) (hz : s.channel = some z) (hs : s.step B .consume = some s') :
    ∃ pending' delivered', Kept B s' pending' delivered' ∧ Effect s s' false pending pending' delivered delivered' := by
  have hholds := h.channel z hz
  rw [step, hz, Option.map_some, Option.some.injEq] at hs
  subst hs
  rcases hholds.consume_cases with ⟨z', slotId, v, rest, hq, rfl, hholds'⟩ | ⟨hq, -⟩
  · rw [hq]
    refine ⟨rest, (slotId, v) :: delivered, ⟨?_, congrArg (slotId :: ·) h.uniques⟩, ?_, nofun, fun _ => id⟩
    · rintro _ ⟨⟩
      exact hholds'
    · intro _ destroyed hl
      refine ⟨destroyed, hl.move hl.dropped rfl (Nat.le_refl _) (List.Perm.append_right _ ?_)⟩
      exact List.perm_middle
  · rw [hq]
    exact ⟨pending, delivered, h.set hholds, .of_eq rfl rfl (Nat.le_refl _)⟩

theorem dropUnique (h : Kept B s pending delivered) (hB : Ring.PowerOfTwo B) (hz : s.channel = some z)
    (hs : s.step B (.dropUnique slotId) = some s') :
    ∃ delivered', Kept B s' pending delivered' ∧ Effect s s' false pending pending delivered delivered' := by
  rw [step, Option.ite_none_right_eq_some, hz, Option.map_some, Option.some.injEq] at hs
  obtain ⟨hmem, rfl⟩ := hs
  rw [← h.uniques] at hmem
  obtain ⟨d, hd, rfl⟩ := List.mem_map.mp hmem
  have hholds := h.channel z hz
  obtain ⟨hdropped, hholds'⟩ := hholds.dropDelivered hB hd
  have hperm := List.perm_cons_erase hd
  have huniques : (delivered.erase d).map Prod.fst = s.uniques.erase d.1 := by
    rw [← h.uniques]
    exact hholds.map_erase hd
  unfold release
  rw [idFromRef_toNat]
  refine ⟨delivered.erase d, ⟨?_, huniques⟩, ?_, nofun, fun _ => List.mem_append_left _⟩
  · rintro _ ⟨⟩
    exact hholds'
  · intro _ destroyed hl
    refine ⟨destroyed ++ [d.2], hl.move ?_ rfl (Nat.le_refl _) ?_⟩
    · show s.dropped ++ [(z.releaseLeakedId B d.1).2] = _
      rw [hl.dropped, hdropped, List.map_append]
      rfl
    · refine List.Perm.trans ?_ (((hperm.map Prod.snd).symm.append_left pending).append_right destroyed)
      rw [List.append_assoc, List.append_assoc, List.map_cons, ← List.append_assoc _ destroyed]
      exact (List.perm_append_singleton d.2 _).append_left pending

theorem step (h : Kept B s pending delivered) (hB : Ring.PowerOfTwo B) (hs : s.step B c = some s') :
    ∃ pending' delivered', Kept B s' pending' delivered' ∧
      Effect s s' c.isCancel pending pending' delivered delivered' := by
  have hchannel : ∃ z, s.channel = some z := by
    rw [← Option.isSome_iff_exists]
    cases hz : s.channel with
    | some z => rfl
    | none => cases c <;> simp [Life.step, hz] at hs
  obtain ⟨z, hz⟩ := hchannel
  cases c with
  | send | sendWith =>
    rw [Life.step, hz, Option.bind_some] at hs
    obtain ⟨pending', hkept, heffect⟩ := h.store hB hz hs
    exact ⟨pending', delivered, hkept, heffect⟩
  | reserveSlot => exact ⟨pending, delivered, h.reserveSlot hz hs⟩
  | trySendReserved slotId => exact ⟨_, delivered, h.trySendReserved hB hz hs⟩
  | tryCancelSlotReserve slotId => exact ⟨pending, delivered, h.tryCancelSlotReserve hB hz hs⟩
  | consume => exact h.consume hz hs
  | dropUnique slotId => exact ⟨pending, h.dropUnique hB hz hs⟩
  | dropChannel =>
    rw [Life.step, Option.ite_none_right_eq_some, hz, Option.map_some, Option.some.injEq] at hs
    obtain ⟨-, rfl⟩ := hs
    exact ⟨pending, delivered, ⟨nofun, h.uniques⟩, .of_eq rfl rfl (Nat.le_refl _)⟩

end Kept

theorem Kept.run (h : Kept B s pending delivered) (hB : Ring.PowerOfTwo B)
    (hs : Machine.exec (Life.step B) s calls = some s') : ∃ pending' delivered', Kept B s' pending' delivered' ∧
      Effect s s' (calls.any Call.isCancel) pending pending' delivered delivered' := by
  induction calls generalizing s pending delivered with
  | nil =>
    cases hs
    exact ⟨pending, delivered, h, .of_eq rfl rfl (Nat.le_refl _)⟩
  | cons c calls ih =>
    rw [Machine.exec_cons, Option.bind_eq_some_iff] at hs
    obtain ⟨s₁, hc, hcalls⟩ := hs
    obtain ⟨pending₁, delivered₁, h₁, heffect₁⟩ := h.step hB hc
    obtain ⟨pending₂, delivered₂, h₂, heffect₂⟩ := ih h₁ hcalls
    refine ⟨pending₂, delivered₂, h₂, ?_, ?_, fun content hm => heffect₂.grows _ (heffect₁.grows _ hm)⟩
    · intro hnone destroyed hl
      rw [List.any_cons, Bool.or_eq_false_iff] at hnone
      obtain ⟨destroyed₁, hl₁⟩ := heffect₁.ledger hnone.1 destroyed hl
      exact heffect₂.ledger hnone.2 destroyed₁ hl₁
    · intro hsome
      rw [List.any_cons, Bool.or_eq_true] at hsome
      rcases hsome with hc | hcalls
      · obtain ⟨content, hm, hstale⟩ := heffect₁.stale hc
        exact ⟨content, heffect₂.grows _ hm, hstale⟩
      · exact heffect₂.stale hcalls

end Books

end Life

open Life

/-- When the channel is dropped after the run `calls`: no reservation was cancelled and nothing is queued. -/
theorem payloads_dropped_iff [LawfulMoveContainer C] [LawfulMoveContainer D] {B : Nat} (hB : Ring.PowerOfTwo B)
    {calls : List Call} {s s' : Life C D} {z : ZeroCopy C D Content} (h : Machine.exec (step B) (init B) calls = some s)
    (hz : s.channel = some z) (hdrop : s.step B .dropChannel = some s') :
    s'.Clean ↔ (∀ slotId, .tryCancelSlotReserve slotId ∉ calls) ∧ z.queuedIds B = [] := by
  obtain ⟨pending, delivered, hkept, heffect⟩ := (Kept.init hB).run hB h
  rw [step, Option.ite_none_right_eq_some, hz, Option.map_some, Option.some.injEq] at hdrop
  obtain ⟨⟨huniques, -⟩, rfl⟩ := hdrop
  have hdelivered : delivered = [] := List.map_eq_nil_iff.mp (hkept.uniques.trans huniques)
  have hcancel : (∀ slotId, .tryCancelSlotReserve slotId ∉ calls) ↔ calls.any Call.isCancel = false := by
    rw [List.any_eq_false]
    constructor
    · rintro hnone (_ | _ | _ | _ | slotId | _ | _ | _) hc
      case tryCancelSlotReserve => exact absurd hc (hnone slotId)
      all_goals exact nofun
    · intro hnone slotId hc
      exact hnone _ hc rfl
  have hqueued : z.queuedIds B = [] ↔ pending = [] := by
    rw [← List.length_eq_zero_iff, ← List.length_eq_zero_iff, (hkept.channel z hz).length_pending]
  rw [hcancel, hqueued]
  cases hany : calls.any Call.isCancel with
  | true =>
    obtain ⟨content, hm, hstale⟩ := heffect.stale hany
    refine iff_of_false (fun hclean => ?_) fun hno => Bool.noConfusion hno.1
    rw [hclean.live content hm] at hstale
    cases hstale
  | false =>
    obtain ⟨destroyed, hl⟩ := heffect.ledger hany [] .init
    rw [hdelivered] at hl
    have hl' : Ledger ({ s with channel := none } : Life C D) pending [] destroyed :=
      ⟨hl.dropped, hl.places, hl.nodup, hl.lt⟩
    exact hl'.clean_iff.trans (and_iff_right rfl).symm

/-- Two slots: one payload is sent and another one written to a reserved slot, both are delivered and dropped. -/
theorem payloads_dropped_two : ∃ s : Life AtomicMove AtomicMove, s.stored = [0, 1] ∧ s.Clean := by
  have hrun : (Machine.exec (step 2) (init 2 : Life AtomicMove AtomicMove) [.reserveSlot, .send, .trySendReserved 0,
      .consume, .consume, .dropUnique 0, .dropUnique 1]).map (fun s => decide (s.channel.map (·.queuedIds 2) = some [] ∧
        s.uniques = [] ∧ s.reserved = [] ∧ s.stored = [0, 1])) = some true := by decide +kernel
  obtain ⟨s, hs, ht⟩ := Option.map_eq_some_iff.mp hrun
  rw [decide_eq_true_iff] at ht
  obtain ⟨hz, huniques, hreserved, hstored⟩ := ht
  obtain ⟨z, hz, hqueued⟩ := Option.map_eq_some_iff.mp hz
  have hdrop : s.step 2 .dropChannel = some { s with channel := none } := by
    rw [step, if_pos ⟨huniques, hreserved⟩, hz]
    rfl
  exact ⟨{ s with channel := none }, hstored, (payloads_dropped_iff ⟨1, rfl⟩ hs hz hdrop).mpr ⟨by simp, hqueued⟩⟩

/-- One slot: the first payload is delivered and dropped, and its slot reserved and given back unwritten; the second
payload is queued when the channel is dropped. -/
theorem payloads_dropped_stale : ∃ s : Life FullSyncMove FullSyncMove, Machine.exec (step 1) (init 1)
      [.send, .consume, .dropUnique 0, .reserveSlot, .tryCancelSlotReserve 0, .send, .dropChannel] = some s ∧
    s.stored = [0, 1] ∧ s.dropped = [.of 0, ⟨some 0, false⟩] ∧ ¬ s.Clean := by
  have hrun : (Machine.exec (step 1) (init 1 : Life FullSyncMove FullSyncMove)
      [.send, .consume, .dropUnique 0, .reserveSlot, .tryCancelSlotReserve 0, .send, .dropChannel]).map
      (fun s => decide (s.stored = [0, 1] ∧ s.dropped = [.of 0, ⟨some 0, false⟩])) = some true := by decide +kernel
  obtain ⟨s, hs, ht⟩ := Option.map_eq_some_iff.mp hrun
  rw [decide_eq_true_iff] at ht
  obtain ⟨hstored, hdropped⟩ := ht
  refine ⟨s, hs, hstored, hdropped, fun hclean => ?_⟩
  have hlive := hclean.live ⟨some 0, false⟩ (by rw [hdropped]; simp)
  cases hlive

end Mutiny.ZeroCopyDrops
