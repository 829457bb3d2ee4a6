import Mutiny.AtomicMoveSolo
import Mutiny.MultiOgreArc

/-!
# The panic in `send_derived` of the `ogre_arc` Multi channels

`"BUG! This should never happen!"`: a dispatcher queue has room for as many elements as the allocator
has slots, and its elements are distinct `OgreArc`s, each with a slot of its own, as long as no
`OgreArc` is sent again while a stream has yet to consume it (`noBugPanic`). Callers may do so, as
`send_derived` is public: sent twice over a queue of one element, a delivered `OgreArc` makes it panic
(`resent_run`).
-/

namespace Mutiny.MultiOgreArc
open LawfulMoveContainer (elems WellFormed)

section Room
variable {C D : Type → Type} [LawfulMoveContainer C] [LawfulMoveContainer D] {α : Type} {B M : Nat}
  {s s' : Chan C D α} {arc : OgreArc} {id : UInt32}

def slotOf (st : Store C α) (arc : OgreArc) : UInt32 := (st.box arc).elim 0 InnerOgreArc.dataId

/-- Distinct `OgreArc`s have distinct slots, so there are no more of them than slots. -/
theorem length_le_room {st : Store C α} {reserved : List UInt32} {owners l : List OgreArc}
    (h : st.Ok B reserved owners) (hl : l.Nodup) (hsub : ∀ arc ∈ l, arc ∈ owners) : l.length ≤ Ring.room B := by
  have hbox : ∀ arc ∈ l, ∃ inner, st.box arc = some inner := fun arc ha =>
    Option.isSome_iff_exists.mp ((h.owned arc).mpr (hsub arc ha))
  have hnd : (l.map (slotOf st)).Nodup := by
    refine hl.map_on fun a ha b hb hab => ?_
    obtain ⟨i, hi⟩ := hbox a ha
    obtain ⟨j, hj⟩ := hbox b hb
    refine h.inj a b i j hi hj ?_
    simpa [slotOf, hi, hj] using hab
  have hlt : l.map (slotOf st) ⊆ idRange 0 (UInt32.ofNat B) := by
    intro slot hslot
    obtain ⟨a, ha, rfl⟩ := List.mem_map.mp hslot
    obtain ⟨i, hi⟩ := hbox a ha
    refine mem_idRange.mpr ⟨by simp [UInt32.le_iff_toNat_le], h.boxed_lt _ ⟨a, i, hi, ?_⟩⟩
    simp [slotOf, hi]
  have hle := (hnd.subperm hlt).length_le
  rw [List.length_map, length_idRange, UInt32.toNat_zero] at hle
  exact hle

end Room

section Resendable
variable {C D : Type → Type} [LawfulMoveContainer D] {α : Type} {B M : Nat} {s : Chan C D α} {arc : OgreArc}

/-- If the call sends an `OgreArc` again, no live stream has a copy of it yet to consume. -/
def Chan.Resendable (B : Nat) (s : Chan C D α) : Label α → Prop
  | .sendDerived arc => ∀ id ∈ s.live, arc ∉ elems B (s.dispatchers id)
  | _ => True

def Chan.ResendOk (B M : Nat) (s : Chan C D α) (l : Label α) (s' : Chan C D α) : Prop :=
  s.Resendable B l ∧ s.Small B M l s'

/-- The elements of a queue are distinct. -/
def Chan.Distinct (B : Nat) (s : Chan C D α) : Prop := ∀ id, (elems B (s.dispatchers id)).Nodup

theorem Chan.Distinct.push {d : UInt32 → D OgreArc} (hd : s.Distinct B)
    (hel : ∀ id, elems B (d id) = if id ∈ s.streams.inUse M then elems B (s.dispatchers id) ++ [arc]
      else elems B (s.dispatchers id))
    (hnot : ∀ id ∈ s.streams.inUse M, arc ∉ elems B (s.dispatchers id)) (id : UInt32) : (elems B (d id)).Nodup := by
  rw [hel id]
  split
  case isTrue hid =>
    rw [List.nodup_append_comm, List.singleton_append, List.nodup_cons]
    exact ⟨hnot id hid, hd id⟩
  case isFalse => exact hd id

end Resendable

section Distinct
variable {C D : Type → Type} [LawfulMoveContainer C] [LawfulMoveContainer D] {α : Type} {B M : Nat}
  {s s' : Chan C D α} {arc : OgreArc} {slot : UInt32} {setter : α → α} {l : Label α}

theorem sendDerived_ne_bug {reserved : List UInt32} {handles : List OgreArc} (hB : Ring.PowerOfTwo B)
    (hM : Ring.PowerOfTwo M) (hsync : s.streams.Synced M) (hq : ∀ id, WellFormed B (s.dispatchers id))
    (hst : s.store.Ok B reserved (lanes B M s.dispatchers ++ handles)) (hd : s.Distinct B)
    (harc : ∀ id ∈ s.streams.inUse M, arc ∉ elems B (s.dispatchers id)) (e : Panic) :
    s.sendDerived B arc ≠ some (.error e) := by
  intro hs
  obtain ⟨store, hstore, hr⟩ := sendDerived_cases hM hsync hs
  obtain ⟨inner, hbox, -⟩ := Option.map_eq_some_iff.mp hstore
  have hown : arc ∈ lanes B M s.dispatchers ++ handles := (hst.owned arc).mp (by rw [hbox]; rfl)
  have hroom : ∀ id ∈ s.streams.inUse M, (elems B (s.dispatchers id)).length < Ring.room B := by
    intro id hid
    have hlt := (StreamsManagerBase.mem_inUse.mp hid).1
    have hle := length_le_room hst (List.nodup_cons.mpr ⟨harc id hid, hd id⟩) fun a ha => ?_
    · rwa [List.length_cons] at hle
    · rcases List.mem_cons.mp ha with rfl | ha'
      · exact hown
      · exact List.mem_append_left _ (mem_lanes hlt ha')
  obtain ⟨d, hpub⟩ := LawfulMoveContainer.exists_publishEach hB StreamsManagerBase.nodup_inUse hq hroom arc
  rw [publishAll, filter_inUse hM, hpub] at hr
  cases hr

theorem sendAllocated_ne_bug {reserved : List UInt32} (hB : Ring.PowerOfTwo B) (hM : Ring.PowerOfTwo M)
    (hsync : s.streams.Synced M) (hq : ∀ id, WellFormed B (s.dispatchers id))
    (hst : s.store.Ok B reserved (s.owners B M)) (hd : s.Distinct B) (hslot : slot ∈ reserved) (e : Panic) :
    s.sendAllocated B slot setter ≠ some (.error e) := by
  intro hs
  rcases hf : s.store.fromAllocated slot with ⟨st, a⟩
  obtain ⟨hok, hnot, -⟩ := hst.fromAllocated hslot hf
  simp only [Chan.sendAllocated, hf] at hs
  rcases hsd : ({ s with store := st.write slot setter } : Chan C D α).sendDerived B a with _ | _ | s₁
  · simp [hsd] at hs
  · simp only [hsd] at hs
    rw [hs] at hsd
    refine sendDerived_ne_bug (s := { s with store := st.write slot setter }) hB hM hsync hq
      ((hok.write slot setter).perm List.perm_middle) hd (fun id hid ha => hnot ?_) e hsd
    exact List.mem_append_left _ (mem_lanes (StreamsManagerBase.mem_inUse.mp hid).1 ha)
  · simp only [hsd] at hs
    obtain ⟨store, -, h⟩ := Option.map_eq_some_iff.mp hs
    cases h

theorem Inv.sendWith_ne_bug (h : Inv B M s) (hB : Ring.PowerOfTwo B) (hM : Ring.PowerOfTwo M) (hd : s.Distinct B)
    (e : Panic) : s.sendWith B setter ≠ some (.error e) := by
  intro hs
  unfold Chan.sendWith at hs
  rcases heq : s.store.allocRef B with ⟨store, _ | slot⟩
  · simp [heq] at hs
  · simp only [heq] at hs
    exact sendAllocated_ne_bug (s := { s with store }) hB hM h.streams h.queue (h.store.allocRef heq).1 hd
      List.mem_cons_self e hs

theorem Inv.call_ne_bug (h : Inv B M s) (hB : Ring.PowerOfTwo B) (hM : Ring.PowerOfTwo M) (hd : s.Distinct B)
    (hl : s.Resendable B l) : s.call B M l ≠ some (.error .bug) := by
  intro hs
  cases l with
  | createStream =>
    simp only [Chan.call] at hs
    split at hs <;> cases hs
  | reserveSlot =>
    simp only [Chan.call] at hs
    split at hs <;> cases hs
  | send item => exact h.sendWith_ne_bug hB hM hd _ hs
  | sendWith setter => exact h.sendWith_ne_bug hB hM hd _ hs
  | sendDerived arc =>
    simp only [Chan.call, Option.ite_none_right_eq_some] at hs
    exact sendDerived_ne_bug hB hM h.streams h.queue h.store hd (fun id hid => hl id (h.live.mem_iff.mpr hid)) _ hs.2
  | trySendReserved slot =>
    simp only [Chan.call, Option.ite_none_right_eq_some] at hs
    exact sendAllocated_ne_bug (s := { s with reserved := s.reserved.erase slot }) hB hM h.streams h.queue h.store hd
      hs.1 _ hs.2
  | dropStream id | writeReserved slot setter | tryCancelSlotReserve slot | consume id =>
    simp [Chan.call] at hs
  | clone arc | dropArc arc => simp [Chan.call, Option.map_eq_some_iff] at hs

/-! ### The elements of a queue stay distinct -/

theorem sendAllocated_distinct {reserved : List UInt32} (hB : Ring.PowerOfTwo B) (hM : Ring.PowerOfTwo M)
    (hsync : s.streams.Synced M) (hq : ∀ id, WellFormed B (s.dispatchers id))
    (hst : s.store.Ok B reserved (s.owners B M)) (hd : s.Distinct B) (hslot : slot ∈ reserved)
    (hs : s.sendAllocated B slot setter = some (.ok s')) : s'.Distinct B := by
  obtain ⟨a, store, d, rfl, hnot, -, hel, -⟩ := sendAllocated_spec (M := M) hB hM hsync hq hst hslot hs
  refine hd.push hel fun id hid ha => hnot ?_
  exact List.mem_append_left _ (mem_lanes (StreamsManagerBase.mem_inUse.mp hid).1 ha)

theorem Inv.sendWith_distinct (h : Inv B M s) (hB : Ring.PowerOfTwo B) (hM : Ring.PowerOfTwo M) (hd : s.Distinct B)
    (hs : s.sendWith B setter = some (.ok s')) : s'.Distinct B := by
  unfold Chan.sendWith at hs
  rcases heq : s.store.allocRef B with ⟨store, _ | slot⟩
  · simp only [heq] at hs
    cases hs
    exact hd
  · simp only [heq] at hs
    exact sendAllocated_distinct (s := { s with store }) hB hM h.streams h.queue (h.store.allocRef heq).1 hd
      List.mem_cons_self hs

theorem Inv.distinct_step (h : Inv B M s) (hB : Ring.PowerOfTwo B) (hM : Ring.PowerOfTwo M) (hd : s.Distinct B)
    (hl : s.Resendable B l) (hs : s.step B M l = some s') : s'.Distinct B := by
  replace hs := call_of_step hs
  cases l with
  | createStream =>
    simp only [Chan.call] at hs
    split at hs <;> cases hs
    exact hd
  | reserveSlot =>
    simp only [Chan.call] at hs
    split at hs <;> cases hs <;> exact hd
  | send item => exact h.sendWith_distinct hB hM hd hs
  | sendWith setter => exact h.sendWith_distinct hB hM hd hs
  | sendDerived arc =>
    simp only [Chan.call, Option.ite_none_right_eq_some] at hs
    obtain ⟨store, d, -, rfl, -, hel, -⟩ := sendDerived_spec hB hM h.streams h.queue hs.2
    exact hd.push hel fun id hid => hl id (h.live.mem_iff.mpr hid)
  | trySendReserved slot =>
    simp only [Chan.call, Option.ite_none_right_eq_some] at hs
    exact sendAllocated_distinct (s := { s with reserved := s.reserved.erase slot }) hB hM h.streams h.queue h.store hd
      hs.1 hs.2
  | consume id =>
    simp only [Chan.call, Option.ite_none_right_eq_some, Option.some.injEq, Except.ok.injEq] at hs
    obtain ⟨-, rfl⟩ := hs
    intro i
    rcases Chan.consume_cases (h.queue id) with ⟨q, a, -, -, hel, heq⟩ | ⟨-, heq⟩
    · rw [heq]
      show (elems B (Function.update s.dispatchers id q i)).Nodup
      by_cases hi : i = id
      · subst hi
        have hnd := hd i
        rw [hel] at hnd
        rw [Function.update_self]
        exact (List.nodup_cons.mp hnd).2
      · rw [Function.update_of_ne hi]; exact hd i
    · rw [heq]
      exact hd i
  | dropStream id | writeReserved slot setter | tryCancelSlotReserve slot =>
    simp only [Chan.call, Option.ite_none_right_eq_some, Option.some.injEq, Except.ok.injEq] at hs
    obtain ⟨-, rfl⟩ := hs
    exact hd
  | clone arc | dropArc arc =>
    simp only [Chan.call, Option.ite_none_right_eq_some, Option.map_eq_some_iff, Except.ok.injEq] at hs
    obtain ⟨-, store, -, rfl⟩ := hs
    exact hd

/-- `send_derived` does not panic in a run in which no `OgreArc` is sent again before every live stream
has consumed it. -/
theorem noBugPanic (hB : Ring.PowerOfTwo B) (hM : Ring.PowerOfTwo M) {pool : Nat → α}
    (h : Machine.Steps (Chan.step B M) (Chan.ResendOk B M) (.init B M pool : Chan C D α) s)
    (hl : s.Resendable B l) : s.call B M l ≠ some (.error .bug) := by
  have hinv := Inv.of_steps hB hM (h.mono fun _ _ _ hok => hok.2)
  have hd : s.Distinct B := by
    refine (h.invariant (I := fun s => (Inv B M s ∧ ∀ arc, s.copies B M arc < 2 ^ 32) ∧ s.Distinct B)
      (fun _ _ _ hi hs hok => ⟨⟨hi.1.1.step hB hM hi.1.2 hs, hok.2⟩, hi.1.1.distinct_step hB hM hi.2 hok.1 hs⟩)
      ⟨Inv.of_steps hB hM .refl, fun id => ?_⟩).2
    show (elems B (MoveContainer.withInitializer _ : D OgreArc)).Nodup
    rw [LawfulMoveContainer.init_elems]
    exact List.nodup_nil
  exact hinv.1.call_ne_bug hB hM hd hl

end Distinct

/-! ### Concrete runs -/

def resendOk (B M : Nat) (s : Chan FullSyncMove FullSyncMove Nat) (l : Label Nat)
    (s' : Chan FullSyncMove FullSyncMove Nat) : Bool :=
  (match l with
    | .sendDerived arc => s.live.all fun id => arc ∉ elems B (s.dispatchers id)
    | _ => true) && (s'.owners B M).length < 2 ^ 32

theorem resendOk_of_eq_true {B M : Nat} {s s' : Chan FullSyncMove FullSyncMove Nat} {l : Label Nat}
    (h : resendOk B M s l s' = true) : s.ResendOk B M l s' := by
  unfold resendOk at h
  rw [Bool.and_eq_true, decide_eq_true_iff] at h
  refine ⟨?_, small_of_length h.2⟩
  cases l with
  | sendDerived arc => simpa [Chan.Resendable] using h.1
  | _ => trivial

/-- A delivered `OgreArc` is sent again and is pending; another event is sent. -/
theorem noBugPanic_pending : ∃ s : Chan FullSyncMove FullSyncMove Nat, s.handles = [0] ∧
    elems 2 (s.dispatchers 0) = [0] ∧ s.call 2 1 (.send 8) ≠ some (.error .bug) := by
  have hrun : (Machine.exec (Machine.restrict (Chan.step 2 1) (resendOk 2 1))
      (.init 2 1 fun _ => 0) [.createStream, .send 7, .consume 0, .sendDerived 0]).map (fun s =>
        decide (s.handles = [0] ∧ elems 2 (s.dispatchers 0) = [0])) = some true := by decide +kernel
  obtain ⟨s, hs, ht⟩ := Option.map_eq_some_iff.mp hrun
  rw [decide_eq_true_iff] at ht
  have hsteps : Machine.Steps (Chan.step 2 1) (Chan.ResendOk 2 1) (.init 2 1 fun _ => 0) s :=
    (Machine.Path.of_exec_restrict (fun _ _ _ => resendOk_of_eq_true) hs).steps
  exact ⟨s, ht.1, ht.2, noBugPanic ⟨1, rfl⟩ ⟨0, rfl⟩ hsteps trivial⟩

/-- Whether the call ends in the `"BUG! .."` panic. -/
def Chan.panics {C D : Type → Type} [MoveContainer C] [MoveContainer D] {α : Type} (B M : Nat) (s : Chan C D α)
    (l : Label α) : Bool :=
  match s.call B M l with
  | some (.error .bug) => true
  | _ => false

theorem call_of_panics {C D : Type → Type} [MoveContainer C] [MoveContainer D] {α : Type} {B M : Nat} {s : Chan C D α}
    {l : Label α} (h : s.panics B M l = true) : s.call B M l = some (.error .bug) := by
  unfold Chan.panics at h
  rcases heq : s.call B M l with _ | (_ | _) | _ <;> simp [heq] at h ⊢

/-- With one slot and one stream: an event is sent and consumed, then sent again twice. -/
theorem resent_run :
    (∃ s : Chan AtomicMove AtomicMove Nat, Machine.Steps (Chan.step 1 1) (fun _ _ _ => True) (.init 1 1 fun _ => 0) s ∧
      0 ∈ s.handles ∧ s.call 1 1 (.sendDerived 0) = some (.error .bug)) ∧
    ∃ s : Chan FullSyncMove FullSyncMove Nat,
      Machine.Steps (Chan.step 1 1) (fun _ _ _ => True) (.init 1 1 fun _ => 0) s ∧
      0 ∈ s.handles ∧ s.call 1 1 (.sendDerived 0) = some (.error .bug) := by
  constructor
  · have hrun : (Machine.exec (Chan.step 1 1) (.init 1 1 fun _ => 0 : Chan AtomicMove AtomicMove Nat)
        [.createStream, .send 7, .consume 0, .sendDerived 0]).map (fun s =>
          decide (0 ∈ s.handles ∧ s.panics 1 1 (.sendDerived 0) = true)) = some true := by decide +kernel
    obtain ⟨s, hs, ht⟩ := Option.map_eq_some_iff.mp hrun
    rw [decide_eq_true_iff] at ht
    exact ⟨s, (Machine.Path.of_exec hs).steps, ht.1, call_of_panics ht.2⟩
  · have hrun : (Machine.exec (Chan.step 1 1) (.init 1 1 fun _ => 0 : Chan FullSyncMove FullSyncMove Nat)
        [.createStream, .send 7, .consume 0, .sendDerived 0]).map (fun s =>
          decide (0 ∈ s.handles ∧ s.panics 1 1 (.sendDerived 0) = true)) = some true := by decide +kernel
    obtain ⟨s, hs, ht⟩ := Option.map_eq_some_iff.mp hrun
    rw [decide_eq_true_iff] at ht
    exact ⟨s, (Machine.Path.of_exec hs).steps, ht.1, call_of_panics ht.2⟩

end Mutiny.MultiOgreArc
