import Mutiny.FullSyncMove
import Mathlib.Data.List.Sort

/-!
# `StreamsManagerBase`

The common part of all channels (`streams_manager.rs`): which stream ids are vacant and which are in
use, the wakers and the keep-running flags. `create_stream_id` and `report_stream_dropped` are
written as sequences of their indivisible steps, so that the interleaved models can take these one by
one.

`MAX_STREAMS` is `M`; where the source writes `MAX_STREAMS as u32` the cast is kept.
-/

namespace Mutiny

abbrev Waker := Nat

/-- `u32::MAX`, the sentinel of `used_streams` -/
def u32Max : UInt32 := 0xFFFFFFFF

structure StreamsManagerBase where
  vacantStreams : FullSyncMove UInt32
  usedStreams : List UInt32
  usedStreamsCount : UInt32
  createdStreamsCount : UInt32
  finishedStreamsCount : UInt32
  wakers : UInt32 → Option Waker
  keepStreamsRunning : UInt32 → Bool

/-- `lo .. hi` -/
def idRange (lo hi : UInt32) : List UInt32 := (List.range (hi.toNat - lo.toNat)).map fun k => lo + UInt32.ofNat k

namespace StreamsManagerBase

def new (M : Nat) : StreamsManagerBase where
  vacantStreams := (idRange 0 (UInt32.ofNat M)).foldl (fun q streamId => (q.publishMovable M streamId).1)
    (.withInitializer fun _ => 0)
  usedStreams := List.replicate M u32Max
  usedStreamsCount := 0
  createdStreamsCount := 0
  finishedStreamsCount := 0
  wakers := fun _ => none
  keepStreamsRunning := fun _ => false

/-- The loop of `sync_vacant_and_used_streams` from stream id `i` on: the ids that are not among the
sorted vacant ones. -/
def syncLoop (maxStreams : UInt32) : List UInt32 → UInt32 → List UInt32
  | [], i => idRange i maxStreams
  | nextVacant :: vacant, i =>
    if i < maxStreams then idRange i nextVacant ++ syncLoop maxStreams vacant (nextVacant + 1) else []

def syncVacantAndUsedStreams (M : Nat) (sm : StreamsManagerBase) : StreamsManagerBase :=
  let vacant := (sm.vacantStreams.peekRemaining M).insertionSort (· ≤ ·)
  let used := syncLoop (UInt32.ofNat M) vacant 0
  { sm with usedStreams := used ++ List.replicate (M - used.length) u32Max }

/-! ### `create_stream_id` -/

def incCreated (sm : StreamsManagerBase) : StreamsManagerBase :=
  { sm with createdStreamsCount := sm.createdStreamsCount + 1 }

def incUsed (sm : StreamsManagerBase) : StreamsManagerBase :=
  { sm with usedStreamsCount := sm.usedStreamsCount + 1 }

def takeVacant (M : Nat) (sm : StreamsManagerBase) : StreamsManagerBase × Option UInt32 :=
  let (vacant, streamId) := sm.vacantStreams.consumeMovable M
  ({ sm with vacantStreams := vacant }, streamId)

def setKeepRunning (sm : StreamsManagerBase) (streamId : UInt32) (keep : Bool) : StreamsManagerBase :=
  { sm with keepStreamsRunning := Function.update sm.keepStreamsRunning streamId keep }

/-- `create_stream_id()`; `none` when it panics because all ids are in use. -/
def createStreamId (M : Nat) (sm : StreamsManagerBase) : Option (StreamsManagerBase × UInt32) :=
  match sm.incCreated.incUsed.takeVacant M with
  | (sm, some streamId) => some ((sm.setKeepRunning streamId true).syncVacantAndUsedStreams M, streamId)
  | (_, none) => none

/-! ### `report_stream_dropped` -/

def clearWaker (sm : StreamsManagerBase) (streamId : UInt32) : StreamsManagerBase :=
  { sm with wakers := Function.update sm.wakers streamId none }

def incFinished (sm : StreamsManagerBase) : StreamsManagerBase :=
  { sm with finishedStreamsCount := sm.finishedStreamsCount + 1 }

def decUsed (sm : StreamsManagerBase) : StreamsManagerBase :=
  { sm with usedStreamsCount := sm.usedStreamsCount - 1 }

def giveVacant (M : Nat) (sm : StreamsManagerBase) (streamId : UInt32) : StreamsManagerBase :=
  { sm with vacantStreams := (sm.vacantStreams.publishMovable M streamId).1 }

def reportStreamDropped (M : Nat) (sm : StreamsManagerBase) (streamId : UInt32) : StreamsManagerBase :=
  (((sm.clearWaker streamId).incFinished.decUsed).giveVacant M streamId).syncVacantAndUsedStreams M

/-! ### Wakers and keep-running flags -/

/-- The waker `wake_stream(stream_id)` wakes. -/
def wakeStream (sm : StreamsManagerBase) (streamId : UInt32) : Option Waker := sm.wakers streamId

def keepStreamRunning (sm : StreamsManagerBase) (streamId : UInt32) : Bool :=
  sm.keepStreamsRunning streamId

def setWaker (sm : StreamsManagerBase) (streamId : UInt32) (waker : Waker) : StreamsManagerBase :=
  { sm with wakers := Function.update sm.wakers streamId (some waker) }

/-- `register_stream_waker(stream_id, waker)`, and whether it wakes the waker just set. -/
def registerStreamWaker (sm : StreamsManagerBase) (streamId : UInt32) (waker : Waker) : StreamsManagerBase × Bool :=
  match sm.wakers streamId with
  | some registeredWaker => if registeredWaker ≠ waker then (sm.setWaker streamId waker, true) else (sm, false)
  | none => (sm.setWaker streamId waker, true)

def runningStreamsCount (sm : StreamsManagerBase) : UInt32 := sm.usedStreamsCount

/-- The ids a loop over `used_streams()` visits when it stops at the sentinel. -/
def usedIds (sm : StreamsManagerBase) : List UInt32 := sm.usedStreams.takeWhile (· ≠ u32Max)

end StreamsManagerBase

/-! ### Ranges of ids -/

section IdRange
variable {lo mid hi x : UInt32}

theorem mem_idRange : x ∈ idRange lo hi ↔ lo ≤ x ∧ x < hi := by
  simp only [idRange, List.mem_map, List.mem_range, UInt32.le_iff_toNat_le, UInt32.lt_iff_toNat_lt]
  constructor
  · rintro ⟨k, hk, rfl⟩
    have := hi.toNat_lt
    rw [UInt32.toNat_add, Wrap.toNat_ofNat_of_lt (by omega)]
    omega
  · rintro ⟨h₁, h₂⟩
    refine ⟨x.toNat - lo.toNat, by omega, ?_⟩
    have := x.toNat_lt
    rw [← UInt32.toNat_inj, UInt32.toNat_add, Wrap.toNat_ofNat_of_lt (by omega)]
    omega

theorem length_idRange : (idRange lo hi).length = hi.toNat - lo.toNat := by
  simp [idRange]

theorem map_toNat_idRange {B : Nat} (hB : B < 2 ^ 32) :
    (idRange 0 (UInt32.ofNat B)).map UInt32.toNat = List.range B := by
  rw [idRange, UInt32.toNat_zero, Wrap.toNat_ofNat_of_lt hB, Nat.sub_zero, List.map_map]
  refine (List.map_congr_left fun k hk => ?_).trans (List.map_id _)
  rw [Function.comp_apply, UInt32.zero_add, Wrap.toNat_ofNat_of_lt (Nat.lt_trans (List.mem_range.mp hk) hB)]
  rfl

theorem idRange_append (h₁ : lo ≤ mid) (h₂ : mid ≤ hi) : idRange lo mid ++ idRange mid hi = idRange lo hi := by
  rw [UInt32.le_iff_toNat_le] at h₁ h₂
  have hsum : hi.toNat - lo.toNat = (mid.toNat - lo.toNat) + (hi.toNat - mid.toNat) := by omega
  unfold idRange
  rw [hsum, List.range_add, List.map_append, List.map_map]
  congr 1
  refine List.map_congr_left fun k _ => ?_
  have hmid : mid = lo + UInt32.ofNat (mid.toNat - lo.toNat) := by
    have := mid.toNat_lt
    rw [← UInt32.toNat_inj, UInt32.toNat_add, Wrap.toNat_ofNat_of_lt (by omega)]
    omega
  rw [Function.comp_apply, UInt32.ofNat_add, ← UInt32.add_assoc, ← hmid]

theorem idRange_succ (h : lo < hi) : idRange lo hi = lo :: idRange (lo + 1) hi := by
  have h' := UInt32.lt_iff_toNat_lt.mp h
  have hsucc : (lo + 1).toNat = lo.toNat + 1 := by
    have := hi.toNat_lt
    rw [UInt32.toNat_add, UInt32.toNat_one]
    omega
  have h₁ : lo ≤ lo + 1 := by rw [UInt32.le_iff_toNat_le]; omega
  have h₂ : lo + 1 ≤ hi := by rw [UInt32.le_iff_toNat_le]; omega
  rw [← idRange_append h₁ h₂]
  simp [idRange, hsucc, List.range_succ]

theorem nodup_idRange : (idRange lo hi).Nodup := by
  refine List.Nodup.map_on (fun i hi' j hj' hij => ?_) List.nodup_range
  have hi₁ := List.mem_range.mp hi'
  have hj₁ := List.mem_range.mp hj'
  have := hi.toNat_lt
  have hn := congrArg UInt32.toNat hij
  rw [UInt32.toNat_add, UInt32.toNat_add, Wrap.toNat_ofNat_of_lt (by omega),
    Wrap.toNat_ofNat_of_lt (by omega)] at hn
  omega

end IdRange

namespace StreamsManagerBase
variable {M : Nat} {sm sm' : StreamsManagerBase} {id : UInt32}

theorem vacant_new (hM : Ring.PowerOfTwo M) : (new M).vacantStreams.WellFormed M ∧
    (new M).vacantStreams.elems M = idRange 0 (UInt32.ofNat M) := by
  have h := LawfulMoveContainer.foldl_publish (C := FullSyncMove) hM (idRange 0 (UInt32.ofNat M))
    (LawfulMoveContainer.init_wf fun _ => 0) (by
      rw [LawfulMoveContainer.init_elems, length_idRange, List.length_nil, Nat.zero_add]
      exact Nat.sub_le ..)
  rw [LawfulMoveContainer.init_elems, List.nil_append] at h
  exact h

theorem syncLoop_eq {m : UInt32} {w : List UInt32} {i : UInt32} (hw : w.Pairwise (· < ·))
    (hr : ∀ x ∈ w, i ≤ x ∧ x < m) : syncLoop m w i = (idRange i m).filter (· ∉ w) := by
  induction w generalizing i with
  | nil => simp [syncLoop]
  | cons v w ih =>
    obtain ⟨hiv, hvm⟩ := hr v List.mem_cons_self
    rw [List.pairwise_cons] at hw
    have hlt := UInt32.lt_iff_toNat_lt.mp hvm
    have hle := UInt32.le_iff_toNat_le.mp hiv
    have hv1 : (v + 1).toNat = v.toNat + 1 := by
      have := m.toNat_lt
      rw [UInt32.toNat_add, UInt32.toNat_one]
      omega
    have ih' := ih (i := v + 1) hw.2 fun x hx => by
      have := UInt32.lt_iff_toNat_lt.mp (hw.1 x hx)
      refine ⟨?_, (hr x (List.mem_cons_of_mem _ hx)).2⟩
      rw [UInt32.le_iff_toNat_le]
      omega
    have him : i < m := by rw [UInt32.lt_iff_toNat_lt]; omega
    have hsplit : idRange i m = idRange i v ++ v :: idRange (v + 1) m := by
      rw [← idRange_succ hvm, idRange_append hiv]
      rw [UInt32.le_iff_toNat_le]
      omega
    rw [syncLoop, if_pos him, ih', hsplit, List.filter_append]
    congr 1
    · -- the ids below the next vacant one are all in use
      refine (List.filter_eq_self.mpr fun x hx => ?_).symm
      have hx' := UInt32.lt_iff_toNat_lt.mp (mem_idRange.mp hx).2
      simp only [List.mem_cons, decide_eq_true_eq]
      rintro (rfl | hxw)
      · omega
      · have := UInt32.lt_iff_toNat_lt.mp (hw.1 x hxw)
        omega
    · rw [List.filter_cons, if_neg (by simp)]
      refine List.filter_congr fun x hx => ?_
      have hx' := UInt32.le_iff_toNat_le.mp (mem_idRange.mp hx).1
      have hne : x ≠ v := by rintro rfl; omega
      simp [hne]

def inUse (M : Nat) (sm : StreamsManagerBase) : List UInt32 :=
  (idRange 0 (UInt32.ofNat M)).filter (· ∉ sm.vacantStreams.elems M)

/-- The vacant ids are valid ids, each at most once. -/
structure VacantOk (M : Nat) (sm : StreamsManagerBase) : Prop where
  wf : sm.vacantStreams.WellFormed M
  nodup : (sm.vacantStreams.elems M).Nodup
  lt : ∀ x ∈ sm.vacantStreams.elems M, x < UInt32.ofNat M

theorem VacantOk.syncLoop_sorted (hM : Ring.PowerOfTwo M) (h : VacantOk M sm) :
    syncLoop (UInt32.ofNat M) ((sm.vacantStreams.peekRemaining M).insertionSort (· ≤ ·)) 0 = sm.inUse M := by
  rw [FullSyncMove.peekRemaining_eq hM h.wf]
  have hperm := List.perm_insertionSort (· ≤ ·) (sm.vacantStreams.elems M)
  have hsorted : ((sm.vacantStreams.elems M).insertionSort (· ≤ ·)).Pairwise (· < ·) := by
    have hle := List.pairwise_insertionSort (· ≤ ·) (sm.vacantStreams.elems M)
    refine List.Pairwise.imp₂ (fun a b hab hne => ?_) hle (hperm.nodup_iff.mpr h.nodup)
    exact UInt32.lt_of_le_of_ne hab hne
  rw [syncLoop_eq hsorted fun x hx => ⟨by simp [UInt32.le_iff_toNat_le], h.lt x (hperm.mem_iff.mp hx)⟩]
  exact List.filter_congr fun x _ => by simp [hperm.mem_iff]

theorem VacantOk.usedStreams_sync (hM : Ring.PowerOfTwo M) (h : VacantOk M sm) :
    (sm.syncVacantAndUsedStreams M).usedStreams =
      sm.inUse M ++ List.replicate (M - (sm.inUse M).length) u32Max := by
  unfold syncVacantAndUsedStreams
  simp only [h.syncLoop_sorted hM]

end StreamsManagerBase
end Mutiny
