import Mutiny.StreamsManager

/-!
# The streams manager between two calls

When `create_stream_id` and `report_stream_dropped` run one at a time, `used_streams` lists exactly
the ids that are not vacant, in order, and `used_streams_count` is their number.
-/

namespace Mutiny.StreamsManagerBase
variable {M : Nat} {sm sm' : StreamsManagerBase} {id x : UInt32}

structure Synced (M : Nat) (sm : StreamsManagerBase) : Prop where
  vacant : VacantOk M sm
  used : sm.usedStreams = sm.inUse M ++ List.replicate (M - (sm.inUse M).length) u32Max
  count : sm.usedStreamsCount = UInt32.ofNat (sm.inUse M).length

theorem mem_inUse : x ∈ sm.inUse M ↔ x < UInt32.ofNat M ∧ x ∉ sm.vacantStreams.elems M := by
  simp [inUse, mem_idRange, UInt32.le_iff_toNat_le]

theorem nodup_inUse : (sm.inUse M).Nodup := nodup_idRange.filter _

theorem VacantOk.length_inUse (h : VacantOk M sm) :
    (sm.inUse M).length + (sm.vacantStreams.elems M).length = (UInt32.ofNat M).toNat := by
  have hperm : (sm.inUse M ++ sm.vacantStreams.elems M).Perm (idRange 0 (UInt32.ofNat M)) := by
    refine (List.perm_ext_iff_of_nodup ?_ nodup_idRange).mpr fun y => ?_
    · exact nodup_inUse.append h.nodup fun y hy hv => (mem_inUse.mp hy).2 hv
    · rw [List.mem_append, mem_inUse, mem_idRange]
      have := h.lt y
      by_cases hv : y ∈ sm.vacantStreams.elems M <;> simp_all [UInt32.le_iff_toNat_le]
  have := hperm.length_eq
  rw [List.length_append, length_idRange, UInt32.toNat_zero] at this
  exact this

theorem Synced.length_le (h : Synced M sm) : (sm.inUse M).length ≤ (UInt32.ofNat M).toNat := by
  have := h.vacant.length_inUse
  omega

theorem inUse_new (hM : Ring.PowerOfTwo M) : (new M).inUse M = [] := by
  refine List.eq_nil_iff_forall_not_mem.mpr fun y hy => ?_
  obtain ⟨hlt, hv⟩ := mem_inUse.mp hy
  rw [(vacant_new hM).2, mem_idRange] at hv
  exact hv ⟨by simp [UInt32.le_iff_toNat_le], hlt⟩

theorem Synced.new (hM : Ring.PowerOfTwo M) : Synced M (.new M) := by
  obtain ⟨hwf, hel⟩ := vacant_new hM
  have hnil := inUse_new hM
  refine ⟨⟨hwf, by rw [hel]; exact nodup_idRange, fun y hy => ?_⟩, ?_, ?_⟩
  · rw [hel, mem_idRange] at hy
    exact hy.2
  · rw [hnil]; rfl
  · rw [hnil]; rfl

/-- After `sync_vacant_and_used_streams` it only takes the right count. -/
theorem VacantOk.synced (hM : Ring.PowerOfTwo M) (h : VacantOk M sm)
    (hc : sm.usedStreamsCount = UInt32.ofNat (sm.inUse M).length) : Synced M (sm.syncVacantAndUsedStreams M) :=
  ⟨⟨h.wf, h.nodup, h.lt⟩, h.usedStreams_sync hM, hc⟩

theorem Synced.create (hM : Ring.PowerOfTwo M) (h : Synced M sm) (hc : sm.createStreamId M = some (sm', id)) :
    Synced M sm' ∧ id ∉ sm.inUse M ∧ ∀ y, y ∈ sm'.inUse M ↔ y = id ∨ y ∈ sm.inUse M := by
  unfold createStreamId takeVacant incUsed incCreated at hc
  rcases LawfulMoveContainer.consume_cases (C := FullSyncMove) h.vacant.wf with
    ⟨q, v, rest, hq, hel, hwf, hel'⟩ | ⟨hq, -⟩
  · have hq' : sm.vacantStreams.consumeMovable M = (q, some v) := hq
    have hold : sm.vacantStreams.elems M = v :: rest := hel
    have hnew : q.elems M = rest := hel'
    simp only [hq', Option.some.injEq, Prod.mk.injEq] at hc
    obtain ⟨rfl, rfl⟩ := hc
    have hnd := h.vacant.nodup
    rw [hold, List.nodup_cons] at hnd
    have hlt : ∀ y ∈ v :: rest, y < UInt32.ofNat M := fun y hy => h.vacant.lt y (by rw [hold]; exact hy)
    have hlen := h.vacant.length_inUse
    rw [hold, List.length_cons] at hlen
    -- the manager just before the list is rebuilt
    generalize hmid : setKeepRunning _ v true = mid
    have hv : mid.vacantStreams = q := by rw [← hmid]; rfl
    have hcount : mid.usedStreamsCount = sm.usedStreamsCount + 1 := by rw [← hmid]; rfl
    have hok : VacantOk M mid := by
      refine ⟨by rw [hv]; exact hwf, by rw [hv, hnew]; exact hnd.2, fun y hy => ?_⟩
      rw [hv, hnew] at hy
      exact hlt y (List.mem_cons_of_mem _ hy)
    have hlen' := hok.length_inUse
    rw [hv, hnew] at hlen'
    refine ⟨hok.synced hM ?_, ?_, fun y => ?_⟩
    · rw [hcount, h.count, show (mid.inUse M).length = (sm.inUse M).length + 1 by omega, Wrap.ofNat_succ]
    · rw [mem_inUse, hold]
      simp
    · show y ∈ (mid.syncVacantAndUsedStreams M).inUse M ↔ _
      have hsync : (mid.syncVacantAndUsedStreams M).inUse M = mid.inUse M := rfl
      rw [hsync, mem_inUse, mem_inUse, hv, hnew, hold, List.mem_cons]
      have hvlt := hlt v List.mem_cons_self
      by_cases hyv : y = v
      · subst hyv; simp [hvlt, hnd.1]
      · simp [hyv]
  · have hq' : sm.vacantStreams.consumeMovable M = (sm.vacantStreams, none) := hq
    simp [hq'] at hc

theorem Synced.drop (hM : Ring.PowerOfTwo M) (h : Synced M sm) (hid : id ∈ sm.inUse M) :
    Synced M (sm.reportStreamDropped M id) ∧
    ∀ y, y ∈ (sm.reportStreamDropped M id).inUse M ↔ y ≠ id ∧ y ∈ sm.inUse M := by
  obtain ⟨hlt, hnv⟩ := mem_inUse.mp hid
  have hlen := h.vacant.length_inUse
  have hpos := List.length_pos_of_mem hid
  unfold reportStreamDropped
  generalize hmid : giveVacant M _ id = mid
  rcases LawfulMoveContainer.publish_cases (C := FullSyncMove) hM h.vacant.wf id with
    ⟨q, hq, hwf, hel, -⟩ | ⟨-, hfull⟩
  · have hq' : sm.vacantStreams.publishMovable M id = (q, _, none) := hq
    have hnew : q.elems M = sm.vacantStreams.elems M ++ [id] := hel
    have hv : mid.vacantStreams = q := by
      rw [← hmid]
      show (sm.vacantStreams.publishMovable M id).1 = q
      rw [hq']
    have hcount : mid.usedStreamsCount = sm.usedStreamsCount - 1 := by rw [← hmid]; rfl
    have hok : VacantOk M mid := by
      refine ⟨by rw [hv]; exact hwf, ?_, fun y hy => ?_⟩
      · rw [hv, hnew, List.nodup_append_comm, List.singleton_append, List.nodup_cons]
        exact ⟨hnv, h.vacant.nodup⟩
      · rw [hv, hnew, List.mem_append, List.mem_singleton] at hy
        rcases hy with hy | rfl
        · exact h.vacant.lt y hy
        · exact hlt
    have hlen' := hok.length_inUse
    rw [hv, hnew, List.length_append, List.length_singleton] at hlen'
    refine ⟨hok.synced hM ?_, fun y => ?_⟩
    · rw [hcount, h.count, show (sm.inUse M).length = (mid.inUse M).length + 1 by omega, Wrap.ofNat_succ,
        UInt32.add_sub_cancel]
    · have hsync : (mid.syncVacantAndUsedStreams M).inUse M = mid.inUse M := rfl
      rw [hsync, mem_inUse, mem_inUse, hv, hnew, List.mem_append, List.mem_singleton]
      tauto
  · -- the vacant ids are not all of them
    have hfull' : (sm.vacantStreams.elems M).length = (UInt32.ofNat M).toNat := hfull
    omega

/-- `create_stream_id` takes the id that has been vacant the longest. -/
theorem VacantOk.head_of_create (h : VacantOk M sm) (hc : sm.createStreamId M = some (sm', id)) :
    ∃ rest, sm.vacantStreams.elems M = id :: rest := by
  unfold createStreamId takeVacant incUsed incCreated at hc
  rcases LawfulMoveContainer.consume_cases (C := FullSyncMove) h.wf with ⟨q, v, rest, hq, hel, -⟩ | ⟨hq, -⟩
  · have hq' : sm.vacantStreams.consumeMovable M = (q, some v) := hq
    simp only [hq', Option.some.injEq, Prod.mk.injEq] at hc
    obtain ⟨-, rfl⟩ := hc
    exact ⟨rest, hel⟩
  · have hq' : sm.vacantStreams.consumeMovable M = (sm.vacantStreams, none) := hq
    simp [hq'] at hc

section Live
variable {live : List UInt32}

/-- Callers hold the streams in use, also when a stream is created .. -/
theorem Synced.live_create (hM : Ring.PowerOfTwo M) (h : Synced M sm) (hlive : live.Perm (sm.inUse M))
    (hc : sm.createStreamId M = some (sm', id)) : (id :: live).Perm (sm'.inUse M) := by
  obtain ⟨-, hnew, hmem⟩ := h.create hM hc
  refine (List.perm_ext_iff_of_nodup ?_ nodup_inUse).mpr fun x => ?_
  · refine List.nodup_cons.mpr ⟨?_, hlive.nodup_iff.mpr nodup_inUse⟩
    rwa [hlive.mem_iff]
  · rw [hmem, List.mem_cons, hlive.mem_iff]

theorem Synced.live_drop (hM : Ring.PowerOfTwo M) (h : Synced M sm) (hlive : live.Perm (sm.inUse M)) (hid : id ∈ live) :
    (live.erase id).Perm ((sm.reportStreamDropped M id).inUse M) := by
  have hnd : live.Nodup := hlive.nodup_iff.mpr nodup_inUse
  obtain ⟨-, hmem⟩ := h.drop hM (hlive.mem_iff.mp hid)
  refine (List.perm_ext_iff_of_nodup (hnd.erase id) nodup_inUse).mpr fun x => ?_
  rw [hmem, hnd.mem_erase_iff, hlive.mem_iff]

end Live

theorem ne_u32Max_of_mem_inUse (hM : Ring.PowerOfTwo M) (hx : x ∈ sm.inUse M) : x ≠ u32Max := by
  have hlt := UInt32.lt_iff_toNat_lt.mp (mem_inUse.mp hx).1
  have hroom : (UInt32.ofNat M).toNat ≤ 2 ^ 31 := hM.room_le
  rintro rfl
  rw [show u32Max.toNat = 2 ^ 32 - 1 from rfl] at hlt
  omega

theorem usedIds_of_eq (hM : Ring.PowerOfTwo M) {k : Nat} (h : sm.usedStreams = sm'.inUse M ++ List.replicate k u32Max) :
    sm.usedIds = sm'.inUse M := by
  unfold usedIds
  rw [h, List.takeWhile_append_of_pos fun y hy => decide_eq_true (ne_u32Max_of_mem_inUse hM hy)]
  cases k <;> simp [List.replicate_succ]

/-- Walking through `used_streams()` up to the sentinel visits the ids in use. -/
theorem Synced.usedIds_eq (h : Synced M sm) (hM : Ring.PowerOfTwo M) : sm.usedIds = sm.inUse M :=
  usedIds_of_eq hM h.used

/-- So does walking through the first `running_streams_count()` entries. -/
theorem Synced.take_count (h : Synced M sm) (hM : Ring.PowerOfTwo M) :
    sm.runningStreamsCount.toNat = (sm.inUse M).length ∧
    sm.usedStreams.take sm.runningStreamsCount.toNat = sm.inUse M ∧
    sm.runningStreamsCount.toNat ≤ sm.usedStreams.length := by
  have hroom : (UInt32.ofNat M).toNat ≤ 2 ^ 31 := hM.room_le
  have hle := h.length_le
  have hcount : sm.runningStreamsCount.toNat = (sm.inUse M).length := by
    rw [runningStreamsCount, h.count, Wrap.toNat_ofNat_of_lt (by omega)]
  rw [hcount, h.used]
  exact ⟨rfl, List.take_left, by rw [List.length_append]; omega⟩

end Mutiny.StreamsManagerBase
