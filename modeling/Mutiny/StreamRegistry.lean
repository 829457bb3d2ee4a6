import Mutiny.Lib.Machine
import Mutiny.Lib.Tally
import Mutiny.StreamLife
import Mutiny.SyncedStreams

/-!
# The stream registry under concurrent creations and drops

`used_streams` is rebuilt from the vacant ids by every creation and every drop, after its own change
to them. It always lists all live streams (`Streams.Listed`), and nothing else once the last of the
calls in progress has rebuilt it (`registry_complementary`).

A queue of `2 ^ 31` vacant ids reports itself empty, so that `create_stream_id` panics
(`exhausted_run`).
-/

namespace Mutiny

namespace Runtime

theorem Ok.vacantOk {M : Nat} {r : Runtime} (h : r.Ok M) : r.streams.VacantOk M := ⟨h.wf, h.nodup, h.vacant_lt⟩

end Runtime

namespace Streams
variable {τ : Type} {M : Nat} {s s' : Streams τ} {t : τ} {id : UInt32}

/-! ### All live streams are listed -/

/-- `used_streams` has valid ids, each once, up to the sentinel, and all live streams are among them. -/
structure Listed (M : Nat) (s : Streams τ) : Prop where
  rest : ∃ k, s.rt.streams.usedStreams = s.rt.streams.usedIds ++ List.replicate k u32Max
  nodup : s.rt.streams.usedIds.Nodup
  lt : ∀ x ∈ s.rt.streams.usedIds, x < UInt32.ofNat M
  live : ∀ j, (s.rt.task j).isSome → j ∈ s.rt.streams.usedIds

theorem Listed.new (M : Nat) : Listed M (.new M : Streams τ) := by
  have hnil : (StreamsManagerBase.new M).usedIds = [] := by
    show (List.replicate M u32Max).takeWhile (· ≠ u32Max) = []
    cases M <;> simp [List.replicate_succ]
  refine ⟨⟨M, ?_⟩, ?_, ?_, fun j hj => by cases hj⟩
  · show List.replicate M u32Max = (StreamsManagerBase.new M).usedIds ++ _
    rw [hnil, List.nil_append]
  · show (StreamsManagerBase.new M).usedIds.Nodup
    rw [hnil]
    exact List.nodup_nil
  · show ∀ x ∈ (StreamsManagerBase.new M).usedIds, _
    rw [hnil]
    simp

theorem usedIds_congr {sm sm' : StreamsManagerBase} (h : sm'.usedStreams = sm.usedStreams) : sm'.usedIds = sm.usedIds := by
  unfold StreamsManagerBase.usedIds
  rw [h]

theorem Listed.of_used (h : Listed M s) (hu : s'.rt.streams.usedStreams = s.rt.streams.usedStreams)
    (hl : ∀ j, (s'.rt.task j).isSome → (s.rt.task j).isSome) : Listed M s' := by
  have hids := usedIds_congr hu
  obtain ⟨k, hk⟩ := h.rest
  refine ⟨⟨k, ?_⟩, ?_, ?_, fun j hj => ?_⟩
  · rw [hu, hids]; exact hk
  · rw [hids]; exact h.nodup
  · rw [hids]; exact h.lt
  · rw [hids]; exact h.live j (hl j hj)

theorem Ok.listed_sync (hM : Ring.PowerOfTwo M) (h : s'.Ok M) {sm : StreamsManagerBase}
    (hs : s'.rt.streams = sm.syncVacantAndUsedStreams M) : Listed M s' := by
  have hv : sm.vacantStreams = s'.rt.streams.vacantStreams := by rw [hs]; rfl
  have hin : sm.inUse M = s'.rt.streams.inUse M := by
    unfold StreamsManagerBase.inUse
    rw [hv]
  have hok : sm.VacantOk M := by
    have := h.rt.vacantOk
    exact ⟨by rw [hv]; exact this.wf, by rw [hv]; exact this.nodup, by rw [hv]; exact this.lt⟩
  have hused : s'.rt.streams.usedStreams = s'.rt.streams.inUse M ++
      List.replicate (M - (s'.rt.streams.inUse M).length) u32Max := by
    rw [hs, hok.usedStreams_sync hM, hin, ← hs]
  have hids : s'.rt.streams.usedIds = s'.rt.streams.inUse M := StreamsManagerBase.usedIds_of_eq hM hused
  refine ⟨⟨_, by rw [hids]; exact hused⟩, ?_, ?_, fun j hj => ?_⟩
  · rw [hids]; exact StreamsManagerBase.nodup_inUse
  · rw [hids]; exact fun x hx => (StreamsManagerBase.mem_inUse.mp hx).1
  · rw [hids, StreamsManagerBase.mem_inUse]
    refine ⟨h.rt.lt j hj, fun hv' => ?_⟩
    rw [h.rt.vacant j hv'] at hj
    cases hj

section Step
variable [DecidableEq τ] {l : Label τ}

theorem Listed.manage (hM : Ring.PowerOfTwo M) (h : Ok M s) (hl : Listed M s) (hs : s.manage M t = some s') :
    Listed M s' := by
  have h' := h.manage hM hs
  cases ht : s.managing t with
  | idle => simp [Streams.manage, ht] at hs
  | panicked => simp [Streams.manage, ht] at hs
  | createTake =>
    obtain ⟨m, rfl⟩ := Ok.goOn_of_createTake ht hs
    exact hl.of_used rfl fun _ hj => hj
  | createSync id | dropSync =>
    simp only [Streams.manage, ht, Option.some.injEq] at hs
    subst hs
    exact h'.listed_sync hM rfl
  | createIncUsed | createKeep id | dropClear id | dropIncFinished id | dropDecUsed id | dropGive id =>
    simp only [Streams.manage, ht, Option.some.injEq] at hs
    subst hs
    exact hl.of_used rfl fun _ hj => hj

theorem Listed.step (hM : Ring.PowerOfTwo M) (h : Ok M s) (hl : Listed M s) (hs : s.step M l = some s') : Listed M s' := by
  cases l with
  | create t =>
    simp only [Streams.step, Option.ite_none_right_eq_some, Option.some.injEq] at hs
    obtain ⟨-, rfl⟩ := hs
    exact hl.of_used rfl fun _ hj => hj
  | drop t i =>
    simp only [Streams.step, Option.ite_none_right_eq_some, Option.some.injEq] at hs
    obtain ⟨-, rfl⟩ := hs
    refine hl.of_used rfl fun j hj => ?_
    by_cases hji : j = i
    · subst hji
      change (Function.update s.rt.task j none j).isSome at hj
      rw [Function.update_self] at hj
      cases hj
    · change (Function.update s.rt.task i none j).isSome at hj
      rwa [Function.update_of_ne hji] at hj
  | manage t => exact hl.manage hM h hs

end Step

/-! ### The counters -/

end Streams

/-- Counted by `used_streams_count`, by a thread and not by a live stream. -/
def Managing.counted : Managing → Nat
  | .createTake | .createKeep _ | .createSync _ | .dropClear _ | .dropIncFinished _ | .dropDecUsed _ => 1
  | .idle | .createIncUsed | .panicked | .dropGive _ | .dropSync => 0

/-- Created and not finished, by a thread and not as a live stream. -/
def Managing.begun : Managing → Nat
  | .createIncUsed | .createTake | .createKeep _ | .createSync _ | .dropClear _ | .dropIncFinished _ => 1
  | .idle | .panicked | .dropDecUsed _ | .dropGive _ | .dropSync => 0

/-- The thread has changed the vacant ids and will rebuild the list. -/
def Managing.unsynced : Managing → Bool
  | .createKeep _ | .createSync _ | .dropSync => true
  | _ => false

def Managing.resting : Managing → Bool
  | .idle | .panicked => true
  | _ => false

def Task.counted (o : Option Task) : Nat := if o.isSome then 1 else 0

namespace Streams
variable {τ : Type} {M : Nat} {s s' : Streams τ} {t : τ} {id : UInt32}
open Tally (total)

/-- The live streams and the threads that count. -/
noncomputable def tally (w : Managing → Nat) (s : Streams τ) : Nat := total Task.counted s.rt.task + total w s.managing

structure Registered (M : Nat) (s : Streams τ) : Prop where
  ok : s.Ok M
  cover : ∀ x, x < UInt32.ofNat M →
    x ∈ s.rt.streams.vacantStreams.elems M ∨ (s.rt.task x).isSome ∨ ∃ t, (s.managing t).holds = some x
  calm : ∀ t, s.managing t ≠ .panicked
  few : {t | s.managing t ≠ .idle}.Finite
  used : s.rt.streams.usedStreams = s.rt.streams.inUse M ++ List.replicate (M - (s.rt.streams.inUse M).length) u32Max ∨
    ∃ t, (s.managing t).unsynced
  count : s.rt.streams.usedStreamsCount = UInt32.ofNat (s.tally Managing.counted)
  begun : s.rt.streams.createdStreamsCount = s.rt.streams.finishedStreamsCount + UInt32.ofNat (s.tally Managing.begun)

theorem small_of_few (h : {t | s.managing t ≠ .idle}.Finite) {w : Managing → Nat} (hw : w .idle = 0) :
    Tally.Small w s.managing :=
  h.subset fun t ht hi => ht (by rw [hi]; exact hw)

theorem Ok.small_task (h : Ok M s) : Tally.Small Task.counted s.rt.task := by
  refine (List.finite_toSet (idRange 0 (UInt32.ofNat M))).subset fun j hj => ?_
  have hsome : (s.rt.task j).isSome := by
    by_contra hn
    exact hj (if_neg hn)
  exact mem_idRange.mpr ⟨by simp [UInt32.le_iff_toNat_le], h.rt.lt j hsome⟩

theorem Registered.new (hM : Ring.PowerOfTwo M) : Registered M (.new M : Streams τ) := by
  have hv := (StreamsManagerBase.vacant_new hM).2
  have hzero : ∀ w : Managing → Nat, w .idle = 0 → (.new M : Streams τ).tally w = 0 := by
    intro w hw
    have h₁ : total Task.counted (.new M : Streams τ).rt.task = 0 := Tally.total_eq_zero fun _ => rfl
    have h₂ : total w (.new M : Streams τ).managing = 0 := Tally.total_eq_zero fun _ => hw
    rw [tally, h₁, h₂]
  refine ⟨.new hM, fun x hx => .inl ?_, fun t ht => (by cases ht), ?_, .inl ?_, ?_, ?_⟩
  · show x ∈ (StreamsManagerBase.new M).vacantStreams.elems M
    rw [hv, mem_idRange]
    exact ⟨by simp [UInt32.le_iff_toNat_le], hx⟩
  · refine Set.Finite.subset Set.finite_empty fun t ht => ?_
    exact absurd rfl ht
  · exact (StreamsManagerBase.Synced.new hM).used
  · rw [hzero _ rfl]; rfl
  · rw [hzero _ rfl]; rfl

/-- The ids are handed out properly, and between calls the registry lists the live streams. -/
structure Complementary (M : Nat) (s : Streams τ) : Prop where
  /-- an id that was created is nobody else's -/
  created : ∀ t id, s.managing t = .createKeep id ∨ s.managing t = .createSync id →
    s.rt.task id = none ∧ id.toNat < M ∧ ∀ u, (s.managing u).holds = some id → u = t
  quiet : (∀ t, (s.managing t).resting) → ∃ live : List UInt32, live.Pairwise (· < ·) ∧
    (∀ j, j ∈ live ↔ (s.rt.task j).isSome) ∧
    s.rt.streams.usedStreams = live ++ List.replicate (M - live.length) u32Max ∧ live.length ≤ M ∧
    s.rt.streams.runningStreamsCount.toNat = live.length ∧
    s.rt.streams.createdStreamsCount - s.rt.streams.finishedStreamsCount = UInt32.ofNat live.length

theorem pairwise_inUse {sm : StreamsManagerBase} : (sm.inUse M).Pairwise (· < ·) := by
  refine List.Pairwise.filter _ (List.pairwise_map.mpr (List.pairwise_lt_range.imp_of_mem fun {i j} hi hj hij => ?_))
  have := (UInt32.ofNat M).toNat_lt
  rw [List.mem_range, UInt32.toNat_zero] at hi hj
  rw [UInt32.zero_add, UInt32.zero_add, UInt32.lt_iff_toNat_lt, Wrap.toNat_ofNat_of_lt (by omega),
    Wrap.toNat_ofNat_of_lt (by omega)]
  exact hij

theorem Registered.complementary (hM : Ring.PowerOfTwo M) (h : Registered M s) : Complementary M s := by
  have hlt : ∀ {id : UInt32}, id < UInt32.ofNat M → id.toNat < M := by
    intro id hid
    exact Nat.lt_of_lt_of_le (UInt32.lt_iff_toNat_lt.mp hid) hM.room_le_self
  refine ⟨fun t id ht => ?_, fun hrest => ?_⟩
  · have hold : (s.managing t).holds = some id := by
      rcases ht with ht | ht
      · rw [ht]; rfl
      · rw [ht]; rfl
    exact ⟨h.ok.task t id hold, hlt (h.ok.lt t id hold), fun u hu => h.ok.unique u t id hu hold⟩
  · have hidle : ∀ t, s.managing t = .idle := by
      intro t
      have hr := hrest t
      have hc := h.calm t
      cases hm : s.managing t <;> simp_all [Managing.resting]
    have hholds : ∀ t x, (s.managing t).holds ≠ some x := by
      intro t x hx
      rw [hidle t] at hx
      cases hx
    have hmem : ∀ j, j ∈ s.rt.streams.inUse M ↔ (s.rt.task j).isSome := by
      intro j
      rw [StreamsManagerBase.mem_inUse]
      refine ⟨fun ⟨hj, hv⟩ => ?_, fun hj => ⟨h.ok.rt.lt j hj, fun hv => ?_⟩⟩
      · rcases h.cover j hj with hp | hp | ⟨t, hp⟩
        · exact absurd hp hv
        · exact hp
        · exact absurd hp (hholds t j)
      · rw [h.ok.rt.vacant j hv] at hj
        cases hj
    have htally : ∀ w : Managing → Nat, w .idle = 0 → s.tally w = (s.rt.streams.inUse M).length := by
      intro w hw
      have hlive : total Task.counted s.rt.task = (s.rt.streams.inUse M).length :=
        Tally.total_eq_length StreamsManagerBase.nodup_inUse (fun j hj => if_pos ((hmem j).mp hj))
          fun j hj => if_neg fun hs => hj ((hmem j).mpr hs)
      have hnone : total w s.managing = 0 := Tally.total_eq_zero fun t => by rw [hidle t]; exact hw
      rw [tally, hlive, hnone, Nat.add_zero]
    have hlen := h.ok.rt.vacantOk.length_inUse
    have hroom : (UInt32.ofNat M).toNat ≤ 2 ^ 31 := hM.room_le
    have hself : (UInt32.ofNat M).toNat ≤ M := hM.room_le_self
    refine ⟨s.rt.streams.inUse M, pairwise_inUse, hmem, ?_, by omega, ?_, ?_⟩
    · refine h.used.resolve_right ?_
      rintro ⟨t, ht⟩
      rw [hidle t] at ht
      cases ht
    · rw [StreamsManagerBase.runningStreamsCount, h.count, htally _ rfl, Wrap.toNat_ofNat_of_lt (by omega)]
    · rw [h.begun, htally _ rfl, UInt32.add_comm, UInt32.add_sub_cancel]

section Step
variable [DecidableEq τ] {r : Runtime} {m : Managing} {l : Label τ}

theorem Registered.advance (h : Registered M s) (hok : Ok M ⟨r, Function.update s.managing t m⟩) (hne : m ≠ .panicked)
    (hcover : ∀ x, x ∈ s.rt.streams.vacantStreams.elems M ∨ (s.rt.task x).isSome ∨ (s.managing t).holds = some x →
      x ∈ r.streams.vacantStreams.elems M ∨ (r.task x).isSome ∨ m.holds = some x)
    (hused : r.streams.usedStreams = r.streams.inUse M ++ List.replicate (M - (r.streams.inUse M).length) u32Max ∨
      m.unsynced ∨ (r.streams.usedStreams = s.rt.streams.usedStreams ∧
        r.streams.vacantStreams = s.rt.streams.vacantStreams ∧ (s.managing t).unsynced = false))
    (hcount : r.streams.usedStreamsCount + UInt32.ofNat (total Task.counted s.rt.task + (s.managing t).counted) =
      s.rt.streams.usedStreamsCount + UInt32.ofNat (total Task.counted r.task + m.counted))
    (hbegun : r.streams.createdStreamsCount + s.rt.streams.finishedStreamsCount +
        UInt32.ofNat (total Task.counted s.rt.task + (s.managing t).begun) =
      s.rt.streams.createdStreamsCount + r.streams.finishedStreamsCount +
        UInt32.ofNat (total Task.counted r.task + m.begun)) :
    Registered M ⟨r, Function.update s.managing t m⟩ := by
  have htally : ∀ w : Managing → Nat, w .idle = 0 →
      UInt32.ofNat (Streams.tally w ⟨r, Function.update s.managing t m⟩) +
        UInt32.ofNat (total Task.counted s.rt.task + w (s.managing t)) =
      UInt32.ofNat (s.tally w) + UInt32.ofNat (total Task.counted r.task + w m) := by
    intro w hw
    have hup := Tally.total_update (small_of_few h.few hw) t m
    rw [← UInt32.ofNat_add, ← UInt32.ofNat_add]
    congr 1
    show total Task.counted r.task + total w (Function.update s.managing t m) + _ = _ + total w s.managing + _
    omega
  have h₁ := htally Managing.counted rfl
  have h₂ := htally Managing.begun rfl
  have hc := h.count
  have hb := h.begun
  refine ⟨hok, fun x hx => ?_, fun u => ?_, ?_, ?_, ?_, ?_⟩
  · have hself : ∀ {P : Prop}, (P ∨ (r.task x).isSome ∨ m.holds = some x) →
        P ∨ (r.task x).isSome ∨ ∃ u, (Function.update s.managing t m u).holds = some x := by
      rintro P (hp | hp | hp)
      · exact .inl hp
      · exact .inr (.inl hp)
      · exact .inr (.inr ⟨t, by rw [Function.update_self]; exact hp⟩)
    rcases h.cover x hx with hp | hp | ⟨u, hu⟩
    · exact hself (hcover x (.inl hp))
    · exact hself (hcover x (.inr (.inl hp)))
    · by_cases hut : u = t
      · subst hut; exact hself (hcover x (.inr (.inr hu)))
      · exact .inr (.inr ⟨u, by show (Function.update s.managing t m u).holds = _; rw [Function.update_of_ne hut]; exact hu⟩)
  · show Function.update s.managing t m u ≠ .panicked
    by_cases hut : u = t
    · subst hut; rw [Function.update_self]; exact hne
    · rw [Function.update_of_ne hut]; exact h.calm u
  · refine (h.few.insert t).subset fun u hu => ?_
    by_cases hut : u = t
    · exact .inl hut
    · right
      have hu' : Function.update s.managing t m u ≠ .idle := hu
      rwa [Function.update_of_ne hut] at hu'
  · rcases hused with hr | hm | ⟨hu, hv, hold⟩
    · exact .inl hr
    · exact .inr ⟨t, by show (Function.update s.managing t m t).unsynced = true; rw [Function.update_self]; exact hm⟩
    · have hin : r.streams.inUse M = s.rt.streams.inUse M := by
        unfold StreamsManagerBase.inUse
        rw [hv]
      rcases h.used with hs | ⟨u, hs⟩
      · left
        show r.streams.usedStreams = r.streams.inUse M ++ List.replicate (M - (r.streams.inUse M).length) u32Max
        rw [hu, hin]
        exact hs
      · have hut : u ≠ t := by rintro rfl; rw [hold] at hs; cases hs
        exact .inr ⟨u, by show (Function.update s.managing t m u).unsynced = true; rw [Function.update_of_ne hut]; exact hs⟩
  · grind
  · grind

/-- Thread `t` does something that concerns neither the ids nor a stream. -/
theorem Registered.goOn {sm : StreamsManagerBase} (h : Registered M s) (hok : Ok M (s.goOn t m sm)) (hne : m ≠ .panicked)
    (hv : sm.vacantStreams = s.rt.streams.vacantStreams) (hu : sm.usedStreams = s.rt.streams.usedStreams)
    (hh : m.holds = (s.managing t).holds) (hs : (s.managing t).unsynced = m.unsynced)
    (hcount : sm.usedStreamsCount + UInt32.ofNat (s.managing t).counted =
      s.rt.streams.usedStreamsCount + UInt32.ofNat m.counted)
    (hbegun : sm.createdStreamsCount + s.rt.streams.finishedStreamsCount + UInt32.ofNat (s.managing t).begun =
      s.rt.streams.createdStreamsCount + sm.finishedStreamsCount + UInt32.ofNat m.begun) : Registered M (s.goOn t m sm) := by
  refine h.advance hok hne (fun x hx => ?_) ?_ ?_ ?_
  · show x ∈ sm.vacantStreams.elems M ∨ (s.rt.task x).isSome ∨ m.holds = some x
    rw [hv, hh]
    exact hx
  · cases hm : m.unsynced with
    | true => exact .inr (.inl rfl)
    | false => exact .inr (.inr ⟨hu, hv, hs.trans hm⟩)
  · show sm.usedStreamsCount + _ = _ + UInt32.ofNat (total Task.counted s.rt.task + m.counted)
    rw [UInt32.ofNat_add, UInt32.ofNat_add]
    grind
  · show sm.createdStreamsCount + _ + _ = _ + sm.finishedStreamsCount + UInt32.ofNat (total Task.counted s.rt.task + m.begun)
    rw [UInt32.ofNat_add, UInt32.ofNat_add]
    grind

/-- Ids are taken only while one is vacant. -/
def VacantId (M : Nat) (s : Streams τ) (l : Label τ) (_ : Streams τ) : Prop :=
  ∀ t, l = .manage t → s.managing t = .createTake → s.rt.streams.vacantStreams.elems M ≠ []

theorem Registered.createTake (hM : Ring.PowerOfTwo M) (h31 : M ≠ 2 ^ 31) (h : Registered M s)
    (ht : s.managing t = .createTake) (hvac : s.rt.streams.vacantStreams.elems M ≠ []) (hs : s.manage M t = some s') :
    Registered M s' := by
  have hok := h.ok.manage hM hs
  simp only [Streams.manage, ht, StreamsManagerBase.takeVacant] at hs
  rcases LawfulMoveContainer.consume_cases (C := FullSyncMove) h.ok.rt.wf with
    ⟨q, id, rest, hq, hel, -, hel'⟩ | ⟨-, hnil | hfull⟩
  · have hq' : s.rt.streams.vacantStreams.consumeMovable M = (q, some id) := hq
    rw [hq'] at hs
    cases hs
    have hold : s.rt.streams.vacantStreams.elems M = id :: rest := hel
    have hnew : q.elems M = rest := hel'
    refine h.advance hok (by simp) (fun x hx => ?_) (.inr (.inl rfl)) ?_ ?_
    · show x ∈ q.elems M ∨ (s.rt.task x).isSome ∨ some id = some x
      rw [hold, List.mem_cons] at hx
      rw [hnew]
      rcases hx with (rfl | hx) | hx | hx
      · exact .inr (.inr rfl)
      · exact .inl hx
      · exact .inr (.inl hx)
      · rw [ht] at hx; cases hx
    · rw [ht]; rfl
    · rw [ht]; rfl
  · exact absurd hnil hvac
  · -- only a queue of `2 ^ 31` elements hides them
    have hle := h.ok.rt.vacantOk.length_inUse
    have hfull' : 2 ^ 31 ≤ (s.rt.streams.vacantStreams.elems M).length := hfull
    have hroom : (UInt32.ofNat M).toNat = 2 ^ 31 := by
      have : (UInt32.ofNat M).toNat ≤ 2 ^ 31 := hM.room_le
      omega
    have hself : Ring.room M = M := by
      rcases hM.room_cases with ⟨hr, -⟩ | hr
      · exact hr
      · have hr' : (UInt32.ofNat M).toNat = 0 := hr
        omega
    exact absurd (hself.symm.trans hroom) h31

theorem Registered.createSync (hM : Ring.PowerOfTwo M) (h : Registered M s) (ht : s.managing t = .createSync id) :
    Registered M ⟨⟨s.rt.streams.syncVacantAndUsedStreams M, Function.update s.rt.task id (some .fresh)⟩,
      Function.update s.managing t .idle⟩ := by
  have hold : (s.managing t).holds = some id := by rw [ht]; rfl
  have hup := Tally.total_update h.ok.small_task id (some Task.fresh)
  rw [h.ok.task t id hold] at hup
  have hbirth : total Task.counted (Function.update s.rt.task id (some .fresh)) = total Task.counted s.rt.task + 1 := hup
  refine h.advance (h.ok.createSync ht) (by simp) (fun x hx => ?_) (.inl ?_) ?_ ?_
  · rcases hx with hx | hx | hx
    · exact .inl hx
    · right; left
      show (Function.update s.rt.task id (some Task.fresh) x).isSome
      by_cases hxi : x = id
      · subst hxi; rw [Function.update_self]; rfl
      · rw [Function.update_of_ne hxi]; exact hx
    · right; left
      cases hold.symm.trans hx
      show (Function.update s.rt.task id (some Task.fresh) id).isSome
      rw [Function.update_self]
      rfl
  · exact h.ok.rt.vacantOk.usedStreams_sync hM
  · rw [ht, hbirth]; rfl
  · rw [ht, hbirth]; rfl

theorem Registered.dropGive (hM : Ring.PowerOfTwo M) (h : Registered M s) (ht : s.managing t = .dropGive id) :
    Registered M (s.goOn t .dropSync (s.rt.streams.giveVacant M id)) := by
  have hold : (s.managing t).holds = some id := by rw [ht]; rfl
  have hlen := h.ok.rt.vacantOk.length_inUse
  have hpos := List.length_pos_of_mem (StreamsManagerBase.mem_inUse.mpr ⟨h.ok.lt t id hold, h.ok.vacant t id hold⟩)
  rcases LawfulMoveContainer.publish_cases (C := FullSyncMove) hM h.ok.rt.wf id with ⟨q, hq, -, hel, -⟩ | ⟨-, hfull⟩
  · have hq' : s.rt.streams.vacantStreams.publishMovable M id = (q, _, none) := hq
    have hel' : q.elems M = s.rt.streams.vacantStreams.elems M ++ [id] := hel
    refine h.advance (h.ok.dropGive hM ht) (by simp) (fun x hx => ?_) (.inr (.inl rfl)) ?_ ?_
    · show x ∈ FullSyncMove.elems M (s.rt.streams.vacantStreams.publishMovable M id).1 ∨ _
      rw [hq', hel', List.mem_append, List.mem_singleton]
      rcases hx with hx | hx | hx
      · exact .inl (.inl hx)
      · exact .inr (.inl hx)
      · exact .inl (.inr (Option.some.inj (hx.symm.trans hold)))
    · rw [ht]; rfl
    · rw [ht]; rfl
  · have hfull' : (s.rt.streams.vacantStreams.elems M).length = (UInt32.ofNat M).toNat := hfull
    omega

theorem Registered.drop (h : Registered M s) (ht : s.managing t = .idle) (hj : (s.rt.task id).isSome) :
    Registered M ⟨{ s.rt with task := Function.update s.rt.task id none }, Function.update s.managing t (.dropClear id)⟩ := by
  have hup := Tally.total_update h.ok.small_task id none
  have hone : Task.counted (s.rt.task id) = 1 := if_pos hj
  rw [hone] at hup
  have hdeath : total Task.counted s.rt.task = total Task.counted (Function.update s.rt.task id none) + 1 := hup.symm
  refine h.advance (h.ok.drop hj) (by simp) (fun x hx => ?_) (.inr (.inr ⟨rfl, rfl, by rw [ht]; rfl⟩)) ?_ ?_
  · rcases hx with hx | hx | hx
    · exact .inl hx
    · by_cases hxi : x = id
      · exact .inr (.inr (by rw [hxi]; rfl))
      · right; left
        show (Function.update s.rt.task id none x).isSome
        rw [Function.update_of_ne hxi]
        exact hx
    · rw [ht] at hx; cases hx
  · rw [ht, hdeath]; rfl
  · rw [ht, hdeath]; rfl

theorem Registered.manage (hM : Ring.PowerOfTwo M) (h31 : M ≠ 2 ^ 31) (h : Registered M s)
    (hvac : s.managing t = .createTake → s.rt.streams.vacantStreams.elems M ≠ []) (hs : s.manage M t = some s') :
    Registered M s' := by
  have hok := h.ok.manage hM hs
  cases ht : s.managing t with
  | idle => simp [Streams.manage, ht] at hs
  | panicked => simp [Streams.manage, ht] at hs
  | createTake => exact h.createTake hM h31 ht (hvac ht) hs
  | createSync id =>
    simp only [Streams.manage, ht, Option.some.injEq] at hs
    subst hs
    exact h.createSync hM ht
  | dropGive id =>
    simp only [Streams.manage, ht, Option.some.injEq] at hs
    subst hs
    exact h.dropGive hM ht
  | dropSync =>
    simp only [Streams.manage, ht, Option.some.injEq] at hs
    subst hs
    refine h.advance hok (by simp) (fun x hx => ?_) (.inl (h.ok.rt.vacantOk.usedStreams_sync hM)) ?_ ?_
    · rw [ht] at hx
      exact hx
    · rw [ht]; rfl
    · rw [ht]; rfl
  | createKeep id | dropClear id =>
    simp only [Streams.manage, ht, Option.some.injEq] at hs
    subst hs
    refine h.goOn hok (by simp) rfl rfl ?_ ?_ ?_ ?_
    all_goals rw [ht]
    all_goals rfl
  | createIncUsed =>
    simp only [Streams.manage, ht, Option.some.injEq] at hs
    subst hs
    refine h.goOn hok (by simp) rfl rfl (by rw [ht]; rfl) (by rw [ht]; rfl) ?_ (by rw [ht]; rfl)
    rw [ht]
    exact UInt32.add_zero _
  | dropIncFinished id =>
    simp only [Streams.manage, ht, Option.some.injEq] at hs
    subst hs
    refine h.goOn hok (by simp) rfl rfl (by rw [ht]; rfl) (by rw [ht]; rfl) (by rw [ht]; rfl) ?_
    rw [ht]
    show s.rt.streams.createdStreamsCount + s.rt.streams.finishedStreamsCount + 1 =
      s.rt.streams.createdStreamsCount + (s.rt.streams.finishedStreamsCount + 1) + 0
    rw [UInt32.add_assoc, UInt32.add_zero]
  | dropDecUsed id =>
    simp only [Streams.manage, ht, Option.some.injEq] at hs
    subst hs
    refine h.goOn hok (by simp) rfl rfl (by rw [ht]; rfl) (by rw [ht]; rfl) ?_ (by rw [ht]; rfl)
    rw [ht]
    show s.rt.streams.usedStreamsCount - 1 + 1 = s.rt.streams.usedStreamsCount + 0
    rw [UInt32.sub_add_cancel, UInt32.add_zero]

theorem Registered.step (hM : Ring.PowerOfTwo M) (h31 : M ≠ 2 ^ 31) (h : Registered M s) (hvac : VacantId M s l s')
    (hs : s.step M l = some s') : Registered M s' := by
  have hok := h.ok.step hM hs
  cases l with
  | create t =>
    simp only [Streams.step, Option.ite_none_right_eq_some, Option.some.injEq] at hs
    obtain ⟨ht, rfl⟩ := hs
    refine h.goOn hok (by simp) rfl rfl (by rw [ht]; rfl) (by rw [ht]; rfl) (by rw [ht]; rfl) ?_
    rw [ht]
    show s.rt.streams.createdStreamsCount + 1 + s.rt.streams.finishedStreamsCount + 0 =
      s.rt.streams.createdStreamsCount + s.rt.streams.finishedStreamsCount + 1
    rw [UInt32.add_zero, UInt32.add_assoc, UInt32.add_comm 1, ← UInt32.add_assoc]
  | drop t j =>
    simp only [Streams.step, Option.ite_none_right_eq_some, Option.some.injEq] at hs
    obtain ⟨⟨ht, hj⟩, rfl⟩ := hs
    exact h.drop ht (Option.isSome_of_any hj)
  | manage t => exact h.manage hM h31 (hvac t rfl) hs

theorem Registered.of_steps (hM : Ring.PowerOfTwo M) (h31 : M ≠ 2 ^ 31)
    (h : Machine.Steps (Streams.step M) (VacantId M) (.new M) s) : Registered M s := by
  refine h.invariant ?_ (.new hM)
  intro s l s' hi hs hok
  exact hi.step hM h31 hok hs

/-- Used and vacant ids are complementary between calls, if no id is taken while none is vacant. -/
theorem registry_complementary (hM : Ring.PowerOfTwo M) (h31 : M ≠ 2 ^ 31)
    (h : Machine.Steps (Streams.step M) (VacantId M) (.new M) s) : Complementary M s :=
  (Registered.of_steps hM h31 h).complementary hM

end Step
/-- Two threads create two streams at a time; one of them is dropped. -/
theorem registry_complementary_overlap : ∃ s : Streams Bool, (∀ t, s.managing t = .idle) ∧
    s.rt.streams.usedStreams = [1, u32Max, u32Max, u32Max] ∧ Complementary 4 s := by
  have hrun : (Machine.exec (Machine.restrict (Streams.step 4) fun s _ _ =>
      decide (s.rt.streams.vacantStreams.elems 4 ≠ [])) (.new 4 : Streams Bool)
      [.create false, .create true, .manage true, .manage false, .manage false, .manage true, .manage false, .manage true,
       .manage true, .manage false, .drop true 0, .manage true, .manage true, .manage true, .manage true, .manage true]).map
        (fun s => decide (s.managing false = .idle ∧ s.managing true = .idle ∧
          s.rt.streams.usedStreams = [1, u32Max, u32Max, u32Max])) = some true := by decide +kernel
  obtain ⟨s, hs, ht⟩ := Option.map_eq_some_iff.mp hrun
  rw [decide_eq_true_iff] at ht
  obtain ⟨h₁, h₂, h₃⟩ := ht
  have hsteps : Machine.Steps (Streams.step 4) (VacantId 4) (.new 4) s :=
    (Machine.Path.of_exec_restrict (fun _ _ _ h => h) hs).steps.mono fun _ _ _ hv _ _ _ => of_decide_eq_true hv
  exact ⟨s, fun t => by cases t <;> assumption, h₃, registry_complementary ⟨2, rfl⟩ (by decide) hsteps⟩

/-- With `2 ^ 31` vacant ids the first creation panics and is counted for good. -/
theorem not_complementary_of_length (hM : Ring.PowerOfTwo M)
    (hlen : 2 ^ 31 ≤ ((StreamsManagerBase.new M).vacantStreams.elems M).length) :
    ∃ s : Streams Unit, Machine.Steps (Streams.step M) (VacantId M) (.new M) s ∧ ¬ Complementary M s := by
  have hempty : (StreamsManagerBase.new M).vacantStreams.consumeMovable M =
      ((StreamsManagerBase.new M).vacantStreams, none) :=
    LawfulMoveContainer.consume_none (C := FullSyncMove) (StreamsManagerBase.vacant_new hM).1 (.inr hlen)
  -- the states of the call
  let s₀ : Streams Unit := .new M
  let s₁ := s₀.goOn () .createIncUsed s₀.rt.streams.incCreated
  let s₂ := s₁.goOn () .createTake s₁.rt.streams.incUsed
  let s₃ := s₂.goOn () .panicked s₂.rt.streams
  have h₁ : Machine.Step (Streams.step M) (VacantId M) s₀ s₁ := ⟨.create (), rfl, fun t ht => (by cases ht)⟩
  have h₂ : Machine.Step (Streams.step M) (VacantId M) s₁ s₂ := ⟨.manage (), rfl, fun t _ htake => (by cases htake)⟩
  have h₃ : Machine.Step (Streams.step M) (VacantId M) s₂ s₃ := by
    refine ⟨.manage (), ?_, fun t _ _ hnil => ?_⟩
    · have hm : s₂.managing () = .createTake := rfl
      have hq : s₂.rt.streams.vacantStreams.consumeMovable M = (s₂.rt.streams.vacantStreams, none) := hempty
      show s₂.manage M () = some s₃
      rw [Streams.manage, hm]
      simp only [StreamsManagerBase.takeVacant, hq]
      rfl
    · have hnil' : (StreamsManagerBase.new M).vacantStreams.elems M = [] := hnil
      rw [hnil'] at hlen
      cases hlen
  refine ⟨s₃, ((Relation.ReflTransGen.single h₁).tail h₂).tail h₃, fun hc => ?_⟩
  obtain ⟨live, -, hmem, -, -, hcount, -⟩ := hc.quiet fun _ => rfl
  have hone : live.length = 1 := hcount.symm
  obtain ⟨j, hj⟩ := List.exists_mem_of_length_pos (by omega : 0 < live.length)
  cases (hmem j).mp hj

theorem exhausted_run : ∃ s : Streams Unit, Machine.Steps (Streams.step (2 ^ 31)) (VacantId (2 ^ 31)) (.new (2 ^ 31)) s ∧
    ¬ Complementary (2 ^ 31) s := by
  have hM : Ring.PowerOfTwo (2 ^ 31) := ⟨31, rfl⟩
  refine not_complementary_of_length hM ?_
  rw [(StreamsManagerBase.vacant_new hM).2, length_idRange]
  exact Nat.le_refl _

end Streams
end Mutiny
