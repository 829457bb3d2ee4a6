import Mutiny.Lib.Machine
import Mutiny.StreamLife
import Mutiny.SyncedStreams

/-!
# Streams of which none is dropped

As long as no stream is dropped, the ids are handed out in order: those below `k` have been taken, and `used_streams` lists
those below `n`, since it was last rebuilt when they were (`Grown`). The list grows at its end, so an entry that was read
once stays what it is (`Grown.entry_stays`). `used_streams_count` is ahead of the list (`Counted`) unless it wraps around,
which takes `2 ^ 32` calls of `create_stream_id`, whether they are refused or not.
-/

namespace Mutiny

namespace StreamsManagerBase
variable {M : Nat} {sm : StreamsManagerBase} {k : UInt32}

theorem inUse_of_vacant (hv : sm.vacantStreams.elems M = idRange k (UInt32.ofNat M)) (hk : k ≤ UInt32.ofNat M) :
    sm.inUse M = idRange 0 k := by
  have hsplit : idRange 0 k ++ idRange k (UInt32.ofNat M) = idRange 0 (UInt32.ofNat M) :=
    idRange_append (by simp [UInt32.le_iff_toNat_le]) hk
  rw [inUse, ← hsplit, hv, List.filter_append]
  have hbelow : (idRange 0 k).filter (· ∉ idRange k (UInt32.ofNat M)) = idRange 0 k := by
    refine List.filter_eq_self.mpr fun x hx => decide_eq_true fun hx' => ?_
    exact UInt32.not_lt.mpr (mem_idRange.mp hx').1 (mem_idRange.mp hx).2
  have hvacant : (idRange k (UInt32.ofNat M)).filter (· ∉ idRange k (UInt32.ofNat M)) = [] :=
    List.filter_eq_nil_iff.mpr fun x hx => by simp [hx]
  rw [hbelow, hvacant, List.append_nil]

end StreamsManagerBase

/-- The thread is not about to drop a stream. -/
def Managing.creates : Managing → Bool
  | .idle | .createIncUsed | .createTake | .createKeep _ | .createSync _ | .panicked => true
  | .dropClear _ | .dropIncFinished _ | .dropDecUsed _ | .dropGive _ | .dropSync => false

namespace Streams
variable {τ : Type} {M : Nat} {n k : UInt32} {s s' : Streams τ} {l : Label τ} {i : Nat} {id : UInt32} {t : τ}

def Label.drops : Label τ → Bool
  | .drop _ _ => true
  | .create _ | .manage _ => false

theorem steps_create [DecidableEq τ] {rt : Runtime} (ht : s.managing t = .idle) (hc : s.rt.create M = some rt) :
    Machine.Steps (step M) (fun _ l _ => l.drops = false) s { s with rt } := by
  have hexec : Machine.exec (step M) s [.create t, .manage t, .manage t, .manage t, .manage t] = some { s with rt } := by
    unfold Runtime.create StreamsManagerBase.createStreamId at hc
    generalize htake : s.rt.streams.incCreated.incUsed.takeVacant M = r at hc
    obtain ⟨sm, id⟩ := r
    cases id with
    | none => cases hc
    | some id =>
      cases hc
      have hidle : Function.update s.managing t .idle = s.managing := by rw [← ht, Function.update_eq_self]
      simp [Machine.exec, step, ht, manage, goOn, htake, hidle]
  exact (Machine.Path.of_exec_of_forall hexec (by simp [Label.drops])).steps

structure Grown (M : Nat) (n k : UInt32) (s : Streams τ) : Prop where
  vacant : s.rt.streams.vacantStreams.elems M = idRange k (UInt32.ofNat M)
  used : s.rt.streams.usedStreams = idRange 0 n ++ List.replicate (M - n.toNat) u32Max
  le : n ≤ k
  k_le : k ≤ UInt32.ofNat M
  live : ∀ j, (s.rt.task j).isSome → j < n
  creates : ∀ t, (s.managing t).creates = true

namespace Grown

theorem new (hM : Ring.PowerOfTwo M) : Grown M 0 0 (.new M : Streams τ) where
  vacant := (StreamsManagerBase.vacant_new hM).2
  used := rfl
  le := UInt32.le_refl 0
  k_le := by simp [UInt32.le_iff_toNat_le]
  live _ h := by cases h
  creates _ := rfl

theorem entry_iff (h : Grown M n k s) : (s.rt.streams.usedStreams[i]? = some id ∧ id ≠ u32Max) ↔
    i < n.toNat ∧ id = UInt32.ofNat i := by
  have hn := n.toNat_lt
  have hget : ∀ (hi : i < n.toNat), s.rt.streams.usedStreams[i]? = some (UInt32.ofNat i) := by
    intro hi
    rw [h.used, List.getElem?_append_left (by rwa [length_idRange]), idRange, List.getElem?_map,
      List.getElem?_range (by simpa using hi)]
    simp
  constructor
  · rintro ⟨hid, hne⟩
    by_cases hi : i < n.toNat
    · rw [hget hi, Option.some.injEq] at hid
      exact ⟨hi, hid.symm⟩
    · rw [h.used, List.getElem?_append_right (by rw [length_idRange]; simpa using hi)] at hid
      exact absurd (List.eq_of_mem_replicate (List.mem_of_getElem? hid)) hne
  · rintro ⟨hi, rfl⟩
    refine ⟨hget hi, fun he => ?_⟩
    have hmax : i = 2 ^ 32 - 1 := by
      have := congrArg UInt32.toNat he
      rwa [Wrap.toNat_ofNat_of_lt (by omega)] at this
    omega

theorem entry_stays {n' k' : UInt32} (h : Grown M n k s) (h' : Grown M n' k' s') (hle : n ≤ n')
    (hid : s.rt.streams.usedStreams[i]? = some id) (hne : id ≠ u32Max) : s'.rt.streams.usedStreams[i]? = some id := by
  obtain ⟨hi, rfl⟩ := h.entry_iff.mp ⟨hid, hne⟩
  exact (h'.entry_iff.mpr ⟨hi.trans_le (UInt32.le_iff_toNat_le.mp hle), rfl⟩).1

theorem entry_live (h : Grown M n k s) (hj : (s.rt.task id).isSome) :
    s.rt.streams.usedStreams[id.toNat]? = some id ∧ id ≠ u32Max ∧ id.toNat < n.toNat := by
  have hlt := UInt32.lt_iff_toNat_lt.mp (h.live id hj)
  obtain ⟨hid, hne⟩ := h.entry_iff.mpr ⟨hlt, (UInt32.ofNat_toNat (x := id)).symm⟩
  exact ⟨hid, hne, hlt⟩

end Grown

/-- `used_streams_count` does not wrap around. -/
def NoWrap (s : Streams τ) : Label τ → Prop
  | .manage t => s.managing t = .createIncUsed → s.rt.streams.usedStreamsCount ≠ u32Max
  | _ => True

/-- Those who are about to take an id have been counted already, and so have the ids taken. -/
def Counted (k : UInt32) (s : Streams τ) : Prop :=
  ∀ waiting : List τ, waiting.Nodup → (∀ t ∈ waiting, s.managing t = .createTake) →
    k.toNat + waiting.length ≤ s.rt.streams.usedStreamsCount.toNat

namespace Counted

theorem new (M : Nat) : Counted 0 (.new M : Streams τ) := by
  rintro (_ | ⟨t, waiting⟩) - hw
  · exact Nat.zero_le _
  · have := hw t List.mem_cons_self
    cases this

theorem of_rt {r : Runtime} (h : Counted k s)
    (hc : r.streams.usedStreamsCount = s.rt.streams.usedStreamsCount) : Counted k { s with rt := r } := by
  intro waiting hnd hw
  show _ ≤ r.streams.usedStreamsCount.toNat
  rw [hc]
  exact h waiting hnd hw

theorem le (h : Counted k s) : k.toNat ≤ s.rt.streams.usedStreamsCount.toNat := h [] List.nodup_nil nofun

variable [DecidableEq τ]

/-- A thread that does not count goes on to something else than taking an id. -/
theorem goOn {m : Managing} {r : Runtime} (h : Counted k s) (hm : m ≠ .createTake)
    (hc : r.streams.usedStreamsCount = s.rt.streams.usedStreamsCount) :
    Counted k ⟨r, Function.update s.managing t m⟩ := by
  intro waiting hnd hw
  show _ ≤ r.streams.usedStreamsCount.toNat
  rw [hc]
  refine h waiting hnd fun u hu => ?_
  have hu' : Function.update s.managing t m u = .createTake := hw u hu
  by_cases hut : u = t
  · subst hut
    rw [Function.update_self] at hu'
    exact absurd hu' hm
  · rwa [Function.update_of_ne hut] at hu'

theorem incUsed (h : Counted k s) (hwrap : s.rt.streams.usedStreamsCount ≠ u32Max) :
    Counted k (s.goOn t .createTake s.rt.streams.incUsed) := by
  have hsucc : (s.rt.streams.usedStreamsCount + 1).toNat = s.rt.streams.usedStreamsCount.toNat + 1 := by
    have hlt := s.rt.streams.usedStreamsCount.toNat_lt
    have hne : s.rt.streams.usedStreamsCount.toNat ≠ 2 ^ 32 - 1 := fun he => hwrap (UInt32.toNat_inj.mp he)
    rw [UInt32.toNat_add, UInt32.toNat_one]
    omega
  intro waiting hnd hw
  show _ ≤ (s.rt.streams.usedStreamsCount + 1).toNat
  rw [hsucc]
  have herase := h (waiting.erase t) (hnd.erase t) fun u hu => by
    obtain ⟨hut, hmem⟩ := hnd.mem_erase_iff.mp hu
    have hu' : Function.update s.managing t .createTake u = .createTake := hw u hmem
    rwa [Function.update_of_ne hut] at hu'
  rw [List.length_erase] at herase
  split at herase <;> omega

theorem take {id : UInt32} {sm : StreamsManagerBase} (h : Counted k s) (ht : s.managing t = .createTake)
    (hc : sm.usedStreamsCount = s.rt.streams.usedStreamsCount) (hk : (k + 1).toNat = k.toNat + 1) :
    Counted (k + 1) (s.goOn t (.createKeep id) sm) := by
  intro waiting hnd hw
  have hother : ∀ u ∈ waiting, u ≠ t ∧ s.managing u = .createTake := by
    intro u hu
    have hu' : Function.update s.managing t (.createKeep id) u = .createTake := hw u hu
    by_cases hut : u = t
    · subst hut
      rw [Function.update_self] at hu'
      cases hu'
    · rw [Function.update_of_ne hut] at hu'
      exact ⟨hut, hu'⟩
  have hcons := h (t :: waiting) (List.nodup_cons.mpr ⟨fun hmem => (hother t hmem).1 rfl, hnd⟩) fun u hu => by
    rcases List.mem_cons.mp hu with rfl | hu
    · exact ht
    · exact (hother u hu).2
  show _ ≤ sm.usedStreamsCount.toNat
  rw [hc, hk]
  rw [List.length_cons] at hcons
  omega

end Counted

namespace Grown
variable [DecidableEq τ]

theorem goOn {m : Managing} {sm : StreamsManagerBase} (h : Grown M n k s) (hm : m.creates = true)
    (hv : sm.vacantStreams = s.rt.streams.vacantStreams) (hu : sm.usedStreams = s.rt.streams.usedStreams) :
    Grown M n k (s.goOn t m sm) := by
  refine ⟨?_, ?_, h.le, h.k_le, h.live, fun u => ?_⟩
  · show sm.vacantStreams.elems M = _
    rw [hv, h.vacant]
  · show sm.usedStreams = _
    rw [hu, h.used]
  · show (Function.update s.managing t m u).creates = true
    by_cases hut : u = t
    · subst hut
      rwa [Function.update_self]
    · rw [Function.update_of_ne hut]
      exact h.creates u

theorem createTake (h : Grown M n k s) (hok : s.Ok M) (ht : s.managing t = .createTake)
    (hs : s.manage M t = some s') : ∃ k', Grown M n k' s' ∧ (Counted k s → Counted k' s') := by
  simp only [Streams.manage, ht, StreamsManagerBase.takeVacant] at hs
  rcases LawfulMoveContainer.consume_cases (C := FullSyncMove) hok.rt.wf with
    ⟨q, id, rest, hq, hel, -, hel'⟩ | ⟨hq, -⟩
  · have hq' : s.rt.streams.vacantStreams.consumeMovable M = (q, some id) := hq
    have hold : s.rt.streams.vacantStreams.elems M = id :: rest := hel
    have hnew : q.elems M = rest := hel'
    rw [hq'] at hs
    cases hs
    rw [h.vacant] at hold
    have hlt : k < UInt32.ofNat M := by
      refine UInt32.lt_of_le_of_ne h.k_le fun he => ?_
      rw [he, idRange, Nat.sub_self] at hold
      cases hold
    rw [idRange_succ hlt, List.cons.injEq] at hold
    have hsucc : (k + 1).toNat = k.toNat + 1 := by
      have := UInt32.lt_iff_toNat_lt.mp hlt
      have := (UInt32.ofNat M).toNat_lt
      rw [UInt32.toNat_add, UInt32.toNat_one]
      omega
    have hle : k ≤ k + 1 := by
      rw [UInt32.le_iff_toNat_le]
      omega
    refine ⟨k + 1, ⟨?_, h.used, UInt32.le_trans h.le hle, ?_, h.live, fun u => ?_⟩, fun hc => hc.take ht rfl hsucc⟩
    · show q.elems M = _
      rw [hnew, hold.2]
    · rw [UInt32.le_iff_toNat_le, hsucc]
      exact UInt32.lt_iff_toNat_lt.mp hlt
    · show (Function.update s.managing t (.createKeep id) u).creates = true
      by_cases hut : u = t
      · subst hut
        rw [Function.update_self]
        rfl
      · rw [Function.update_of_ne hut]
        exact h.creates u
  · have hq' : s.rt.streams.vacantStreams.consumeMovable M = (s.rt.streams.vacantStreams, none) := hq
    rw [hq'] at hs
    cases hs
    exact ⟨k, h.goOn rfl rfl rfl, fun hc => hc.goOn (fun he => by cases he) rfl⟩

theorem createSync (hM : Ring.PowerOfTwo M) (h : Grown M n k s) (hok : s.Ok M) (ht : s.managing t = .createSync id) :
    Grown M k k ⟨⟨s.rt.streams.syncVacantAndUsedStreams M, Function.update s.rt.task id (some .fresh)⟩,
      Function.update s.managing t .idle⟩ := by
  have hvacant : StreamsManagerBase.VacantOk M s.rt.streams := ⟨hok.rt.wf, hok.rt.nodup, hok.rt.vacant_lt⟩
  have huse := StreamsManagerBase.inUse_of_vacant h.vacant h.k_le
  have hholds : (s.managing t).holds = some id := by rw [ht]; rfl
  refine ⟨h.vacant, ?_, UInt32.le_refl k, h.k_le, fun j hj => ?_, fun u => ?_⟩
  · show (s.rt.streams.syncVacantAndUsedStreams M).usedStreams = _
    rw [hvacant.usedStreams_sync hM, huse, length_idRange, UInt32.toNat_zero, Nat.sub_zero]
  · change (Function.update s.rt.task id (some .fresh) j).isSome at hj
    by_cases hji : j = id
    · -- the id of the new stream is not vacant
      subst hji
      have hnv := hok.vacant t j hholds
      rw [h.vacant, mem_idRange, not_and] at hnv
      exact UInt32.not_le.mp fun hle => hnv hle (hok.lt t j hholds)
    · rw [Function.update_of_ne hji] at hj
      exact UInt32.lt_of_lt_of_le (h.live j hj) h.le
  · show (Function.update s.managing t .idle u).creates = true
    by_cases hut : u = t
    · subst hut
      rw [Function.update_self]
      rfl
    · rw [Function.update_of_ne hut]
      exact h.creates u

theorem step (hM : Ring.PowerOfTwo M) (h : Grown M n k s) (hok : s.Ok M) (hs : s.step M l = some s')
    (hl : l.drops = false) :
    ∃ n' k', n ≤ n' ∧ Grown M n' k' s' ∧ (Counted k s → s.NoWrap l → Counted k' s') := by
  rcases l with t | ⟨t, j⟩ | t
  · obtain ⟨-, hs⟩ := Option.ite_none_right_eq_some.mp hs
    cases hs
    exact ⟨n, k, UInt32.le_refl n, h.goOn rfl rfl rfl, fun hc _ => hc.goOn (fun he => by cases he) rfl⟩
  · cases hl
  · change s.manage M t = some s' at hs
    have hcreates := h.creates t
    cases ht : s.managing t with
    | idle | panicked => simp [Streams.manage, ht] at hs
    | createIncUsed =>
      simp only [Streams.manage, ht, Option.some.injEq] at hs
      subst hs
      exact ⟨n, k, UInt32.le_refl n, h.goOn rfl rfl rfl, fun hc hwrap => hc.incUsed (hwrap ht)⟩
    | createKeep id =>
      simp only [Streams.manage, ht, Option.some.injEq] at hs
      subst hs
      exact ⟨n, k, UInt32.le_refl n, h.goOn rfl rfl rfl, fun hc _ => hc.goOn (fun he => by cases he) rfl⟩
    | createTake =>
      obtain ⟨k', h', hc'⟩ := h.createTake hok ht hs
      exact ⟨n, k', UInt32.le_refl n, h', fun hc _ => hc' hc⟩
    | createSync id =>
      simp only [Streams.manage, ht, Option.some.injEq] at hs
      subst hs
      exact ⟨k, k, h.le, h.createSync hM hok ht, fun hc _ => hc.goOn (fun he => by cases he) rfl⟩
    | dropClear | dropIncFinished | dropDecUsed | dropGive | dropSync => rw [ht] at hcreates; cases hcreates

omit [DecidableEq τ] in
theorem of_rt {r : Runtime} (h : Grown M n k s) (hsame : s.rt.SameStreams r)
    (hu : r.streams.usedStreams = s.rt.streams.usedStreams) : Grown M n k { s with rt := r } :=
  ⟨by rw [hsame.vacant]; exact h.vacant, hu.trans h.used, h.le, h.k_le,
    fun j hj => h.live j (by rw [← hsame.isSome j]; exact hj), h.creates⟩

end Grown

end Streams
end Mutiny
