import Mutiny.Lib.Plain
import Mutiny.MmapLog
import Mutiny.ZeroCopy

/-!
# `publish` on the log topic, one call at a time

`MMapMeta::publish` neither compares the slot with the length of the buffer nor refuses anything, and it reports
the number of entries as a `NonZeroU32`. Here the counters are 64 bits wide, the additions panic on an overflow if
`checks` say so, and the file has the length that `new` computed for it. An access outside of the buffer or of the
file has no result.

With `n` publications so far, the next one is right iff its slot is there and `n + 1` is not a multiple of `2 ^ 32`
(`publish_sound_iff`).
-/

namespace Mutiny
open AtomicMove (Payload)
open Plain (Outcome)

/-- `size_of::<SlotType>()`, `size_of::<MMapContents<SlotType>>()`, and where the first slot is in the latter. -/
structure Layout where
  slot : Nat
  contents : Nat
  firstBufferElement : Nat
  fits : firstBufferElement + slot ≤ contents

/-- `MMapMeta<SlotType>`; `sliceLength` is the length of `buffer`. -/
structure MMapMeta (α : Type) where
  layout : Layout
  mmapFileLen : Nat
  sliceLength : Nat
  mmapContents : MMapContents α

namespace MMapMeta
variable {τ α β : Type}

/-- `size_of::<MMapContents<SlotType>>() as u64 + (max_slots-1) * size_of::<SlotType>() as u64` -/
def fileLen (checks : Bool) (layout : Layout) (maxSlots : UInt64) : Option Nat := do
  let more ← Plain.word checks (maxSlots.toNat - 1 : Int)
  let bytes ← Plain.word checks (more * layout.slot : Nat)
  Plain.word checks (layout.contents + bytes : Nat)

/-- There is no topic if the length of the file overflows and panics, or if the file has no room for the header. -/
def new (checks : Bool) (layout : Layout) (maxSlots : UInt64) (zero : α) : Option (MMapMeta α) := do
  let mmapFileLen ← fileLen checks layout maxSlots
  if mmapFileLen < layout.contents then none
  else some ⟨layout, mmapFileLen, maxSlots.toNat, ⟨0, 0, fun _ => zero⟩⟩

/-- The slot is in the part of the file that was mapped. -/
def InFile (m : MMapMeta α) (slot : Nat) : Prop :=
  m.layout.firstBufferElement + (slot + 1) * m.layout.slot ≤ m.mmapFileLen

instance (m : MMapMeta α) (slot : Nat) : Decidable (m.InFile slot) := inferInstanceAs (Decidable (_ ≤ _))

/-- `publish(setter)`; the state is the one at the return or at the panic. -/
def publish (checks : Bool) (m : MMapMeta α) (p : Payload α) :
    Option (MMapMeta α × Outcome (Option UInt32 × Option (Payload α))) :=
  let tail := m.mmapContents.publisherTail
  if tail < m.sliceLength ∧ m.InFile tail then
    let buffer := Function.update m.mmapContents.buffer tail (p.store (m.mmapContents.buffer tail))
    let m := { m with mmapContents := ⟨(tail + 1) % 2 ^ 64, m.mmapContents.consumerTail, buffer⟩ }
    match Plain.word checks (tail + 1 : Nat) with
    | none => some (m, .panicked)
    | some next =>
      if m.mmapContents.consumerTail = tail then
        let m := { m with mmapContents := { m.mmapContents with consumerTail := next } }
        match Plain.add checks 1 (UInt32.ofNat tail) with
        | none => some (m, .panicked)
        | some len => some (m, .returned (FullSyncMove.nonZeroU32 len, none))
      else some (m, .spinning)
  else none

def publishMovable (checks : Bool) (m : MMapMeta α) (item : α) :
    Option (MMapMeta α × Outcome (Option UInt32 × Option α)) :=
  (m.publish checks (.movable item)).map fun r => (r.1, r.2.bind fun result =>
    match result.2 with
    | some _ => .panicked
    | none => .returned (result.1, none))

/-- `MmapLog::send(item)`; in the first case the streams are woken. -/
def send (checks : Bool) (m : MMapMeta α) (item : α) : Option (MMapMeta α × Outcome (ZeroCopy.Sent α)) :=
  (m.publishMovable checks item).map fun r =>
    (r.1, r.2.map (ZeroCopy.ofPublish "reactive-mutiny: mmap_log::send() BUG! None `some_item`"))

/-- `MmapLog::send_with(setter)` -/
def sendWith (checks : Bool) (m : MMapMeta α) (p : Payload α) :
    Option (MMapMeta α × Outcome (ZeroCopy.Sent (Payload α))) :=
  (m.publish checks p).map fun r =>
    (r.1, r.2.map (ZeroCopy.ofPublish "reactive-mutiny: mmap_log::send_with() BUG! None `some_setter`"))

/-- One publication; the topic goes on after a panic. -/
def step (checks : Bool) (m : MMapMeta α) (p : Payload α) : Option (MMapMeta α) :=
  (m.publish checks p).map Prod.fst

/-- The topic with one more entry. -/
def stored (m : MMapMeta α) (p : Payload α) : MMapMeta α :=
  let tail := m.mmapContents.publisherTail
  { m with mmapContents := ⟨tail + 1, m.mmapContents.consumerTail + 1,
    Function.update m.mmapContents.buffer tail (p.store (m.mmapContents.buffer tail))⟩ }

/-- The item is stored and reported, or handed back; nothing else is wrong with the call. -/
structure Sound (checks : Bool) (m : MMapMeta α) (item : α) : Prop where
  publishes : (m.mmapContents.publisherTail < m.sliceLength ∧
      ∃ n, m.publishMovable checks item = some (m.stored (.movable item), .returned (some n, none))) ∨
    m.publishMovable checks item = some (m, .returned (none, some item))
  /-- The `BUG!` panics are unreachable. -/
  send : ∀ m' message, m.send checks item ≠ some (m', .returned (.panic message))
  sendWith : ∀ p m' message, m.sendWith checks p ≠ some (m', .returned (.panic message))
  /-- `tail + 1` on `usize` and `1 + tail as u32` do not overflow. -/
  fits : m.mmapContents.publisherTail + 1 < 2 ^ 64 ∧ 1 + m.mmapContents.publisherTail % 2 ^ 32 < 2 ^ 32

/-! ### One publication -/

section One
variable {checks : Bool} {m m₀ m' : MMapMeta α} {p : Payload α} {n : Nat}

/-- `m` is `m₀` after `n` publications. -/
structure After (m₀ : MMapMeta α) (n : Nat) (m : MMapMeta α) : Prop where
  layout : m.layout = m₀.layout
  mmapFileLen : m.mmapFileLen = m₀.mmapFileLen
  sliceLength : m.sliceLength = m₀.sliceLength
  publisherTail : m.mmapContents.publisherTail = n
  consumerTail : m.mmapContents.consumerTail = n

theorem After.inFile_iff (h : After m₀ n m) (slot : Nat) : m.InFile slot ↔ m₀.InFile slot := by
  rw [InFile, InFile, h.layout, h.mmapFileLen]

theorem After.stored (h : After m₀ n m) (p : Payload α) : After m₀ (n + 1) (m.stored p) := by
  refine ⟨h.layout, h.mmapFileLen, h.sliceLength, ?_, ?_⟩
  · show m.mmapContents.publisherTail + 1 = _
    rw [h.publisherTail]
  · show m.mmapContents.consumerTail + 1 = _
    rw [h.consumerTail]

/-- What `publish` reports about the `n`-th entry. -/
def reported (checks : Bool) (n : Nat) : Outcome (Option UInt32 × Option β) :=
  match Plain.add checks 1 (UInt32.ofNat n) with
  | none => .panicked
  | some len => .returned (FullSyncMove.nonZeroU32 len, none)

theorem reported_of_ne (checks : Bool) (h : n % 2 ^ 32 ≠ 2 ^ 32 - 1) :
    ∃ len, (reported checks n : Outcome (Option UInt32 × Option β)) = .returned (some len, none) := by
  have hn : (UInt32.ofNat n).toNat = n % 2 ^ 32 := UInt32.toNat_ofNat'
  have hsum : (1 : UInt32).toNat + (UInt32.ofNat n).toNat < 2 ^ 32 := by
    rw [hn, UInt32.toNat_one]
    omega
  refine ⟨1 + UInt32.ofNat n, ?_⟩
  rw [reported, Plain.add_of_lt hsum]
  have hne : 1 + UInt32.ofNat n ≠ 0 := by
    intro he
    have := congrArg UInt32.toNat he
    rw [UInt32.toNat_add, Nat.mod_eq_of_lt hsum, hn] at this
    simp at this
  simp only [FullSyncMove.nonZeroU32, if_neg hne]

theorem reported_of_eq (h : n % 2 ^ 32 = 2 ^ 32 - 1) (checks : Bool) :
    (reported checks n : Outcome (Option UInt32 × Option β)) = if checks then .panicked else .returned (none, none) := by
  have hn : (UInt32.ofNat n).toNat = 2 ^ 32 - 1 := UInt32.toNat_ofNat'.trans h
  unfold reported
  cases checks with
  | true =>
    have hover : 2 ^ 32 ≤ (1 : UInt32).toNat + (UInt32.ofNat n).toNat := by
      rw [hn, UInt32.toNat_one]
      omega
    rw [Plain.add_checked_eq_none hover]
    rfl
  | false =>
    have hz : 1 + UInt32.ofNat n = 0 := by
      apply UInt32.toNat_inj.mp
      rw [UInt32.toNat_add, hn, UInt32.toNat_one]
      rfl
    rw [Plain.add_unchecked, hz]
    rfl

theorem After.publish_eq (h : After m₀ n m) (hlt : m₀.sliceLength < 2 ^ 64) (hn : n < m₀.sliceLength)
    (hf : m₀.InFile n) (p : Payload α) : m.publish checks p = some (m.stored p, reported checks n) := by
  have hslot : m.mmapContents.publisherTail < m.sliceLength ∧ m.InFile m.mmapContents.publisherTail := by
    rw [h.publisherTail, h.sliceLength, h.inFile_iff]
    exact ⟨hn, hf⟩
  have hw : n + 1 < 2 ^ 64 := by omega
  have htail : m.mmapContents.consumerTail = m.mmapContents.publisherTail :=
    h.consumerTail.trans h.publisherTail.symm
  unfold publish
  simp only [if_pos hslot, htail, if_true]
  rw [h.publisherTail, Plain.word_of_lt hw, Nat.mod_eq_of_lt hw]
  unfold reported MMapMeta.stored
  cases Plain.add checks 1 (UInt32.ofNat n) <;> simp [h.publisherTail, h.consumerTail]

theorem publish_beyond (h : ¬ (m.mmapContents.publisherTail < m.sliceLength ∧
    m.InFile m.mmapContents.publisherTail)) (p : Payload α) : m.publish checks p = none := by
  simp only [publish, if_neg h]

theorem After.publish_eq_none (h : After m₀ n m) (hn : ¬ (n < m₀.sliceLength ∧ m₀.InFile n)) (p : Payload α) :
    m.publish checks p = none := by
  refine publish_beyond ?_ p
  rwa [h.publisherTail, h.sliceLength, h.inFile_iff]

theorem After.step (h : After m₀ n m) (hlt : m₀.sliceLength < 2 ^ 64) (hs : m.step checks p = some m') :
    (n < m₀.sliceLength ∧ m₀.InFile n) ∧ After m₀ (n + 1) m' := by
  by_cases hn : n < m₀.sliceLength ∧ m₀.InFile n
  · rw [MMapMeta.step, h.publish_eq hlt hn.1 hn.2] at hs
    cases hs
    exact ⟨hn, h.stored p⟩
  · rw [MMapMeta.step, h.publish_eq_none hn] at hs
    cases hs

end One

/-! ### Any number of publications -/

section Many
variable {checks : Bool} {layout : Layout} {maxSlots : UInt64} {zero : α} {m m₀ m' : MMapMeta α} {n : Nat}

theorem new_eq (h : new checks layout maxSlots zero = some m) :
    m.sliceLength = maxSlots.toNat ∧ After m 0 m := by
  unfold new at h
  obtain ⟨len, -, h⟩ := Option.bind_eq_some_iff.mp h
  split at h
  · cases h
  · cases h
    exact ⟨rfl, rfl, rfl, rfl, rfl, rfl⟩

theorem After.exec (h : After m₀ n m) (hlt : m₀.sliceLength < 2 ^ 64) {l : List (Payload α)}
    (hs : Machine.exec (MMapMeta.step checks) m l = some m') : After m₀ (n + l.length) m' := by
  induction l generalizing m n with
  | nil =>
    cases hs
    exact h
  | cons p l ih =>
    rw [Machine.exec_cons, Option.bind_eq_some_iff] at hs
    obtain ⟨m₁, hp, hs⟩ := hs
    have := ih (h.step hlt hp).2 hs
    rwa [List.length_cons, Nat.add_comm l.length, ← Nat.add_assoc]

theorem After.exists_exec (checks : Bool) (h : After m₀ n m) (hlt : m₀.sliceLength < 2 ^ 64) (l : List (Payload α))
    (hl : n + l.length ≤ m₀.sliceLength) (hf : ∀ k < n + l.length, m₀.InFile k) :
    ∃ m', Machine.exec (MMapMeta.step checks) m l = some m' := by
  induction l generalizing m n with
  | nil => exact ⟨m, rfl⟩
  | cons p l ih =>
    rw [List.length_cons, Nat.add_comm l.length, ← Nat.add_assoc] at hl hf
    have hp : m.step checks p = some (m.stored p) := by
      rw [MMapMeta.step, h.publish_eq hlt (by omega) (hf n (by omega))]
      rfl
    rw [Machine.exec_cons, hp]
    exact ih (h.stored p) hl hf

/-- The file has all slots unless the computation of its length overflows. -/
theorem new_inFile (h : new checks layout maxSlots zero = some m) (h₁ : 1 ≤ maxSlots.toNat)
    (hfit : layout.contents + (maxSlots.toNat - 1) * layout.slot < 2 ^ 64) (hn : n < maxSlots.toNat) : m.InFile n := by
  have hmore : Plain.word checks (maxSlots.toNat - 1 : Int) = some (maxSlots.toNat - 1) := by
    rw [show (maxSlots.toNat - 1 : Int) = (maxSlots.toNat - 1 : Nat) by omega]
    exact Plain.word_of_lt (by have := maxSlots.toNat_lt; omega)
  have hlen : fileLen checks layout maxSlots = some (layout.contents + (maxSlots.toNat - 1) * layout.slot) := by
    unfold fileLen
    rw [hmore, Option.bind_eq_bind, Option.bind_some, Plain.word_of_lt (by omega), Option.bind_some,
      Plain.word_of_lt hfit]
  unfold new at h
  rw [hlen, Option.bind_eq_bind, Option.bind_some, if_neg (by omega)] at h
  cases h
  show layout.firstBufferElement + (n + 1) * layout.slot ≤ layout.contents + (maxSlots.toNat - 1) * layout.slot
  have hmul : n * layout.slot ≤ (maxSlots.toNat - 1) * layout.slot := Nat.mul_le_mul_right _ (by omega)
  have := layout.fits
  rw [Nat.add_mul, Nat.one_mul]
  omega

/-- The `n`-th publication meets the slots, the file and the counter. -/
theorem After.sound (h : After m₀ n m) (hlt : m₀.sliceLength < 2 ^ 64) (item : α) :
    m.Sound checks item ↔ (n < m₀.sliceLength ∧ m₀.InFile n) ∧ n % 2 ^ 32 ≠ 2 ^ 32 - 1 := by
  constructor
  · intro hs
    by_cases hn : n < m₀.sliceLength ∧ m₀.InFile n
    · refine ⟨hn, fun he => ?_⟩
      have hfits := hs.fits.2
      rw [h.publisherTail] at hfits
      omega
    · -- a slot that is not there: `publish` has no result
      have hmov : m.publishMovable checks item = none := by
        rw [publishMovable, h.publish_eq_none hn, Option.map_none]
      rcases hs.publishes with ⟨-, k, hk⟩ | hk
      · rw [hmov] at hk
        cases hk
      · rw [hmov] at hk
        cases hk
  · rintro ⟨⟨hn, hf⟩, hne⟩
    have hpub : ∀ p, ∃ k, m.publish checks p = some (m.stored p, .returned (some k, none)) := by
      intro p
      obtain ⟨k, hk⟩ := reported_of_ne (β := Payload α) checks hne
      exact ⟨k, by rw [h.publish_eq hlt hn hf, hk]⟩
    obtain ⟨k, hk⟩ := hpub (.movable item)
    have hmov : m.publishMovable checks item = some (m.stored (.movable item), .returned (some k, none)) := by
      rw [publishMovable, hk]
      rfl
    refine ⟨.inl ⟨?_, k, hmov⟩, fun m' message hm => ?_, fun p m' message hm => ?_, ?_, ?_⟩
    · rw [h.publisherTail, h.sliceLength]
      exact hn
    · rw [send, hmov] at hm
      cases hm
    · obtain ⟨j, hj⟩ := hpub p
      rw [sendWith, hj] at hm
      cases hm
    · rw [h.publisherTail]
      omega
    · rw [h.publisherTail]
      omega

/-- After any number of publications, the next one is right iff its slot is in the buffer and in the file, and the
number of entries it reports does not come to 0. -/
theorem publish_sound_iff (hnew : new checks layout maxSlots zero = some m₀) {earlier : List (Payload α)}
    (hm : Machine.exec (step checks) m₀ earlier = some m) (item : α) :
    m.Sound checks item ↔
      earlier.length < maxSlots.toNat ∧ m₀.InFile earlier.length ∧ earlier.length % 2 ^ 32 ≠ 2 ^ 32 - 1 := by
  obtain ⟨hlen, hnew⟩ := new_eq hnew
  have hlt : m₀.sliceLength < 2 ^ 64 := by
    rw [hlen]
    exact maxSlots.toNat_lt
  have hafter := hnew.exec hlt hm
  rw [Nat.zero_add] at hafter
  rw [hafter.sound hlt, hlen, and_assoc]

end Many

/-! ### The atomic steps of `publish` -/

theorem publish_run [DecidableEq τ] {m m' : MMapMeta α} {s : Sys τ α} {t : τ} {p : Payload α} {len : Option UInt32}
    (hlt : m.sliceLength < 2 ^ 64) (hm : m.mmapContents = s.contents) (hidle : s.publishing t = .idle)
    (h : m.publish false p = some (m', .returned (len, none))) :
    ∃ s', Machine.exec (Sys.step m.sliceLength) s [.publish t p, .run t false, .run t false, .run t false] = some s' ∧
      s'.contents = m'.mmapContents ∧ s'.publishing t = .published len := by
  have hin : m.mmapContents.publisherTail < m.sliceLength ∧ m.InFile m.mmapContents.publisherTail := by
    by_contra hn
    rw [publish_beyond hn] at h
    cases h
  have hw : m.mmapContents.publisherTail + 1 < 2 ^ 64 := by omega
  simp only [publish, if_pos hin, Plain.word_of_lt hw, Nat.mod_eq_of_lt hw, Plain.add_unchecked] at h
  split_ifs at h with htail
  · cases h
    rw [hm] at hin htail ⊢
    let tail := s.contents.publisherTail
    let stored := p.store (s.contents.buffer tail)
    let result := FullSyncMove.nonZeroU32 (1 + UInt32.ofNat tail)
    have hrun : Machine.exec (Sys.step m.sliceLength) s [.publish t p, .run t false, .run t false, .run t false] =
        some { s with
          contents := ⟨tail + 1, tail + 1, Function.update s.contents.buffer tail stored⟩
          publishing := Function.update s.publishing t (.published result)
          log := s.log ++ [⟨t, p, stored⟩] } := by
      simp [Machine.exec, Sys.step, Sys.run, Sys.setPublishing, hidle, hin.1, htail, tail, stored, result]
    exact ⟨_, hrun, rfl, Function.update_self ..⟩
  · cases h

def u64Layout : Layout := ⟨8, 32, 24, by decide⟩

theorem publish_sound_second : ∃ m₀ m, new true u64Layout 2 (0 : Nat) = some m₀ ∧
    Machine.exec (step true) m₀ [.movable 5] = some m ∧ m.Sound true 6 := by
  have hnew : new true u64Layout 2 (0 : Nat) = some ⟨u64Layout, 40, 2, ⟨0, 0, fun _ => 0⟩⟩ := rfl
  obtain ⟨m, hm⟩ := (new_eq hnew).2.exists_exec true (by decide) [.movable 5] (by decide) (by decide)
  exact ⟨_, m, hnew, hm, (publish_sound_iff hnew hm 6).2 (by decide)⟩

/-- The slot behind the last one is written to; and the entry number `2 ^ 32` is stored but reported as refused, with
no item to hand back. -/
theorem publish_wrong :
    (∃ m₀ m, new true u64Layout 1 (0 : Nat) = some m₀ ∧ Machine.exec (step true) m₀ [.movable 5] = some m ∧
      m.publishMovable true 6 = none ∧ ¬ m.Sound true 6) ∧
    ∃ m₀ m, new false u64Layout 0x4000000000 (0 : Nat) = some m₀ ∧
      Machine.exec (step false) m₀ (.replicate (2 ^ 32 - 1) (.movable 5)) = some m ∧
      m.publishMovable false 6 = some (m.stored (.movable 6), .returned (none, none)) ∧
      m.send false 6 = some (m.stored (.movable 6),
        .returned (.panic "reactive-mutiny: mmap_log::send() BUG! None `some_item`")) ∧ ¬ m.Sound false 6 := by
  constructor
  · have hnew : new true u64Layout 1 (0 : Nat) = some ⟨u64Layout, 32, 1, ⟨0, 0, fun _ => 0⟩⟩ := rfl
    obtain ⟨m, hm⟩ := (new_eq hnew).2.exists_exec true (by decide) [.movable 5] (by decide) (by decide)
    have hafter := (new_eq hnew).2.exec (by decide) hm
    refine ⟨_, m, hnew, hm, ?_, fun hs => ?_⟩
    · rw [publishMovable, hafter.publish_eq_none (by decide), Option.map_none]
    · exact absurd ((hafter.sound (by decide) 6).1 hs) (by decide)
  · have hnew : new false u64Layout 0x4000000000 (0 : Nat) =
        some ⟨u64Layout, 2199023255576, 274877906944, ⟨0, 0, fun _ => 0⟩⟩ := rfl
    have hf : ∀ k < 2 ^ 32, InFile ⟨u64Layout, 2199023255576, 274877906944, ⟨0, 0, fun _ => (0 : Nat)⟩⟩ k := by
      intro k hk
      exact new_inFile hnew (by decide) (by decide) (Nat.lt_trans hk (by decide))
    have hlen : (List.replicate (2 ^ 32 - 1) (Payload.movable 5)).length = 2 ^ 32 - 1 := List.length_replicate
    obtain ⟨m, hm⟩ := (new_eq hnew).2.exists_exec false (by decide)
      (.replicate (2 ^ 32 - 1) (.movable 5)) (by rw [hlen]; decide) (fun k hk => hf k (by rw [hlen] at hk; omega))
    have hafter := (new_eq hnew).2.exec (by decide) hm
    rw [hlen, Nat.zero_add] at hafter
    have hmov : m.publishMovable false 6 = some (m.stored (.movable 6), .returned (none, none)) := by
      rw [publishMovable, hafter.publish_eq (by decide) (by decide) (hf _ (by decide)),
        reported_of_eq (by decide)]
      rfl
    refine ⟨_, m, hnew, hm, hmov, ?_, fun hs => ?_⟩
    · rw [send, hmov]
      rfl
    · exact ((hafter.sound (by decide) 6).1 hs).2 (by decide)

end MMapMeta

end Mutiny
