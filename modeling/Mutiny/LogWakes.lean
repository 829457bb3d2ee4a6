import Mutiny.LogStreams
import Mutiny.StreamsGrow

/-!
# The wake-ups of the `MmapLog` channel

A sender wakes the streams that it finds in the first `running_streams_count()` entries of `used_streams()`, which is
rebuilt while it goes through it. As long as no stream is dropped, every stream that existed when the event became visible
is among them, since the entries stay where they are and the counter is ahead of them.

A drop lets the counter go down before the list is rebuilt. The sender then leaves out the last stream of the list
(`droppedOldies_run`). The streams for the old events are dropped in the course of things, when they have ended.
-/

namespace Mutiny.LogStreams
open MMapMeta (Sys Subscriber Kind Consuming Publishing Returned)

/-- The sender is still going to wake stream `j`. -/
def Waking.covers (usedStreams : List UInt32) : Waking → UInt32 → Prop
  | .count, _ => True
  | .next i n, j => ∃ p, i ≤ p ∧ p < n.toNat ∧ usedStreams[p]? = some j
  | .wake streamId i n, j => streamId = j ∨ ∃ p, i < p ∧ p < n.toNat ∧ usedStreams[p]? = some j

/-- `publish` is not going to return `None`. -/
def answered {α : Type} : Publishing α → Bool
  | .publish _ tail _ => 1 + UInt32.ofNat tail ≠ 0
  | _ => true

section Awake
variable {τ α : Type}

def Owes (s : LogStreams τ α) (t : τ) (j : UInt32) : Prop :=
  ∃ w, s.waking t = some w ∧ w.covers s.life.rt.streams.usedStreams j

def Owed (s : LogStreams τ α) (j : UInt32) : Prop := ∃ t, s.Owes t j

/-- A stream that has not yielded all there is for it, was not cancelled, and whom no sender is going to wake is not
parked. -/
def Awake (s : LogStreams τ α) : Prop :=
  ∀ j k, s.life.rt.task j = some k → s.life.rt.streams.keepStreamsRunning j = true → (∀ t, ¬ s.Owes t j) →
    (s.subscribers j).yielded ≠ (s.subscribers j).source s.topic.values → ¬ k.parked

/-- There is an event that is visible and that the stream has not taken. -/
def Pending (s : LogStreams τ α) (j : UInt32) : Prop :=
  (s.subscribers j).kind = .dynamic ∧ (s.subscribers j).next < s.topic.contents.consumerTail

/-- The stream has not found in its `consume` that there is nothing. -/
def Testing (s : LogStreams τ α) (j : UInt32) : Prop := ∀ slot tail, (s.subscribers j).op ≠ .recede slot tail

/-- A sender gets from `publish` a number other than 0. It finds every stream in the entries it is going to look at, and
does not lose it when they are rebuilt. -/
def Found (s : LogStreams τ α) (l : Label τ α) (s' : LogStreams τ α) : Prop :=
  match l with
  | .run t _ =>
    answered (s.topic.publishing t) = true ∧
    (s.waking t = some .count → ∀ j, (s.life.rt.task j).isSome → s'.Owes t j)
  | .manage _ => ∀ t j, (s'.life.rt.task j).isSome → s.Owes t j → s'.Owes t j
  | _ => True

end Awake

section Inv
variable {τ α : Type} {M N : Nat} {zero : α} {s s' : LogStreams τ α} {t : τ} {i j : UInt32} {rt : Runtime}

structure Inv (M N : Nat) (zero : α) (s : LogStreams τ α) : Prop where
  ok : Ok M N zero s
  watched : s.life.Watched M s.Pending s.Owed s.Testing

theorem Inv.awake (h : Inv M N zero s) : s.Awake := by
  intro j k hk hkeep howe hne hpark
  have hhanded := h.ok.held.polled j k hk (by rw [hpark.1]; decide)
  have hfits := h.ok.fits j k hhanded hk
  rw [hpark.1] at hfits
  have hpending : s.Pending j := by
    refine ⟨hfits.2, ?_⟩
    rw [← h.ok.topic.values_length]
    by_contra hle
    have hyields := (h.ok.subscriber j).yields
    refine hne (hyields.eq_of_length_le ?_)
    have hnext : (s.subscribers j).next = (s.subscribers j).start + (s.subscribers j).yielded.length := rfl
    simp only [Subscriber.source, hfits.2, List.length_drop]
    omega
  exact h.watched.not_parked hk hkeep hpending (not_exists.mpr howe) hpark

theorem Inv.new (hM : Ring.PowerOfTwo M) (N : Nat) (zero : α) : Inv M N zero (.new M zero : LogStreams τ α) :=
  ⟨.new hM N zero, .new hM⟩

/-! ### Polling -/

/-- The subscriber of stream `j` goes on: nothing comes to be pending, and if something still is, the test that is still
to be made stays so. -/
theorem Watched.setSubscriber {u : Subscriber α} (rt : Runtime)
    (h : (s.setRt rt).life.Watched M s.Pending s.Owed s.Testing)
    (hstreams : rt.streams.usedStreams = s.life.rt.streams.usedStreams)
    (hu : u.kind = .dynamic → u.next < s.topic.contents.consumerTail →
      s.Pending j ∧ (s.Testing j → ∀ slot tail, u.op ≠ .recede slot tail)) :
    ((s.setSubscriber j u).setRt rt).life.Watched M ((s.setSubscriber j u).setRt rt).Pending
      ((s.setSubscriber j u).setRt rt).Owed ((s.setSubscriber j u).setRt rt).Testing := by
  refine h.change fun i _ hp => .inr ?_
  have howed : s.Owed i → ((s.setSubscriber j u).setRt rt).Owed i := by
    rintro ⟨t, w, hw, hc⟩
    refine ⟨t, w, hw, ?_⟩
    show w.covers rt.streams.usedStreams i
    rwa [hstreams]
  have hkind : (Function.update s.subscribers j u i).kind = .dynamic ∧
      (Function.update s.subscribers j u i).next < s.topic.contents.consumerTail := hp
  by_cases hij : i = j
  · subst hij
    rw [Function.update_self] at hkind
    obtain ⟨hp', ht⟩ := hu hkind.1 hkind.2
    refine ⟨hp', howed, fun htest slot tail => ?_⟩
    show (Function.update s.subscribers i u i).op ≠ _
    rw [Function.update_self]
    exact ht htest slot tail
  · rw [Function.update_of_ne hij] at hkind
    refine ⟨hkind, howed, fun htest slot tail => ?_⟩
    show (Function.update s.subscribers j u i).op ≠ _
    rw [Function.update_of_ne hij]
    exact htest slot tail

/-- One step of a `consume`: it takes no event back, and finds nothing only if there is nothing. -/
theorem next_pending {u : Subscriber α} {spurious : Bool} {r : Nat × Consuming × Option (Nat × Returned α)}
    (hu : u.Ok s.topic.values) (hn : u.op.next N s.topic.contents u.kind u.head spurious = some r) (hkind : u.kind = .dynamic)
    (hp : (after u r).next < s.topic.contents.consumerTail) :
    u.next < s.topic.contents.consumerTail ∧
      ((∀ slot tail, u.op ≠ .recede slot tail) → ∀ slot tail, r.2.1 ≠ .recede slot tail) := by
  have hle : u.next ≤ (after u r).next := by
    have hyielded : (after u r).yielded = u.yielded ++ (r.2.2.toList.map Prod.snd).filterMap Returned.value :=
      List.filterMap_append
    show u.start + u.yielded.length ≤ u.start + (after u r).yielded.length
    rw [hyielded, List.length_append]
    omega
  have hlt := hle.trans_lt hp
  refine ⟨hlt, fun htest slot tail => ?_⟩
  have hop := hu.op
  cases ho : u.op with
  | idle => simp [Consuming.next, ho] at hn
  | reserve =>
    simp only [Consuming.next, ho, hkind] at hn
    cases hn
    intro hop
    cases hop
  | load slot' =>
    rw [ho] at hop
    simp only [Consuming.next, ho] at hn
    rw [if_neg (by rw [hop.2.1]; omega)] at hn
    cases hn
    intro hop
    cases hop
  | recede slot' tail' => exact absurd ho (htest slot' tail')
  | read slot' tail' =>
    simp only [Consuming.next, ho] at hn
    split at hn <;> cases hn
    intro hop
    cases hop

theorem Inv.poll {w : Waker} (h : Inv M N zero s) (hj : s.handedOut j = true) (hp : s.life.rt.poll j w = some rt) :
    Inv M N zero ((s.setSubscriber j { s.subscribers j with op := .reserve }).setRt rt) := by
  refine ⟨h.ok.poll hj hp, Watched.setSubscriber rt (h.watched.poll ?_ hp) ?_ fun hkind hlt => ⟨⟨hkind, hlt⟩, fun _ => nofun⟩⟩
  · -- the stream is in no `consume`
    intro slot tail hop
    simp only [Runtime.poll, Option.bind_eq_bind, Option.bind_eq_some_iff] at hp
    obtain ⟨k, hk, k', hk', -⟩ := hp
    have hidle := ((h.ok.fits j k hj hk).resting fun hph => ?_).1
    · cases hop.symm.trans hidle
    · rcases (Task.poll_eq_some hk').2 with h | h | h <;> rw [hph] at h <;> cases h
  · obtain ⟨k, -, rfl⟩ := Runtime.poll_cases hp
    rfl

theorem Inv.consume {k : Task} {spurious : Bool} (h : Inv M N zero s) (hk : s.life.rt.task j = some k)
    (hph : k.phase = .consuming) (he : s.ending j = none) (hs : s.consume N j spurious = some s') : Inv M N zero s' := by
  refine ⟨h.ok.consume hk hph he hs, ?_⟩
  obtain ⟨r, hr, hcase⟩ := consume_cases hs
  have hafter : (after (s.subscribers j) r).kind = .dynamic →
      (after (s.subscribers j) r).next < s.topic.contents.consumerTail →
      s.Pending j ∧ (s.Testing j → ∀ slot tail, (after (s.subscribers j) r).op ≠ .recede slot tail) := fun hkind hlt =>
    (next_pending (h.ok.subscriber j) hr hkind hlt).imp_left fun hlt' => ⟨hkind, hlt'⟩
  rcases hcase with ⟨-, rfl⟩ | ⟨slot, x, rt, hx, -, hc, rfl⟩ | ⟨slot, tail, fixedTail, -, -, rfl⟩
  · exact Watched.setSubscriber s.life.rt h.watched rfl hafter
  · refine Watched.setSubscriber rt (h.watched.consumed (fun hnone _ htest => ?_) hc) ?_ hafter
    · obtain ⟨tail, hop⟩ := (next_returns hr hx).2 hnone
      exact htest slot tail hop
    · obtain ⟨k, -, -, rfl⟩ := Runtime.consumed_cases hc
      rfl
  · exact Watched.setSubscriber s.life.rt h.watched rfl hafter

theorem Inv.pollNext [DecidableEq τ] {spurious : Bool} (h : Inv M N zero s)
    (hs : s.step M N (.pollNext j spurious) = some s') : Inv M N zero s' := by
  have hok := h.ok.pollNext hs
  simp only [LogStreams.step] at hs
  split at hs
  case isFalse =>
    obtain ⟨rt, hp, rfl⟩ := Option.map_eq_some_iff.mp hs
    refine ⟨hok, (h.watched.pollRest hp).imp fun i _ hi => .inr ⟨hi, ?_⟩⟩
    obtain ⟨k, -, ⟨-, rfl⟩ | ⟨-, b, -, rfl⟩⟩ := Runtime.pollRest_cases hp <;> exact fun ho => ho
  case isTrue hphase =>
    obtain ⟨k, hk, hph⟩ := Option.map_eq_some_iff.mp hphase
    have hj : s.handedOut j = true := h.ok.held.polled j k hk (by rw [hph]; decide)
    have hfits := h.ok.fits j k hj hk
    rw [hph] at hfits
    rcases he : s.ending j with _ | _ | _ <;> simp only [he] at hs
    · exact h.consume hk hph he hs
    · cases hs
      exact ⟨hok, h.watched.stop j⟩
    · obtain ⟨rt, hc, rfl⟩ := Option.map_eq_some_iff.mp hs
      obtain ⟨-, ⟨fixedTail, hkind, -⟩, -⟩ := hfits.resolve_left (by rw [he]; decide)
      have hwake : (s.setRt (s.life.rt.wake j)).life.Watched M s.Pending s.Owed s.Testing :=
        (h.watched.wake j).imp fun i _ hi => .inr ⟨hi, And.left⟩
      have hnot : ¬ s.Pending j := fun hp => by cases hkind.symm.trans hp.1
      refine ⟨hok, (hwake.consumed (fun _ hp => absurd hp hnot) hc).imp fun i _ hi => .inr ⟨hi, ?_⟩⟩
      obtain ⟨k, -, -, rfl⟩ := Runtime.consumed_cases hc
      exact fun ho => ho

/-! ### Sending, creating and dropping -/

theorem Inv.wakeStream (h : Inv M N zero s) (j : UInt32) : Inv M N zero (s.setRt (s.life.rt.wake j)) :=
  ⟨h.ok.wake j, (h.watched.wake j).imp fun _ _ hp => .inr ⟨hp, And.left⟩⟩

theorem Inv.stop (h : Inv M N zero s) (j : UInt32) :
    Inv M N zero (s.setRt { s.life.rt with streams := s.life.rt.streams.setKeepRunning j false }) :=
  ⟨h.ok.stop j, h.watched.stop j⟩

theorem Inv.handOut {u : Subscriber α} (s' : LogStreams τ α) (hwatched : s.life.Watched M s.Pending s.Owed s.Testing)
    {k : Task} (hk : s.life.rt.task j = some k) (hph : k.phase = .unpolled) (hlife : s'.life = s.life)
    (htopic : s'.topic = s.topic) (hwaking : s'.waking = s.waking)
    (hsub : s'.subscribers = Function.update s.subscribers j u) :
    s'.life.Watched M s'.Pending s'.Owed s'.Testing := by
  obtain ⟨topic, waking, life, opening, subscribers, handedOut, ending, pairs⟩ := s'
  cases hlife
  cases htopic
  cases hwaking
  cases hsub
  refine hwatched.change fun i _ hp => ?_
  by_cases hij : i = j
  · subst hij
    exact .inl (.inr ⟨k, hk, by rw [Task.Attentive, hph]; trivial⟩)
  · change (Function.update s.subscribers j u i).kind = .dynamic ∧ (Function.update s.subscribers j u i).next < _ at hp
    rw [Function.update_of_ne hij] at hp
    refine .inr ⟨hp, fun ho => ho, fun htest slot tail => ?_⟩
    show (Function.update s.subscribers j u i).op ≠ _
    rw [Function.update_of_ne hij]
    exact htest slot tail

theorem Inv.unpolled {id : UInt32} (h : Inv M N zero s) (hid : id ∈ (s.opening t).ids) :
    ∃ k, s.life.rt.task id = some k ∧ k.phase = .unpolled := by
  obtain ⟨hsome, hfalse⟩ := h.ok.held.opened t id hid
  obtain ⟨k, hk⟩ := Option.isSome_iff_exists.mp hsome
  refine ⟨k, hk, ?_⟩
  by_contra hph
  cases hfalse.symm.trans (h.ok.held.polled id k hk hph)

variable [DecidableEq τ]

theorem Inv.setWaking {w : Option Waking} (h : Inv M N zero s) (hw : ∀ w₀ j, s.waking t = some w₀ →
      (s.life.rt.task j).isSome → w₀.covers s.life.rt.streams.usedStreams j →
      ∃ w', w = some w' ∧ w'.covers s.life.rt.streams.usedStreams j) : Inv M N zero (s.setWaking t w) := by
  refine ⟨h.ok.setWaking, h.watched.imp fun j hj hp => .inr ⟨hp, ?_⟩⟩
  rintro ⟨u, w₀, hu, hc⟩
  by_cases hut : u = t
  · subst hut
    obtain ⟨w', rfl, hc'⟩ := hw w₀ j hu hj hc
    exact ⟨u, w', Function.update_self .., hc'⟩
  · exact ⟨u, w₀, (Function.update_of_ne hut _ _).trans hu, hc⟩

/-- A sender that has made an event visible owes a wake-up to everybody. -/
theorem Inv.publish {topic : Sys τ α} {spurious : Bool} (h : Inv M N zero s) (ht : s.waking t = none)
    (hs : s.topic.step N (.run t spurious) = some topic) (hs' : s.run N t spurious = some s')
    (hanswered : answered (s.topic.publishing t) = true) :
    Inv M N zero s' := by
  refine ⟨h.ok.run hs', ?_⟩
  have hothers : ∀ w j, s.Owed j → (({ s with topic } : LogStreams τ α).setWaking t w).Owed j := by
    rintro w j ⟨u, w₀, hu, hc⟩
    have hut : u ≠ t := by
      rintro rfl
      cases ht.symm.trans hu
    exact ⟨u, w₀, (Function.update_of_ne hut _ _).trans hu, hc⟩
  simp only [LogStreams.run, ht, hs, Option.bind_eq_bind, Option.bind_some] at hs'
  rcases MMapMeta.consumerTail_step hs with ⟨⟨v, p, stored, hl, hpub⟩, -⟩ | htail
  · cases hl
    have hpublished : ∃ len, topic.publishing t = .published (some len) := by
      change s.topic.run N t false = some topic at hs
      simp only [Sys.run, hpub, and_self, if_true, Option.some.injEq] at hs
      subst hs
      rw [hpub, answered, decide_eq_true_iff] at hanswered
      exact ⟨_, (Function.update_self ..).trans (congrArg _ (if_neg hanswered))⟩
    obtain ⟨result, hresult⟩ := hpublished
    rw [hresult] at hs'
    cases hs'
    exact h.watched.imp fun j _ _ => .inl ⟨t, .count, Function.update_self .., trivial⟩
  · have hpending : ∀ j, (s.subscribers j).kind = .dynamic ∧ (s.subscribers j).next < topic.contents.consumerTail →
        s.Pending j := by
      intro j hp
      rw [htail] at hp
      exact hp
    split at hs' <;> cases hs'
    · exact h.watched.imp fun j _ hp => .inr ⟨hpending j hp, hothers _ j⟩
    · exact h.watched.imp fun j _ hp => .inr ⟨hpending j hp, fun ho => ho⟩

theorem Inv.run {spurious : Bool} (h : Inv M N zero s) (hs : s.run N t spurious = some s')
    (hfound : s.Found (.run t spurious) s') : Inv M N zero s' := by
  cases hw : s.waking t with
  | none =>
    have htopic := hs
    simp only [LogStreams.run, hw, Option.bind_eq_bind, Option.bind_eq_some_iff] at htopic
    obtain ⟨topic, htopic, -⟩ := htopic
    exact h.publish hw htopic hs hfound.1
  | some w =>
    have hok := h.ok.run hs
    simp only [LogStreams.run, hw] at hs
    cases w with
    | count =>
      cases hs
      exact ⟨hok, h.watched.imp fun j hj _ => .inl ⟨t, hfound.2 hw j hj⟩⟩
    | next i n =>
      simp only at hs
      split at hs
      case isTrue hlt =>
        obtain ⟨streamId, hid, hs⟩ := Option.bind_eq_some_iff.mp hs
        split at hs <;> cases hs
        · refine h.setWaking fun w₀ j hw₀ _ hc => ⟨_, rfl, ?_⟩
          cases hw.symm.trans hw₀
          obtain ⟨p, hip, hpn, hp⟩ := hc
          rcases Nat.lt_or_eq_of_le hip with hlt' | rfl
          · exact .inr ⟨p, hlt', hpn, hp⟩
          · exact .inl (Option.some.inj (hid.symm.trans hp))
        case isFalse hmax =>
          refine h.setWaking fun w₀ j hw₀ hj hc => ⟨_, rfl, ?_⟩
          cases hw.symm.trans hw₀
          obtain ⟨p, hip, hpn, hp⟩ := hc
          refine ⟨p, Nat.succ_le_of_lt (Nat.lt_of_le_of_ne hip ?_), hpn, hp⟩
          rintro rfl
          -- the sentinel is the id of no stream
          have hj' := UInt32.lt_iff_toNat_lt.mp (h.ok.life.rt.lt j hj)
          have hM' := (UInt32.ofNat M).toNat_lt
          obtain rfl : j = u32Max := (Option.some.inj (hid.symm.trans hp)).symm.trans (not_not.mp hmax)
          have hval : u32Max.toNat = 2 ^ 32 - 1 := rfl
          omega
      case isFalse hge =>
        cases hs
        refine h.setWaking fun w₀ j hw₀ _ hc => ?_
        cases hw.symm.trans hw₀
        obtain ⟨p, hip, hpn, -⟩ := hc
        omega
    | wake streamId i n =>
      cases hs
      refine ⟨hok, (h.watched.wake streamId).imp fun j _ hp => .inr ⟨hp, ?_⟩⟩
      rintro ⟨⟨u, w₀, hu, hc⟩, hj⟩
      by_cases hut : u = t
      · subst hut
        cases hw.symm.trans hu
        obtain ⟨p, hip, hpn, hp⟩ := hc.resolve_left (Ne.symm hj)
        exact ⟨u, _, Function.update_self .., p, hip, hpn, hp⟩
      · exact ⟨u, w₀, (Function.update_of_ne hut _ _).trans hu, hc⟩

theorem Inv.manage (hM : Ring.PowerOfTwo M) (h : Inv M N zero s) (hs : s.manage M t = some s')
    (hfound : s.Found (.manage t) s') : Inv M N zero s' := by
  refine ⟨h.ok.manage hM hs, ?_⟩
  have hlife : ∀ {s' : LogStreams τ α} {l : Streams.Label τ}, s.life.step M l = some s'.life → s'.topic = s.topic →
      s'.subscribers = s.subscribers → s.Found (.manage t) s' → s'.life.Watched M s'.Pending s'.Owed s'.Testing := by
    intro s' l hl htopic hsub hfound
    refine (h.watched.step hM hl).change fun j hj hp => .inr ⟨?_, fun ⟨u, ho⟩ => ⟨u, hfound u j hj ho⟩, ?_⟩
    · unfold Pending at hp ⊢
      rwa [htopic, hsub] at hp
    · unfold Testing
      rw [hsub]
      exact fun htest => htest
  have hcreate : ∀ {o : UInt32 → Opening}, s.create M t o = some s' →
      ∃ l, s.life.step M l = some s'.life ∧ s'.topic = s.topic ∧ s'.subscribers = s.subscribers := by
    intro o hc
    unfold LogStreams.create at hc
    split at hc <;> obtain ⟨life, hl, rfl⟩ := Option.map_eq_some_iff.mp hc <;> exact ⟨_, hl, rfl, rfl⟩
  cases ho : s.opening t with
  | idle =>
    simp only [LogStreams.manage, ho] at hs
    obtain ⟨life, hl, rfl⟩ := Option.map_eq_some_iff.mp hs
    exact hlife hl rfl rfl hfound
  | subscribe joined id =>
    simp only [LogStreams.manage, ho, Option.some.injEq] at hs
    subst hs
    obtain ⟨k, hk, hph⟩ := h.unpolled (t := t) (by rw [ho]; exact List.mem_cons_self)
    exact Inv.handOut _ h.watched hk hph rfl rfl rfl rfl
  | assign tail oldiesId newiesId =>
    simp only [LogStreams.manage, ho, Option.some.injEq] at hs
    subst hs
    have hmem : oldiesId ∈ (s.opening t).ids ∧ newiesId ∈ (s.opening t).ids := by
      rw [ho]
      exact ⟨List.mem_cons_self, List.mem_cons_of_mem _ List.mem_cons_self⟩
    obtain ⟨k, hk, hph⟩ := h.unpolled hmem.1
    obtain ⟨k', hk', hph'⟩ := h.unpolled hmem.2
    have hold := Inv.handOut (s.handOut oldiesId (.new (.fixed tail) 0)) h.watched hk hph rfl rfl rfl rfl
    exact Inv.handOut _ hold hk' hph' rfl rfl rfl rfl
  | single _ | oldies _ | newies _ _ =>
    simp only [LogStreams.manage, ho] at hs
    obtain ⟨l, hl, htopic, hsub⟩ := hcreate hs
    exact hlife hl htopic hsub hfound

theorem Inv.drop {life : Streams τ} (hM : Ring.PowerOfTwo M) (h : Inv M N zero s) (hj : s.handedOut j = true)
    (hs : s.life.step M (.drop t j) = some life) :
    Inv M N zero { s with life, handedOut := Function.update s.handedOut j false,
                          pairs := s.pairs.filter fun p => p.1 ≠ j ∧ p.2 ≠ j } := by
  refine ⟨h.ok.drop hM hj hs, (h.watched.step hM hs).imp fun i _ hp => .inr ⟨hp, ?_⟩⟩
  obtain ⟨-, hl⟩ := Option.ite_none_right_eq_some.mp hs
  cases hl
  exact fun ho => ho

theorem Inv.step {l : Label τ α} (hM : Ring.PowerOfTwo M) (h : Inv M N zero s) (hs : s.step M N l = some s')
    (hfound : s.Found l s') : Inv M N zero s' := by
  have hok := h.ok.step hM hs
  cases l with
  | send t p =>
    obtain ⟨-, hs⟩ := Option.ite_none_right_eq_some.mp hs
    obtain ⟨topic, htopic, rfl⟩ := Option.map_eq_some_iff.mp hs
    have htail : topic.contents.consumerTail = s.topic.contents.consumerTail :=
      (MMapMeta.consumerTail_step htopic).resolve_left fun ⟨⟨_, _, _, hl, _⟩, _⟩ => by cases hl
    refine ⟨hok, h.watched.imp fun j _ hp => .inr ⟨⟨hp.1, ?_⟩, fun ho => ho⟩⟩
    rw [← htail]
    exact hp.2
  | run t spurious => exact h.run hs hfound
  | createStreamForNewEvents t | createStreamForOldAndNewEvents t | createStreamsForOldAndNewEvents t =>
    obtain ⟨-, hs⟩ := Option.ite_none_right_eq_some.mp hs
    cases hs
    exact ⟨hok, h.watched⟩
  | drop t j =>
    obtain ⟨⟨-, hj⟩, hs⟩ := Option.ite_none_right_eq_some.mp hs
    obtain ⟨life, hl, rfl⟩ := Option.map_eq_some_iff.mp hs
    exact h.drop hM hj hl
  | manage t => exact h.manage hM hs hfound
  | stop j =>
    cases hs
    exact h.stop j
  | wakeStream j =>
    cases hs
    exact h.wakeStream j
  | poll j w =>
    obtain ⟨hj, hs⟩ := Option.ite_none_right_eq_some.mp hs
    obtain ⟨rt, hp, rfl⟩ := Option.map_eq_some_iff.mp hs
    exact h.poll hj hp
  | pollNext j spurious => exact h.pollNext hs

end Inv

/-! ### No stream is dropped -/

section Growing
variable {τ α : Type} [DecidableEq τ] {M N : Nat} {zero : α} {s s' : LogStreams τ α} {l : Label τ α}

def Label.drops : Label τ α → Bool
  | .drop .. => true
  | _ => false

/-- Neither `used_streams_count` nor the number that `publish` returns wraps around. -/
def NoWrap (s : LogStreams τ α) : Label τ α → Prop
  | .manage t => s.life.NoWrap (.manage t)
  | .run t _ => answered (s.topic.publishing t) = true
  | _ => True

instance (s : LogStreams τ α) (l : Label τ α) : Decidable (s.NoWrap l) :=
  match l with
  | .manage t => inferInstanceAs (Decidable (s.life.managing t = .createIncUsed → _ ≠ u32Max))
  | .run t _ => inferInstanceAs (Decidable (answered (s.topic.publishing t) = true))
  | .send .. | .createStreamForNewEvents _ | .createStreamForOldAndNewEvents _ | .createStreamsForOldAndNewEvents _ |
    .drop .. | .stop _ | .wakeStream _ | .poll .. | .pollNext .. => .isTrue trivial

/-- Nothing happens to the ids of the streams, the list of them and its counter. -/
structure SameIds (s s' : LogStreams τ α) : Prop where
  managing : s'.life.managing = s.life.managing
  streams : s.life.rt.SameStreams s'.life.rt
  used : s'.life.rt.streams.usedStreams = s.life.rt.streams.usedStreams
  count : s'.life.rt.streams.usedStreamsCount = s.life.rt.streams.usedStreamsCount

omit [DecidableEq τ] in
theorem SameIds.of_life (h : s'.life = s.life) : s.SameIds s' := by
  refine ⟨by rw [h], ?_, by rw [h], by rw [h]⟩
  rw [h]
  exact ⟨fun _ => rfl, rfl⟩

theorem sameIds_pollNext {j : UInt32} {spurious : Bool} (hs : s.step M N (.pollNext j spurious) = some s') :
    s.SameIds s' := by
  simp only [LogStreams.step] at hs
  split at hs
  case isFalse =>
    obtain ⟨rt, hp, rfl⟩ := Option.map_eq_some_iff.mp hs
    have hsame := Runtime.sameStreams_pollRest hp
    obtain ⟨k, -, ⟨-, rfl⟩ | ⟨-, b, -, rfl⟩⟩ := Runtime.pollRest_cases hp <;> exact ⟨rfl, hsame, rfl, rfl⟩
  case isTrue =>
    rcases he : s.ending j with _ | _ | _ <;> simp only [he] at hs
    · obtain ⟨r, -, ⟨-, rfl⟩ | ⟨slot, x, rt, -, -, hc, rfl⟩ | ⟨slot, tail, fixedTail, -, -, rfl⟩⟩ := consume_cases hs
      · exact .of_life rfl
      · have hsame := Runtime.sameStreams_consumed hc
        obtain ⟨k, -, -, rfl⟩ := Runtime.consumed_cases hc
        exact ⟨rfl, hsame, rfl, rfl⟩
      · exact .of_life rfl
    · cases hs
      exact ⟨rfl, ⟨fun _ => rfl, rfl⟩, rfl, rfl⟩
    · obtain ⟨rt, hc, rfl⟩ := Option.map_eq_some_iff.mp hs
      have hwake := s.life.rt.sameStreams_wake j
      have hsame := Runtime.sameStreams_consumed hc
      obtain ⟨k, -, -, rfl⟩ := Runtime.consumed_cases hc
      exact ⟨rfl, ⟨fun i => (hsame.isSome i).trans (hwake.isSome i), hsame.vacant.trans hwake.vacant⟩, rfl, rfl⟩

theorem sameIds_run {t : τ} {spurious : Bool} (hs : s.run N t spurious = some s') : s.SameIds s' := by
  rcases hw : s.waking t with _ | _ | ⟨i, count⟩ | ⟨streamId, i, count⟩ <;> simp only [LogStreams.run, hw] at hs
  · obtain ⟨topic, -, hs⟩ := Option.bind_eq_some_iff.mp hs
    split at hs <;> cases hs <;> exact .of_life rfl
  · cases hs
    exact .of_life rfl
  · split at hs
    · obtain ⟨streamId, -, hs⟩ := Option.bind_eq_some_iff.mp hs
      split at hs <;> cases hs <;> exact .of_life rfl
    · cases hs
      exact .of_life rfl
  · cases hs
    exact ⟨rfl, s.life.rt.sameStreams_wake streamId, rfl, rfl⟩

/-- The thread that creates or drops streams takes a step of the streams manager, or hands out what it has got. -/
theorem manage_cases {t : τ} (hs : s.manage M t = some s') : s'.waking = s.waking ∧ (s'.life = s.life ∨
    ∃ l, (l = .create t ∨ l = .manage t) ∧ s.life.step M l = some s'.life) := by
  have hcreate : ∀ {o : UInt32 → Opening}, s.create M t o = some s' → s'.waking = s.waking ∧
      (s'.life = s.life ∨ ∃ l, (l = .create t ∨ l = .manage t) ∧ s.life.step M l = some s'.life) := by
    intro o hc
    unfold LogStreams.create at hc
    split at hc <;> obtain ⟨life, hl, rfl⟩ := Option.map_eq_some_iff.mp hc
    · exact ⟨rfl, .inr ⟨_, .inl rfl, hl⟩⟩
    · exact ⟨rfl, .inr ⟨_, .inr rfl, hl⟩⟩
    · exact ⟨rfl, .inr ⟨_, .inr rfl, hl⟩⟩
  cases ho : s.opening t with
  | idle =>
    simp only [LogStreams.manage, ho] at hs
    obtain ⟨life, hl, rfl⟩ := Option.map_eq_some_iff.mp hs
    exact ⟨rfl, .inr ⟨_, .inr rfl, hl⟩⟩
  | subscribe _ _ | assign _ _ _ =>
    simp only [LogStreams.manage, ho, Option.some.injEq] at hs
    subst hs
    exact ⟨rfl, .inl rfl⟩
  | single _ | oldies _ | newies _ _ =>
    simp only [LogStreams.manage, ho] at hs
    exact hcreate hs

theorem sameIds_step (hs : s.step M N l = some s') (hl : l.drops = false) (hmanage : ∀ t, l ≠ .manage t) :
    s.SameIds s' := by
  cases l with
  | send t p =>
    obtain ⟨-, hs⟩ := Option.ite_none_right_eq_some.mp hs
    obtain ⟨topic, -, rfl⟩ := Option.map_eq_some_iff.mp hs
    exact .of_life rfl
  | run t spurious => exact sameIds_run hs
  | createStreamForNewEvents t | createStreamForOldAndNewEvents t | createStreamsForOldAndNewEvents t =>
    obtain ⟨-, hs⟩ := Option.ite_none_right_eq_some.mp hs
    cases hs
    exact .of_life rfl
  | drop t j => cases hl
  | manage t => exact absurd rfl (hmanage t)
  | stop j =>
    cases hs
    exact ⟨rfl, ⟨fun _ => rfl, rfl⟩, rfl, rfl⟩
  | wakeStream j =>
    cases hs
    exact ⟨rfl, s.life.rt.sameStreams_wake j, rfl, rfl⟩
  | poll j w =>
    obtain ⟨-, hs⟩ := Option.ite_none_right_eq_some.mp hs
    obtain ⟨rt, hp, rfl⟩ := Option.map_eq_some_iff.mp hs
    have hsame := Runtime.sameStreams_poll hp
    obtain ⟨k, -, rfl⟩ := Runtime.poll_cases hp
    exact ⟨rfl, hsame, rfl, rfl⟩
  | pollNext j spurious => exact sameIds_pollNext hs

/-- The ids are handed out in order, and the counter is ahead of them. -/
def Growing (M : Nat) (s : LogStreams τ α) : Prop := ∃ n k, s.life.Grown M n k ∧ s.life.Counted k

omit [DecidableEq τ] in
theorem Growing.of_same (h : s.Growing M) (hsame : s.SameIds s') : s'.Growing M := by
  obtain ⟨n, k, hg, hc⟩ := h
  have hlife : s'.life = { s.life with rt := s'.life.rt } := by
    have := hsame.managing
    cases hl : s'.life
    rw [hl] at this
    cases this
    rfl
  unfold Growing
  rw [hlife]
  exact ⟨n, k, hg.of_rt hsame.streams hsame.used, hc.of_rt hsame.count⟩

/-- What a step of the streams manager does to the list while no stream is dropped. -/
theorem Growing.manage {t : τ} (hM : Ring.PowerOfTwo M) (h : s.Growing M) (hok : s.life.Ok M)
    (hs : s.manage M t = some s') (hwrap : s.NoWrap (.manage t : Label τ α)) : s'.Growing M ∧ s.Found (.manage t) s' := by
  obtain ⟨n, k, hg, hc⟩ := h
  obtain ⟨hwaking, hlife | ⟨l, hl, hlife⟩⟩ := manage_cases hs
  · refine ⟨.of_same ⟨n, k, hg, hc⟩ (.of_life hlife), fun u j _ ⟨w, hw, hcov⟩ => ⟨w, by rwa [hwaking], ?_⟩⟩
    rwa [hlife]
  · have hdrop : l.drops = false := by rcases hl with rfl | rfl <;> rfl
    have hnowrap : s.life.NoWrap l := by
      rcases hl with rfl | rfl
      · trivial
      · exact hwrap
    obtain ⟨n', k', hle, hg', hc'⟩ := hg.step hM hok hlife hdrop
    refine ⟨⟨n', k', hg', hc' hc hnowrap⟩, fun u j hj ⟨w, hw, hcov⟩ => ⟨w, by rwa [hwaking], ?_⟩⟩
    have hne : j ≠ u32Max := (hg'.entry_live hj).2.1
    cases w with
    | count => trivial
    | next i m =>
      obtain ⟨p, hip, hpm, hp⟩ := hcov
      exact ⟨p, hip, hpm, hg.entry_stays hg' hle hp hne⟩
    | wake id i m =>
      refine hcov.imp_right ?_
      rintro ⟨p, hip, hpm, hp⟩
      exact ⟨p, hip, hpm, hg.entry_stays hg' hle hp hne⟩

theorem Growing.step (hM : Ring.PowerOfTwo M) (h : s.Growing M) (hok : s.life.Ok M) (hs : s.step M N l = some s')
    (hl : l.drops = false) (hwrap : s.NoWrap l) : s'.Growing M ∧ s.Found l s' := by
  cases l with
  | manage t => exact h.manage hM hok hs hwrap
  | run t spurious =>
    refine ⟨h.of_same (sameIds_run hs), hwrap, fun hw j hj => ?_⟩
    obtain ⟨n, k, hg, hc⟩ := h
    change s.run N t spurious = some s' at hs
    simp only [LogStreams.run, hw, Option.some.injEq] at hs
    subst hs
    -- the counter that is loaded is ahead of every id
    obtain ⟨hentry, -, hlt⟩ := hg.entry_live hj
    have hnk := UInt32.le_iff_toNat_le.mp hg.le
    have hle := hc.le
    refine ⟨_, Function.update_self .., j.toNat, Nat.zero_le _, ?_, hentry⟩
    show j.toNat < s.life.rt.streams.usedStreamsCount.toNat
    omega
  | drop t j => cases hl
  | send | createStreamForNewEvents | createStreamForOldAndNewEvents | createStreamsForOldAndNewEvents | stop | wakeStream
    | poll | pollNext => exact ⟨h.of_same (sameIds_step hs rfl (by simp)), trivial⟩

theorem awake_of_found (hM : Ring.PowerOfTwo M) (h : Machine.Steps (step M N) Found (.new M zero) s) : s.Awake :=
  (h.invariant (fun _ _ _ hi hs hfound => hi.step hM hs hfound) (Inv.new hM N zero)).awake

/-- While no stream is dropped, no stream stays parked on events that are visible, whatever the interleaving. -/
theorem logStreams_awake (hM : Ring.PowerOfTwo M)
    (h : Machine.Steps (step M N) (fun s l _ => l.drops = false ∧ s.NoWrap l) (.new M zero) s) : s.Awake := by
  have hgrows : ∀ (r : LogStreams τ α) (l : Label τ α) r', (Ok M N zero r ∧ r.Growing M) → r.step M N l = some r' →
      l.drops = false ∧ r.NoWrap l → (Ok M N zero r' ∧ r'.Growing M) ∧ r.Found l r' := by
    rintro r l r' ⟨hok, hg⟩ hs ⟨hl, hwrap⟩
    have hstep := hg.step hM hok.life hs hl hwrap
    exact ⟨⟨hok.step hM hs, hstep.1⟩, hstep.2⟩
  refine awake_of_found hM (h.strengthen (I := fun r => Ok M N zero r ∧ r.Growing M) ?_ ?_ ⟨.new hM N zero, 0, 0, .new hM, .new M⟩)
  · exact fun r l r' hi hs hok => (hgrows r l r' hi hs hok).1
  · exact fun r l r' hi _ hs hok => (hgrows r l r' hi hs hok).2

/-- Two streams are created; the one for the old events ends, the other one parks. -/
def oneEnded : List (Label Bool Nat) :=
  .createStreamsForOldAndNewEvents false :: List.replicate 11 (.manage false) ++
    .poll 0 1 :: List.replicate 5 (.pollNext 0 false) ++
    .poll 1 2 :: List.replicate 5 (.pollNext 1 false) ++ .poll 1 2 :: List.replicate 5 (.pollNext 1 false)

theorem logStreams_awake_oneEnded : ∃ s : LogStreams Bool Nat, s.waking true = none ∧
    s.life.rt.task 1 = some ⟨.pending, 2, true⟩ ∧ s.topic.values = [7] ∧ (s.subscribers 1).yielded = [] ∧ s.Awake := by
  have hrun : (Machine.exec (Machine.restrict (step 4 4) fun s l _ => decide (l.drops = false ∧ s.NoWrap l)) (.new 4 0)
        (oneEnded ++ .send true (.movable 7) :: List.replicate 9 (.run true false))).map (fun s =>
          decide ((s.waking true).isNone ∧ s.life.rt.task 1 = some ⟨.pending, 2, true⟩ ∧ s.topic.values = [7] ∧
            (s.subscribers 1).yielded = [])) = some true := by decide +kernel
  obtain ⟨s, hs, ht⟩ := Option.map_eq_some_iff.mp hrun
  rw [decide_eq_true_iff] at ht
  obtain ⟨hwaking, htask, hvalues, hyielded⟩ := ht
  have hpath := Machine.Path.of_exec_restrict (fun _ _ _ hok => of_decide_eq_true hok) hs
  exact ⟨s, Option.isNone_iff_eq_none.mp hwaking, htask, hvalues, hyielded, logStreams_awake ⟨2, rfl⟩ hpath.steps⟩

/-- The ended stream is dropped, and the counter has gone down, but the list has not been rebuilt: the sender wakes the
dropped stream and leaves out the other one. -/
theorem droppedOldies_run : ∃ s : LogStreams Bool Nat,
    Machine.Steps (step 4 4) (fun _ _ _ => True) (.new 4 0) s ∧ s.waking true = none ∧ ¬ s.Awake := by
  have hrun : (Machine.exec (step 4 4) (.new 4 0) (oneEnded ++ .drop false 0 :: List.replicate 3 (.manage false) ++
      .send true (.movable 7) :: List.replicate 7 (.run true false))).map (fun s =>
        decide ((s.waking true).isNone ∧ (s.waking false).isNone ∧ s.life.rt.task 1 = some ⟨.pending, 2, false⟩ ∧
          s.life.rt.streams.keepStreamsRunning 1 = true ∧
          (s.subscribers 1).yielded ≠ (s.subscribers 1).source s.topic.values)) = some true := by decide +kernel
  obtain ⟨s, hs, ht⟩ := Option.map_eq_some_iff.mp hrun
  rw [decide_eq_true_iff] at ht
  obtain ⟨hwaking, hother, htask, hkeep, hne⟩ := ht
  have hwaking' := Option.isNone_iff_eq_none.mp hwaking
  refine ⟨s, (Machine.Path.of_exec hs).steps, hwaking', fun hawake => hawake 1 _ htask hkeep ?_ hne ⟨rfl, rfl⟩⟩
  rintro t ⟨w, hw, -⟩
  cases t with
  | true => cases hwaking'.symm.trans hw
  | false => cases (Option.isNone_iff_eq_none.mp hother).symm.trans hw

end Growing
end Mutiny.LogStreams
