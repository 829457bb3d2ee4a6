import Mutiny.StreamLife

/-!
# Streams with something to consume

Which streams have something `pending`, which ones somebody is still going to wake (`owed`), and which ones have still to
make the test of the `consume` they are in, if they are in one (`testing`), is up to the channel. The streams are `Watched`
when each one that has something pending and has not been cancelled is owed a wake-up or is going to look by itself.
-/

namespace Mutiny

theorem Runtime.Ok.stop {M : Nat} {r : Runtime} (h : r.Ok M) (i : UInt32) :
    Runtime.Ok M { r with streams := r.streams.setKeepRunning i false } := by
  refine ⟨h.wf, h.nodup, h.vacant, h.vacant_lt, h.lt, h.reg, fun j k hj he => ?_⟩
  by_cases hji : j = i
  · subst hji; exact Function.update_self ..
  · exact (Function.update_of_ne hji _ _).trans (h.ended j k hj he)

namespace Streams
variable {τ : Type} {M : Nat} {s s' : Streams τ} {pending pending' owed owed' testing testing' : UInt32 → Prop}
  {i j : UInt32}

structure Watched (M : Nat) (pending owed testing : UInt32 → Prop) (s : Streams τ) : Prop where
  ok : s.Ok M
  covered : ∀ j, (s.rt.task j).isSome → s.rt.streams.keepStreamsRunning j = true → pending j →
    owed j ∨ s.rt.Attentive j (testing j)

namespace Watched

theorem new (hM : Ring.PowerOfTwo M) : Watched M pending owed testing (.new M : Streams τ) := ⟨.new hM, fun _ h => by cases h⟩

theorem not_parked (h : Watched M pending owed testing s) {k : Task} (hk : s.rt.task j = some k)
    (hkeep : s.rt.streams.keepStreamsRunning j = true) (hp : pending j) (ho : ¬ owed j) : ¬ k.parked := by
  obtain ⟨k', hk', ha⟩ := (h.covered j (by rw [hk]; rfl) hkeep hp).resolve_left ho
  cases hk.symm.trans hk'
  exact ha.not_parked

/-- Who is not owed a wake-up or going to look had something pending before; such a debt is not forgotten, nor a test. -/
theorem change (h : Watched M pending owed testing s)
    (himp : ∀ j, (s.rt.task j).isSome → pending' j →
      (owed' j ∨ s.rt.Attentive j (testing' j)) ∨ pending j ∧ (owed j → owed' j) ∧ (testing j → testing' j)) :
    Watched M pending' owed' testing' s := by
  refine ⟨h.ok, fun j hj hkeep hp => ?_⟩
  rcases himp j hj hp with hnew | ⟨hp', ho, ht⟩
  · exact hnew
  · exact (h.covered j hj hkeep hp').imp ho (·.imp ht)

theorem imp (h : Watched M pending owed testing s)
    (himp : ∀ j, (s.rt.task j).isSome → pending' j → owed' j ∨ pending j ∧ (owed j → owed' j)) :
    Watched M pending' owed' testing s :=
  h.change fun j hj hp => (himp j hj hp).imp .inl fun ⟨hp', ho⟩ => ⟨hp', ho, fun ht => ht⟩

/-- A step of the streams and their tasks that creates or drops none. -/
theorem of_rt {rt : Runtime} (h : Watched M pending owed testing s) (hok : rt.Ok M) (hsame : s.rt.SameStreams rt)
    (hk : ∀ j, (s.rt.task j).isSome → rt.streams.keepStreamsRunning j = true →
      s.rt.streams.keepStreamsRunning j = true)
    (ha : ∀ j, rt.streams.keepStreamsRunning j = true → pending j → s.rt.Attentive j (testing j) →
      rt.Attentive j (testing j)) :
    Watched M pending owed testing { s with rt } := by
  refine ⟨h.ok.of_rt hok hsame, fun j hj hkeep hp => ?_⟩
  have hj' : (s.rt.task j).isSome := by rw [← hsame.isSome j]; exact hj
  exact (h.covered j hj' (hk j hj' hkeep) hp).imp_right (ha j hkeep hp)

theorem wake (h : Watched M pending owed testing s) (i : UInt32) :
    Watched M pending (fun j => owed j ∧ j ≠ i) testing { s with rt := s.rt.wake i } := by
  have hrt := h.of_rt (h.ok.rt.wake i) (s.rt.sameStreams_wake i) (fun _ _ => id) fun _ _ _ ha => ha.wake i
  refine ⟨hrt.ok, fun j hj hkeep hp => ?_⟩
  by_cases hji : j = i
  · subst hji
    exact .inr (h.ok.rt.attentive_wake (by rw [← Runtime.isSome_wake]; exact hj) hkeep)
  · exact (hrt.covered j hj hkeep hp).imp_left fun ho => ⟨ho, hji⟩

theorem stop (h : Watched M pending owed testing s) (i : UInt32) :
    Watched M pending owed testing { s with rt := { s.rt with streams := s.rt.streams.setKeepRunning i false } } := by
  have hupd : ∀ {j}, Function.update s.rt.streams.keepStreamsRunning i false j = true →
      s.rt.streams.keepStreamsRunning j = true := by
    intro j hj
    by_cases hji : j = i
    · subst hji; rw [Function.update_self] at hj; cases hj
    · rwa [Function.update_of_ne hji] at hj
  exact h.of_rt (h.ok.rt.stop i) ⟨fun _ => rfl, rfl⟩ (fun _ _ => hupd) fun _ _ _ ha => ha

/-- A stream that is new looks, whatever its former owner left it. -/
theorem step [DecidableEq τ] {l : Label τ} (h : Watched M pending owed testing s) (hM : Ring.PowerOfTwo M)
    (hs : s.step M l = some s') : Watched M pending owed testing s' := by
  refine ⟨h.ok.step hM hs, fun j hj hkeep hp => ?_⟩
  rcases h.ok.step_task hs hj with ⟨-, hnew⟩ | ⟨htask, hw, hk⟩
  · exact .inr ⟨_, hnew, trivial⟩
  · refine (h.covered j (by rw [← htask]; exact hj) (by rw [← hk]; exact hkeep) hp).imp_right fun ⟨k, hk', ha⟩ =>
      ⟨k, htask.trans hk', ?_⟩
    rw [hw]
    exact ha

theorem poll {rt : Runtime} {w : Waker} (h : Watched M pending owed testing s) (ht : testing i)
    (hp : s.rt.poll i w = some rt) : Watched M pending owed testing { s with rt } := by
  have hkeep := Runtime.keep_of_poll hp
  refine h.of_rt (h.ok.rt.poll hp) (Runtime.sameStreams_poll hp) (fun _ _ hk => by rwa [hkeep] at hk)
    fun j _ _ ha => (ha.poll hp).imp ?_
  rintro (hj | rfl)
  · exact hj
  · exact ht

/-- `consume` comes back without an event only if it has found none. -/
theorem consumed {rt : Runtime} {gotEvent : Bool} (h : Watched M pending owed testing s)
    (hnone : gotEvent = false → pending i → ¬ testing i) (hc : s.rt.consumed i gotEvent = some rt) : Watched M pending owed testing { s with rt } := by
  have hkeep := Runtime.keep_of_consumed hc
  refine h.of_rt (h.ok.rt.consumed hc) (Runtime.sameStreams_consumed hc) (fun _ _ hk => by rwa [hkeep] at hk)
    fun j _ hp ha => ha.consumed hc ?_
  rintro rfl hb
  exact hnone hb hp

theorem pollRest {rt : Runtime} (h : Watched M pending owed testing s) (hp : s.rt.pollRest i = some rt) :
    Watched M pending owed testing { s with rt } := by
  have hkeep := Runtime.keep_of_pollRest hp
  refine h.of_rt (h.ok.rt.pollRest hp) (Runtime.sameStreams_pollRest hp) (fun _ _ hk => by rwa [hkeep] at hk)
    fun j hk _ ha => ha.pollRest ?_ hp
  rwa [hkeep] at hk

end Watched
end Streams
end Mutiny
