import Gevent.Sched.Path

/-!
# The last resort

Under rules that spare the main cothread in some kinds of calls, it is never
resumed as a last resort in the middle of such a call.
-/

namespace Gevent

/-- The main cothread is resumed as a last resort only in calls that the rules do not spare. -/
def Event.Spared (onFinish onRunEnd : Frame → Prop) (main : Tid) : Event → List Event → Prop
  | .fallback k, past => ∃ f : Frame, f.call = k ∧ f.self = main ∧ f.Fits ∧
      f.pending.queue ≠ some .ready ∧ (∀ ev ∈ f.made, ev ∈ past) ∧
      ((∃ t l, past = .finish t :: l) ∧ ¬ onFinish f ∨ (∃ l, past = .runEnd :: l) ∧ ¬ onRunEnd f)
  | _, _ => True

def Event.isFallback : Event → Bool
  | .fallback _ => true
  | _ => false

theorem Event.spared_of {D E : Frame → Prop} {main : Tid} {ev : Event} (h : ev.isFallback = false)
    (past : List Event) : ev.Spared D E main past := by
  cases ev with
  | fallback => cases h
  | _ => trivial

/-- Only the choice of the main cothread leaves a trace of a last resort. -/
theorem Move.news {R : Rules} {m m' : Moment} (h : Move R m m') : m'.sched.main = m.sched.main ∧
    ((∃ es, m'.sched.env.log = es ++ m.sched.env.log ∧ ∀ ev ∈ es, ev.isFallback = false) ∨
      m'.sched.env.log = .fallback (m.sched.env.inCall m.sched.main) :: m.sched.env.log ∧
        m.waking = none ∧ m.sched.Away ∧ m.sched.queue .ready = [] ∧ R.last m.sched ∧
        ((∃ t l, m.sched.env.log = .finish t :: l) ∨ ∃ l, m.sched.env.log = .runEnd :: l)) := by
  cases h with
  | enter | acquireWaits | releaseMeets | take | give | die | poll | hubEnd | semInit | tick
  | init =>
    exact ⟨rfl, .inl ⟨[_], rfl, by simp [Event.isFallback]⟩⟩
  | pick | turn | setExitFn | updateTime | others => exact ⟨rfl, .inl ⟨[], rfl, by simp⟩⟩
  | answer | drop | start => exact ⟨rfl, .inl ⟨[_, _], rfl, by simp [Event.isFallback]⟩⟩
  | @refuse s t k o called fails =>
    cases o with
    | noMemory => exact ⟨rfl, .inl ⟨[_], rfl, by simp [Event.isFallback]⟩⟩
    | failed => exact ⟨rfl, .inl ⟨[_, _, _], rfl, by simp [Event.isFallback]⟩⟩
    | submitted => exact absurd rfl fails
  | pause => exact ⟨Sched.block_main .., .inl ⟨[], by simp, by simp⟩⟩
  | @sleep s f timeout ref =>
    rw [Sched.arm_eq]
    exact ⟨by simp, .inl ⟨[.armed f.call f.self ((s.env.loop.time + timeout.toNat) % 2 ^ 64)],
      by simp, by simp [Event.isFallback]⟩⟩
  | @lookup s f =>
    refine ⟨by simp [Sched.submit],
      .inl ⟨[.submitted f.call s.env.nextReq, .malloc s.env.nextReq], ?_, by simp [Event.isFallback]⟩⟩
    simp [Sched.submit, Env.submit, Env.mallocReq]
  | @queueReceive s f ch =>
    exact ⟨by simp [Sched.emit], .inl ⟨[.blocked (.receivers ch) f.call],
      by simp [Sched.emit, Env.emit], by simp [Event.isFallback]⟩⟩
  | @queueSend s f ch =>
    exact ⟨by simp [Sched.emit], .inl ⟨[.blocked (.senders ch) f.call],
      by simp [Sched.emit, Env.emit], by simp [Event.isFallback]⟩⟩
  | @meetSender s f ch u =>
    exact ⟨by simp [Sched.emit], .inl ⟨[.handover ch (s.env.inCall u) f.call (s.offer u)],
      by simp [Sched.emit, Env.emit], by simp [Event.isFallback]⟩⟩
  | @meetReceiver s f ch v u =>
    exact ⟨by simp [Sched.emit], .inl ⟨[.handover ch f.call (s.env.inCall u) v],
      by simp [Sched.emit, Env.emit], by simp [Event.isFallback]⟩⟩
  | fallback x away ready hub reason may =>
    exact ⟨rfl, .inr ⟨rfl, rfl, away, ready, may, reason.imp id fun hr => hr.1⟩⟩
  | @fire s t ts x hub control first due active =>
    refine ⟨rfl, .inl ⟨[.fired (s.env.armedBy t)], ?_, by simp [Event.isFallback]⟩⟩
    simp only [Sched.fire, Env.timerStop_eq _ active]
    rfl
  | @resume s u x f died away place dead =>
    obtain ⟨tm, hs, n, he⟩ := Sched.resume_shape place x died
    refine ⟨Sched.resume_main place x died, .inl ⟨f.returns (f.pending.result x) s.env.counter ++
      s.env.switching (some u) died, by rw [he]; simp, fun ev hev => ?_⟩⟩
    rcases List.mem_append.mp hev with hev | hev
    · obtain ⟨self, call, op, pending, caller⟩ := f
      cases caller <;> simp only [Frame.returns, List.mem_cons, List.not_mem_nil, or_false] at hev <;>
        rcases hev with rfl | rfl <;> rfl
    · rcases Env.mem_switching.mp hev with rfl | ⟨t, -, -, rfl⟩ <;> rfl
  | @enterHub s died away ready dead =>
    rw [Sched.enterHub_eq]
    refine ⟨rfl, .inl ⟨_, (List.append_assoc ..).symm, fun ev hev => ?_⟩⟩
    rcases List.mem_append.mp hev with hev | hev
    · rw [Sched.mem_entryEvents hev]
      rfl
    · rcases Env.mem_switching.mp hev with rfl | ⟨t, -, -, rfl⟩ <;> rfl

theorem scheduler_spared {C : Sched → Call → Prop} {D E : Frame → Prop} {s : Sched}
    (r : scheduler.Reach (Rules.sparing C D E).Admit s) :
    Hist (Event.Spared D E s.main) s.env.log := by
  refine scheduler_invariant (R := Rules.sparing C D E)
    (P := fun m => Hist (Event.Spared D E m.sched.main) m.sched.env.log) ?_ ?_ r
  · intro s h
    rw [h.log]
    exact ⟨trivial, trivial, trivial⟩
  · intro m m' b h hm
    obtain ⟨hmain, news⟩ := hm.news
    rw [hmain]
    rcases news with ⟨es, hlog, hes⟩ | ⟨hlog, hw, away, ready, may, reason⟩
    · rw [hlog]
      exact h.extend fun ev hev past => Event.spared_of (hes ev hev) past
    · obtain ⟨s, waking⟩ := m
      have hw : waking = none := hw
      subst hw
      obtain ⟨f, hf⟩ := Sched.main_blocked b.core away
      have o := b.calls.frame _ f hf
      have hself := b.core.queues.self _ f hf
      rw [hlog]
      refine ⟨⟨f, hself ▸ o.inCall.symm, hself, o.fits, ?_, o.made, ?_⟩, h⟩
      · intro hq
        have hm := (b.core.queues.queued .ready _).mpr ⟨f, hf, hq⟩
        rw [ready] at hm
        cases hm
      · refine reason.imp (fun hr => ⟨hr, fun hD => ?_⟩) fun hr => ⟨hr, fun hE => ?_⟩
        · exact may.1 hr ⟨f, hf, hD⟩
        · exact may.2 hr ⟨f, hf, hE⟩

end Gevent
