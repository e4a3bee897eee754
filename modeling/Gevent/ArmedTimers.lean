import Gevent.Histories
import Gevent.Refine.Aside
import Gevent.Sched.Alarms

/-!
# Timers and sleeping cothreads

The timer tree holds exactly the timers of the cothreads that wait for one,
`loop->active_handles` counts the calls of `gevent_sleep`, nothing else uses the
union of a cothread while its timer is armed, and a timer only wakes the call
that armed it (`timers_agree`).
-/

namespace Gevent
open Intrusive

/-- `t` is suspended in `gevent_sleep`. -/
def World.InSleep (w : World) (t : Tid) : Prop := ∃ f d, w.frame t = some f ∧ f.op = .sleep d

/-- The action is a call of `t` that arms its timer. -/
def World.Arms (w : World) (t : Tid) (a : World.Action) : Prop :=
  w.control = .user t ∧ ((∃ d, a = .call (.sleep d)) ∨ ∃ d, 0 < d ∧ a = .call (.wait d))

/-- Other contents for words 0 and 1 of the union of `t`. -/
def Scribble.overLinks (t : Tid) (x y : Word) : Scribble where
  prev u := if u = t then some x else none
  next u := if u = t then some y else none
  co _ := none
  timer _ := none
  exitFn _ := none
  nodes := .none
  others := none

structure World.TimersAgree (w : World) : Prop where
  once : w.env.loop.timerHandles.Nodup
  armed : ∀ t, t ∈ w.env.loop.timerHandles ↔ t ∈ w.env.known ∧ (w.co t).state = .waitingTimer
  active : ∀ t ∈ w.env.loop.timerHandles, (w.env.timer t).active = true
  counted : ∃ sleepers : List Tid, sleepers.Nodup ∧ (∀ t, t ∈ sleepers ↔ w.InSleep t) ∧
    w.env.loop.activeHandles = sleepers.length
  /-- Word 2 of the union is the timer's `loop`. -/
  third : ∀ t ∈ w.env.loop.timerHandles, (w.co t).third = .loop
  /-- Words 0 and 1 are neither read nor written. -/
  links : ∀ t a, w.Legal a → t ∈ w.env.loop.timerHandles ∨ w.Arms t a → ∀ x y,
    gevent.exec (w.scribble (.overLinks t x y)) a =
      (·.scribble (.overLinks t x y)) <$> gevent.exec w a
  /-- `uv_timer_stop` and `uv_timer_start` always find the loop in the timer. -/
  sound : ∀ a, w.Legal a → gevent.exec w a ≠ .error .wildPointer
  /-- A timer that fires ends the call that armed it. -/
  fires : w.Legal .timers → ∃ w', gevent.exec w .timers = .ok w' ∧ (w'.control = .hub .io ∨
    ∃ t f, t ∈ w.env.loop.timerHandles ∧ w.frame t = some f ∧ w.env.armedBy t = f.call ∧
      w'.control = .user t ∧
      w'.env.log = .ret f.call t f.op (.int 0) :: .switched (some t) :: .fired f.call :: w.env.log)
  returns : w.Legal .iterate → w.env.uvLoopAlive = false → ∀ t, ¬ w.InSleep t

namespace Paired
variable {w : World} {s : Sched} {t : Tid} {f : Frame} {a : World.Action}

theorem armed_iff (p : Paired w s) :
    t ∈ w.env.loop.timerHandles ↔ ∃ f, s.place t = .blocked f ∧ f.pending = .sleep := by
  rw [p.env]
  constructor
  · intro h
    obtain ⟨-, -, -, f, hf, hs, -⟩ := p.base.timers.armed t h
    exact ⟨f, hf, hs⟩
  · rintro ⟨f, hf, hs⟩
    exact (p.base.timers.sleeper t f hf hs).2.2.resolve_right fun ⟨x, hx⟩ => by cases hx

theorem waiting_iff (p : Paired w s) : t ∈ w.env.known ∧ (w.co t).state = .waitingTimer ↔
    ∃ f, s.place t = .blocked f ∧ f.pending = .sleep := by
  have hs := p.state_eq (t := t)
  constructor
  · rintro ⟨known, state⟩
    rw [hs] at state
    cases hp : s.place t with
    | unborn => exact absurd hp (p.known_iff.mp known)
    | new | running | dead =>
      rw [hp] at state
      cases state
    | blocked f =>
      rw [hp] at state
      refine ⟨f, rfl, ?_⟩
      cases hf : f.pending <;> simp_all [Pending.state]
  · rintro ⟨f, hf, pending⟩
    rw [hf] at hs
    exact ⟨p.known_iff.mpr (by simp [hf]), hs.trans (by simp [pending, Pending.state])⟩

/-- The referenced timers are those of `gevent_sleep`. -/
theorem inSleep_iff (p : Paired w s) :
    w.InSleep t ↔ t ∈ s.env.loop.timerHandles ∧ (s.env.timer t).ref = true := by
  constructor
  · rintro ⟨f, d, hf, op⟩
    have hp := (p.frame_eq t).mp hf
    have pending := (p.base.calls.frame t f hp).fits.sleep op
    have hmem : t ∈ w.env.loop.timerHandles := p.armed_iff.mpr ⟨f, hp, pending⟩
    rw [p.env] at hmem
    obtain ⟨-, -, -, g, hg, -, ref⟩ := p.base.timers.armed t hmem
    obtain rfl : f = g := by simpa [hp] using hg
    exact ⟨hmem, ref.mpr ⟨d, op⟩⟩
  · rintro ⟨hmem, href⟩
    obtain ⟨-, -, -, f, hf, -, ref⟩ := p.base.timers.armed t hmem
    obtain ⟨d, op⟩ := ref.mp href
    exact ⟨f, d, (p.frame_eq t).mpr hf, op⟩

/-- Only the cothread itself and its queue neighbours use its links. -/
theorem overLinks_aside (p : Paired w s) (legal : w.Legal a)
    (h : t ∈ w.env.loop.timerHandles ∨ w.Arms t a) (x y : Word) :
    (Scribble.overLinks t x y).Clear s ∧ (Scribble.overLinks t x y).Aside w a := by
  have spares : ∀ u, (Scribble.overLinks t x y).Spares u := fun u => ⟨rfl, rfl, rfl⟩
  have links : ∀ u, u ≠ t → (Scribble.overLinks t x y).SparesLinks u := fun u hu => by
    constructor <;> simp [Scribble.words, Scribble.overLinks, hu]
  have place : s.place t = .running ∨ ∃ f, s.place t = .blocked f ∧ f.pending = .sleep := by
    rcases h with h | h
    · exact .inr (p.armed_iff.mp h)
    · exact .inl (p.running_iff.mpr h.1)
  have unused : ¬ (s.place t).UsesLinks := by
    rcases place with h | ⟨f, h, hs⟩ <;> simp [h, Place.UsesLinks]
    simp [hs]
  have unqueued : ∀ q, t ∉ s.queue q := by
    intro q hq
    obtain ⟨f, hf, hfq⟩ := (p.base.core.queues.queued q t).mp hq
    rcases place with h | ⟨g, h, hs⟩
    · exact absurd (h.symm.trans hf) (by simp)
    · obtain rfl : g = f := by simpa [h] using hf
      rw [hs] at hfq
      cases hfq
  refine ⟨⟨fun u _ _ => spares u, ?_, ?_⟩, ⟨?_, ?_, fun u _ _ => spares u, ?_, ?_⟩⟩
  · rintro u hu
    refine links u ?_
    rintro rfl
    exact unused hu
  · rintro q u hu
    refine links u ?_
    rintro rfl
    exact unqueued q hu
  · rintro u c rfl hc
    refine ⟨fun hs hw => links u ?_, fun _ => ⟨⟨rfl, rfl⟩, ⟨rfl, rfl⟩, ⟨rfl, rfl⟩⟩, fun v _ => spares v⟩
    rintro rfl
    rcases h with h | ⟨-, ⟨d, hd⟩ | ⟨d, -, hd⟩⟩
    · obtain ⟨f, hf, -⟩ := p.armed_iff.mp h
      rw [p.running_iff.mpr hc] at hf
      cases hf
    · cases hd
      exact hs d rfl
    · cases hd
      exact hw d rfl
  · rintro u run rfl
    refine ⟨spares u, links u ?_⟩
    rintro rfl
    obtain ⟨-, free⟩ := p.toCorr.allowed p.base legal
    rcases place with h | ⟨f, h, -⟩ <;> simp [h] at free
  · exact fun h _ => ⟨rfl, ⟨rfl, rfl⟩, ⟨rfl, rfl⟩, ⟨rfl, rfl⟩⟩
  · exact fun h _ => ⟨rfl, ⟨rfl, rfl⟩, ⟨rfl, rfl⟩, ⟨rfl, rfl⟩⟩

/-- The only faults of a legal action are failed assertions. -/
theorem not_wild (p : Paired w s) (legal : w.Legal a) : gevent.exec w a ≠ .error .wildPointer := by
  have allowed := p.toCorr.allowed p.base legal
  cases hf : s.fault a with
  | none =>
    obtain ⟨w', x, exec, -⟩ := p.exec_ok legal hf
    rw [exec]
    simp
  | some f =>
    rw [show gevent.exec w a = .error f from p.toCorr.exec_fault p.base p.settled allowed hf]
    rintro h
    cases h
    cases a with
    | call c => cases c <;> simp [Sched.fault] at hf
    | resolve r error res =>
      simp only [Sched.fault] at hf
      split at hf
      · cases hf
      · split at hf
        · split at hf <;> cases hf
        · cases hf
    | _ => cases hf

theorem timer_fires (p : Paired w s) (legal : w.Legal .timers) :
    ∃ w', gevent.exec w .timers = .ok w' ∧ (w'.control = .hub .io ∨
      ∃ t f, t ∈ w.env.loop.timerHandles ∧ w.frame t = some f ∧ w.env.armedBy t = f.call ∧
        w'.control = .user t ∧ w'.env.log =
          .ret f.call t f.op (.int 0) :: .switched (some t) :: .fired f.call :: w.env.log) := by
  obtain ⟨w', x, exec, c⟩ := p.exec_ok legal (a := .timers) rfl
  refine ⟨w', exec, ?_⟩
  rw [c.env, c.control, p.env]
  have hnext : s.next x .timers = s.timers x := rfl
  rw [hnext, Sched.timers]
  cases hl : s.env.loop.timerHandles with
  | nil => exact .inl rfl
  | cons t ts =>
    simp only
    split
    · exact .inl rfl
    · have hmem : t ∈ s.env.loop.timerHandles := by simp [hl]
      obtain ⟨active, -, -, f, hf, hs, -⟩ := p.base.timers.armed t hmem
      have harm : s.env.armedBy t = f.call := (p.base.timers.sleeper t f hf hs).1
      have hself : f.self = t := p.base.core.queues.self t f hf
      have hp : (s.fire t).place t = .blocked f := hf
      have hlog : (s.fire t).env.log = .fired f.call :: s.env.log := by
        rw [Sched.fire, Env.timerStop_eq _ active, ← harm]
        rfl
      refine .inr ⟨t, f, List.mem_cons_self, (p.frame_eq t).mpr hf, harm,
        Sched.resume_control hp x none, ?_⟩
      obtain ⟨tm, handles, n, he⟩ := Sched.resume_shape hp x none
      rw [he]
      simp [Frame.returns, (p.base.calls.frame t f hf).fits.sleeps_program hs, hs, Pending.result,
        hself, hlog, Env.switching]

end Paired

/-- In every reachable state the armed timers are those of the cothreads that
wait for one, and the loop counts the calls of `gevent_sleep`. -/
theorem timers_agree {w : World} (r : gevent.Reach anyStep w) : w.TimersAgree := by
  obtain ⟨s, p⟩ := reach_paired r
  have nodup : s.env.loop.timerHandles.Nodup := p.base.timers.nodup
  have count : s.env.loop.activeHandles =
    (s.env.loop.timerHandles.filter fun t => (s.env.timer t).ref).length := p.base.timers.count
  refine ⟨?_, fun t => p.armed_iff.trans p.waiting_iff.symm, ?_, ?_, ?_, ?_, fun a => p.not_wild,
    p.timer_fires, ?_⟩
  · rw [p.env]
    exact nodup
  · rw [p.env]
    exact fun t ht => (p.base.timers.armed t ht).1
  · refine ⟨s.env.loop.timerHandles.filter fun t => (s.env.timer t).ref, nodup.filter _, fun t => ?_,
      by rw [p.env]; exact count⟩
    rw [p.inSleep_iff, List.mem_filter]
  · intro t ht
    obtain ⟨f, hf, hs⟩ := p.armed_iff.mp ht
    have hc := p.cell t
    rw [hf] at hc
    exact hc.2.2 hs
  · intro t a legal h x y
    obtain ⟨clear, aside⟩ := p.overLinks_aside legal h x y
    exact p.toCorr.scribble_exec p.base p.settled (p.toCorr.allowed p.base legal) clear aside
  · intro _ dead t ht
    obtain ⟨hmem, href⟩ := p.inSleep_iff.mp ht
    have hzero : s.env.loop.activeHandles = 0 := by
      rw [p.env] at dead
      simp only [Env.uvLoopAlive, Bool.or_eq_false_iff, decide_eq_false_iff_not] at dead
      omega
    rw [count] at hzero
    exact List.ne_nil_of_mem (List.mem_filter.mpr ⟨hmem, href⟩) (List.length_eq_zero_iff.mp hzero)

set_option maxRecDepth 100000 in
/-- Main is resumed before its first timer fires, and waits again while 1 sleeps. -/
theorem timers_agree_run : ∃ w, gevent.Reach anyStep w ∧ .armed 0 0 5 ∈ w.env.log ∧
    .fired 0 ∉ w.env.log ∧ w.env.loop.timerHandles = [1, 0] ∧ w.env.loop.activeHandles = 1 ∧
    w.TimersAgree := by
  have h : (gevent.play anyStep zeroStart [.cothreadInit 1 1, .call (.wait 5), .iterate,
      .call (.spawn 1), .call (.sleep 3), .call (.wait 7)]).any (fun w => decide
        (.armed 0 0 5 ∈ w.env.log ∧ .fired 0 ∉ w.env.log ∧ w.env.loop.timerHandles = [1, 0] ∧
          w.env.loop.activeHandles = 1)) = true := by decide
  obtain ⟨w, r, harmed, hfired, htree, hcount⟩ := Machine.Reach.of_play zeroStart_start h
  exact ⟨w, r, harmed, hfired, htree, hcount, timers_agree r⟩

end Gevent
