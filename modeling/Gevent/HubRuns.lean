import Gevent.Bookkeeping
import Gevent.QueueLists

/-!
# One run of the loop at a time

The hub runs only when nobody is ready, `uv_run` is never entered twice, and
when it returns the main cothread continues (`hub_runs_alone`).
-/

namespace Gevent

/-- `uv_run` is called when it is not running, and returns when it is. -/
def Event.RunInTurn : Event → List Event → Prop
  | .runStart, past => inRun past = false
  | .runEnd, past => inRun past = true
  | _, _ => True

/-- Calls of `uv_run` that have not returned, as far as they are suspended. -/
def World.SuspendedRun (w : World) (n : Nat) : Prop :=
  ∃ st, w.thread.suspended n = some st ∧ st.owner = none

structure World.HubAlone (w : World) : Prop where
  idle : w.hub.current = none → w.enqueued .ready = []
  /-- A run of the loop that is under way is suspended once or executing. -/
  once : ∀ n, w.SuspendedRun n → w.control.owner ≠ none ∧ ∀ m, w.SuspendedRun m → m = n
  running : inRun w.env.log = true ↔ w.control.owner = none ∨ ∃ n, w.SuspendedRun n
  inTurn : Hist Event.RunInTurn w.env.log
  returns : w.Legal .iterate → w.env.uvLoopAlive = false →
    w.HandleOf (w.co w.hub.main).stacklet (some w.hub.main) ∧
    ∃ w', gevent.exec w .iterate = .ok w' ∧ w'.control = .user w.hub.main

section
variable {s : Sched} {m m' : Moment}

theorem Event.Lifeless.runInTurn {e : Event} (h : e.Lifeless) (past : List Event) :
    e.RunInTurn past := by
  cases e with
  | runStart | runEnd => cases h.2
  | _ => trivial

theorem runInTurn_step (life : Lifecycle m) (h : Hist Event.RunInTurn m.sched.env.log)
    (hm : LifeMove m m') : Hist Event.RunInTurn m'.sched.env.log := by
  cases hm with
  | quiet es log lifeless =>
    rw [log]
    exact h.extend fun e he l => (lifeless e he).runInTurn l
  | die t log | init t log =>
    rw [log]
    exact ⟨trivial, h⟩
  | start t log =>
    rw [log]
    exact ⟨trivial, trivial, h⟩
  | runStart es log lifeless place idle =>
    rw [log]
    refine ⟨?_, h.extend fun e he l => (lifeless e he).runInTurn l⟩
    change latest Event.loopLife false (es ++ m.sched.env.log) = false
    rw [latest_append fun e he => (lifeless e he).2]
    have := life.inRun
    simpa [idle, Gevent.inRun] using this
  | runEnd log place running =>
    rw [log]
    exact ⟨life.inRun.mpr (by simp [running]), h⟩

theorem scheduler_runInTurn {ok : Sched → World.Action → Prop} (r : scheduler.Reach ok s) :
    Hist Event.RunInTurn s.env.log := by
  have h := scheduler_invariant (P := fun m => Lifecycle m ∧ Hist Event.RunInTurn m.sched.env.log)
    (fun s h => ⟨.initial h, by rw [h.log]; exact ⟨trivial, trivial, trivial⟩⟩)
    (fun _ _ _ h hm => ⟨h.1.step hm.lives, runInTurn_step h.1 h.2 hm.lives⟩) (Rules.reach_any r)
  exact h.2

end

namespace Paired
variable {w : World} {s : Sched} {n : Nat}

theorem ready_nil (p : Paired w s) (hub : w.hub.current = none) : s.queue .ready = [] := by
  rw [p.current] at hub
  have hr : s.hub = .running := p.hub_iff.mpr (by rw [p.control]; exact hub)
  exact (p.base.core.hub hr).2

/-- A suspended stack of the hub is the one that the scheduler knows. -/
theorem suspendedRun_iff (p : Paired w s) : (∃ ph, s.hub = .suspended ph) ↔ ∃ n, w.SuspendedRun n := by
  constructor
  · rintro ⟨ph, hph⟩
    obtain ⟨n, -, hst⟩ := p.hubParked ph hph
    exact ⟨n, _, hst, rfl⟩
  · rintro ⟨n, ⟨owner, current, k⟩, hst, rfl⟩
    obtain ⟨-, ph, hph, -⟩ := p.owned n _ hst
    exact ⟨ph, hph⟩

theorem suspendedRun_once (p : Paired w s) {m : Nat} (hn : w.SuspendedRun n) (hm : w.SuspendedRun m) :
    m = n := by
  obtain ⟨st, hst, ho⟩ := hn
  obtain ⟨st', hst', ho'⟩ := hm
  have h1 := (p.owned n st hst).1
  have h2 := (p.owned m st' hst').1
  rw [ho] at h1
  rw [ho', h1] at h2
  exact (Handle.stack.inj h2).symm

theorem runReturns (p : Paired w s) (legal : w.Legal .iterate) (dead : w.env.uvLoopAlive = false) :
    w.HandleOf (w.co w.hub.main).stacklet (some w.hub.main) ∧
      ∃ w', gevent.exec w .iterate = .ok w' ∧ w'.control = .user w.hub.main := by
  have hcon : w.control.owner = none := by
    rcases legal with h | h <;> rw [h] <;> rfl
  have hub : s.hub = .running := p.hub_iff.mpr hcon
  obtain ⟨f, hf⟩ := p.base.core.main.resolve_left (p.base.core.nobody hub s.main)
  have hf : s.place s.main = .blocked f := hf
  obtain ⟨n, hn, hst⟩ := p.parked s.main f hf
  obtain ⟨w', x, exec, c⟩ := p.exec_ok legal (a := .iterate) rfl
  rw [p.main_eq]
  refine ⟨p.handleOf (o := some s.main) hn hst rfl, w', exec, ?_⟩
  have hnext : s.next x .iterate = Sched.fallback { s.emit .runEnd with hub := .idle } x none := by
    have hready : s.queue .ready = [] := (p.base.core.hub hub).2
    rw [p.env] at dead
    simp [Sched.next, Sched.iterate, dead, Sched.hubReturn, Sched.handOn, Sched.emit, hready]
  rw [c.control, hnext]
  exact Sched.resume_control (s := Sched.emit { s.emit .runEnd with hub := .idle } _) hf _ _

end Paired

/-- In every reachable state the hub is active only while nobody is ready, `uv_run`
is under way at most once, and when it returns the main cothread continues. -/
theorem hub_runs_alone {w : World} (r : gevent.Reach anyStep w) : w.HubAlone := by
  obtain ⟨s, p⟩ := reach_paired r
  refine ⟨fun hub => ?_, fun n hn => ⟨?_, fun m => p.suspendedRun_once hn⟩, ?_, ?_, p.runReturns⟩
  · rw [World.enqueued, p.contents, p.ready_nil hub]
    rfl
  · obtain ⟨ph, hph⟩ := p.suspendedRun_iff.mpr ⟨n, hn⟩
    rw [Ne, ← p.hub_iff, hph]
    simp
  · rw [← p.hub_iff, ← p.suspendedRun_iff, p.env, p.life.inRun]
    cases s.hub <;> simp
  · rw [p.env]
    exact scheduler_runInTurn p.reach

set_option maxRecDepth 100000 in
/-- The loop ends, is started again by cothread 1, and is suspended in a callback. -/
theorem hub_runs_alone_run : ∃ w, gevent.Reach anyStep w ∧ w.env.log.count .runStart = 2 ∧
    w.env.log.count .runEnd = 1 ∧ (∃ n, w.SuspendedRun n) ∧ w.HubAlone := by
  have h : (gevent.play anyStep zeroStart [.cothreadInit 1 1, .call (.wait 0), .iterate,
      .call (.spawn 1), .call (.receive (.plain 0)), .call (.sleep 0), .iterate, .timers]).any
      (fun w => decide (w.env.log.count .runStart = 2 ∧ w.env.log.count .runEnd = 1 ∧
        inRun w.env.log = true ∧ w.control.owner ≠ none)) = true := by decide
  obtain ⟨w, r, hs, he, hrun, hown⟩ := Machine.Reach.of_play zeroStart_start h
  have alone := hub_runs_alone r
  exact ⟨w, r, hs, he, (alone.running.mp hrun).resolve_left hown, alone⟩

end Gevent
