import Gevent.Refine.Simulation
import Gevent.Sched.Lifecycle

/-!
# Reading the scheduler off the program

Every reachable state of the program comes with a state of the scheduler. The
program's own memory says which call a suspended cothread is in
(`World.frame`), and its `state` words say what each place is.
-/

namespace Gevent
open Intrusive

/-- The call on the suspended stack whose handle is stored in `t->stacklet`. -/
def World.frame (w : World) (t : Tid) : Option Frame :=
  match (w.co t).stacklet with
  | .stack n =>
    match w.thread.suspended n with
    | some ⟨some u, _, .api f⟩ => if u = t then some f else none
    | _ => none
  | _ => none

/-- The states of a run, as pairs: the program and the scheduler it refines. -/
structure Paired (w : World) (s : Sched) : Prop extends Corr w s where
  reach : scheduler.Reach anyStep s
  base : Base ⟨s, none⟩
  settled : s.Settled
  life : Lifecycle ⟨s, none⟩

theorem Paired.of_reach {w : World} {s : Sched} (r : scheduler.Reach anyStep s) (c : Corr w s) :
    Paired w s where
  toCorr := c
  reach := r
  base := (scheduler_settled r).1
  settled := (scheduler_settled r).2
  life := scheduler_lifecycle r

/-- Runs of the program whose steps meet `ok` are runs of the scheduler under
the rules that `ok` implies. -/
theorem reach_rules {ok : World → World.Action → Prop} {R : Rules}
    (admits : ∀ w s a, Paired w s → w.Legal a → ok w a → R.Admit s a) {w : World}
    (r : gevent.Reach ok w) : ∃ s, scheduler.Reach R.Admit s ∧ Paired w s := by
  obtain ⟨s, hs, c⟩ := gevent_refines.reach (fun w s a hs c legal h =>
    admits w s a (.of_reach hs c) legal h) r
  exact ⟨s, hs, .of_reach hs.any c⟩

theorem reach_paired {ok : World → World.Action → Prop} {w : World} (r : gevent.Reach ok w) :
    ∃ s, Paired w s := by
  obtain ⟨s, -, p⟩ := reach_rules (R := Rules.any) (fun _ s a _ _ _ => Rules.any_admits s a) r
  exact ⟨s, p⟩

namespace Paired
variable {w : World} {s : Sched} {t : Tid} {f : Frame}

theorem frame_eq (p : Paired w s) (t : Tid) : w.frame t = some f ↔ s.place t = .blocked f := by
  constructor
  · intro h
    simp only [World.frame] at h
    split at h
    · next n hn =>
      split at h
      · next u c g hst =>
        split at h
        · next hu =>
          subst hu
          cases h
          obtain ⟨-, f', hf', he⟩ := p.owned n _ hst
          cases he
          exact hf'
        · cases h
      · cases h
    · cases h
  · intro h
    obtain ⟨n, hn, hst⟩ := p.parked t f h
    have hn : (w.co t).stacklet = .stack n := hn
    simp [World.frame, hn, hst]

theorem main_eq (p : Paired w s) : w.hub.main = s.main := p.main

/-- Whose place is `running` has control. -/
theorem running_iff (p : Paired w s) : s.place t = .running ↔ w.control = .user t := by
  rw [p.control]
  exact ⟨fun h => (p.base.core.running t h).1, p.settled.user⟩

theorem hub_iff (p : Paired w s) : s.hub = .running ↔ w.control.owner = none := by
  rw [p.control]
  constructor
  · exact fun h => (p.base.core.hub h).1
  · intro h
    rcases p.settled with ⟨u, hu, -⟩ | ⟨ph, -, hr⟩
    · rw [hu] at h
      cases h
    · exact hr

theorem known_iff (p : Paired w s) : t ∈ w.env.known ↔ s.place t ≠ .unborn := by
  rw [p.env]
  exact p.base.core.known t

theorem alive_iff (p : Paired w s) : alive t w.env.log = true ↔ (s.place t).Live := by
  rw [p.env]
  exact p.life.alive t

/-- A cothread that is alive runs, or is suspended in a call. -/
theorem alive_frame (p : Paired w s) (h : alive t w.env.log = true)
    (idle : w.control.owner ≠ some t) : ∃ f, w.frame t = some f ∧ s.place t = .blocked f := by
  rcases p.alive_iff.mp h with hr | ⟨f, hf⟩
  · rw [p.running_iff.mp hr] at idle
    exact absurd rfl idle
  · exact ⟨f, (p.frame_eq t).mpr hf, hf⟩

/-- `state` of a cothread that `gevent_cothread_init` has prepared. -/
theorem state_eq (p : Paired w s) : (w.co t).state =
    match s.place t with
    | .unborn => (w.co t).state
    | .new => .new
    | .running => .current
    | .blocked f => f.pending.state
    | .dead => .dead := by
  have hc := p.cell t
  cases hp : s.place t with
  | unborn => rfl
  | new => rw [hp] at hc; exact hc.1
  | running => exact (p.running t hp).1
  | blocked f => rw [hp] at hc; exact hc.1
  | dead =>
    rw [hp] at hc
    refine hc.resolve_right fun h => ?_
    rw [p.current] at h
    have hu : s.control = .user t := by
      cases hs : s.control with
      | user u =>
        rw [hs] at h
        cases h
        rfl
      | hub ph =>
        rw [hs] at h
        cases h
    rw [p.settled.user hu] at hp
    cases hp

theorem state_new (p : Paired w s) (known : t ∈ w.env.known) :
    (w.co t).state = .new ↔ s.place t = .new := by
  have hs := p.state_eq (t := t)
  cases hp : s.place t with
  | unborn => exact absurd hp (p.known_iff.mp known)
  | new | running | dead => simp [hs, hp]
  | blocked f =>
    obtain ⟨self, call, op, pending, caller⟩ := f
    rw [hp] at hs
    rw [hs]
    cases pending <;> simp [Pending.state]

theorem state_getaddrinfo (p : Paired w s) (known : t ∈ w.env.known) :
    (w.co t).state = .waitingGetaddrinfo ↔ ∃ f, s.place t = .blocked f ∧ f.pending = .getaddrinfo := by
  have hs := p.state_eq (t := t)
  cases hp : s.place t with
  | unborn => exact absurd hp (p.known_iff.mp known)
  | new | running | dead => simp [hs, hp]
  | blocked f =>
    obtain ⟨self, call, op, pending, caller⟩ := f
    rw [hp] at hs
    rw [hs]
    cases pending <;> simp [Pending.state]

/-- A step whose assertions hold leads to the next state of the scheduler. -/
theorem exec_ok (p : Paired w s) {a : World.Action} (legal : w.Legal a) (valid : s.fault a = none) :
    ∃ w' x, gevent.exec w a = .ok w' ∧ Corr w' (s.next x a) :=
  p.toCorr.exec p.base p.settled (p.toCorr.allowed p.base legal) valid

/-- A step of the program, as a step of the scheduler. -/
theorem exec_next (p : Paired w s) {a : World.Action} {w' : World} (legal : w.Legal a)
    (exec : gevent.exec w a = .ok w') : s.fault a = none ∧ ∃ x, Paired w' (s.next x a) := by
  have allowed := p.toCorr.allowed p.base legal
  have valid : s.fault a = none := by
    cases hf : s.fault a with
    | none => rfl
    | some e =>
      have he : gevent.exec w a = .error e := p.toCorr.exec_fault p.base p.settled allowed hf
      rw [exec] at he
      cases he
  obtain ⟨w₁, x, h₁, c⟩ := p.exec_ok legal valid
  obtain rfl : w' = w₁ := Except.ok.inj (exec.symm.trans h₁)
  exact ⟨valid, x, .of_reach (.step p.reach trivial ⟨allowed, valid, x, rfl⟩) c⟩

theorem main_known (p : Paired w s) : w.hub.main ∈ w.env.known := by
  rw [p.known_iff, p.main]
  rcases p.base.core.main with h | ⟨f, h⟩ <;> rw [show s.place s.main = _ from h] <;> simp

end Paired

/-! ## Conditions on the steps of a run -/

namespace World

/-- The main cothread is suspended in a call of the given kind. -/
def MainIn (w : World) (B : Frame → Prop) : Prop := ∃ f, w.frame w.hub.main = some f ∧ B f

instance (w : World) (B : Frame → Prop) [DecidablePred B] : Decidable (w.MainIn B) :=
  decidable_of_iff ((w.frame w.hub.main).any (fun f => decide (B f)) = true) (by
    cases h : w.frame w.hub.main <;> simp [MainIn, h])

/-- The main cothread is not resumed as a last resort in the given kinds of
calls. The run function of a cothread must not return while nobody is ready and
no `uv_run` is suspended, nor must `uv_run`, with the main cothread in such a call. -/
def Spares (onFinish onRunEnd : Frame → Prop) (w : World) : Action → Prop
  | .finish => w.queueEmpty .ready = true → w.hub.stacklet = .null → ¬ w.MainIn onFinish
  | .iterate => w.env.uvLoopAlive = false → ¬ w.MainIn onRunEnd
  | _ => True

instance (D E : Frame → Prop) [DecidablePred D] [DecidablePred E] (w : World) :
    (a : Action) → Decidable (w.Spares D E a)
  | .finish => inferInstanceAs (Decidable (_ → _ → ¬ _))
  | .iterate => inferInstanceAs (Decidable (_ → ¬ _))
  | .call _ | .cothreadInit _ _ | .setExitFn _ _ | .channelInit _ | .semaphoreInit _ _
  | .timers | .resolve _ _ _ | .updateTime | .others _ | .handleInit _ | .handleClose _
  | .tick _ => inferInstanceAs (Decidable True)

end World

namespace Paired
variable {w : World} {s : Sched}

theorem mainIn_iff (p : Paired w s) {B : Frame → Prop} : w.MainIn B ↔ s.MainIn B := by
  simp only [World.MainIn, Sched.MainIn, p.main, p.frame_eq]

theorem admits (p : Paired w s) {a : World.Action} {call : Sched → Call → Prop}
    {D E : Frame → Prop} (legal : w.Legal a) (spares : w.Spares D E a)
    (calls : ∀ t c, a = .call c → s.control = .user t → call (s.enter t c) c) :
    (Rules.sparing call D E).Admit s a where
  call := calls
  finish t ha hc ready idle := by
    subst ha
    have hend : ¬ ∃ l, (((s.emit (.finish t)).setPlace t .dead).env.log = .runEnd :: l) := by
      rintro ⟨l, hl⟩
      cases hl
    refine ⟨fun _ => ?_, fun h => absurd h hend⟩
    rintro ⟨f, hf, hD⟩
    have hne : s.main ≠ t := by
      rintro rfl
      exact legal.2 (by rw [p.control, hc, p.main]; rfl)
    refine spares ((p.queueEmpty .ready).mpr ready) (p.hubIdle idle) (p.mainIn_iff.mpr ⟨f, ?_, hD⟩)
    simpa [Sched.setPlace, Sched.emit, hne] using hf
  runEnd ha alive := by
    subst ha
    rw [← p.env] at alive
    refine ⟨?_, fun _ h => spares alive (p.mainIn_iff.mpr h)⟩
    rintro ⟨t, l, hl⟩
    cases hl

end Paired
end Gevent
