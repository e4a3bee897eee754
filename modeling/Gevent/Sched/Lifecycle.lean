import Gevent.Sched.Path

/-!
# Lives of cothreads and of the loop

The history alone says which cothreads are started and unfinished (`alive`) and
whether `uv_run` is (`inRun`); the places agree with it.
-/

namespace Gevent

def Event.life (t : Tid) : Event → Option Bool
  | .init u | .finish u => if u = t then some false else none
  | .start u => if u = t then some true else none
  | _ => none

def Event.loopLife : Event → Option Bool
  | .runStart => some true
  | .runEnd => some false
  | _ => none

/-- `t` has been started and its run function has not returned. -/
def alive (t : Tid) (log : List Event) : Bool := latest (Event.life t) false log

/-- `uv_run` has been called and has not returned. -/
def inRun (log : List Event) : Bool := latest Event.loopLife false log

def Place.Live (p : Place) : Prop := p = .running ∨ ∃ f, p = .blocked f

@[simp] theorem Place.live_running : Place.running.Live := .inl rfl
@[simp] theorem Place.live_blocked (f : Frame) : (Place.blocked f).Live := .inr ⟨f, rfl⟩
@[simp] theorem Place.not_live_dead : ¬ Place.dead.Live := by simp [Live]
@[simp] theorem Place.not_live_new : ¬ Place.new.Live := by simp [Live]
@[simp] theorem Place.not_live_unborn : ¬ Place.unborn.Live := by simp [Live]

structure Lifecycle (m : Moment) : Prop where
  alive : ∀ t, alive t m.sched.env.log = true ↔ (m.sched.place t).Live
  inRun : inRun m.sched.env.log = true ↔ m.sched.hub ≠ .idle

/-- The event ends or begins no life. -/
def Event.Lifeless (e : Event) : Prop := (∀ t, e.life t = none) ∧ e.loopLife = none

/-- The same stage of life. -/
def Place.Alike (p q : Place) : Prop :=
  (p.Live ↔ q.Live) ∧ (p = .unborn ↔ q = .unborn) ∧ (p = .new ↔ q = .new) ∧ (p = .dead ↔ q = .dead)

theorem Place.Alike.refl (p : Place) : p.Alike p := ⟨Iff.rfl, Iff.rfl, Iff.rfl, Iff.rfl⟩

theorem Place.Alike.of_live {p q : Place} (hp : p.Live) (hq : q.Live) : p.Alike q := by
  rcases hp with rfl | ⟨f, rfl⟩ <;> rcases hq with rfl | ⟨g, rfl⟩ <;> simp [Alike]

/-- What a move does to the lives of cothreads and of the loop. -/
inductive LifeMove : Moment → Moment → Prop
  | quiet {m m' : Moment} (es : List Event) (log : m'.sched.env.log = es ++ m.sched.env.log)
      (lifeless : ∀ e ∈ es, e.Lifeless) (places : ∀ t, (m'.sched.place t).Alike (m.sched.place t))
      (hub : m'.sched.hub = .idle ↔ m.sched.hub = .idle) : LifeMove m m'
  | die {m m' : Moment} (t : Tid) (log : m'.sched.env.log = .finish t :: m.sched.env.log)
      (running : m.sched.place t = .running)
      (place : m'.sched.place = Function.update m.sched.place t .dead)
      (hub : m'.sched.hub = m.sched.hub) : LifeMove m m'
  | start {m m' : Moment} (t : Tid)
      (log : m'.sched.env.log = .start t :: .switched (some t) :: m.sched.env.log)
      (new : m.sched.place t = .new) (place : m'.sched.place = Function.update m.sched.place t .running)
      (hub : m'.sched.hub = m.sched.hub) : LifeMove m m'
  | init {m m' : Moment} (t : Tid) (log : m'.sched.env.log = .init t :: m.sched.env.log)
      (free : m.sched.place t = .unborn ∨ m.sched.place t = .new ∨ m.sched.place t = .dead)
      (place : m'.sched.place = Function.update m.sched.place t .new)
      (hub : m'.sched.hub = m.sched.hub) : LifeMove m m'
  | runStart {m m' : Moment} (es : List Event)
      (log : m'.sched.env.log = .runStart :: es ++ m.sched.env.log)
      (lifeless : ∀ e ∈ es, e.Lifeless) (place : m'.sched.place = m.sched.place)
      (idle : m.sched.hub = .idle) (hub : m'.sched.hub = .running) : LifeMove m m'
  | runEnd {m m' : Moment} (log : m'.sched.env.log = .runEnd :: m.sched.env.log)
      (place : m'.sched.place = m.sched.place) (running : m.sched.hub = .running)
      (hub : m'.sched.hub = .idle) : LifeMove m m'

theorem Env.switching_lifeless {e : Env} {new died : Option Tid} :
    ∀ ev ∈ e.switching new died, ev.Lifeless := by
  intro ev hev
  rcases Env.mem_switching.mp hev with rfl | ⟨t, -, -, rfl⟩ <;> exact ⟨fun _ => rfl, rfl⟩

theorem Frame.returns_lifeless {f : Frame} {r : Result} {counter : Sem → Int} :
    ∀ ev ∈ f.returns r counter, ev.Lifeless := by
  intro ev hev
  obtain ⟨k, c, r', rfl, -⟩ := Frame.mem_returns hev
  exact ⟨fun _ => rfl, rfl⟩

section
variable {R : Rules} {s s' : Sched} {t : Tid} {f : Frame} {k k' : Option (Tid × Leftover)}

/-- Nobody starts or ends. -/
theorem LifeMove.still (es : List Event) (log : s'.env.log = es ++ s.env.log)
    (lifeless : ∀ e ∈ es, e.Lifeless) (place : s'.place = s.place)
    (hub : s'.hub = .idle ↔ s.hub = .idle) : LifeMove ⟨s, k⟩ ⟨s', k'⟩ :=
  .quiet es log lifeless (fun t => by rw [place]; exact .refl _) hub

/-- The running cothread is blocked. -/
theorem LifeMove.block (running : s.place t = .running) (es : List Event)
    (log : s'.env.log = es ++ s.env.log) (lifeless : ∀ e ∈ es, e.Lifeless)
    (place : s'.place = Function.update s.place t (.blocked f)) (hub : s'.hub = s.hub) :
    LifeMove ⟨s, k⟩ ⟨s', k'⟩ := by
  refine .quiet es log lifeless (fun u => ?_) (by simp only [hub])
  simp only [place]
  by_cases hu : u = t
  · subst hu
    rw [Function.update_self]
    exact .of_live (by simp) (by simp [running])
  · rw [Function.update_of_ne hu]
    exact .refl _

theorem Move.lives {m m' : Moment} (hm : Move R m m') : LifeMove m m' := by
  cases hm with
  | enter | acquireWaits | releaseMeets | take | give | semInit | tick | poll | fallback =>
    exact .still [_] rfl (by simp [Event.Lifeless, Event.life, Event.loopLife]) rfl Iff.rfl
  | setExitFn | updateTime | others | turn | pick => exact .still [] rfl (by simp) rfl Iff.rfl
  | drop =>
    exact .still [_, _] rfl (by simp [Event.Lifeless, Event.life, Event.loopLife]) rfl Iff.rfl
  | @refuse s t k o called fails =>
    cases o with
    | submitted => exact absurd rfl fails
    | noMemory =>
      exact .still [_] rfl (by simp [Event.Lifeless, Event.life, Event.loopLife]) rfl Iff.rfl
    | failed =>
      exact .still [_, _, _] rfl (by simp [Event.Lifeless, Event.life, Event.loopLife]) rfl Iff.rfl
  | @pause s f entered kind =>
    exact .block (f := f) entered.running [] (by simp) (by simp) (by simp) (by simp)
  | @sleep s f timeout ref entered pending nonneg kind =>
    rw [Sched.arm_eq]
    exact .block (f := f) entered.running [_] (by simp; rfl)
      (by simp [Event.Lifeless, Event.life, Event.loopLife]) (by simp) (by simp)
  | @lookup s f entered pending =>
    exact .block (f := f) entered.running [.submitted f.call s.env.nextReq, .malloc s.env.nextReq]
      (by simp [Sched.submit, Env.submit, Env.mallocReq])
      (by simp [Event.Lifeless, Event.life, Event.loopLife]) (by simp [Sched.submit])
      (by simp [Sched.submit])
  | @queueReceive s f ch entered pending alone =>
    exact .block (f := f) entered.running [.blocked (.receivers ch) f.call]
      (by simp [Sched.emit, Env.emit]) (by simp [Event.Lifeless, Event.life, Event.loopLife])
      (by simp [Sched.emit]) (by simp [Sched.emit])
  | @queueSend s f ch v entered pending alone =>
    exact .block (f := f) entered.running [.blocked (.senders ch) f.call]
      (by simp [Sched.emit, Env.emit]) (by simp [Event.Lifeless, Event.life, Event.loopLife])
      (by simp [Sched.emit]) (by simp [Sched.emit])
  | @meetSender s f ch u us x entered op pending partner =>
    exact .block (f := f) entered.running [.handover ch (s.env.inCall u) f.call (s.offer u)]
      (by simp [Sched.emit, Env.emit]) (by simp [Event.Lifeless, Event.life, Event.loopLife])
      (by simp [Sched.emit]) (by simp [Sched.emit])
  | @meetReceiver s f ch v u us x entered op pending partner =>
    exact .block (f := f) entered.running [.handover ch f.call (s.env.inCall u) v]
      (by simp [Sched.emit, Env.emit]) (by simp [Event.Lifeless, Event.life, Event.loopLife])
      (by simp [Sched.emit]) (by simp [Sched.emit])
  | @die s t running main => exact .die t rfl running rfl rfl
  | @fire s t ts x hub control first due active f place pending =>
    refine .still [.fired (s.env.armedBy t)] ?_
      (by simp [Event.Lifeless, Event.life, Event.loopLife]) rfl ?_
    · simp only [Sched.fire, Env.timerStop_eq _ active]
      rfl
    · simp [Sched.fire, hub]
  | @answer s r error res my x hub control active data f place pending =>
    exact .still [_, _] rfl (by simp [Event.Lifeless, Event.life, Event.loopLife]) rfl
      (by simp [hub])
  | @resume s u x f died away place dead =>
    obtain ⟨tm, hs, n, he⟩ := Sched.resume_shape place x died
    refine .quiet (f.returns (f.pending.result x) s.env.counter ++ s.env.switching (some u) died)
      (by rw [he]; simp) ?_ ?_ (by rw [Sched.resume_hub place])
    · intro e hev
      rcases List.mem_append.mp hev with hev | hev
      · exact Frame.returns_lifeless e hev
      · exact Env.switching_lifeless e hev
    · intro t
      rw [Sched.resume_place place]
      by_cases ht : t = u
      · subst ht
        rw [Function.update_self]
        exact .of_live (by simp) (by simp [place])
      · rw [Function.update_of_ne ht]
        exact .refl _
  | @start s u away new => exact .start u rfl new rfl rfl
  | @enterHub s died away ready dead =>
    rw [Sched.enterHub_eq]
    cases hh : s.hub with
    | running => exact absurd hh away.hub
    | idle =>
      exact .runStart (s.env.switching none died) (by simp [Sched.entryEvents, hh])
        Env.switching_lifeless rfl hh rfl
    | suspended ph =>
      exact .still (s.env.switching none died) (by simp [Sched.entryEvents, hh])
        Env.switching_lifeless rfl (by simp [hh])
  | @hubEnd s hub dead => exact .runEnd rfl rfl hub rfl
  | @init s t main free => exact .init t rfl free rfl rfl

end

namespace Lifecycle
variable {R : Rules} {s : Sched} {m m' : Moment}

theorem initial (h : s.Initial) : Lifecycle ⟨s, none⟩ where
  alive t := by
    rw [h.log, h.place]
    by_cases ht : t = s.main
    · subst ht; simp [Gevent.alive, latest, Event.life]
    · simp [Gevent.alive, latest, Event.life, ht, Ne.symm ht]
  inRun := by simp [h.log, h.hub, Gevent.inRun, latest, Event.loopLife]

theorem step (h : Lifecycle m) (hm : LifeMove m m') : Lifecycle m' := by
  cases hm with
  | quiet es log lifeless places hub =>
    refine ⟨fun t => ?_, ?_⟩
    · rw [log, Gevent.alive, latest_append fun e he => (lifeless e he).1 t, (places t).1]
      exact h.alive t
    · rw [log, Gevent.inRun, latest_append fun e he => (lifeless e he).2, Ne, hub]
      exact h.inRun
  | die t log running place hub =>
    refine ⟨fun u => ?_, by rw [log, hub]; exact h.inRun⟩
    rw [log, place]
    by_cases hu : u = t
    · subst hu; simp [Gevent.alive, latest, Event.life]
    · simpa [Gevent.alive, latest, Event.life, hu, Ne.symm hu] using h.alive u
  | start t log new place hub =>
    refine ⟨fun u => ?_, by rw [log, hub]; exact h.inRun⟩
    rw [log, place]
    by_cases hu : u = t
    · subst hu; simp [Gevent.alive, latest, Event.life]
    · simpa [Gevent.alive, latest, Event.life, hu, Ne.symm hu] using h.alive u
  | init t log free place hub =>
    refine ⟨fun u => ?_, by rw [log, hub]; exact h.inRun⟩
    rw [log, place]
    by_cases hu : u = t
    · subst hu; simp [Gevent.alive, latest, Event.life]
    · simpa [Gevent.alive, latest, Event.life, hu, Ne.symm hu] using h.alive u
  | runStart es log lifeless place idle hub =>
    refine ⟨fun t => ?_, ?_⟩
    · rw [log, place, List.cons_append]
      change latest (Event.life t) false (es ++ m.sched.env.log) = true ↔ _
      rw [latest_append fun e he => (lifeless e he).1 t]
      exact h.alive t
    · simp [log, hub, Gevent.inRun, latest, Event.loopLife]
  | runEnd log place running hub =>
    refine ⟨fun t => ?_, ?_⟩
    · rw [log, place]
      exact h.alive t
    · simp [log, hub, Gevent.inRun, latest, Event.loopLife]

end Lifecycle

theorem scheduler_lifecycle {ok : Sched → World.Action → Prop} {s : Sched}
    (r : scheduler.Reach ok s) : Lifecycle ⟨s, none⟩ :=
  scheduler_invariant (P := Lifecycle) (fun _ h => .initial h) (fun _ _ _ h hm => h.step hm.lives)
    (Rules.reach_any r)

end Gevent
