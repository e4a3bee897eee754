import Gevent.AlarmClock
import Gevent.Refine.Scribble
import Gevent.Refine.Views
import Gevent.Sched.Quiet

/-!
# gevent.c over timer.c

The two in one process. `World` keeps the timers of the loop as a list; here
every call that gevent.c and `uv_run` make of timer.c is a call of the functions
of `UvLoop`, which walk the tree of pointers. The timer of a cothread is in its
union: what the cothread has used it for since is lost when `uv_timer_init`
gets it.
-/

namespace Gevent
open UvLoop RedBlack

/-- What the union of a cothread holds, read as a timer. -/
structure UnionWords where
  timer : Timer
  entry : Side → Option Tid
  parent : Option Tid
  color : Color

/-- The calls of `_sleep_internal` before `gevent_yield`. -/
def UnionWords.sleepCalls (m : UnionWords) (t : Tid) (timeout : Int) (ref : Bool) :
    List UvLoop.Action :=
  [.reuse t m.timer m.entry m.parent m.color, .init t, .start t timeout 0] ++
    if ref then [] else [.unref t]

namespace World

/-- The calls of timer.c in a step, up to where control leaves the code that it
enters. -/
def firstCalls (w : World) (m : UnionWords) : Action → List UvLoop.Action
  | .call (.sleep timeout) =>
    match w.control with
    | .user t => m.sleepCalls t timeout true
    | .hub _ => []
  | .call (.wait timeout) =>
    match w.control with
    | .user t => if 0 < timeout then m.sleepCalls t timeout false else []
    | .hub _ => []
  | .timers => [.run]
  | .iterate => if w.env.uvLoopAlive then [.updateTime w.env.clock] else []
  | .updateTime => [.updateTime w.env.clock]
  | _ => []

/-- A cothread that continues in `_sleep_internal` stops its timer, whatever
woke it. -/
def lastCalls (w w' : World) : List UvLoop.Action :=
  match w'.control with
  | .user u => if (w.frame u).any fun f => f.pending = .sleep then [.stop u] else []
  | .hub _ => []

/-- The calls of timer.c in the step from `w` to `w'`. -/
def timerCalls (w : World) (m : UnionWords) (a : Action) (w' : World) : List UvLoop.Action :=
  w.firstCalls m a ++ w.lastCalls w'

end World

structure TimedHub where
  world : World
  timers : UvLoop

namespace TimedHub

inductive Fault where
  | gevent (f : Gevent.Fault)
  | timer (f : UvFault)

/-- A step of gevent.c or the loop, and the contents of the union whose timer it
initialises, if it does. -/
structure Action where
  step : World.Action
  union : UnionWords

def exec (x : TimedHub) (a : Action) : Except Fault TimedHub :=
  match x.world.exec a.step with
  | .error f => .error (.gevent f)
  | .ok w =>
    match timerc.execs x.timers (x.world.timerCalls a.union a.step w) with
    | .error f => .error (.timer f)
    | .ok u => .ok ⟨w, u⟩

end TimedHub

/-- Every program of cothreads, with timers that timer.c keeps. -/
def timedHub : Machine TimedHub TimedHub.Action TimedHub.Fault where
  start x := gevent.start x.world ∧ timerc.start x.timers ∧ x.timers.time = x.world.env.loop.time
  legal x a := x.world.Legal a.step
  exec := TimedHub.exec

instance (x : TimedHub) (a : TimedHub.Action) : Decidable (timedHub.legal x a) :=
  inferInstanceAs (Decidable (x.world.Legal a.step))

/-! ## The two keep in step -/

namespace UvLoop

/-- The tree of pointers holds what the list of timers says. -/
structure Tracks (u : UvLoop) (e : Env) : Prop where
  time : u.time = e.loop.time
  kept : u.Kept e.loop.timerHandles
  timer : ∀ t ∈ e.loop.timerHandles, u.timer t = e.timer t

/-- The calls are legal and succeed, make the callbacks `due`, and lead to what
the list of timers then says. -/
structure Answers (u v : UvLoop) (calls : List Action) (e : Env) (due : List Tid) : Prop where
  run : timerc.play anyStep u calls = some v
  tracks : v.Tracks e
  fired : v.fired = due ++ u.fired

/-- timer.c does what a step from `e` to `e'` asks of it, and each of its callbacks
ends the call that has armed the timer. -/
def Serves (u : UvLoop) (calls : List Action) (e e' : Env) : Prop :=
  ∃ v due, u.Answers v calls e' due ∧ e'.firedCalls = due.map e.armedBy ++ e.firedCalls

variable {u v u' : UvLoop} {e e' : Env} {t : Tid} {s s' : Sched} {f : Frame}

theorem Answers.serves {calls : List Action} (h : u.Answers v calls e' [])
    (fired : e'.firedCalls = e.firedCalls) : u.Serves calls e e' :=
  ⟨v, [], h, fired⟩

theorem Answers.append {first rest : List Action} {due due' : List Tid}
    (h : u.Answers v first e due) (h' : v.Answers u' rest e' due') :
    u.Answers u' (first ++ rest) e' (due' ++ due) where
  run := Machine.play_append h.run h'.run
  tracks := h'.tracks
  fired := by rw [h'.fired, h.fired, List.append_assoc]

namespace Tracks

theorem quiet (h : u.Tracks s.env) (q : s.Quiet s') : u.Answers u [] s'.env [] where
  run := rfl
  tracks :=
    { time := h.time.trans q.time.symm
      kept := by
        rw [q.timers.handles]
        exact h.kept
      timer := by
        rw [q.timers.handles, q.timers.timer]
        exact h.timer }
  fired := rfl

/-- `uv_update_time` -/
theorem update (h : u.Tracks e) :
    ∃ v, u.Answers v [.updateTime e.clock] e.uvUpdateTime [] :=
  ⟨_, Machine.play_cons trivial trivial rfl rfl, ⟨rfl, h.kept.updateTime _, h.timer⟩, rfl⟩

/-- The timer of a cothread that does not sleep is initialised and started, and
for `gevent_wait` the loop does not wait for it. -/
theorem arm (h : u.Tracks s.env) (free : t ∉ s.env.loop.timerHandles) (m : UnionWords)
    (k : CallId) {timeout : Int} (nonneg : 0 ≤ timeout) (ref : Bool) :
    ∃ v, u.Answers v (m.sleepCalls t timeout ref) (s.arm t k timeout.toNat ref).env [] := by
  have ne : ∀ x ∈ s.env.loop.timerHandles, x ≠ t := by
    rintro x hx rfl
    exact free hx
  -- the union held something else
  have unset : ¬ u.Pending t := fun set => free ((h.kept.pending t).mpr set)
  let u₀ := u.reuse t m.timer m.entry m.parent m.color
  have kept₀ : u₀.Kept s.env.loop.timerHandles := h.kept.reuse unset ..
  have others₀ : ∀ x ∈ s.env.loop.timerHandles, u₀.timer x = s.env.timer x := fun x hx => by
    rw [← h.timer x hx]
    simp [u₀, UvLoop.reuse, setTimer, ne x hx]
  -- uv_timer_init
  have unset₀ : ¬ u₀.Pending t := fun set => free ((kept₀.pending t).mpr set)
  have kept₁ := kept₀.init unset₀
  have ht₁ : (u₀.timerInit t).inited t = true := by simp [timerInit]
  have self₁ : ((u₀.timerInit t).timer t).ref = true := by simp [timerInit, setTimer]
  have others₁ : ∀ x ∈ s.env.loop.timerHandles, (u₀.timerInit t).timer x = s.env.timer x :=
    fun x hx => by
      rw [← others₀ x hx]
      simp [timerInit, setTimer, ne x hx]
  -- uv_timer_start
  obtain ⟨u₂, run₂, wrote₂, kept₂⟩ := kept₁.start ht₁ timeout 0 nonneg (by omega) (by omega)
  have self₂ : u₂.timer t =
      ⟨true, true, true, (s.env.loop.time + timeout.toNat) % 2 ^ 64, 0⟩ := by
    rw [wrote₂.self, self₁, ← h.time]
    rfl
  have others₂ : ∀ x ∈ s.env.loop.timerHandles, u₂.timer x = s.env.timer x := fun x hx => by
    rw [wrote₂.other (ne x hx), others₁ x hx]
  have list : ∀ tm : Timer, tm.timeout = (s.env.loop.time + timeout.toNat) % 2 ^ 64 →
      rbInsert (uvTimerCmp u₂.timer) t (s.env.loop.timerHandles.erase t) =
        rbInsert (uvTimerCmp (Function.update s.env.timer t tm)) t s.env.loop.timerHandles := by
    intro tm htm
    rw [List.erase_of_not_mem free]
    apply Env.rbInsert_congr
    intro y hy
    simp [uvTimerCmp, self₂, others₂ y hy, ne y hy, htm]
  have tracks : ∀ v : UvLoop, v.time = u₂.time →
      v.timer = Function.update u₂.timer t
        ⟨true, ref, true, (s.env.loop.time + timeout.toNat) % 2 ^ 64, 0⟩ →
      v.Kept (rbInsert (uvTimerCmp u₂.timer) t (s.env.loop.timerHandles.erase t)) →
      v.Tracks (s.arm t k timeout.toNat ref).env := by
    intro v time timer kept
    rw [Sched.arm_eq]
    refine ⟨?_, ?_, fun x hx => ?_⟩
    · rw [time, wrote₂.time]
      exact h.time
    · rwa [list ⟨true, ref, true, (s.env.loop.time + timeout.toNat) % 2 ^ 64, 0⟩ rfl] at kept
    · rw [timer]
      rcases mem_insert.mp hx with rfl | hx
      · simp
      · simp [ne x hx, others₂ x hx]
  have upTo : ∀ {rest : List Action} {v : UvLoop}, timerc.play anyStep u₂ rest = some v →
      timerc.play anyStep u ([.reuse t m.timer m.entry m.parent m.color, .init t,
        .start t timeout 0] ++ rest) = some v := by
    intro rest v run
    exact Machine.play_cons unset trivial rfl <| Machine.play_cons unset₀ trivial rfl <|
      Machine.play_cons ⟨ht₁, nonneg, by omega, by omega⟩ trivial run₂ run
  cases ref with
  | true =>
    refine ⟨u₂, upTo rfl, tracks u₂ rfl ?_ kept₂, wrote₂.fired⟩
    rw [← self₂, Function.update_eq_self]
  | false =>
    -- uv_unref
    have ht₂ : u₂.inited t = true := by rw [wrote₂.inited, ht₁]
    obtain ⟨u₃, run₃, wrote₃, kept₃⟩ := kept₂.setRef ht₂ false
    have run : timerc.play anyStep u₂ [.unref t] = some u₃ :=
      Machine.play_cons ht₂ trivial (congrArg Except.ok run₃) rfl
    refine ⟨u₃, upTo run, tracks u₃ wrote₃.time ?_ kept₃, wrote₃.fired.trans wrote₂.fired⟩
    rw [wrote₃.timer, self₂]

/-- A sleeper continues: `uv_timer_stop`, on a timer that is set or has fired. -/
theorem wake (h : u.Tracks s.env) (inited : u.inited t = true) {es : List Event}
    (out : TimerOut s.env s'.env t f es) :
    ∃ v, u.Answers v [.stop t] s'.env [] := by
  obtain ⟨v, run, wrote, kept⟩ := h.kept.stop inited
  refine ⟨v, Machine.play_cons inited trivial run rfl,
    ⟨(wrote.time.trans h.time).trans out.time.symm, by rwa [out.handles], fun x hx => ?_⟩,
    wrote.fired⟩
  rw [out.handles] at hx
  obtain ⟨hxt, hx⟩ := h.kept.nodup.mem_erase_iff.mp hx
  rw [wrote.other hxt, h.timer x hx, out.timer x hxt]

/-- A turn of the loop of `uv__run_timers`. -/
theorem fire {ts : List Tid} (h : u.Tracks s.env) (first : s.env.loop.timerHandles = t :: ts)
    (due : (s.env.timer t).timeout ≤ s.env.loop.time) (once : (s.env.timer t).rpt = 0)
    (active : (s.env.timer t).active = true) :
    ∃ v, u.Answers v [.run] (s.fire t).env [t] ∧ v.inited t = true := by
  have kept := h.kept
  have timer := h.timer t (by simp [first])
  rw [first] at kept
  have fresh := (List.nodup_cons.mp kept.nodup).1
  obtain ⟨v, run, time, inited, fired, written, kept'⟩ :=
    kept.ring (by rw [timer, h.time]; exact due)
  have env : (s.fire t).env = (s.env.timerStop t).emit (.fired (s.env.armedBy t)) := by
    simp [Sched.fire, Sched.emit, Env.emit, Env.timerStop_eq _ active]
  have exec : timerc.exec u .run = .ok v := by
    show (·.getD u) <$> u.runTimer = .ok v
    rw [run]
    rfl
  refine ⟨v, ⟨Machine.play_cons trivial trivial exec rfl, ?_, fired⟩, ?_⟩
  · rw [env, Env.timerStop_eq _ active]
    refine ⟨time.trans h.time, ?_, fun x hx => ?_⟩
    · simpa [timer, once, first, Env.emit] using kept'
    · have later : x ∈ ts := by simpa [first, Env.emit] using hx
      have hxt : x ≠ t := by
        rintro rfl
        exact fresh later
      simp [Env.emit, written, hxt, h.timer x (by simp [first, later])]
  · rw [inited]
    exact ((kept.pending t).mp List.mem_cons_self).1

/-- The loop of `uv__run_timers` ends. -/
theorem poll (h : u.Tracks s.env)
    (later : ∀ t ∈ s.env.loop.timerHandles, s.env.loop.time < (s.env.timer t).timeout) :
    u.Answers u [.run] s.poll.env [] := by
  have quiet := h.kept.quiet fun t ht => by
    rw [h.time, h.timer t ht]
    exact later t ht
  have exec : timerc.exec u .run = .ok u := by
    show (·.getD u) <$> u.runTimer = .ok u
    rw [quiet]
    rfl
  exact ⟨Machine.play_cons trivial trivial exec rfl, ⟨h.time, h.kept, h.timer⟩, rfl⟩

end Tracks
end UvLoop

namespace Paired
variable {w w' : World} {s s' s₁ : Sched} {u : UvLoop} {t : Tid} {f : Frame} {x : Leftover}
  {died : Option Tid} {a : World.Action}

theorem lastCalls_awake (p : Paired w s)
    (awake : ∀ t f, w'.control = .user t → s.place t = .blocked f → f.pending ≠ .sleep) :
    w.lastCalls w' = [] := by
  rw [World.lastCalls]
  split
  · next t control =>
    refine if_neg fun asleep => ?_
    simp only [Option.any_eq_true, decide_eq_true_eq] at asleep
    obtain ⟨f, frame, pending⟩ := asleep
    exact awake t f control ((p.frame_eq t).mp frame) pending
  · rfl

theorem lastCalls_sleeper (p : Paired w s) (control : w'.control = .user t)
    (place : s.place t = .blocked f) (pending : f.pending = .sleep) :
    w.lastCalls w' = [.stop t] := by
  have frame := (p.frame_eq t).mpr place
  simp [World.lastCalls, control, frame, pending]

/-- What a stack that has ended hands on to. -/
theorem handOn_serves (p : Paired w s) (b : Base ⟨s₁, none⟩) (away : s₁.Away)
    (reason : (∃ t l, s₁.env.log = .finish t :: l) ∨
      (∃ l, s₁.env.log = .runEnd :: l) ∧ s₁.env.uvLoopAlive = false)
    (same : ∀ t f, s₁.place t = .blocked f ↔ s.place t = .blocked f) (h : u.Tracks s₁.env)
    (control : w'.control = (s₁.handOn x died).control) :
    u.Serves (w.lastCalls w') s₁.env (s₁.handOn x died).env := by
  obtain quiet | ⟨ready, idle, last, f, place, pending⟩ := Sched.handOn_quiet b.core away x died
  · rw [p.lastCalls_awake fun t f hc hp => quiet.awake t f (control ▸ hc) ((same t f).mpr hp)]
    exact (h.quiet quiet).serves quiet.fired
  · let s₂ := s₁.emit (.fallback (s₁.env.inCall s₁.main))
    have moved : Base ⟨s₂, some (s₁.main, x)⟩ :=
      b.move (R := .any) (.fallback x away ready idle reason trivial)
    have out := Sched.resume_sleeper moved place pending died
    have armed : s₁.main ∈ s₁.env.loop.timerHandles :=
      (b.timers.sleeper _ f place pending).2.2.resolve_right fun ⟨_, hx⟩ => by cases hx
    have inited := ((h.kept.pending _).mp armed).1
    have tracks : u.Tracks s₂.env := ⟨h.time, h.kept, h.timer⟩
    rw [last] at control ⊢
    have place₂ : s₂.place s₁.main = .blocked f := place
    replace control := control.trans (Sched.resume_control place₂ x died)
    rw [p.lastCalls_sleeper control ((same _ f).mp place) pending]
    obtain ⟨v, answers⟩ := tracks.wake inited out
    exact answers.serves (out.firedCalls.trans rfl)

/-- A step in which nobody sleeps or wakes up. -/
theorem quiet_serves (p : Paired w s) (h : u.Tracks s.env) (m : UnionWords)
    (first : w.firstCalls m a = []) (p' : Paired w' s') (quiet : s.Quiet s') :
    u.Serves (w.timerCalls m a w') s.env s'.env := by
  have last : w.lastCalls w' = [] :=
    p.lastCalls_awake fun t f hc hp => quiet.awake t f (p'.control ▸ hc) hp
  rw [World.timerCalls, first, last]
  exact (h.quiet quiet).serves quiet.fired

/-- The loop updates its time. -/
theorem update_serves (p : Paired w s) (h : u.Tracks s.env) (m : UnionWords)
    (first : w.firstCalls m a = [.updateTime s.env.clock]) (p' : Paired w' s')
    (update : s'.env = s.env.uvUpdateTime)
    (control : ∀ t, s'.control = .user t → s.control = .user t) :
    u.Serves (w.timerCalls m a w') s.env s'.env := by
  have last : w.lastCalls w' = [] := p.lastCalls_awake fun t f hc hp => by
    rw [p.settled.user (control t (p'.control ▸ hc))] at hp
    cases hp
  obtain ⟨v, answers⟩ := h.update
  rw [World.timerCalls, first, last, update]
  exact answers.serves rfl

/-- `_sleep_internal` -/
theorem sleep_serves (p : Paired w s) (h : u.Tracks s.env) (m : UnionWords) {k : CallId}
    {op : Call} {timeout : Int} {ref : Bool} (control : s.control = .user t)
    (nonneg : 0 ≤ timeout) (first : w.firstCalls m a = m.sleepCalls t timeout ref)
    (p' : Paired w' ((s.enter t op).sleepInternal x t k op timeout ref)) :
    u.Serves (w.timerCalls m a w') s.env
      ((s.enter t op).sleepInternal x t k op timeout ref).env := by
  have running := p.settled.user control
  let f : Frame := ⟨t, k, op, .sleep, .program⟩
  let s₁ := (s.enter t op).arm t k timeout.toNat ref
  have entered : u.Tracks (s.enter t op).env := ⟨h.time, h.kept, h.timer⟩
  have free := p.base.timers.not_armed (t := t) (by simp [running])
  obtain ⟨v, answers⟩ := entered.arm free m k nonneg ref
  have eq := Sched.arm_eq (s.enter t op) t k timeout.toNat ref
  have place : s₁.place = s.place := by
    simp only [s₁, eq]
    rfl
  have core : Core ⟨s₁, none⟩ := by
    simp only [s₁, eq]
    exact p.base.core.env _ rfl
  have quiet : (s₁.block t f).Quiet ((s₁.block t f).yield x) :=
    Sched.quiet_yield core (by rw [place, running]) (by simp [f, Pending.queue]) x
  have last : w.lastCalls w' = [] := by
    refine p.lastCalls_awake fun t' g hc hg => quiet.awake t' g (p'.control ▸ hc) ?_
    refine Sched.suspended_update (s := s₁) (t := t) ?_ (Sched.block_place ..) t' g (by rwa [place])
    simp [place, running]
  have tracks : v.Tracks (s₁.block t f).env := by
    rw [Sched.block_env]
    exact answers.tracks
  have fired : (s₁.block t f).env.firedCalls = s.env.firedCalls := by
    simp only [Sched.block_env, s₁, eq]
    rfl
  rw [World.timerCalls, first, last]
  exact (answers.append (tracks.quiet quiet)).serves (quiet.fired.trans fired)

theorem call_serves (p : Paired w s) (h : u.Tracks s.env) (m : UnionWords) {c : Call}
    (control : s.control = .user t) (valid : s.fault (.call c) = none)
    (p' : Paired w' ((s.enter t c).perform x t s.env.calls c)) :
    u.Serves (w.timerCalls m (.call c) w') s.env
      ((s.enter t c).perform x t s.env.calls c).env := by
  have control' : w.control = .user t := p.control.trans control
  have other (first : w.firstCalls m (.call c) = []) (awake : ∀ d, c ≠ .sleep d)
      (waits : ∀ d, 0 < d → c ≠ .wait d) : u.Serves (w.timerCalls m (.call c) w') s.env
        ((s.enter t c).perform x t s.env.calls c).env := by
    have core : Core ⟨s.enter t c, none⟩ := p.base.core.env _ rfl
    refine p.quiet_serves h m first p' <| Sched.quiet_enter <|
      Sched.quiet_perform core (p.settled.user control) control ?_ awake waits x
    rintro u rfl
    have new : s.place u = .new := by simpa [Sched.fault] using valid
    exact new
  cases c with
  | sleep d =>
    have nonneg : 0 ≤ d := by simpa [Sched.fault] using valid
    exact p.sleep_serves h m control nonneg (by simp only [World.firstCalls, control']) p'
  | wait d =>
    by_cases positive : 0 < d
    · rw [Sched.perform, if_pos positive] at p' ⊢
      refine p.sleep_serves h m control (by omega) ?_ p'
      simp only [World.firstCalls, control', if_pos positive]
    · refine other (by simp only [World.firstCalls, control', if_neg positive]) (by simp) ?_
      rintro d' hd ⟨⟩
      exact positive hd
  | spawn u | receive ch | send ch v | acquire sem | release sem | getaddrinfo o =>
    exact other rfl (by simp) (by simp)

theorem finish_serves (p : Paired w s) (h : u.Tracks s.env) (m : UnionWords)
    (control : s.control = .user t) (main : t ≠ s.main) (p' : Paired w' (s.finish x t)) :
    u.Serves (w.timerCalls m .finish w') s.env (s.finish x t).env := by
  have running := p.settled.user control
  let s₁ := (s.emit (.finish t)).setPlace t .dead
  have moved : Base ⟨s₁, none⟩ := p.base.move (R := .any) (.die running main)
  have same : ∀ u f, s₁.place u = .blocked f ↔ s.place u = .blocked f := by
    intro u f
    by_cases hu : u = t
    · simp [s₁, Sched.setPlace, hu, running]
    · simp [s₁, Sched.setPlace, Sched.emit, hu]
  exact p.handOn_serves moved (p.base.core.away_of_die running) (.inl ⟨t, s.env.log, rfl⟩) same
    ⟨h.time, h.kept, h.timer⟩ p'.control

theorem iterate_serves (p : Paired w s) (h : u.Tracks s.env) (m : UnionWords)
    (hub : s.hub = .running) (control : s.control ≠ .hub .timers) (p' : Paired w' (s.iterate x)) :
    u.Serves (w.timerCalls m .iterate w') s.env (s.iterate x).env := by
  cases live : s.env.uvLoopAlive with
  | true =>
    have next : s.iterate x = { s with env := s.env.uvUpdateTime, control := .hub .timers } := by
      simp only [Sched.iterate, live, if_true]
    refine p.update_serves h m ?_ p' (by rw [next]) (by simp [next])
    simp only [World.firstCalls, live, if_true, p.env]
  | false =>
    let s₁ : Sched := { s.emit .runEnd with hub := .idle }
    have moved : Base ⟨s₁, none⟩ := p.base.move (R := .any) (.hubEnd hub control live)
    have next : s.iterate x = s₁.handOn x none := by
      simp only [Sched.iterate, live, if_neg Bool.false_ne_true]
      rfl
    rw [next] at p' ⊢
    rw [World.timerCalls, World.firstCalls, p.env, live]
    exact p.handOn_serves moved ⟨p.base.core.nobody hub, by simp [s₁]⟩
      (.inr ⟨⟨s.env.log, rfl⟩, live⟩) (fun _ _ => Iff.rfl) ⟨h.time, h.kept, h.timer⟩ p'.control

/-- A turn of the loop of `uv__run_timers`, up to where the sleeper stops its timer. -/
theorem timers_serves (p : Paired w s) (h : u.Tracks s.env) (m : UnionWords)
    (control : s.control = .hub .timers) (p' : Paired w' (s.timers x)) :
    u.Serves (w.timerCalls m .timers w') s.env (s.timers x).env := by
  have hub := p.settled.loop control
  have ended (later : ∀ t ∈ s.env.loop.timerHandles, s.env.loop.time < (s.env.timer t).timeout)
      (ends : s.timers x = s.poll) : u.Serves (w.timerCalls m .timers w') s.env
        (s.timers x).env := by
    have last : w.lastCalls w' = [] := p.lastCalls_awake fun t f hc _ => by
      rw [p'.control, ends] at hc
      cases hc
    rw [World.timerCalls, last, ends]
    exact (h.poll later).serves rfl
  cases first : s.env.loop.timerHandles with
  | nil => exact ended (by simp [first]) (by simp only [Sched.timers, first])
  | cons t ts =>
    by_cases due : (s.env.timer t).timeout ≤ s.env.loop.time
    · have turn : s.timers x = (s.fire t).resume t x none := by
        simp only [Sched.timers, first, if_neg (Nat.not_lt.mpr due)]
      obtain ⟨active, -, once, f, place, pending, -⟩ := p.base.timers.armed t (by simp [first])
      obtain ⟨v, answers, inited⟩ := h.fire first due once active
      have moved : Base ⟨s.fire t, some (t, x)⟩ :=
        p.base.move (R := .any) (.fire x hub control first due active place pending)
      have out := Sched.resume_sleeper moved place pending none
      rw [← turn] at out
      have resumed : w'.control = .user t := by
        rw [p'.control, turn]
        exact Sched.resume_control (s := s.fire t) place x none
      have fired : (s.fire t).env.firedCalls = s.env.armedBy t :: s.env.firedCalls := by
        rw [Sched.fire, Env.timerStop_eq _ active]
        rfl
      obtain ⟨v', answers'⟩ := answers.tracks.wake inited out
      rw [World.timerCalls, p.lastCalls_sleeper resumed place pending]
      exact ⟨v', [t], answers.append answers', out.firedCalls.trans fired⟩
    · refine ended (fun t' ht' => ?_) (by simp only [Sched.timers, first, if_pos (Nat.not_le.mp due)])
      have sorted := h.kept.sorted
      rw [first] at sorted ht'
      rcases List.mem_cons.mp ht' with rfl | later
      · exact Nat.not_le.mp due
      · have before := (List.pairwise_cons.mp sorted).1 t' later
        rw [uvTimerCmp_lt, h.timer t (by simp [first]), h.timer t' (by simp [first, later])] at before
        omega

/-- Every step of gevent.c calls timer.c by its rules. -/
theorem step_serves (p : Paired w s) (h : u.Tracks w.env) (m : UnionWords) (legal : w.Legal a)
    (exec : w.exec a = .ok w') : u.Serves (w.timerCalls m a w') w.env w'.env := by
  obtain ⟨valid, x, p'⟩ := p.exec_next legal exec
  have allowed := p.toCorr.allowed p.base legal
  rw [p.env] at h ⊢
  rw [p'.env]
  have here : ∀ t, s.control = .user t → s.place t = .running := fun t hc => p.settled.user hc
  cases a with
  | call c =>
    cases control : s.control with
    | hub ph =>
      have called : s.control.owner.isSome := by
        cases c <;> first | exact allowed | exact allowed.1
      simp [control, Control.owner] at called
    | user t =>
      simp only [Sched.next, control] at p' ⊢
      exact p.call_serves h m control valid p'
  | finish =>
    cases control : s.control with
    | hub ph => simp [Sched.Allowed, control, Control.owner] at allowed
    | user t =>
      have main : t ≠ s.main := by simpa [Sched.Allowed, control, Control.owner] using allowed
      simp only [Sched.next, control] at p' ⊢
      exact p.finish_serves h m control main p'
  | timers => exact p.timers_serves h m allowed p'
  | iterate =>
    have hub : s.hub = .running := by rcases allowed with h | h <;> exact p.settled.loop h
    have control : s.control ≠ .hub .timers := by rcases allowed with h | h <;> rw [h] <;> simp
    exact p.iterate_serves h m hub control p'
  | updateTime =>
    exact p.update_serves h m (by rw [World.firstCalls, p.env]) p' rfl fun _ hc => hc
  | resolve r error res =>
    exact p.quiet_serves h m rfl p' (Sched.quiet_resolve here valid x)
  | cothreadInit t run | setExitFn t b | channelInit ch | semaphoreInit sem c | others n
  | handleInit n | handleClose n | tick d =>
    exact p.quiet_serves h m rfl p' (.stay here rfl ⟨rfl, rfl, rfl⟩ rfl)

end Paired

theorem initial_tracks {w : World} {u : UvLoop} (hw : gevent.start w) (hu : u.Initial)
    (time : u.time = w.env.loop.time) : u.Tracks w.env := by
  obtain ⟨w₀, main, raw, rfl⟩ := hw
  have timers : (w₀.hubInit main).env.loop.timerHandles = [] := raw.timers
  refine ⟨time, ?_, fun t ht => ?_⟩
  · rw [timers]
    exact .initial hu
  · rw [timers] at ht
    cases ht

namespace TimedHub

/-- What a step of gevent.c does in timer.c. -/
structure Called (x x' : TimedHub) (a : Action) : Prop where
  /-- The calls are legal, and succeed. -/
  run : timerc.play anyStep x.timers (x.world.timerCalls a.union a.step x'.world) = some x'.timers
  /-- Its callbacks end the calls that have armed the timers. -/
  fired : ∃ due, x'.timers.fired = due ++ x.timers.fired ∧
    x'.world.env.firedCalls = due.map x.world.env.armedBy ++ x.world.env.firedCalls

structure Sound (x : TimedHub) : Prop where
  gevent : gevent.Reach anyStep x.world
  timerc : timerc.Reach anyStep x.timers
  tracks : x.timers.Tracks x.world.env

variable {x x' : TimedHub} {w : World} {a : Action}

/-- A step of gevent.c that succeeds there succeeds with timer.c, too. -/
theorem Sound.step (h : x.Sound) (legal : x.world.Legal a.step)
    (exec : x.world.exec a.step = .ok w) :
    ∃ x', x.exec a = .ok x' ∧ x'.world = w ∧ x'.Sound ∧ x.Called x' a := by
  obtain ⟨s, p⟩ := reach_paired h.gevent
  obtain ⟨u, due, answers, fired⟩ := p.step_serves h.tracks a.union legal exec
  refine ⟨⟨w, u⟩, ?_, rfl, ⟨.step h.gevent legal trivial exec, h.timerc.play answers.run,
    answers.tracks⟩, answers.run, due, answers.fired, fired⟩
  simp only [TimedHub.exec, exec, Machine.execs_of_play answers.run]

theorem Sound.run (h : x.Sound) (legal : x.world.Legal a.step) (exec : x.exec a = .ok x') :
    x'.Sound := by
  cases run : x.world.exec a.step with
  | error f =>
    simp only [TimedHub.exec, run] at exec
    cases exec
  | ok w =>
    obtain ⟨x₁, exec₁, -, sound, -⟩ := h.step legal run
    obtain rfl := Except.ok.inj (exec₁.symm.trans exec)
    exact sound

end TimedHub

open TimedHub in
theorem reach_timed {x : TimedHub} (r : timedHub.Reach anyStep x) : x.Sound := by
  apply r.invariant (P := Sound)
  · rintro x ⟨hw, hu, time⟩
    exact ⟨.start hw, .start hu, initial_tracks hw hu time⟩
  · intro x a x' _ sound legal _ exec
    exact sound.run legal exec

/-- In every run the calls that gevent.c and the loop make of timer.c keep to its
rules and never fail, the tree of pointers holds the timers of the sleeping
cothreads, and each callback ends the call that has armed its timer. -/
theorem hub_keeps_timer_rules {x : TimedHub} (r : timedHub.Reach anyStep x) :
    gevent.Reach anyStep x.world ∧ timerc.Reach anyStep x.timers ∧
    x.timers.time = x.world.env.loop.time ∧
    x.timers.activeHandles = x.world.env.loop.activeHandles ∧
    x.timers.timerHandles.Lists x.world.env.loop.timerHandles ∧
    (∀ t, t ∈ x.world.env.loop.timerHandles ↔
      x.timers.alarms.deadline t = some (x.world.env.timer t).timeout) ∧
    (∀ t ∈ x.world.env.loop.timerHandles, x.timers.timer t = x.world.env.timer t) ∧
    ∀ (a : TimedHub.Action) w, x.world.Legal a.step → x.world.exec a.step = .ok w →
      ∃ x', x.exec a = .ok x' ∧ x'.world = w ∧ x.Called x' a := by
  have sound := reach_timed r
  have tracks := sound.tracks
  obtain ⟨s, p⟩ := reach_paired sound.gevent
  have same : x.world.env.loop.timerHandles.filter (fun t => (x.timers.timer t).ref) =
      x.world.env.loop.timerHandles.filter fun t => (x.world.env.timer t).ref :=
    List.filter_congr fun t ht => by rw [tracks.timer t ht]
  refine ⟨sound.gevent, sound.timerc, tracks.time, ?_, tracks.kept.tree,
    fun t => ⟨fun ht => ?_, fun set => ?_⟩, tracks.timer, fun a w legal exec => ?_⟩
  · rw [tracks.kept.active, same, p.env]
    exact p.base.timers.count.symm
  · exact deadline_eq_some.mpr ⟨(tracks.kept.pending t).mp ht, by rw [tracks.timer t ht]⟩
  · exact (tracks.kept.pending t).mpr (deadline_eq_some.mp set).1
  · obtain ⟨x', run, world, -, called⟩ := sound.step legal exec
    exact ⟨x', run, world, called⟩

/-- The program before its first call. -/
def TimedHub.init : TimedHub := ⟨zeroStart, UvLoop.init⟩

theorem TimedHub.init_start : timedHub.start TimedHub.init :=
  ⟨zeroStart_start, ⟨rfl, rfl, rfl, fun _ => rfl, rfl⟩, rfl⟩

set_option maxRecDepth 100000 in
/-- Cothread 1 sleeps for 5 ms and main for 9 ms, both in memory that has been in use;
the loop finds nothing due, and 6 ms later it ends the sleep of 1. -/
theorem hub_keeps_timer_rules_run : ∃ x x' a, timedHub.Reach anyStep x ∧ x.Called x' a ∧
    x.timers.timerHandles.Lists [1, 0] ∧ x'.timers.timerHandles.Lists [0] ∧
    x.timers.fired = [] ∧ x'.timers.fired = [1] ∧ x'.world.env.firedCalls = [1] := by
  let m : UnionWords := ⟨⟨true, false, true, 3, 7⟩, fun _ => some 0, some 1, .red⟩
  let run : List TimedHub.Action := [⟨.cothreadInit 1 1, m⟩, ⟨.call (.spawn 1), m⟩,
    ⟨.call (.sleep 5), m⟩, ⟨.call (.sleep 9), m⟩, ⟨.iterate, m⟩, ⟨.timers, m⟩, ⟨.tick 6, m⟩,
    ⟨.iterate, m⟩]
  have h : (timedHub.play anyStep TimedHub.init run).any (fun x => decide
      (x.world.env.loop.timerHandles = [1, 0] ∧ x.timers.fired = [] ∧
        (timedHub.play anyStep x [⟨.timers, m⟩]).any (fun x' => decide
          (x'.world.env.loop.timerHandles = [0] ∧ x'.timers.fired = [1] ∧
            x'.world.env.firedCalls = [1])) = true)) = true := by decide
  obtain ⟨x, reach, handles, before, turn⟩ := Machine.Reach.of_play TimedHub.init_start h
  simp only [Option.any_eq_true, decide_eq_true_eq] at turn
  obtain ⟨x', played, handles', after, calls⟩ := turn
  obtain ⟨-, -, -, -, lists, -, -, steps⟩ := hub_keeps_timer_rules reach
  obtain ⟨-, -, -, -, lists', -⟩ := hub_keeps_timer_rules (reach.play played)
  obtain ⟨legal, -, exec⟩ := Machine.play_single played
  cases ran : x.world.exec .timers with
  | error f =>
    have fails : timedHub.exec x ⟨.timers, m⟩ = .error (.gevent f) := by
      simp only [timedHub, TimedHub.exec, ran]
    rw [fails] at exec
    cases exec
  | ok w =>
    obtain ⟨x₁, exec₁, -, called⟩ := steps ⟨.timers, m⟩ w legal ran
    obtain rfl := Except.ok.inj (exec₁.symm.trans exec)
    exact ⟨x, x₁, ⟨.timers, m⟩, reach, called, handles ▸ lists, handles' ▸ lists', before, after,
      calls⟩

end Gevent
