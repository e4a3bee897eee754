import Gevent.Sched.Path

/-!
# Moves, as timers and the clock see them

All that happens to timers and time: a timer is armed, fires, is taken out of the
tree when its sleeper continues, the loop polls, and the two clocks advance
(`TimerMove`).
-/

namespace Gevent

/-- The event has nothing to do with timers or time. -/
def Event.Timeless : Event → Prop
  | .armed _ _ _ | .fired _ | .poll | .tick _ => False
  | .ret _ _ (.sleep _) _ => False
  | _ => True

/-- Timers, and the loop's idea of the time. -/
structure SameTimers (e e' : Env) : Prop where
  timer : e'.timer = e.timer
  handles : e'.loop.timerHandles = e.loop.timerHandles
  armedBy : e'.armedBy = e.armedBy

inductive TimerMove (R : Rules) (m m' : Moment) : Prop
  | still (es : List Event) (log : m'.sched.env.log = es ++ m.sched.env.log)
      (timeless : ∀ ev ∈ es, ev.Timeless) (timers : SameTimers m.sched.env m'.sched.env)
      (time : m'.sched.env.loop.time = m.sched.env.loop.time)
      (clock : m'.sched.env.clock = m.sched.env.clock) (main : m'.sched.main = m.sched.main)
      (sleepers : ∀ t f, f.pending = .sleep →
        (m'.sched.place t = .blocked f ↔ m.sched.place t = .blocked f))
      (waking : ∀ t x f, m'.waking = some (t, x) → m'.sched.place t = .blocked f →
        f.pending = .sleep → t = m.sched.main)
  | arm (f : Frame) (timeout : Int) (ref : Bool) (entered : m.sched.Entered R f)
      (pending : f.pending = .sleep) (nonneg : 0 ≤ timeout)
      (kind : f.op = (if ref then .sleep timeout else .wait timeout))
      (sched : m'.sched = (m.sched.arm f.self f.call timeout.toNat ref).block f.self f)
      (waking : m'.waking = none)
  | fire (t : Tid) (ts : List Tid) (f : Frame) (x : Leftover)
      (first : m.sched.env.loop.timerHandles = t :: ts)
      (due : (m.sched.env.timer t).timeout ≤ m.sched.env.loop.time)
      (active : (m.sched.env.timer t).active = true) (place : m.sched.place t = .blocked f)
      (pending : f.pending = .sleep) (sched : m'.sched = m.sched.fire t)
      (waking : m'.waking = some (t, x))
  | wake (u : Tid) (f : Frame) (x : Leftover) (es : List Event)
      (chosen : m.waking = some (u, x)) (place : m.sched.place u = .blocked f)
      (pending : f.pending = .sleep)
      (log : m'.sched.env.log = .ret f.call u f.op (.int 0) :: es ++ m.sched.env.log)
      (timeless : ∀ ev ∈ es, ev.Timeless)
      (timer : ∀ t, t ≠ u → m'.sched.env.timer t = m.sched.env.timer t)
      (handles : m'.sched.env.loop.timerHandles = m.sched.env.loop.timerHandles.erase u)
      (armedBy : m'.sched.env.armedBy = m.sched.env.armedBy)
      (time : m'.sched.env.loop.time = m.sched.env.loop.time)
      (clock : m'.sched.env.clock = m.sched.env.clock) (main : m'.sched.main = m.sched.main)
      (places : m'.sched.place = Function.update m.sched.place u .running)
      (waking : m'.waking = none)
  | poll (sched : m'.sched = m.sched.poll) (waking : m'.waking = none)
  | tick (d : Nat) (sched : m'.sched = { m.sched with env := m.sched.env.tick d })
      (waking : m'.waking = none)
  | update (may : R.update m.sched)
      (sched : m'.sched = { m.sched with env := m.sched.env.uvUpdateTime })
      (waking : m'.waking = none)
  | turn (hub : m.sched.hub = .running) (control : m.sched.control ≠ .hub .timers)
      (sched : m'.sched = { m.sched with env := m.sched.env.uvUpdateTime, control := .hub .timers })
      (waking : m'.waking = none)

theorem Env.switching_timeless {e : Env} {new died : Option Tid} :
    ∀ ev ∈ e.switching new died, ev.Timeless := by
  intro ev hev
  rcases Env.mem_switching.mp hev with rfl | ⟨t, -, -, rfl⟩ <;> trivial

/-- Only the sleeping calls are blocked in `_sleep_internal`. -/
theorem Frame.Fits.sleep {f : Frame} (fits : f.Fits) {d : Int} (op : f.op = .sleep d) :
    f.pending = .sleep := by
  have h := fits.2
  obtain ⟨self, call, op', pending, caller⟩ := f
  cases op
  cases pending <;> simp only [reduceCtorEq] at h ⊢ <;> grind

theorem Frame.Fits.sleeps_program {f : Frame} (fits : f.Fits) (pending : f.pending = .sleep) :
    f.caller = .program := by
  obtain ⟨h1, h2⟩ := fits
  obtain ⟨self, call, op, p, caller⟩ := f
  cases pending
  cases caller with
  | program => rfl
  | acquire k m | release k m =>
    rcases h2 with ⟨d, rfl⟩ | ⟨d, -, rfl⟩ <;> cases h1

theorem Frame.returns_timeless {f : Frame} (fits : f.Fits) (h : f.pending ≠ .sleep) {r : Result}
    {counter : Sem → Int} : ∀ ev ∈ f.returns r counter, ev.Timeless := by
  intro ev hev
  obtain ⟨k, c, r', rfl, hc⟩ := Frame.mem_returns hev
  cases c with
  | sleep d =>
    have hop : f.op = .sleep d := by
      rcases hc with hc | ⟨m, hc⟩ | ⟨m, hc⟩
      · exact hc.symm
      · cases hc
      · cases hc
    exact absurd (fits.sleep hop) h
  | _ => trivial

section
variable {R : Rules} {s s' : Sched} {t : Tid} {f : Frame} {k : Option (Tid × Leftover)}

theorem SameTimers.refl (e : Env) : SameTimers e e := ⟨rfl, rfl, rfl⟩

/-- Nobody falls asleep or wakes up. -/
theorem TimerMove.quiet (es : List Event) (log : s'.env.log = es ++ s.env.log)
    (timeless : ∀ ev ∈ es, ev.Timeless) (timers : SameTimers s.env s'.env)
    (time : s'.env.loop.time = s.env.loop.time) (clock : s'.env.clock = s.env.clock)
    (main : s'.main = s.main) (place : s'.place = s.place) :
    TimerMove R ⟨s, none⟩ ⟨s', none⟩ :=
  .still es log timeless timers time clock main (fun t f _ => by simp only [place])
    fun _ _ _ hw => by cases hw

/-- A cothread that is not asleep changes its place for another such place. -/
theorem sleepers_iff {p : Place} (ht : ∀ f, s.place t = .blocked f → f.pending ≠ .sleep)
    (hp : ∀ f, p = .blocked f → f.pending ≠ .sleep)
    (hs : s'.place = Function.update s.place t p) (u : Tid) (f : Frame) (hf : f.pending = .sleep) :
    s'.place u = .blocked f ↔ s.place u = .blocked f := by
  rw [hs]
  by_cases hu : u = t
  · subst hu
    simp only [Function.update_self]
    exact ⟨fun h => absurd hf (hp f h), fun h => absurd hf (ht f h)⟩
  · simp [hu]

/-- The running cothread blocks in a call that does not sleep. -/
theorem TimerMove.block {e : Env} (running : s.place t = .running) (awake : f.pending ≠ .sleep)
    (es : List Event) (log : e.log = es ++ s.env.log) (timeless : ∀ ev ∈ es, ev.Timeless)
    (timers : SameTimers s.env e) (time : e.loop.time = s.env.loop.time)
    (clock : e.clock = s.env.clock) :
    TimerMove R ⟨s, none⟩ ⟨({ s with env := e } : Sched).block t f, none⟩ := by
  have place := Sched.block_place { s with env := e } t f
  exact .still es (by simpa using log) timeless (by simpa using timers) (by simpa using time)
    (by simpa using clock) (by simp) (sleepers_iff (by simp [running]) (by simpa using awake) place)
    fun _ _ _ hw => by cases hw

/-- The running cothread blocks and passes the channel to its partner, who is not asleep. -/
theorem TimerMove.meet {q : QueueId} {u : Tid} {x : Leftover} {ev : Event} (core : Core ⟨s, none⟩)
    (running : s.place t = .running) (awake : f.pending ≠ .sleep) {us : List Tid}
    (first : s.queue q = u :: us) (timeless : ev.Timeless) :
    TimerMove R ⟨s, none⟩ ⟨(s.block t f).emit ev, some (u, x)⟩ := by
  obtain ⟨g, hg, hq, hut⟩ := core.partner running first
  have place : ((s.block t f).emit ev).place = Function.update s.place t (.blocked f) :=
    Sched.block_place s t f
  have partner : ((s.block t f).emit ev).place u = .blocked g := by
    rw [place, Function.update_of_ne hut, hg]
  have waits : g.pending ≠ .sleep := by
    intro asleep
    rw [asleep] at hq
    cases hq
  refine .still [ev] (by simp [Sched.emit, Env.emit]) (by simpa using timeless)
    (by simpa [Sched.emit, Env.emit] using ⟨rfl, rfl, rfl⟩) (by simp [Sched.emit, Env.emit])
    (by simp [Sched.emit, Env.emit]) (by simp [Sched.emit])
    (sleepers_iff (by simp [running]) (by simpa using awake) place) fun u' x' g' hw hg' asleep => ?_
  exact absurd asleep
    (Sched.chosen (P := fun g => g.pending ≠ .sleep) partner waits u' x' g' hw hg')

/-- The environment when `_sleep_internal` goes on for `u`: its timer is out of the tree. -/
structure TimerOut (e e' : Env) (u : Tid) (f : Frame) (es : List Event) : Prop where
  log : e'.log = .ret f.call u f.op (.int 0) :: es ++ e.log
  timer : ∀ t, t ≠ u → e'.timer t = e.timer t
  handles : e'.loop.timerHandles = e.loop.timerHandles.erase u
  armedBy : e'.armedBy = e.armedBy
  time : e'.loop.time = e.loop.time
  clock : e'.clock = e.clock

theorem Sched.resume_sleeper {u : Tid} {x : Leftover} (b : Base ⟨s, some (u, x)⟩)
    (place : s.place u = .blocked f) (pending : f.pending = .sleep) (died : Option Tid) :
    TimerOut s.env (s.resume u x died).env u f (s.env.switching (some u) died) := by
  have hself : f.self = u := b.core.queues.self u f place
  have hcaller := (b.calls.frame u f place).fits.sleeps_program pending
  let e : Env := { s.env with log := s.env.switching (some u) died ++ s.env.log }
  have hlog : (s.env.emit (.switched (some u))).callExitFn died = e := by
    simp [e, Env.callExitFn, Env.emit, Env.switching]
  have henv : (s.resume u x died).env = (e.disarm u .sleep).returnCall f (.int 0) := by
    rw [Sched.resume_env place, hlog, pending]
    rfl
  have hreturns : ∀ c, f.returns (.int 0) c = [.ret f.call u f.op (.int 0)] := by
    intro c
    simp [Frame.returns, hcaller, hself]
  by_cases active : (s.env.timer u).active = true
  · have hd : e.disarm u .sleep = e.timerStop u := if_pos ⟨rfl, active⟩
    rw [hd, Env.timerStop_eq _ (show (e.timer u).active = true from active)] at henv
    rw [henv]
    refine ⟨?_, fun t ht => ?_, rfl, rfl, rfl, rfl⟩
    · simp only [Env.returnCall, hreturns]
      rfl
    · simp only [Env.returnCall, Function.update_of_ne ht]
      rfl
  · have hd : e.disarm u .sleep = e := if_neg fun h => active h.2
    have hnot : u ∉ s.env.loop.timerHandles := fun hm => active (b.timers.armed u hm).1
    rw [hd] at henv
    rw [henv]
    refine ⟨?_, fun _ _ => rfl, (List.erase_of_not_mem hnot).symm, rfl, rfl, rfl⟩
    simp only [Env.returnCall, hreturns]
    rfl

/-- A cothread that was not asleep continues: the timers stay as they are. -/
theorem Sched.resume_awake {u : Tid} (place : s.place u = .blocked f) (awake : f.pending ≠ .sleep)
    (x : Leftover) (died : Option Tid) :
    (s.resume u x died).env = { s.env with
      log := f.returns (f.pending.result x) s.env.counter ++ s.env.switching (some u) died ++
        s.env.log } := by
  have hd : ((s.env.emit (.switched (some u))).callExitFn died).disarm u f.pending =
      { s.env with log := s.env.switching (some u) died ++ s.env.log } := by
    rw [Env.disarm, if_neg fun h => awake h.1]
    simp [Env.callExitFn, Env.emit, Env.switching]
  rw [Sched.resume_env place, hd, List.append_assoc]
  rfl

theorem Move.timer {m m' : Moment} (b : Base m) (hm : Move R m m') : TimerMove R m m' := by
  cases hm with
  | enter | acquireWaits | releaseMeets | take | give | semInit | hubEnd =>
    exact .quiet [_] rfl (by simp [Event.Timeless]) ⟨rfl, rfl, rfl⟩ rfl rfl rfl rfl
  | setExitFn | others => exact .quiet [] rfl (by simp) ⟨rfl, rfl, rfl⟩ rfl rfl rfl rfl
  | drop => exact .quiet [_, _] rfl (by simp [Event.Timeless]) ⟨rfl, rfl, rfl⟩ rfl rfl rfl rfl
  | tick d => exact .tick d rfl rfl
  | updateTime may => exact .update may rfl rfl
  | turn hub control => exact .turn hub control rfl rfl
  | poll => exact .poll rfl rfl
  | @refuse s t k o called fails =>
    cases o with
    | submitted => exact absurd rfl fails
    | noMemory => exact .quiet [_] rfl (by simp [Event.Timeless]) ⟨rfl, rfl, rfl⟩ rfl rfl rfl rfl
    | failed =>
      exact .quiet [_, _, _] rfl (by simp [Event.Timeless]) ⟨rfl, rfl, rfl⟩ rfl rfl rfl rfl
  | @pause s f entered kind =>
    refine .block (e := s.env) entered.running ?_ [] rfl (by simp) (.refl _) rfl rfl
    rcases kind with hf | hf <;> simp [hf]
  | @sleep s f timeout ref entered pending nonneg kind =>
    exact .arm f timeout ref entered pending nonneg kind rfl rfl
  | @lookup s f entered pending =>
    exact .block entered.running (by simp [pending])
      [.submitted f.call s.env.nextReq, .malloc s.env.nextReq] rfl (by simp [Event.Timeless])
      ⟨rfl, rfl, rfl⟩ rfl rfl
  | @queueReceive s f ch entered pending alone =>
    exact .block entered.running (by simp [pending]) [.blocked (.receivers ch) f.call] rfl
      (by simp [Event.Timeless]) ⟨rfl, rfl, rfl⟩ rfl rfl
  | @queueSend s f ch v entered pending alone =>
    exact .block entered.running (by simp [pending]) [.blocked (.senders ch) f.call] rfl
      (by simp [Event.Timeless]) ⟨rfl, rfl, rfl⟩ rfl rfl
  | @meetSender s f ch u us x entered op pending partner =>
    exact .meet b.core entered.running (by simp [pending]) partner trivial
  | @meetReceiver s f ch v u us x entered op pending partner =>
    exact .meet b.core entered.running (by simp [pending]) partner trivial
  | @die s t running main =>
    exact .still [.finish t] rfl (by simp [Event.Timeless]) ⟨rfl, rfl, rfl⟩ rfl rfl rfl
      (sleepers_iff (p := .dead) (by simp [running]) (by simp) rfl) fun _ _ _ hw => by cases hw
  | @pick s u us x away first =>
    refine .still [] rfl (by simp) ⟨rfl, rfl, rfl⟩ rfl rfl rfl (fun _ _ _ => Iff.rfl) ?_
    rintro _ _ g ⟨⟩ hg hs
    obtain ⟨g', hg', hq⟩ := (b.core.queues.queued .ready u).mp (by simp [first])
    rw [hg] at hg'
    cases hg'
    rw [hs] at hq
    cases hq
  | @fallback s x away ready hub reason =>
    refine .still [_] rfl (by simp [Event.Timeless]) ⟨rfl, rfl, rfl⟩ rfl rfl rfl
      (fun _ _ _ => Iff.rfl) ?_
    rintro _ _ g ⟨⟩ - -
    rfl
  | @fire s t ts x hub control first due active f place pending =>
    exact .fire t ts f x first due active place pending rfl rfl
  | @answer s r error res my x hub control active data f place pending =>
    refine .still [_, _] rfl (by simp [Event.Timeless]) ⟨rfl, rfl, rfl⟩ rfl rfl rfl
      (fun _ _ _ => Iff.rfl) ?_
    rintro _ _ g ⟨⟩ hg hs
    have hg : s.place my = .blocked g := hg
    rw [place] at hg
    cases hg
    rw [pending] at hs
    cases hs
  | @resume s u x f died away place dead =>
    by_cases pending : f.pending = .sleep
    · obtain ⟨log, timer, handles, armedBy, time, clock⟩ :=
        Sched.resume_sleeper b place pending died
      exact .wake u f x _ rfl place pending log Env.switching_timeless timer handles armedBy time
        clock (Sched.resume_main place x died) (Sched.resume_place place x died) rfl
    · have henv := Sched.resume_awake place pending x died
      refine .still (f.returns (f.pending.result x) s.env.counter ++ s.env.switching (some u) died)
        (by rw [henv]) ?_ (by rw [henv]; exact ⟨rfl, rfl, rfl⟩) (by rw [henv]) (by rw [henv])
        (Sched.resume_main place x died)
        (sleepers_iff (p := .running) ?_ (by simp) (Sched.resume_place place x died))
        fun _ _ _ hw => by cases hw
      · intro ev hev
        rcases List.mem_append.mp hev with hev | hev
        · exact Frame.returns_timeless (b.calls.frame u f place).fits pending ev hev
        · exact Env.switching_timeless ev hev
      · intro g hg
        rw [place] at hg
        cases hg
        exact pending
  | @start s u away new =>
    exact .still [.start u, .switched (some u)] rfl (by simp [Event.Timeless]) ⟨rfl, rfl, rfl⟩ rfl rfl
      rfl (sleepers_iff (p := .running) (by simp [new]) (by simp) rfl) fun _ _ _ hw => by cases hw
  | @enterHub s died away ready dead =>
    rw [Sched.enterHub_eq]
    refine .quiet (s.entryEvents ++ s.env.switching none died) (List.append_assoc ..).symm ?_
      ⟨rfl, rfl, rfl⟩ rfl rfl rfl rfl
    intro ev hev
    rcases Sched.mem_hubEvents hev with rfl | rfl | ⟨t, -, -, rfl⟩ <;> trivial
  | @init s t main free =>
    refine .still [.init t] rfl (by simp [Event.Timeless]) ⟨rfl, rfl, rfl⟩ rfl rfl rfl
      (sleepers_iff (p := .new) ?_ (by simp) rfl) fun _ _ _ hw => by cases hw
    rcases free with hp | hp | hp <;> simp [hp]

end

theorem TimerMove.log {R : Rules} {m m' : Moment} (h : TimerMove R m m') :
    ∃ es, m'.sched.env.log = es ++ m.sched.env.log := by
  cases h with
  | still es log => exact ⟨es, log⟩
  | wake u f x es chosen place pending log => exact ⟨_ :: es, log⟩
  | arm f timeout ref entered pending nonneg kind sched =>
    rw [sched, Sched.block_env, Sched.arm_eq]
    exact ⟨[_], rfl⟩
  | fire t ts f x first due active place pending sched =>
    refine ⟨[.fired (m.sched.env.armedBy t)], ?_⟩
    rw [sched, Sched.fire_eq active]
    rfl
  | poll sched =>
    rw [sched]
    exact ⟨[.poll], rfl⟩
  | tick d sched =>
    rw [sched]
    exact ⟨[.tick d], rfl⟩
  | update may sched | turn hub control sched =>
    rw [sched]
    exact ⟨[], rfl⟩

/-- Histories grow. -/
theorem Sched.step_log {s s' : Sched} {ok : Sched → World.Action → Prop} {a : World.Action}
    (r : scheduler.Reach ok s) (h : scheduler.step s a s') : ∃ es, s'.env.log = es ++ s.env.log := by
  obtain ⟨allowed, valid, x, rfl⟩ := h
  obtain ⟨b, st⟩ := scheduler_settled r
  have moves := (Sched.leads_next b.core b.timers st allowed valid (Rules.any_admits s a) x).1
  refine (preserved_along (P := fun m => Base m ∧ ∃ es, m.sched.env.log = es ++ s.env.log) ?_ moves
    ⟨b, [], rfl⟩).2
  rintro m m' ⟨b, es, log⟩ hm
  obtain ⟨es', log'⟩ := (hm.timer b).log
  exact ⟨b.move hm, es' ++ es, by rw [log', log, List.append_assoc]⟩

end Gevent
