import Gevent.Refine.Views
import Gevent.Sched.Alarms

/-!
# How long a sleep lasts

A spawned cothread that calls `gevent_sleep` while `loop->time` is not behind
the clock sleeps at least as long as it asked for (`sleeps_long_enough`). The
deadline is computed from `loop->time`, which only the loop refreshes.
-/

namespace Gevent

def Event.ticks : Event → Nat
  | .tick d => d
  | _ => 0

/-- How far the clock advances during the events. -/
def elapsed : List Event → Nat
  | [] => 0
  | e :: l => e.ticks + elapsed l

/-- How far the clock has advanced since call `k`. -/
def elapsedSince (k : CallId) : List Event → Nat
  | [] => 0
  | .call k' _ _ :: l => if k' = k then 0 else elapsedSince k l
  | e :: l => e.ticks + elapsedSince k l

/-- A sleep of a spawned cothread returns when the time it asked for has passed. -/
def Punctual (main : Tid) (log : List Event) : Prop :=
  ∀ l₁ k t (d : Int) r l l₂, log = l₁ ++ .ret k t (.sleep d) r :: (l ++ .call k t (.sleep d) :: l₂) →
    t ≠ main → d ≤ elapsed l

def Event.Punctual (main : Tid) : Event → List Event → Prop
  | .ret k t (.sleep d) _, past => t ≠ main → d ≤ elapsedSince k past
  | _, _ => True

section
variable {k : CallId} {es log : List Event} {ev : Event}

theorem elapsedSince_cons (h : ∀ t c, ev ≠ .call k t c) :
    elapsedSince k (ev :: log) = ev.ticks + elapsedSince k log := by
  cases ev with
  | call k' t c =>
    have hk : k' ≠ k := fun he => h t c (by rw [he])
    simp [elapsedSince, Event.ticks, hk]
  | _ => rfl

theorem elapsedSince_append (h : ∀ ev ∈ es, ∀ t c, ev ≠ .call k t c) :
    elapsedSince k (es ++ log) = elapsed es + elapsedSince k log := by
  induction es with
  | nil => simp [elapsed]
  | cons ev es ih =>
    rw [List.cons_append, elapsedSince_cons (h ev List.mem_cons_self),
      ih fun e he => h e (List.mem_cons_of_mem _ he)]
    simp [elapsed, Nat.add_assoc]

/-- A call is made once. -/
theorem call_once {t : Tid} {c : Call} (h : Hist Event.Fresh (es ++ log)) (made : .call k t c ∈ log) :
    ∀ ev ∈ es, ∀ u d, ev ≠ .call k u d := by
  rintro ev hev u d rfl
  obtain ⟨l₁, l₂, rfl⟩ := List.append_of_mem hev
  rw [List.append_assoc, List.cons_append] at h
  have := h.at _ (List.mem_append_right _ made) k (by simp [Event.ids])
  exact Nat.lt_irrefl _ this

theorem Event.Timeless.ticks (h : ev.Timeless) : ev.ticks = 0 := by
  cases ev with
  | tick d => exact h.elim
  | _ => rfl

theorem elapsed_zero (h : ∀ ev ∈ es, ev.ticks = 0) : elapsed es = 0 := by
  induction es with
  | nil => rfl
  | cons ev es ih =>
    have hev := h ev List.mem_cons_self
    have hes := ih fun e he => h e (List.mem_cons_of_mem _ he)
    simp only [elapsed] at hes ⊢
    omega

theorem Event.Timeless.punctual (h : ev.Timeless) (main : Tid) (past : List Event) :
    ev.Punctual main past := by
  cases ev with
  | ret k t c r =>
    cases c with
    | sleep d => exact h.elim
    | _ => trivial
  | _ => trivial

end

/-- Spawned cothreads call `gevent_sleep` only while `loop->time` is not behind
the clock, and no deadline overflows. -/
def Rules.timely : Rules where
  call s c := ∀ k t l d, s.env.log = .call k t c :: l → c = .sleep d → t ≠ s.main → 0 < d →
    s.env.clock ≤ s.env.loop.time ∧ s.env.loop.time + d.toNat < 2 ^ 64
  last _ := True

/-- A sleeper's deadline is late enough, and no timer of one fires ahead of time. -/
structure Alarms (m : Moment) : Prop where
  asleep : ∀ t f d, t ∈ m.sched.env.loop.timerHandles → m.sched.place t = .blocked f →
    f.op = .sleep d → t ≠ m.sched.main → 0 < d →
    d + m.sched.env.clock ≤ (m.sched.env.timer t).timeout + elapsedSince f.call m.sched.env.log ∧
    (m.sched.env.loop.time ≤ m.sched.env.clock ∨
      m.sched.env.loop.time < (m.sched.env.timer t).timeout)
  woken : ∀ t x f d, m.waking = some (t, x) → m.sched.place t = .blocked f → f.op = .sleep d →
    t ≠ m.sched.main → d ≤ elapsedSince f.call m.sched.env.log
  ordered : Hist (Event.Punctual m.sched.main) m.sched.env.log

namespace Alarms
variable {m m' : Moment} {s : Sched} {t : Tid} {f : Frame} {l : List Event}

theorem initial (h : s.Initial) : Alarms ⟨s, none⟩ where
  asleep t f d ht := by simp [h.timers] at ht
  woken t x f d hw := by cases hw
  ordered := by simp [h.log, Hist, Event.Punctual]

/-- What the new events add to the time since the call of a blocked cothread. -/
theorem since (b : Base m) (b' : Base m') (log : m'.sched.env.log = l ++ m.sched.env.log)
    (ht : m.sched.place t = .blocked f) : elapsedSince f.call m'.sched.env.log =
      elapsed l + elapsedSince f.call m.sched.env.log := by
  have ho := b'.calls.ordered
  rw [log] at ho ⊢
  exact elapsedSince_append
    (call_once ho ((b.calls.frame _ _ ht).made _ (Frame.call_mem_made _)))

/-- Only the loop and the clock move on. -/
theorem advance (h : Alarms m) (b : Base m) (b' : Base m')
    (log : m'.sched.env.log = l ++ m.sched.env.log)
    (clock : m'.sched.env.clock = m.sched.env.clock + elapsed l)
    (time : m'.sched.env.loop.time = m.sched.env.loop.time ∨
      m'.sched.env.loop.time = m.sched.env.clock)
    (timers : SameTimers m.sched.env m'.sched.env) (place : m'.sched.place = m.sched.place)
    (main : m'.sched.main = m.sched.main) (waking : m'.waking = none)
    (quiet : ∀ ev ∈ l, ∀ past, ev.Punctual m.sched.main past) : Alarms m' := by
  refine ⟨?_, fun t x g d hw => by simp [waking] at hw, ?_⟩
  · intro t g d ht hp hop hne hd
    rw [timers.handles] at ht
    rw [place] at hp
    obtain ⟨late, ahead⟩ := h.asleep t g d ht hp hop (main ▸ hne) hd
    rw [since b b' log hp, timers.timer]
    omega
  · rw [log, main]
    exact h.ordered.extend quiet

/-- A deadline is set when the clock has not passed `loop->time`. -/
theorem arm {timeout : Int} {ref : Bool} (h : Alarms m) (b : Base m) (b' : Base m')
    (entered : m.sched.Entered .timely f) (pending : f.pending = .sleep)
    (kind : f.op = (if ref then .sleep timeout else .wait timeout))
    (sched : m'.sched = (m.sched.arm f.self f.call timeout.toNat ref).block f.self f)
    (waking : m'.waking = none) : Alarms m' := by
  obtain ⟨l, hlog⟩ := entered.log
  have hcmp : ∀ tm a b, uvTimerCmp tm a b = .eq → a = b := fun _ _ _ he => (uvTimerCmp_eq.mp he).2
  have log : m'.sched.env.log = [.armed f.call f.self
      ((m.sched.env.loop.time + timeout.toNat) % 2 ^ 64)] ++ m.sched.env.log := by
    rw [sched, Sched.block_env, Sched.arm_eq]
    rfl
  have main : m'.sched.main = m.sched.main := by rw [sched, Sched.block_main, Sched.arm_eq]
  refine ⟨?_, fun t x g d hw => by simp [waking] at hw, ?_⟩
  · intro t g d ht hp hop hne hd
    by_cases hts : t = f.self
    · have hg : f = g := by
        rw [sched, hts] at hp
        simpa using hp
      subst hg hts
      have hd' : timeout = d := by
        rw [hop] at kind
        cases ref <;> simp at kind
        exact kind.symm
      subst hd'
      have outer := entered.outer
      rw [entered.fits.sleeps_program pending] at outer
      obtain ⟨fresh, small⟩ := outer _ _ _ _ hlog hop (main ▸ hne) hd
      have hzero : elapsedSince f.call m'.sched.env.log = 0 := by
        rw [log, hlog]
        simp [elapsedSince, Event.ticks]
      rw [hzero]
      simp only [sched, Sched.block_env, Sched.arm_eq, Function.update_self, Nat.mod_eq_of_lt small]
      omega
    · have hp' : m.sched.place t = .blocked g := by
        simpa [sched, Sched.arm_eq, hts] using hp
      have ht' : t ∈ m.sched.env.loop.timerHandles := by
        simp only [sched, Sched.block_env, Sched.arm_eq, mem_rbInsert (hcmp _)] at ht
        exact ht.resolve_left hts
      have old := h.asleep t g d ht' hp' hop (main ▸ hne) hd
      rw [since b b' log hp', elapsed_zero (by simp [Event.ticks])]
      simpa [sched, Sched.arm_eq, hts] using old
  · rw [log, main]
    exact ⟨trivial, h.ordered⟩

/-- A timer is due when the loop has seen its deadline on the clock. -/
theorem fire {ts : List Tid} {x : Leftover} (h : Alarms m) (b : Base m) (b' : Base m')
    (first : m.sched.env.loop.timerHandles = t :: ts)
    (due : (m.sched.env.timer t).timeout ≤ m.sched.env.loop.time)
    (active : (m.sched.env.timer t).active = true) (sched : m'.sched = m.sched.fire t)
    (waking : m'.waking = some (t, x)) : Alarms m' := by
  have henv : m'.sched.env = (m.sched.env.timerStop t).emit (.fired (m.sched.env.armedBy t)) := by
    rw [sched]
    simp [Sched.fire, Sched.emit, Env.emit, Env.timerStop_eq _ active]
  rw [Env.timerStop_eq _ active] at henv
  have log : m'.sched.env.log = [.fired (m.sched.env.armedBy t)] ++ m.sched.env.log := by
    rw [henv]
    rfl
  have places : m'.sched.place = m.sched.place := by rw [sched]; rfl
  have main : m'.sched.main = m.sched.main := by rw [sched]; rfl
  have since := fun {u g} (hp : m.sched.place u = .blocked g) => since b b' log hp
  rw [elapsed_zero (by simp [Event.ticks])] at since
  refine ⟨?_, ?_, ?_⟩
  · intro u g d hu hp hop hne hd
    rw [places] at hp
    have hu : u ∈ m.sched.env.loop.timerHandles.erase t := by simpa [henv, Env.emit] using hu
    obtain ⟨hut, hu⟩ := b.timers.nodup.mem_erase_iff.mp hu
    have old := h.asleep u g d hu hp hop (main ▸ hne) hd
    rw [since hp]
    simpa [henv, Env.emit, hut] using old
  · rintro u y g d hw hp hop hne
    rw [waking] at hw
    cases hw
    rw [places] at hp
    rw [since hp]
    by_cases hd : 0 < d
    · obtain ⟨late, ahead⟩ := h.asleep t g d (by simp [first]) hp hop (main ▸ hne) hd
      omega
    · omega
  · rw [log, main]
    exact ⟨trivial, h.ordered⟩

/-- A sleeper returns when its timer has fired. -/
theorem wake {u : Tid} {x : Leftover} (h : Alarms m) (b : Base m) (b' : Base m')
    (chosen : m.waking = some (u, x)) (place : m.sched.place u = .blocked f)
    (log : m'.sched.env.log = .ret f.call u f.op (.int 0) :: es ++ m.sched.env.log)
    (timeless : ∀ ev ∈ es, ev.Timeless)
    (timer : ∀ t, t ≠ u → m'.sched.env.timer t = m.sched.env.timer t)
    (handles : m'.sched.env.loop.timerHandles = m.sched.env.loop.timerHandles.erase u)
    (time : m'.sched.env.loop.time = m.sched.env.loop.time)
    (clock : m'.sched.env.clock = m.sched.env.clock) (main : m'.sched.main = m.sched.main)
    (places : m'.sched.place = Function.update m.sched.place u .running)
    (waking : m'.waking = none) : Alarms m' := by
  have hes : elapsed es = 0 := elapsed_zero fun e he => (timeless e he).ticks
  refine ⟨?_, fun t y g d hw => by simp [waking] at hw, ?_⟩
  · intro t g d ht hp hop hne hd
    rw [handles] at ht
    obtain ⟨htu, ht⟩ := b.timers.nodup.mem_erase_iff.mp ht
    have hp : m.sched.place t = .blocked g := by simpa [places, htu] using hp
    have hzero : elapsed (.ret f.call u f.op (.int 0) :: es) = 0 := by
      simpa [elapsed, Event.ticks] using hes
    rw [since b b' log hp, hzero, Nat.zero_add, clock, time, timer t htu]
    exact h.asleep t g d ht hp hop (main ▸ hne) hd
  · have fresh : Hist Event.Fresh (es ++ m.sched.env.log) := by
      have ho := b'.calls.ordered
      rw [log] at ho
      exact ho.2
    rw [log, main]
    refine ⟨?_, h.ordered.extend fun e he => (timeless e he).punctual _⟩
    cases hop : f.op with
    | sleep d =>
      intro hne
      have made := (b.calls.frame _ _ place).made _ (Frame.call_mem_made _)
      have hsame : elapsedSince f.call (es ++ m.sched.env.log) =
          elapsedSince f.call m.sched.env.log := by
        rw [elapsedSince_append (call_once fresh made), hes, Nat.zero_add]
      exact hsame ▸ h.woken u x f d chosen place hop hne
    | _ => trivial

theorem step (h : Alarms m) (b : Base m) (b' : Base m') (hm : TimerMove .timely m m') :
    Alarms m' := by
  cases hm with
  | still es log timeless timers time clock main sleepers waking =>
    have asleep : ∀ {t f d}, m'.sched.place t = .blocked f → f.op = .sleep d → f.pending = .sleep :=
      fun ht hop => (b'.calls.frame _ _ ht).fits.sleep hop
    refine ⟨?_, ?_, ?_⟩
    · intro t f d ht hp hop hne hd
      have hp := (sleepers t f (asleep hp hop)).mp hp
      rw [timers.handles] at ht
      rw [since b b' log hp, elapsed_zero fun e he => (timeless e he).ticks, Nat.zero_add,
        timers.timer, time, clock]
      exact h.asleep t f d ht hp hop (main ▸ hne) hd
    · intro t x f d hw hp hop hne
      exact absurd (waking t x f hw hp (asleep hp hop)) (main ▸ hne)
    · rw [log, main]
      exact h.ordered.extend fun e he => (timeless e he).punctual _
  | arm f timeout ref entered pending nonneg kind sched waking =>
    exact h.arm b b' entered pending kind sched waking
  | fire t ts f x first due active place pending sched waking =>
    exact h.fire b b' first due active sched waking
  | wake u f x es chosen place pending log timeless timer handles armedBy time clock main places waking =>
    exact h.wake b b' chosen place log timeless timer handles time clock main places waking
  | poll sched waking =>
    exact h.advance b b' (l := [.poll]) (by rw [sched]; rfl) (by rw [sched]; rfl)
      (.inl (by rw [sched]; rfl)) (by rw [sched]; exact ⟨rfl, rfl, rfl⟩) (by rw [sched]; rfl)
      (by rw [sched]; rfl) waking (by simp [Event.Punctual])
  | tick n sched waking =>
    exact h.advance b b' (l := [.tick n]) (by rw [sched]; rfl)
      (by rw [sched]; simp [Env.tick, elapsed, Event.ticks])
      (.inl (by rw [sched]; rfl)) (by rw [sched]; exact ⟨rfl, rfl, rfl⟩) (by rw [sched])
      (by rw [sched]) waking (by simp [Event.Punctual])
  | update _ sched waking | turn _ _ sched waking =>
    exact h.advance b b' (l := []) (by rw [sched]; rfl) (by rw [sched]; rfl)
      (.inr (by rw [sched]; rfl)) (by rw [sched]; exact ⟨rfl, rfl, rfl⟩) (by rw [sched])
      (by rw [sched]) waking (by simp)

end Alarms

theorem scheduler_alarms {s : Sched} (r : scheduler.Reach Rules.timely.Admit s) :
    Alarms ⟨s, none⟩ :=
  scheduler_invariant (fun _ h => .initial h) (fun _ _ b h hm => h.step b (b.move hm) (hm.timer b)) r

namespace World

/-- A spawned cothread calls `gevent_sleep` only while `loop->time` is not behind
the clock, and its deadline fits a `uint64_t`. -/
def Timely (w : World) : Action → Prop
  | .call (.sleep d) => 0 < d → w.control.owner ≠ some w.hub.main →
    w.env.clock ≤ w.env.loop.time ∧ w.env.loop.time + d.toNat < 2 ^ 64
  | _ => True

instance decidableTimely (w : World) : (a : Action) → Decidable (w.Timely a)
  | .call (.sleep d) => inferInstanceAs (Decidable (0 < d → w.control.owner ≠ some w.hub.main →
      w.env.clock ≤ w.env.loop.time ∧ w.env.loop.time + d.toNat < 2 ^ 64))
  | .call (.spawn _) | .call (.wait _) | .call (.receive _) | .call (.send _ _)
  | .call (.acquire _) | .call (.release _) | .call (.getaddrinfo _)
  | .cothreadInit _ _ | .setExitFn _ _ | .channelInit _ | .semaphoreInit _ _ | .timers
  | .resolve _ _ _ | .iterate | .updateTime | .others _ | .handleInit _ | .handleClose _ | .tick _
  | .finish => inferInstanceAs (Decidable True)

end World

theorem Paired.timely {w : World} {s : Sched} {a : World.Action} (p : Paired w s)
    (h : w.Timely a) : Rules.timely.Admit s a where
  call t c ha hc := by
    rintro k u l d hlog rfl hne hd
    subst ha
    simp only [Sched.enter, Env.enter, List.cons.injEq, Event.call.injEq] at hlog
    obtain ⟨⟨-, rfl, -⟩, -⟩ := hlog
    have := h hd (by
      rw [p.control, hc, p.main]
      simpa [Control.owner, Sched.enter] using hne)
    simpa [Sched.enter, Env.enter, p.env] using this
  finish _ _ _ _ _ := trivial
  runEnd _ _ := trivial

theorem Alarms.punctual {m : Moment} (h : Alarms m) (b : Base m) :
    Punctual m.sched.main m.sched.env.log := by
  intro l₁ k t d r l l₂ hlog hne
  have ho := h.ordered
  have fresh := b.calls.ordered
  rw [hlog] at ho fresh
  have hlate : d ≤ elapsedSince k (l ++ .call k t (.sleep d) :: l₂) := ho.at hne
  have hf : Hist Event.Fresh (l ++ .call k t (.sleep d) :: l₂) := (Hist.past fresh).2
  rw [elapsedSince_append (call_once hf List.mem_cons_self)] at hlate
  simpa [elapsedSince] using hlate

/-- In a run whose calls of `gevent_sleep` find `loop->time` up to date, every
sleep of a spawned cothread lasts at least as long as it asked for. -/
theorem sleeps_long_enough {w : World} (r : gevent.Reach World.Timely w) :
    Punctual w.hub.main w.env.log := by
  obtain ⟨s, hs, p⟩ := reach_rules (R := .timely) (fun _ _ _ p _ h => p.timely h) r
  rw [p.env, p.main]
  exact (scheduler_alarms hs).punctual p.base

set_option maxRecDepth 100000 in
/-- The clock moves while cothread 1 sleeps, and the loop sees it. -/
theorem sleeps_long_enough_run : ∃ w, gevent.Reach World.Timely w ∧
    .ret 1 1 (.sleep 5) (.int 0) ∈ w.env.log ∧ Punctual w.hub.main w.env.log := by
  have h : (gevent.play World.Timely zeroStart [.cothreadInit 1 1, .call (.spawn 1),
      .call (.sleep 5), .call (.sleep 9), .tick 7, .iterate, .timers]).any
      (fun w => decide (.ret 1 1 (.sleep 5) (.int 0) ∈ w.env.log)) = true := by decide
  obtain ⟨w, r, hw⟩ := Machine.Reach.of_play zeroStart_start h
  exact ⟨w, r, hw, sleeps_long_enough r⟩

set_option maxRecDepth 100000 in
/-- Cothread 1 computes for 7 ms and then sleeps for 5 ms: when the loop starts,
it finds the deadline passed. -/
theorem sleep_returns_early : ¬ ∀ w, gevent.Reach anyStep w → Punctual w.hub.main w.env.log := by
  have h : (gevent.play anyStep zeroStart [.cothreadInit 1 1, .call (.spawn 1), .tick 7,
      .call (.sleep 5), .call (.sleep 9), .iterate, .timers]).any
      (fun w => decide (w.hub.main = 0 ∧ elapsed ((w.env.log.drop 1).take 9) = 0 ∧
        w.env.log = .ret 1 1 (.sleep 5) (.int 0) ::
          ((w.env.log.drop 1).take 9 ++ .call 1 1 (.sleep 5) :: w.env.log.drop 11))) = true := by
    decide
  obtain ⟨w, r, hmain, hzero, hlog⟩ := Machine.Reach.of_play zeroStart_start h
  intro all
  have early := all w r [] 1 1 5 (.int 0) _ _ hlog (by simp [hmain])
  rw [hzero] at early
  omega

end Gevent
