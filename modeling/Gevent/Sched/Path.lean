import Gevent.Sched.Lookups

/-!
# Steps are sequences of moves

Each step of a settled scheduler is made of moves and ends settled
(`Sched.step_moves`), so what every move preserves holds at every state of a
run (`scheduler_invariant`).
-/

namespace Gevent

/-- Moves lead from `s` to `s'`, where somebody has control again. -/
def Sched.Leads (R : Rules) (s s' : Sched) : Prop := Moves R ⟨s, none⟩ ⟨s', none⟩ ∧ s'.Settled

namespace Sched
variable {R : Rules} {s s' : Sched} {t u : Tid} {k : CallId} {ch : Chan} {f : Frame} {caller : Caller}
  {x : Leftover} {died : Option Tid} {v : Word} {m : Sem} {c : Call}

theorem Leads.cons {s₁ : Sched} (h : Move R ⟨s, none⟩ ⟨s₁, none⟩) (l : s₁.Leads R s') : s.Leads R s' :=
  ⟨l.1.head h, l.2⟩

theorem settled_running (ht : s.place t = .running) (hc : s.control = .user t) : s.Settled :=
  .inl ⟨t, hc, ht⟩

theorem settled_resume (hu : s.place u = .blocked f) : (s.resume u x died).Settled :=
  settled_running (by rw [resume_place hu]; simp) (resume_control hu x died)

theorem settled_enterHub : (s.enterHub died).Settled := by
  rw [enterHub_eq]
  exact .inr ⟨_, rfl, rfl⟩

theorem leads_resume (h : Move R ⟨s, none⟩ ⟨s', some (u, x)⟩) (a : s'.Away)
    (hu : s'.place u = .blocked f) (dead : ∀ t, died = some t → s'.place t = .dead) :
    s.Leads R (s'.resume u x died) :=
  ⟨.tail (.single h) (.resume a hu dead), settled_resume hu⟩

theorem leads_enterHub (a : s.Away) (ready : s.queue .ready = [])
    (dead : ∀ t, died = some t → s.place t = .dead) : s.Leads R (s.enterHub died) :=
  ⟨.single (.enterHub a ready dead), settled_enterHub⟩

theorem leads_yield (c : Core ⟨s, none⟩) (a : s.Away) (x : Leftover) : s.Leads R (s.yield x) := by
  cases hq : s.queue .ready with
  | nil =>
    rw [show s.yield x = s.enterHub none by simp [yield, hq]]
    exact leads_enterHub a hq (by simp)
  | cons u us =>
    rw [show s.yield x = s.resume u x none by simp [yield, hq]]
    obtain ⟨f, hf, -⟩ := (c.queues.queued .ready u).mp (by simp [hq])
    exact leads_resume (.pick x a hq) a hf (by simp)

/-- A call that blocks its caller, and what comes next. -/
theorem leads_block (c : Core ⟨s, none⟩) (h : Move R ⟨s, none⟩ ⟨s'.block t f, none⟩)
    (ht : s'.place t = .running) (hs : Core ⟨s', none⟩) (x : Leftover) :
    s.Leads R ((s'.block t f).yield x) :=
  (leads_yield (c.move h) (hs.away_of_block ht) x).cons h

theorem called_enter (ht : s.place t = .running) (c : Call) :
    (s.enter t c).Called t s.env.calls c :=
  ⟨ht, by simp [enter, Env.enter], s.env.log, rfl⟩

theorem Called.entered {op : Call} {p : Pending} (h : s.Called t k op) (may : R.call s op)
    (fits : Frame.Fits ⟨t, k, op, p, .program⟩) : s.Entered R ⟨t, k, op, p, .program⟩ :=
  { toCalled := h, fits := fits, outer := may }

theorem Entered.received (e : s.Entered R ⟨t, k, .receive ch, .receive ch, caller⟩) (v : Word) :
    s.Entered R ⟨t, k, .receive ch, .received v, caller⟩ :=
  { toCalled := e.toCalled, fits := ⟨e.fits.1, ch, rfl⟩, outer := e.outer }

theorem Entered.sent (e : s.Entered R ⟨t, k, .send ch v, .send ch v, caller⟩) :
    s.Entered R ⟨t, k, .send ch v, .sent, caller⟩ :=
  { toCalled := e.toCalled, fits := ⟨e.fits.1, ch, v, rfl⟩, outer := e.outer }

theorem leads_receive (c : Core ⟨s, none⟩)
    (e : s.Entered R ⟨t, k, .receive ch, .receive ch, caller⟩) (x : Leftover) :
    s.Leads R (s.receive x t k ch caller) := by
  cases hq : s.queue (.senders ch) with
  | nil =>
    simp only [receive, hq]
    exact leads_block c (.queueReceive e rfl hq) e.running (c.env _ rfl) x
  | cons u us =>
    simp only [receive, hq]
    obtain ⟨g, hg, -, hut⟩ := c.partner e.running hq
    have ha := c.away_of_block (f := ⟨t, k, .receive ch, .received (s.offer u), caller⟩) e.running
    rw [block_env]
    exact leads_resume (.meetSender (e.received _) rfl rfl hq) ⟨ha.nobody, ha.hub⟩
      (by simpa [emit, hut] using hg) (by simp)

theorem leads_send (c : Core ⟨s, none⟩)
    (e : s.Entered R ⟨t, k, .send ch v, .send ch v, caller⟩) (x : Leftover) :
    s.Leads R (s.send x t k ch v caller) := by
  cases hq : s.queue (.receivers ch) with
  | nil =>
    simp only [send, hq]
    exact leads_block c (.queueSend e rfl hq) e.running (c.env _ rfl) x
  | cons u us =>
    simp only [send, hq]
    obtain ⟨g, hg, -, hut⟩ := c.partner e.running hq
    have ha := c.away_of_block (f := ⟨t, k, .send ch v, .sent, caller⟩) e.running
    rw [block_env]
    exact leads_resume (.meetReceiver e.sent rfl rfl hq) ⟨ha.nobody, ha.hub⟩
      (by simpa [emit, hut] using hg) (by simp)

theorem leads_acquire (core : Core ⟨s, none⟩) (h : s.Called t k (.acquire m)) (x : Leftover) :
    s.Leads R (s.acquire x t k m) := by
  by_cases free : 0 < s.env.counter m
  · simp only [acquire, if_pos free]
    have hm : Move R ⟨s, none⟩ ⟨s.take t k m, none⟩ := .take h free
    exact ⟨.single hm, settled_running h.running (core.running t h.running).1⟩
  · simp only [acquire, if_neg free]
    obtain ⟨l, hl⟩ := h.log
    have hm : Move R ⟨s, none⟩ ⟨s.enter t (.receive (.ofSem m)), none⟩ :=
      .acquireWaits h (by omega)
    refine (leads_receive (core.move hm) ?_ x).cons hm
    exact { toCalled := called_enter h.running _
            fits := ⟨rfl, rfl⟩
            outer := ⟨l, by simp [enter, Env.enter, hl]⟩ }

theorem leads_release (core : Core ⟨s, none⟩) (h : s.Called t k (.release m))
    (may : R.call s (.release m)) (x : Leftover) :
    s.Leads R (s.release x t k m) := by
  cases hq : s.queue (.receivers (.ofSem m)) with
  | nil =>
    simp only [release, hq]
    have hm : Move R ⟨s, none⟩ ⟨s.give t k m, none⟩ := .give h may hq
    exact ⟨.single hm, settled_running h.running (core.running t h.running).1⟩
  | cons u us =>
    simp only [release, hq]
    obtain ⟨l, hl⟩ := h.log
    have hm : Move R ⟨s, none⟩ ⟨s.enter t (.send (.ofSem m) .null), none⟩ :=
      .releaseMeets h (by simp [hq])
    refine (leads_send (core.move hm) ?_ x).cons hm
    exact { toCalled := called_enter h.running _
            fits := ⟨rfl, rfl⟩
            outer := ⟨l, by simp [enter, Env.enter, hl]⟩ }

theorem leads_sleep (core : Core ⟨s, none⟩) {op : Call} {timeout : Int} {ref : Bool}
    (e : s.Entered R ⟨t, k, op, .sleep, .program⟩) (nonneg : 0 ≤ timeout)
    (kind : op = (if ref then .sleep timeout else .wait timeout)) (x : Leftover) :
    s.Leads R (s.sleepInternal x t k op timeout ref) := by
  refine leads_block core (.sleep e rfl nonneg kind) e.running (core.env _ ?_) x
  rw [show (if ref = true then _ else _) = (s.arm t k timeout.toNat ref).env from rfl, arm_eq]

theorem leads_getaddrinfo (core : Core ⟨s, none⟩) {o : Submit}
    (h : s.Called t k (.getaddrinfo o)) (may : R.call s (.getaddrinfo o)) (x : Leftover) : s.Leads R (s.getaddrinfo x t k o) := by
  by_cases ho : o = .submitted
  · subst ho
    simp only [getaddrinfo, if_true]
    exact leads_block core (.lookup (h.entered may ⟨trivial, rfl⟩) rfl) h.running (core.env _ rfl) x
  · simp only [getaddrinfo, if_neg ho]
    have hm : Move R ⟨s, none⟩ ⟨s.refuse t k o, none⟩ := .refuse h ho
    exact ⟨.single hm, settled_running h.running (core.running t h.running).1⟩

theorem leads_perform (core : Core ⟨s, none⟩) (h : s.Called t k c) (may : R.call s c)
    (valid : ∀ u, c = .spawn u → s.place u = .new) (nonneg : ∀ d, c = .sleep d → 0 ≤ d)
    (x : Leftover) : s.Leads R (s.perform x t k c) := by
  cases c with
  | spawn u =>
    have hm : Move R ⟨s, none⟩ ⟨s.block t ⟨t, k, .spawn u, .spawn, .program⟩, none⟩ :=
      .pause (h.entered may ⟨trivial, u, rfl⟩) (.inl rfl)
    have hu := valid u rfl
    have hut : u ≠ t := by rintro rfl; rw [h.running] at hu; cases hu
    refine Leads.cons hm ⟨.single (.start (core.away_of_block h.running) (by simpa [hut] using hu)), ?_⟩
    refine settled_running (t := u) ?_ rfl
    exact Function.update_self ..
  | sleep d =>
    exact leads_sleep core (h.entered may ⟨trivial, .inl ⟨d, rfl⟩⟩) (nonneg d rfl) rfl x
  | wait d =>
    by_cases hd : 0 < d
    · simp only [perform, if_pos hd]
      exact leads_sleep core (h.entered may ⟨trivial, .inr ⟨d, hd, rfl⟩⟩) (by omega) rfl x
    · simp only [perform, if_neg hd]
      have e : s.Entered R ⟨t, k, .wait d, .wait, .program⟩ := h.entered may ⟨trivial, d, by omega, rfl⟩
      exact leads_block core (.pause e (.inr rfl)) h.running core x
  | receive ch => exact leads_receive core (h.entered may ⟨trivial, rfl⟩) x
  | send ch v => exact leads_send core (h.entered may ⟨trivial, rfl⟩) x
  | acquire m => exact leads_acquire core h x
  | release m => exact leads_release core h may x
  | getaddrinfo o => exact leads_getaddrinfo core h may x

theorem Settled.user (st : s.Settled) (hc : s.control = .user t) : s.place t = .running := by
  rcases st with ⟨u, hu, hp⟩ | ⟨ph, hph, -⟩
  · rw [hc] at hu
    cases hu
    exact hp
  · rw [hc] at hph
    cases hph

theorem Settled.loop (st : s.Settled) {ph : Phase} (hc : s.control = .hub ph) : s.hub = .running := by
  rcases st with ⟨u, hu, -⟩ | ⟨-, -, hr⟩
  · rw [hc] at hu
    cases hu
  · exact hr

theorem main_blocked (core : Core ⟨s, none⟩) (a : s.Away) : ∃ f, s.place s.main = .blocked f := by
  rcases core.main with h | h
  · exact absurd h (a.nobody _)
  · exact h

theorem leads_handOn (core : Core ⟨s, none⟩) (a : s.Away)
    (reason : (∃ t l, s.env.log = .finish t :: l) ∨
      (∃ l, s.env.log = .runEnd :: l) ∧ s.env.uvLoopAlive = false)
    (may : s.queue .ready = [] → s.hub = .idle → R.last s)
    (dead : ∀ t, died = some t → s.place t = .dead) (x : Leftover) :
    s.Leads R (s.handOn x died) := by
  cases hq : s.queue .ready with
  | cons u us =>
    obtain ⟨f, hf, -⟩ := (core.queues.queued .ready u).mp (by simp [hq])
    simp only [handOn, hq]
    exact leads_resume (.pick x a hq) a hf dead
  | nil =>
    cases hh : s.hub with
    | suspended ph =>
      simp only [handOn, hq, hh]
      exact leads_enterHub a hq dead
    | running => exact absurd hh a.hub
    | idle =>
      simp only [handOn, hq, hh]
      obtain ⟨f, hf⟩ := main_blocked core a
      exact leads_resume (.fallback x a hq hh reason (may hq hh)) ⟨a.nobody, a.hub⟩ hf dead

theorem leads_finish (core : Core ⟨s, none⟩) (ht : s.place t = .running) (main : t ≠ s.main)
    (may : s.queue .ready = [] → s.hub = .idle →
      R.last ((s.emit (.finish t)).setPlace t .dead)) (x : Leftover) : s.Leads R (s.finish x t) := by
  let s₁ := (s.emit (.finish t)).setPlace t .dead
  have hm : Move R ⟨s, none⟩ ⟨s₁, none⟩ := .die ht main
  have hdead : s₁.place t = .dead := Function.update_self ..
  exact (leads_handOn (core.move hm) (core.away_of_die ht) (.inl ⟨t, s.env.log, rfl⟩) may
    (by rintro _ ⟨⟩; exact hdead) x).cons hm

theorem leads_timers (core : Core ⟨s, none⟩) (tm : Timers ⟨s, none⟩) (hub : s.hub = .running)
    (control : s.control = .hub .timers) (x : Leftover) : s.Leads R (s.timers x) := by
  have done : s.Leads R s.poll := ⟨.single (.poll hub), .inr ⟨.io, rfl, hub⟩⟩
  cases hl : s.env.loop.timerHandles with
  | nil => simpa only [timers, hl] using done
  | cons t ts =>
    by_cases due : (s.env.timer t).timeout > s.env.loop.time
    · simpa only [timers, hl, if_pos due] using done
    · simp only [timers, hl, if_neg due]
      obtain ⟨active, -, -, f, hf, hs, -⟩ := tm.armed t (by simp [hl])
      exact leads_resume (.fire x hub control hl (by omega) active hf hs)
        ⟨core.nobody hub, by simp [fire]⟩ hf (by simp)

theorem leads_iterate (core : Core ⟨s, none⟩) (hub : s.hub = .running)
    (control : s.control ≠ .hub .timers)
    (may : s.env.uvLoopAlive = false → R.last { s.emit .runEnd with hub := .idle })
    (x : Leftover) :
    s.Leads R (s.iterate x) := by
  cases alive : s.env.uvLoopAlive with
  | true =>
    simp only [iterate, alive, if_true]
    exact ⟨.single (.turn hub control alive), .inr ⟨.timers, rfl, hub⟩⟩
  | false =>
    simp only [iterate, alive, if_neg Bool.false_ne_true, hubReturn]
    have hm : Move R ⟨s, none⟩ ⟨{ s.emit .runEnd with hub := .idle }, none⟩ := .hubEnd hub control alive
    exact (leads_handOn (core.move hm) ⟨core.nobody hub, by simp⟩
      (.inr ⟨⟨s.env.log, rfl⟩, alive⟩) (fun _ _ => may alive) (by simp) x).cons hm

theorem leads_resolve (core : Core ⟨s, none⟩) {r : ReqId} {error : Int} {res : Word}
    (hub : s.hub = .running) (control : s.control = .hub .io) (active : r ∈ s.env.loop.activeReqs)
    (valid : s.fault (.resolve r error res) = none) (x : Leftover) :
    s.Leads R (s.resolve x r error res) := by
  cases data : s.env.reqData r with
  | none =>
    simp only [resolve, data]
    exact ⟨.single (.drop hub active data), .inr ⟨.io, control, hub⟩⟩
  | some my =>
    simp only [resolve, data]
    cases hp : s.place my with
    | blocked f =>
      have pending : f.pending = .getaddrinfo := by simpa [fault, data, hp] using valid
      exact leads_resume (.answer x hub control active data hp pending)
        ⟨core.nobody hub, by simp⟩ hp (by simp)
    | unborn | new | running | dead => simp [fault, data, hp] at valid

theorem leads_next (core : Core ⟨s, none⟩) (tm : Timers ⟨s, none⟩) (st : s.Settled)
    {a : World.Action} (allowed : s.Allowed a) (valid : s.fault a = none) (admits : R.Admit s a)
    (x : Leftover) : s.Leads R (s.next x a) := by
  have same : ∀ e : Env, ({ s with env := e } : Sched).Settled := fun _ => st
  cases a with
  | call c =>
    cases hc : s.control with
    | hub ph =>
      have : s.control.owner.isSome := by cases c <;> first | exact allowed | exact allowed.1
      simp [hc, Control.owner] at this
    | user t =>
      have ht := st.user hc
      have may := admits.call t c rfl hc
      have hm : Move R ⟨s, none⟩ ⟨s.enter t c, none⟩ := .enter c ht may
      simp only [next, hc]
      refine (leads_perform (core.move hm) (called_enter ht c) may ?_ ?_ x).cons hm
      · rintro u rfl
        simpa [fault, enter] using valid
      · rintro d rfl
        simpa [fault] using valid
  | finish =>
    cases hc : s.control with
    | hub ph => simp [Allowed, hc, Control.owner] at allowed
    | user t =>
      have main : t ≠ s.main := by simpa [Allowed, hc, Control.owner] using allowed
      simpa only [next, hc] using leads_finish core (st.user hc) main (admits.finish t rfl hc) x
  | cothreadInit t run =>
    refine ⟨.single (.init allowed.1 allowed.2), ?_⟩
    refine st.imp ?_ id
    rintro ⟨u, hu, hp⟩
    have hut : u ≠ t := by
      rintro rfl
      rcases allowed.2 with h | h | h <;> rw [hp] at h <;> cases h
    exact ⟨u, hu, by simpa [next, setPlace, hut] using hp⟩
  | setExitFn t b => exact ⟨.single (.setExitFn t b), same _⟩
  | channelInit ch => exact ⟨.refl, st⟩
  | semaphoreInit m c =>
    obtain ⟨hr, hs, low, high⟩ := allowed
    exact ⟨.single (.semInit hr hs low high), same _⟩
  | timers => exact leads_timers core tm (st.loop allowed) allowed x
  | resolve r error res =>
    exact leads_resolve core (st.loop allowed.1) allowed.1 allowed.2 valid x
  | iterate =>
    have hub : s.hub = .running := by rcases allowed with h | h <;> exact st.loop h
    have control : s.control ≠ .hub .timers := by rcases allowed with h | h <;> rw [h] <;> simp
    exact leads_iterate core hub control (admits.runEnd rfl) x
  | updateTime => exact ⟨.single (.updateTime (admits.update rfl)), same _⟩
  | others n => exact ⟨.single (.others n), same _⟩
  | handleInit h => exact ⟨.refl, st⟩
  | handleClose h => exact ⟨.refl, st⟩
  | tick d => exact ⟨.single (.tick d), same _⟩

theorem initial_settled (h : s.Initial) : s.Settled :=
  settled_running (by simp [h.place]) h.control

end Sched

/-- What every move of the scheduler keeps. -/
structure Base (m : Moment) : Prop where
  core : Core m
  timers : Timers m
  calls : Calls m
  lookups : Lookups m

theorem Base.initial {s : Sched} (h : s.Initial) : Base ⟨s, none⟩ :=
  ⟨.initial h, .initial h, .initial h, .initial h⟩

theorem Base.move {R : Rules} {m m' : Moment} (b : Base m) (h : Move R m m') : Base m' :=
  ⟨b.core.move h, b.timers.move h, b.calls.move b.core b.timers h, b.lookups.move b.core b.calls h⟩

theorem scheduler_settled {ok : Sched → World.Action → Prop} {s : Sched}
    (r : scheduler.Reach ok s) : Base ⟨s, none⟩ ∧ s.Settled := by
  refine r.invariant (P := fun s => Base ⟨s, none⟩ ∧ s.Settled)
    (fun s h => ⟨.initial h, Sched.initial_settled h⟩) ?_
  rintro s a s' - ⟨b, st⟩ - ⟨allowed, valid, x, rfl⟩
  obtain ⟨moves, st'⟩ := Sched.leads_next b.core b.timers st allowed valid (Rules.any_admits s a) x
  exact ⟨preserved_along (P := Base) (fun _ _ h hm => h.move hm) moves b, st'⟩

/-- What every move under the rules keeps holds at every state of every run under them. -/
theorem scheduler_invariant {R : Rules} {P : Moment → Prop}
    (start : ∀ s, s.Initial → P ⟨s, none⟩)
    (move : ∀ m m', Base m → P m → Move R m m' → P m') {s : Sched}
    (r : scheduler.Reach R.Admit s) : P ⟨s, none⟩ := by
  have path : ∀ s a s', scheduler.Reach R.Admit s → R.Admit s a → scheduler.step s a s' →
      Moves R ⟨s, none⟩ ⟨s', none⟩ := by
    rintro s a s' hr admits ⟨allowed, valid, x, rfl⟩
    obtain ⟨b, st⟩ := scheduler_settled hr
    exact (Sched.leads_next b.core b.timers st allowed valid admits x).1
  have h := Spec.Reach.by_moves (f := fun s => (⟨s, none⟩ : Moment)) (P := fun m => Base m ∧ P m)
    (fun s h => ⟨.initial h, start s h⟩) (fun s a s' hr _ => path s a s' hr)
    (fun m m' ⟨b, p⟩ hm => ⟨b.move hm, move m m' b p hm⟩) r
  exact h.2

theorem Rules.reach_any {ok : Sched → World.Action → Prop} {s : Sched}
    (r : scheduler.Reach ok s) : scheduler.Reach Rules.any.Admit s :=
  r.mono fun s a _ => Rules.any_admits s a

/-- No move blocks a cothread in a call that it has not just entered. -/
theorem Move.blocked {R : Rules} {m m' : Moment} (h : Move R m m') {t : Tid} {f : Frame}
    (ht : m'.sched.place t = .blocked f) : m.sched.place t = .blocked f ∨ ∃ s : Sched, s.Entered R f := by
  have update : ∀ (s : Sched) (u : Tid) (g : Frame), s.Entered R g →
      Function.update s.place u (.blocked g) t = .blocked f →
      s.place t = .blocked f ∨ ∃ s : Sched, s.Entered R f := by
    intro s u g e hu
    by_cases htu : t = u
    · subst htu
      simp only [Function.update_self, Place.blocked.injEq] at hu
      exact .inr ⟨s, hu ▸ e⟩
    · exact .inl (by rwa [Function.update_of_ne htu] at hu)
  have leave : ∀ (s : Sched) (u : Tid) (p : Place), (∀ g, p ≠ .blocked g) →
      Function.update s.place u p t = .blocked f → s.place t = .blocked f := by
    intro s u p hp hu
    by_cases htu : t = u
    · subst htu
      rw [Function.update_self] at hu
      exact absurd hu (hp f)
    · rwa [Function.update_of_ne htu] at hu
  cases h with
  | pause entered | lookup entered | queueReceive entered | queueSend entered
  | meetSender entered | meetReceiver entered =>
    exact update _ _ _ entered (by simpa [Sched.emit, Sched.submit] using ht)
  | sleep entered =>
    rw [Sched.arm_eq] at ht
    exact update _ _ _ entered (by simpa using ht)
  | die running => exact .inl (leave _ _ .dead (by simp) ht)
  | start away new => exact .inl (leave _ _ .running (by simp) ht)
  | init main free => exact .inl (leave _ _ .new (by simp) ht)
  | resume away place dead =>
    rw [Sched.resume_place place] at ht
    exact .inl (leave _ _ .running (by simp) ht)
  | enterHub away ready dead =>
    rw [Sched.enterHub_eq] at ht
    exact .inl ht
  | enter | acquireWaits | releaseMeets | take | give | refuse | pick | fallback | fire | answer
  | poll | turn | drop | hubEnd | semInit | setExitFn | updateTime | others | tick => exact .inl ht

/-- Every call in which a cothread is blocked was entered under the rules. -/
theorem blocked_entered {R : Rules} {s : Sched} (r : scheduler.Reach R.Admit s) {t : Tid}
    {f : Frame} (ht : s.place t = .blocked f) : ∃ s : Sched, s.Entered R f := by
  refine scheduler_invariant (P := fun m => ∀ t f, m.sched.place t = .blocked f → ∃ s : Sched, s.Entered R f)
    ?_ ?_ r t f ht
  · intro s h t f hf
    rw [h.place] at hf
    by_cases htm : t = s.main <;> simp [htm] at hf
  · intro m m' _ h hm t f hf
    exact (hm.blocked hf).elim (h t f) id

end Gevent
