import Gevent.Sched.Lifecycle

/-!
# Stages of life

The history says how far a cothread has come (`stage`) and whether it has ever
armed its timer (`slept`). Most steps leave both alone (`Sched.Plainly`); the
initialisation of a cothread, its start, the return of its run function and the
arming of its timer are looked at one by one. Lives are led in order
(`Stages.ordered`), and the places agree with them.
-/

namespace Gevent

inductive Stage where
  | unborn | new | started | finished | exited
  deriving DecidableEq

/-- The stage of its life that `t` reaches with the event. -/
def Event.reaches (t : Tid) : Event → Option Stage
  | .init u => if u = t then some .new else none
  | .start u => if u = t then some .started else none
  | .finish u => if u = t then some .finished else none
  | .exitFn u => if u = t then some .exited else none
  | _ => none

def Event.arms (t : Tid) : Event → Option Bool
  | .armed _ u _ => if u = t then some true else none
  | _ => none

def stage (t : Tid) (log : List Event) : Stage := latest (Event.reaches t) .unborn log

/-- The timer of `t` has been armed, in this life or an earlier one. -/
def slept (t : Tid) (log : List Event) : Bool := latest (Event.arms t) false log

/-- The event is no stage of a life and arms no timer. -/
def Event.Ageless : Event → Prop
  | .init _ | .start _ | .finish _ | .exitFn _ | .armed _ _ _ => False
  | _ => True

/-- What must have happened before each stage of a life. The exit function is
called right after `hub->current` has been given to somebody else. -/
def Event.InOrder : Event → List Event → Prop
  | .init t, past => stage t past ≠ .started
  | .start t, past => stage t past = .new
  | .finish t, past => stage t past = .started
  | .exitFn t, past => stage t past = .finished ∧ ∃ new l, past = .switched new :: l ∧ new ≠ some t
  | _, _ => True

/-- The place is one of a cothread at this stage of its life. -/
def Place.Has (p : Place) : Stage → Prop
  | .unborn => p = .unborn
  | .new => p = .new
  | .started => p.Live
  | .finished | .exited => p = .dead

theorem Place.Alike.trans {p q r : Place} (h : p.Alike q) (h' : q.Alike r) : p.Alike r :=
  ⟨h.1.trans h'.1, h.2.1.trans h'.2.1, h.2.2.1.trans h'.2.2.1, h.2.2.2.trans h'.2.2.2⟩

theorem Place.Alike.has {p q : Place} (h : p.Alike q) {st : Stage} : p.Has st ↔ q.Has st := by
  obtain ⟨hl, hu, hn, hd⟩ := h
  cases st with
  | unborn => exact hu
  | new => exact hn
  | started => exact hl
  | finished | exited => exact hd

/-- The action is a call that arms the timer of its caller. -/
def World.Action.Sleeps (a : World.Action) : Prop :=
  (∃ d, a = .call (.sleep d)) ∨ ∃ d, 0 < d ∧ a = .call (.wait d)

section
variable {es log : List Event} {e : Event} {t u : Tid}

theorem Event.Ageless.reaches (h : e.Ageless) (t : Tid) : e.reaches t = none := by
  cases e <;> first | rfl | cases h

theorem Event.Ageless.arms (h : e.Ageless) (t : Tid) : e.arms t = none := by
  cases e <;> first | rfl | exact h.elim

theorem Event.Ageless.inOrder (h : e.Ageless) (past : List Event) : e.InOrder past := by
  cases e <;> trivial

theorem stage_ageless (h : ∀ e ∈ es, e.Ageless) : stage t (es ++ log) = stage t log :=
  latest_append fun e he => (h e he).reaches t

theorem slept_ageless (h : ∀ e ∈ es, e.Ageless) : slept t (es ++ log) = slept t log :=
  latest_append fun e he => (h e he).arms t

theorem ordered_ageless (h : ∀ e ∈ es, e.Ageless) (ordered : Hist Event.InOrder log) :
    Hist Event.InOrder (es ++ log) :=
  ordered.extend fun e he past => (h e he).inOrder past

/-- A switch away from a cothread that died ends its life if it has an exit function. -/
theorem stage_switching {e : Env} {new : Option Tid} : stage u (e.switching new (some t) ++ log) =
    if t = u ∧ e.exitFn t = true then .exited else stage u log := by
  by_cases hu : t = u
  · subst hu
    cases he : e.exitFn t <;>
      simp [Env.switching, Option.filter, stage, latest, Event.reaches, he]
  · cases he : e.exitFn t <;>
      simp [Env.switching, Option.filter, stage, latest, Event.reaches, hu, he]

theorem slept_switching {e : Env} {new died : Option Tid} :
    slept u (e.switching new died ++ log) = slept u log := by
  refine latest_append fun ev hev => ?_
  rcases Env.mem_switching.mp hev with rfl | ⟨v, -, -, rfl⟩ <;> rfl

theorem Frame.returns_ageless {f : Frame} {r : Result} {counter : Sem → Int} :
    ∀ e ∈ f.returns r counter, e.Ageless := by
  intro e he
  obtain ⟨k, c, r', rfl, -⟩ := Frame.mem_returns he
  trivial

theorem Sched.entryEvents_ageless {s : Sched} : ∀ e ∈ s.entryEvents, e.Ageless := by
  intro e he
  rw [Sched.mem_entryEvents he]
  trivial

end

namespace Sched

/-- No stage of a life passes and no timer is armed. -/
structure Plainly (s s' : Sched) : Prop where
  log : ∃ es, s'.env.log = es ++ s.env.log ∧ ∀ e ∈ es, e.Ageless
  place : ∀ t, (s'.place t).Alike (s.place t)
  exitFn : s'.env.exitFn = s.env.exitFn

variable {s s₁ s' : Sched} {t u : Tid} {f g : Frame} {l : List Event} {x : Leftover}
  {died : Option Tid} {k : CallId} {ch : Chan} {v : Word} {caller : Caller} {m : Sem} {c : Call}

namespace Plainly

theorem refl (s : Sched) : s.Plainly s := ⟨⟨[], rfl, by simp⟩, fun _ => .refl _, rfl⟩

theorem trans (h : s.Plainly s₁) (h' : s₁.Plainly s') : s.Plainly s' := by
  obtain ⟨es, log, plain⟩ := h.log
  obtain ⟨es', log', plain'⟩ := h'.log
  refine ⟨⟨es' ++ es, by rw [log', log, List.append_assoc], ?_⟩, fun t => ?_, h'.exitFn.trans h.exitFn⟩
  · intro e he
    exact (List.mem_append.mp he).elim (plain' e) (plain e)
  · exact Place.Alike.trans (h'.place t) (h.place t)

/-- Only the environment changes. -/
theorem env (log : s'.env.log = l ++ s.env.log) (plain : ∀ e ∈ l, e.Ageless)
    (place : s'.place = s.place) (exitFn : s'.env.exitFn = s.env.exitFn) : s.Plainly s' :=
  ⟨⟨l, log, plain⟩, fun t => by rw [place]; exact .refl _, exitFn⟩

theorem emit (s : Sched) {e : Event} (plain : e.Ageless) : s.Plainly (s.emit e) :=
  env (l := [e]) rfl (by simpa using plain) rfl rfl

theorem block (running : s.place t = .running) (f : Frame) : s.Plainly (s.block t f) := by
  refine ⟨⟨[], by simp, by simp⟩, fun u => ?_, by simp⟩
  rw [block_place]
  by_cases hu : u = t
  · subst hu
    rw [Function.update_self, running]
    exact .of_live (by simp) (by simp)
  · rw [Function.update_of_ne hu]
    exact .refl _

theorem resume (s : Sched) (u : Tid) (x : Leftover) : s.Plainly (s.resume u x none) := by
  cases hp : s.place u with
  | blocked f =>
    obtain ⟨timer, handles, active, he⟩ := resume_shape hp x none
    refine ⟨⟨f.returns (f.pending.result x) s.env.counter ++ s.env.switching (some u) none, by
      rw [he]; simp, ?_⟩, fun t => ?_, by rw [he]⟩
    · intro e hev
      rcases List.mem_append.mp hev with hev | hev
      · exact Frame.returns_ageless e hev
      · rcases Env.mem_switching.mp hev with rfl | ⟨t, ht, -⟩
        · trivial
        · cases ht
    · rw [resume_place hp]
      by_cases ht : t = u
      · subst ht
        rw [Function.update_self, hp]
        exact .of_live (by simp) (by simp)
      · rw [Function.update_of_ne ht]
        exact .refl _
  | unborn | new | running | dead =>
    simp only [Sched.resume, hp]
    exact refl s

theorem enterHub (s : Sched) : s.Plainly (s.enterHub none) := by
  rw [enterHub_eq]
  refine env (l := s.entryEvents ++ s.env.switching none none) (List.append_assoc ..).symm ?_ rfl rfl
  intro e he
  rcases List.mem_append.mp he with he | he
  · exact entryEvents_ageless e he
  · rcases Env.mem_switching.mp he with rfl | ⟨t, ht, -⟩
    · trivial
    · cases ht

theorem yield (s : Sched) (x : Leftover) : s.Plainly (s.yield x) := by
  simp only [Sched.yield]
  split
  · exact resume s _ x
  · exact enterHub s

theorem handOn (s : Sched) (x : Leftover) : s.Plainly (s.handOn x none) := by
  simp only [Sched.handOn]
  split
  · exact resume s _ x
  · exact enterHub s
  · exact (emit s (by trivial)).trans (resume _ _ x)

theorem receive (running : s.place t = .running) : s.Plainly (s.receive x t k ch caller) := by
  simp only [Sched.receive]
  split
  · refine Plainly.trans (Plainly.trans (emit s ?_) (block ?_ _)) (yield _ x)
    · trivial
    · exact running
  · exact ((block running _).trans (emit _ (by trivial))).trans (resume _ _ x)

theorem send (running : s.place t = .running) : s.Plainly (s.send x t k ch v caller) := by
  simp only [Sched.send]
  split
  · refine Plainly.trans (Plainly.trans (emit s ?_) (block ?_ _)) (yield _ x)
    · trivial
    · exact running
  · exact ((block running _).trans (emit _ (by trivial))).trans (resume _ _ _)

/-- A call enters the history. -/
theorem enter (s : Sched) (t : Tid) (c : Call) : s.Plainly (s.enter t c) :=
  env (l := [.call s.env.calls t c]) rfl (by simp [Event.Ageless]) rfl rfl

theorem acquire (running : s.place t = .running) : s.Plainly (s.acquire x t k m) := by
  simp only [Sched.acquire]
  split
  · exact env (l := [_]) rfl (by simp [Event.Ageless]) rfl rfl
  · exact (enter s t _).trans (receive running)

theorem release (running : s.place t = .running) : s.Plainly (s.release x t k m) := by
  simp only [Sched.release]
  split
  · exact (enter s t _).trans (send running)
  · exact env (l := [_]) rfl (by simp [Event.Ageless]) rfl rfl

theorem getaddrinfo (running : s.place t = .running) (o : Submit) :
    s.Plainly (s.getaddrinfo x t k o) := by
  have submit : s.Plainly (s.submit t k) :=
    env (l := [.submitted k s.env.nextReq, .malloc s.env.nextReq]) rfl (by simp [Event.Ageless]) rfl rfl
  cases o with
  | noMemory => exact env (l := [_]) rfl (by simp [Event.Ageless]) rfl rfl
  | failed => exact env (l := [_, _, _]) rfl (by simp [Event.Ageless]) rfl rfl
  | submitted =>
    have running' : (s.submit t k).place t = .running := running
    exact (submit.trans (block running' _)).trans (yield _ x)

theorem fire (s : Sched) (t : Tid) : s.Plainly (s.fire t) := by
  have stop : (s.env.timerStop t).log = s.env.log ∧ (s.env.timerStop t).exitFn = s.env.exitFn := by
    cases ha : (s.env.timer t).active with
    | true => simp [Env.timerStop_eq _ ha]
    | false => simp [Env.timerStop, Env.uvHandleStop, ha]
  refine env (l := [.fired (s.env.armedBy t)]) ?_ (by simp [Event.Ageless]) rfl stop.2
  simp [Sched.fire, Sched.emit, Env.emit, stop.1]

end Plainly

/-- A stack has ended, after the run function of `t` has returned. -/
structure Ends (t : Tid) (s s' : Sched) : Prop where
  log : ∃ es es' new, s'.env.log = es' ++ (s.env.switching new (some t) ++ (es ++ s.env.log)) ∧
    (∀ e ∈ es, e.Ageless) ∧ (∀ e ∈ es', e.Ageless) ∧ new ≠ some t
  place : ∀ t, (s'.place t).Alike (s.place t)
  exitFn : s'.env.exitFn = s.env.exitFn

namespace Ends

theorem resume (dead : s.place t = .dead) (hu : s.place u = .blocked f) (x : Leftover) :
    Ends t s (s.resume u x (some t)) := by
  have hut : u ≠ t := by
    rintro rfl
    rw [dead] at hu
    cases hu
  obtain ⟨timer, handles, active, he⟩ := resume_shape hu x (some t)
  refine ⟨⟨[], _, some u, by rw [he]; rfl, by simp, Frame.returns_ageless, by simpa using hut⟩,
    fun v => ?_, by rw [he]⟩
  rw [resume_place hu]
  by_cases hv : v = u
  · subst hv
    rw [Function.update_self, hu]
    exact .of_live (by simp) (by simp)
  · rw [Function.update_of_ne hv]
    exact .refl _

theorem handOn (core : Core ⟨s, none⟩) (away : s.Away) (dead : s.place t = .dead) (x : Leftover) :
    Ends t s (s.handOn x (some t)) := by
  have hub : Ends t s (s.enterHub (some t)) := by
    rw [enterHub_eq]
    exact ⟨⟨[], _, none, rfl, by simp, entryEvents_ageless, by simp⟩, fun v => .refl _, rfl⟩
  cases hq : s.queue .ready with
  | cons u us =>
    obtain ⟨f, hf, -⟩ := (core.queues.queued .ready u).mp (by simp [hq])
    simp only [Sched.handOn, hq]
    exact resume dead hf x
  | nil =>
    cases hh : s.hub with
    | suspended ph =>
      simp only [Sched.handOn, hq, hh]
      exact hub
    | running => exact absurd hh away.hub
    | idle =>
      obtain ⟨f, hf⟩ := main_blocked core away
      simp only [Sched.handOn, hq, hh]
      obtain ⟨⟨es, es', new, log, plain, plain', hne⟩, place, exitFn⟩ :=
        resume (s := s.emit (.fallback (s.env.inCall s.main))) dead hf x
      refine ⟨⟨es ++ [.fallback (s.env.inCall s.main)], es', new, ?_, ?_, plain', hne⟩, place, exitFn⟩
      · rw [List.append_assoc]
        exact log
      · intro e he
        rcases List.mem_append.mp he with he | he
        · exact plain e he
        · rw [List.mem_singleton.mp he]
          trivial

/-- The life of `t` ends, and its exit function is called if it has one. -/
theorem stage_eq (h : Ends t ((s.emit (.finish t)).setPlace t .dead) s') (u : Tid) :
    stage u s'.env.log = if t = u then (if s.env.exitFn t = true then .exited else .finished)
      else stage u s.env.log := by
  obtain ⟨es, es', new, log, hes, hes', -⟩ := h.log
  have hdie : stage u ((s.emit (.finish t)).setPlace t .dead).env.log =
      if t = u then .finished else stage u s.env.log := by
    by_cases hu : t = u <;>
      simp [stage, latest, Event.reaches, hu, Sched.emit, Env.emit, Sched.setPlace]
  have hfn : ((s.emit (.finish t)).setPlace t .dead).env.exitFn = s.env.exitFn := rfl
  rw [log, stage_ageless hes', stage_switching, stage_ageless hes, hdie, hfn]
  by_cases hu : t = u <;> simp [hu]

end Ends

/-- The action is neither the initialisation of a cothread nor its start nor its
end, and arms no timer. -/
def IsPlain : World.Action → Prop
  | .call (.spawn _) | .call (.sleep _) | .finish | .cothreadInit _ _ | .setExitFn _ _ => False
  | .call (.wait timeout) => ¬ 0 < timeout
  | _ => True

theorem plainly_next {a : World.Action} (st : s.Settled) (allowed : s.Allowed a) (plain : IsPlain a)
    (x : Leftover) : s.Plainly (s.next x a) := by
  cases a with
  | call c =>
    have owner : s.control.owner.isSome = true := by cases c <;> first | exact allowed | exact allowed.1
    cases hc : s.control with
    | hub ph => simp [hc, Control.owner] at owner
    | user t =>
      have running : (s.enter t c).place t = .running := st.user hc
      simp only [next, hc]
      refine (Plainly.enter s t c).trans ?_
      cases c with
      | spawn u => exact plain.elim
      | sleep d => exact plain.elim
      | wait d =>
        simp only [perform, if_neg (show ¬ 0 < d from plain)]
        exact (Plainly.block running _).trans (.yield _ x)
      | receive ch => exact .receive running
      | send ch v => exact .send running
      | acquire m => exact .acquire running
      | release m => exact .release running
      | getaddrinfo o => exact .getaddrinfo running o
  | finish | cothreadInit | setExitFn => exact plain.elim
  | timers =>
    simp only [next, timers]
    split
    · exact .env (l := [.poll]) rfl (by simp [Event.Ageless]) rfl rfl
    · split
      · exact .env (l := [.poll]) rfl (by simp [Event.Ageless]) rfl rfl
      · exact (Plainly.fire s _).trans (.resume _ _ x)
  | resolve r error res =>
    have complete : s.Plainly (s.complete r error res) :=
      .env (l := [.free r, .resolved r error res]) rfl (by simp [Event.Ageless]) rfl rfl
    simp only [next, resolve]
    split
    · exact complete
    · refine Plainly.trans ?_ (.resume _ _ _)
      exact complete.trans (.env (l := []) rfl (by simp) rfl rfl)
  | iterate =>
    simp only [next, iterate]
    split
    · exact .env (l := []) rfl (by simp) rfl rfl
    · refine Plainly.trans ?_ (.handOn _ x)
      exact .env (l := [.runEnd]) rfl (by simp [Event.Ageless]) rfl rfl
  | semaphoreInit m n => exact .env (l := [.semInit m n]) rfl (by simp [Event.Ageless]) rfl rfl
  | tick d => exact .env (l := [.tick d]) rfl (by simp [Event.Ageless]) rfl rfl
  | channelInit | updateTime | others | handleInit | handleClose =>
    exact .env (l := []) rfl (by simp) rfl rfl

/-- What a step does to the stages of life and to the timers that are armed. -/
inductive Progress (s s' : Sched) : World.Action → Prop
  | plain {a : World.Action} (plain : IsPlain a) (h : s.Plainly s') : Progress s s' a
  | spawn {s₁ : Sched} {u : Tid} (h : s.Plainly s₁) (new : s₁.place u = .new)
      (eq : s' = s₁.startCothread u) : Progress s s' (.call (.spawn u))
  | sleep {s₁ : Sched} {t : Tid} {k : CallId} {timeout : Nat} {ref : Bool} {a : World.Action}
      (control : s.control = .user t) (sleeps : a.Sleeps) (before : s.Plainly s₁)
      (after : (s₁.arm t k timeout ref).Plainly s') : Progress s s' a
  | finish {t : Tid} (control : s.control = .user t) (running : s.place t = .running)
      (h : Ends t ((s.emit (.finish t)).setPlace t .dead) s') : Progress s s' .finish
  | init {t : Tid} {run : Nat} (free : s.place t = .unborn ∨ s.place t = .new ∨ s.place t = .dead)
      (eq : s' = { s.setPlace t .new with env := s.env.initCothread t }) :
      Progress s s' (.cothreadInit t run)
  | setExitFn {t : Tid} {b : Bool} (eq : s' = { s with env := s.env.setExitFn t b }) :
      Progress s s' (.setExitFn t b)

/-- A cothread arms its timer and waits. -/
theorem progress_sleep {a : World.Action} {op : Call} (control : s.control = .user t)
    (sleeps : a.Sleeps) (running : s.place t = .running) (before : s.Plainly s₁)
    (same : s₁.place = s.place) (timeout : Int) (ref : Bool) :
    Progress s (s₁.sleepInternal x t k op timeout ref) a := by
  have running' : (s₁.arm t k timeout.toNat ref).place t = .running := by
    rw [arm_eq, same]
    exact running
  exact .sleep control sleeps before ((Plainly.block running' _).trans (.yield _ x))

theorem progress_next {a : World.Action} (core : Core ⟨s, none⟩) (st : s.Settled)
    (allowed : s.Allowed a) (valid : s.fault a = none) (x : Leftover) : Progress s (s.next x a) a := by
  by_cases plain : IsPlain a
  · exact .plain plain (plainly_next st allowed plain x)
  cases a with
  | call c =>
    have owner : s.control.owner.isSome = true := by cases c <;> first | exact allowed | exact allowed.1
    cases hc : s.control with
    | hub ph => simp [hc, Control.owner] at owner
    | user t =>
      have running : s.place t = .running := st.user hc
      simp only [next, hc]
      cases c with
      | spawn u =>
        have new : s.place u = .new := by simpa [fault] using valid
        have hut : u ≠ t := by
          rintro rfl
          rw [running] at new
          cases new
        have running' : (s.enter t (.spawn u)).place t = .running := running
        refine .spawn ((Plainly.enter s t _).trans (.block running' _)) ?_ rfl
        rw [block_place, Function.update_of_ne hut]
        exact new
      | sleep d => exact progress_sleep hc (.inl ⟨d, rfl⟩) running (.enter s t _) rfl d true
      | wait d =>
        have hd : 0 < d := Decidable.not_not.mp plain
        simp only [perform, if_pos hd]
        exact progress_sleep hc (.inr ⟨d, hd, rfl⟩) running (.enter s t _) rfl d false
      | receive | send | acquire | release | getaddrinfo => exact absurd trivial plain
  | finish =>
    cases hc : s.control with
    | hub ph => simp [Allowed, hc, Control.owner] at allowed
    | user t =>
      have running := st.user hc
      have main : t ≠ s.main := by simpa [Allowed, hc, Control.owner] using allowed
      have hm : Move Rules.any ⟨s, none⟩ ⟨(s.emit (.finish t)).setPlace t .dead, none⟩ :=
        .die running main
      simp only [next, hc]
      exact .finish hc running (.handOn (core.move hm) (core.away_of_die running) (Function.update_self ..) x)
  | cothreadInit t run => exact .init allowed.2 rfl
  | setExitFn t b => exact .setExitFn rfl
  | timers | resolve | iterate | channelInit | semaphoreInit | updateTime | others | handleInit
  | handleClose | tick => exact absurd trivial plain

end Sched

/-- Lives are led in order, and every cothread is in the place for its stage. -/
structure Stages (s : Sched) : Prop where
  ordered : Hist Event.InOrder s.env.log
  placed : ∀ t, (s.place t).Has (stage t s.env.log)

namespace Stages
variable {s s' : Sched} {t u : Tid}

theorem initial (h : s.Initial) : Stages s where
  ordered := by simp [h.log, Event.InOrder, stage, latest, Event.reaches]
  placed t := by
    by_cases ht : s.main = t
    · subst ht
      simp [h.log, h.place, stage, latest, Event.reaches, Place.Has]
    · simp [h.log, h.place, stage, latest, Event.reaches, Place.Has, ht, Ne.symm ht]

theorem plainly (h : Stages s) (hs : s.Plainly s') : Stages s' := by
  obtain ⟨es, log, plain⟩ := hs.log
  refine ⟨by rw [log]; exact ordered_ageless plain h.ordered, fun t => ?_⟩
  rw [log, stage_ageless plain]
  exact (hs.place t).has.mpr (h.placed t)

theorem new (h : Stages s) (hu : s.place u = .new) : stage u s.env.log = .new := by
  have placed := h.placed u
  cases hst : stage u s.env.log <;> simp [hst, hu, Place.Has] at placed ⊢

theorem started (h : Stages s) (ht : (s.place t).Live) : stage t s.env.log = .started := by
  have placed := h.placed t
  cases hst : stage t s.env.log <;> rw [hst] at placed <;> simp only [Place.Has] at placed <;>
    simp_all

/-- One cothread goes on to the next stage. -/
theorem advance {l : List Event} {e : Event} {g : Stage} {p : Place} (h : Stages s)
    (log : s'.env.log = e :: l ++ s.env.log) (plain : ∀ e ∈ l, e.Ageless)
    (hplace : s'.place = Function.update s.place t p) (mine : e.reaches t = some g)
    (others : ∀ u, u ≠ t → e.reaches u = none) (has : p.Has g)
    (ordered : e.InOrder (l ++ s.env.log)) : Stages s' := by
  refine ⟨by rw [log]; exact ⟨ordered, ordered_ageless plain h.ordered⟩, fun u => ?_⟩
  have hstage : stage u s'.env.log = (e.reaches u).getD (stage u s.env.log) := by
    rw [log]
    exact congrArg ((e.reaches u).getD ·) (stage_ageless plain)
  rw [hstage, hplace]
  by_cases hu : u = t
  · subst hu
    simpa [mine] using has
  · simpa [others u hu, Function.update_of_ne hu] using h.placed u

theorem start (h : Stages s) (hu : s.place u = .new) : Stages (s.startCothread u) := by
  refine h.advance (t := u) (g := .started) (e := .start u) (l := [.switched (some u)]) rfl
    (by simp [Event.Ageless]) rfl (by simp [Event.reaches]) ?_ (by simp [Place.Has]) (h.new hu)
  intro v hv
  simp [Event.reaches, Ne.symm hv]

theorem init (h : Stages s) (free : s.place t = .unborn ∨ s.place t = .new ∨ s.place t = .dead) :
    Stages { s.setPlace t .new with env := s.env.initCothread t } := by
  refine h.advance (t := t) (g := .new) (e := .init t) (l := []) rfl (by simp) rfl
    (by simp [Event.reaches]) ?_ rfl ?_
  · intro v hv
    simp [Event.reaches, Ne.symm hv]
  · have placed := h.placed t
    intro hst
    rw [List.nil_append] at hst
    rw [hst] at placed
    rcases free with hf | hf | hf <;> simp [hf, Place.Has] at placed

theorem die (h : Stages s) (ht : s.place t = .running) :
    Stages ((s.emit (.finish t)).setPlace t .dead) := by
  refine h.advance (t := t) (g := .finished) (e := .finish t) (l := []) rfl (by simp) rfl
    (by simp [Event.reaches]) ?_ rfl (h.started (by simp [ht]))
  intro v hv
  simp [Event.reaches, Ne.symm hv]

/-- A timer is armed. -/
theorem arm (h : Stages s) (t : Tid) (k : CallId) (timeout : Nat) (ref : Bool) :
    Stages (s.arm t k timeout ref) := by
  rw [Sched.arm_eq]
  exact ⟨⟨trivial, h.ordered⟩, h.placed⟩

theorem ends (h : Stages s) (hs : Sched.Ends t s s') (finished : stage t s.env.log = .finished) :
    Stages s' := by
  obtain ⟨es, es', new, log, plain, plain', hne⟩ := hs.log
  have hlog : Hist Event.InOrder (es ++ s.env.log) := ordered_ageless plain h.ordered
  refine ⟨?_, fun u => ?_⟩
  · rw [log]
    refine ordered_ageless plain' ?_
    cases he : s.env.exitFn t with
    | true =>
      simp only [Env.switching, Option.filter, he, if_true]
      exact ⟨⟨(stage_ageless plain).trans finished, new, _, rfl, hne⟩, trivial, hlog⟩
    | false =>
      simp only [Env.switching, Option.filter, he, Bool.false_eq_true, if_false]
      exact ⟨trivial, hlog⟩
  · refine (hs.place u).has.mpr ?_
    rw [log, stage_ageless plain', stage_switching, stage_ageless plain]
    split
    · next hu =>
      have dead : s.place t = .dead := by simpa [finished, Place.Has] using h.placed t
      rw [← hu.1]
      exact dead
    · exact h.placed u

theorem next {a : World.Action} (h : Stages s) (p : s.Progress s' a) : Stages s' := by
  cases p with
  | plain _ hs => exact h.plainly hs
  | spawn hs new eq =>
    subst eq
    exact (h.plainly hs).start new
  | sleep _ _ before after => exact ((h.plainly before).arm _ _ _ _).plainly after
  | finish _ running hs =>
    refine (h.die running).ends hs ?_
    simp [stage, latest, Event.reaches, Sched.emit, Env.emit, Sched.setPlace]
  | init free eq =>
    subst eq
    exact h.init free
  | setExitFn eq =>
    subst eq
    exact ⟨h.ordered, h.placed⟩

end Stages

namespace Sched.Progress
variable {s s' : Sched} {a : World.Action} {t u : Tid}

theorem not_sleeps (plain : Sched.IsPlain a) : ¬ a.Sleeps := by
  rintro (⟨d, rfl⟩ | ⟨d, hd, rfl⟩)
  · exact plain
  · exact plain hd

/-- Only sleeping calls arm a timer, that of the caller. -/
theorem slept_iff (p : s.Progress s' a) (u : Tid) : slept u s'.env.log = true ↔
    slept u s.env.log = true ∨ s.control = .user u ∧ a.Sleeps := by
  cases p with
  | plain plain hs =>
    obtain ⟨es, log, hes⟩ := hs.log
    rw [log, slept_ageless hes]
    simp [not_sleeps plain]
  | @spawn s₁ v hs _ eq =>
    obtain ⟨es, log, hes⟩ := hs.log
    subst eq
    have hlog : slept u (s₁.startCothread v).env.log = slept u s₁.env.log := rfl
    rw [hlog, log, slept_ageless hes]
    simp [World.Action.Sleeps]
  | @sleep s₁ t k timeout ref _ control sleeps before after =>
    obtain ⟨es, log, hes⟩ := before.log
    obtain ⟨es', log', hes'⟩ := after.log
    have harm : slept u (s₁.arm t k timeout ref).env.log =
        if t = u then true else slept u s₁.env.log := by
      rw [Sched.arm_eq]
      by_cases hu : t = u <;> simp [slept, latest, Event.arms, hu]
    rw [log', slept_ageless hes', harm, log, slept_ageless hes, control]
    by_cases hu : t = u <;> simp [hu, sleeps]
  | finish _ _ hs =>
    obtain ⟨es, es', new, log, hes, hes', -⟩ := hs.log
    rw [log, slept_ageless hes', slept_switching, slept_ageless hes]
    simp [slept, latest, Event.arms, Sched.emit, Env.emit, Sched.setPlace, World.Action.Sleeps]
  | init _ eq =>
    subst eq
    simp [slept, latest, Event.arms, Env.initCothread, World.Action.Sleeps]
  | setExitFn eq =>
    subst eq
    simp [Env.setExitFn, World.Action.Sleeps]

/-- A cothread exits when it finishes with its exit function set; initialising it
again begins another life. -/
theorem exited_iff (h : Stages s) (p : s.Progress s' a) (u : Tid) : stage u s'.env.log = .exited ↔
    stage u s.env.log = .exited ∧ (∀ run, a ≠ .cothreadInit u run) ∨
      a = .finish ∧ s.control = .user u ∧ s.env.exitFn u = true := by
  cases p with
  | plain plain hs =>
    obtain ⟨es, log, hes⟩ := hs.log
    have hfin : a ≠ .finish := by rintro rfl; exact plain
    have hinit : ∀ run, a ≠ .cothreadInit u run := by rintro run rfl; exact plain
    rw [log, stage_ageless hes]
    simp [hfin, hinit]
  | @spawn s₁ v hs new eq =>
    obtain ⟨es, log, hes⟩ := hs.log
    subst eq
    have hlog : stage u (s₁.startCothread v).env.log =
        if v = u then .started else stage u s₁.env.log := by
      by_cases hv : v = u <;>
        simp [stage, latest, Event.reaches, hv, Sched.startCothread, Sched.emit, Env.emit,
          Sched.switched, Env.callExitFn, Sched.setPlace]
    have hnew := (h.plainly hs).new new
    rw [hlog, log, stage_ageless hes]
    rw [log, stage_ageless hes] at hnew
    by_cases hv : v = u
    · subst hv
      simp [hnew]
    · simp [hv]
  | @sleep s₁ t k timeout ref _ control sleeps before after =>
    obtain ⟨es, log, hes⟩ := before.log
    obtain ⟨es', log', hes'⟩ := after.log
    have harm : stage u (s₁.arm t k timeout ref).env.log = stage u s₁.env.log := by
      rw [Sched.arm_eq]
      rfl
    have hact : a ≠ .finish ∧ ∀ run, a ≠ .cothreadInit u run := by
      rcases sleeps with ⟨d, rfl⟩ | ⟨d, -, rfl⟩ <;> simp
    rw [log', stage_ageless hes', harm, log, stage_ageless hes]
    simp [hact]
  | @finish t control running hs =>
    rw [hs.stage_eq]
    by_cases hu : t = u
    · subst hu
      have hst := h.started (t := t) (by simp [running])
      simp [hst, control]
    · simp [hu, control]
  | @init t run free eq =>
    subst eq
    by_cases hu : t = u
    · simp [stage, latest, Event.reaches, Env.initCothread, hu]
    · simp [stage, latest, Event.reaches, Env.initCothread, hu]
  | setExitFn eq =>
    subst eq
    simp [Env.setExitFn]

end Sched.Progress

theorem scheduler_stages {ok : Sched → World.Action → Prop} {s : Sched}
    (r : scheduler.Reach ok s) : Stages s := by
  refine r.invariant (fun s h => .initial h) ?_
  rintro s a s' hr h - ⟨allowed, valid, x, rfl⟩
  obtain ⟨b, st⟩ := scheduler_settled hr
  exact h.next (Sched.progress_next b.core st allowed valid x)

end Gevent
