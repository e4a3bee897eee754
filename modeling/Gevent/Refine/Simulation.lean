import Gevent.Refine.Calls
import Gevent.Sched.Path

/-!
# gevent.c refines the scheduler

Every legal action of the program, from a world that corresponds to a reachable
state of the scheduler, either fails exactly the assertion that the scheduler
names, or leads to a world that corresponds to the scheduler's next state
(`Corr.exec`). So every run of the program is a run of the scheduler
(`gevent_refines`).
-/

namespace Gevent
open Intrusive

/-- The run function of `t` has returned, and `_get_next_stacklet` is next. -/
structure Dying (w : World) (s : Sched) (t : Tid) : Prop extends
    Leaving (w.emit (.finish t)) ((s.emit (.finish t)).setPlace t .dead) (w.emit (.finish t)).stored
      .empty (some t) where
  queues : ((s.emit (.finish t)).setPlace t .dead).Queues
  mainBlocked : ∃ f, ((s.emit (.finish t)).setPlace t .dead).place s.main = .blocked f
  currentDied : (w.emit (.finish t)).hub.current = some t
  null : (w.emit (.finish t)).setStacklet t .null = w.emit (.finish t)

theorem Dying.cothreadReturn {w : World} {s : Sched} {t : Tid} (d : Dying w s t) :
    w.cothreadReturn t =
      (w.emit (.finish t)).getNextStacklet >>= fun p => p.1.restore p.2 .empty := by
  simp only [World.cothreadReturn, d.null]

namespace Corr
variable {w : World} {s : Sched} {t u : Tid} {ph : Phase}

theorem mapEnv (c : Corr w s) (g : Env → Env) :
    Corr { w with env := g w.env } { s with env := g s.env } :=
  { toCouple := (World.stored_congr (w := w) rfl rfl) ▸ c.toCouple.mapEnv g
    control := c.control
    current := c.current
    running := c.running
    hubRunning := c.hubRunning }

/-- The loop goes from one phase to another. -/
theorem phase (c : Corr w s) (h : s.control = .hub ph) (ph' : Phase) :
    Corr { w with control := .hub ph' } { s with control := .hub ph' } :=
  { toCouple := (World.stored_congr (w := w) rfl rfl) ▸ c.toCouple.withControl _ _
    control := rfl
    current := c.current.trans (by rw [h]; rfl)
    running := c.running
    hubRunning := c.hubRunning }

theorem withHandleList (c : Corr w s) (x : Handles) : Corr { w with handles := x } s :=
  { toCouple := (World.stored_congr (w := w) rfl rfl) ▸ c.toCouple.withHandleList x
    control := c.control
    current := c.current
    running := c.running
    hubRunning := c.hubRunning }

/-- A cothread that runs its own code can call. -/
theorem calling (c : Corr w s) (b : Base ⟨s, none⟩) (st : s.Settled) (h : s.control = .user t) :
    Calling w s t :=
  have ht := st.user h
  { toCouple := c.toCouple
    place := ht
    current := by rw [c.current, h]; rfl
    control := by rw [c.control, h]
    only := fun _ hu => b.core.running_unique ht hu
    hubAway := (b.core.running t ht).2
    state := (c.running t ht).1
    null := (c.running t ht).2
    user := h
    queues := b.core.queues }

/-! ## A stack ends -/

theorem dying (c : Corr w s) (b : Base ⟨s, none⟩) (st : s.Settled) (h : s.control = .user t)
    (main : t ≠ s.main) : Dying w s t := by
  have call := c.calling b st h
  have busy := call.toBusy.emit (.finish t)
  have hco : Function.update w.co t { w.co t with stacklet := .null } = w.co := by
    rw [← call.null]
    exact Function.update_eq_self t w.co
  refine
    { toLeaving := busy.toCouple.die busy.place busy.current
        (by rw [show (w.emit (.finish t)).hub.main = s.main from c.main]; exact main) call.state
        busy.only busy.hubAway
      queues := (b.core.queues.setPlace (by simp [call.place]) (by simp)).congr rfl rfl
      mainBlocked := ?_
      currentDied := call.current
      null := ?_ }
  · have hold : s.place s.main = .running ∨ ∃ f, s.place s.main = .blocked f := b.core.main
    obtain ⟨f, hf⟩ := hold.resolve_left fun hr => main (call.only _ hr).symm
    exact ⟨f, (Function.update_of_ne (Ne.symm main) _ _).trans hf⟩
  · simp [World.setStacklet, World.modify, hco, World.emit]

theorem finish (c : Corr w s) (b : Base ⟨s, none⟩) (st : s.Settled) (h : s.control = .user t)
    (main : t ≠ s.main) : ∃ w' x, w.cothreadReturn t = .ok w' ∧ Corr w' (s.finish x t) := by
  have d := c.dying b st h main
  obtain ⟨w₁, target, w', x, hget, hrest, corr⟩ := d.next d.queues d.mainBlocked
    fun _ => by rw [d.currentDied]; simp
  refine ⟨w', x, ?_, corr⟩
  rw [d.cothreadReturn, hget]
  exact hrest

theorem hubReturn (c : Corr w s) (b : Base ⟨s, none⟩) (h : s.control = .hub ph)
    (hub : s.hub = .running) : ∃ w' x, w.hubReturn = .ok w' ∧ Corr w' (s.hubReturn x) := by
  have hnull := c.hubRunning hub
  have hcur : w.hub.current = none := by rw [c.current, h]; rfl
  let w₁ : World := { w.emit .runEnd with
    hub := { w.hub with loopAlive := false, stacklet := .null } }
  have hst : w₁.stored = w.stored := World.stored_congr hnull.symm rfl
  have c₁ : Couple w₁ (s.emit .runEnd) w₁.stored := by
    rw [hst]
    exact { c.toCouple.emit .runEnd with
      hubIdle := fun _ => rfl
      cell := fun t => (c.cell t).congr rfl rfl fun _ => rfl }
  have nobody := b.core.nobody hub
  have l := c₁.endHub hub hcur rfl nobody
  have hmain : ∃ f, s.place s.main = .blocked f :=
    b.core.main.resolve_left (nobody s.main)
  obtain ⟨w₂, target, w', x, hget, hrest, corr⟩ := l.next (b.core.queues.congr rfl rfl) hmain
    fun hne => absurd rfl hne
  refine ⟨w', x, ?_, corr⟩
  have hw : w.hubReturn = w₁.getNextStacklet >>= fun p => p.1.restore p.2 .empty := rfl
  rw [hw]
  simp only [hget, ok_bind]
  exact hrest

/-! ## The loop -/

/-- A callback of the loop switches to the cothread it is for. -/
theorem callback {f : Frame} {w₁ : World} {s₁ : Sched} (c₁ : Couple w₁ s₁ w₁.stored)
    (hub : s₁.hub = .running) (hcur : w₁.hub.current = none) (hcon : w₁.control.owner = none)
    (nobody : ∀ u, s₁.place u ≠ .running) (hu : s₁.place u = .blocked f) (hself : f.self = u)
    (hq : f.pending.queue = none) (hp : f.pending ≠ .wait) (ph : Phase) :
    ∃ w' x, w₁.switch u (.callback ph) = .ok w' ∧
      x = ⟨(w₁.co u).third, w₁.links.links.next (.op u)⟩ ∧
      Corr w' (Sched.resume { s₁ with hub := .suspended ph } u x none) := by
  have l := c₁.leaveHub hub hcur hcon nobody ph
  have l' : Leaving (w₁.suspend w₁.hub.current (.callback ph)).1 { s₁ with hub := .suspended ph }
      (Function.update w₁.stored none (.stack w₁.thread.next))
      (w₁.suspend w₁.hub.current (.callback ph)).2 none := by
    rw [hcur]
    exact l
  obtain ⟨w', hw', corr⟩ := l'.switch (u := u) hu hself (by rw [hcur]; simp)
    (by simp [Sched.Waits, hq]) hp
  exact ⟨w', _, hw', rfl, corr⟩

theorem poll (c : Corr w s) (h : s.control = .hub ph) :
    Corr { w.emit .poll with control := .hub .io } s.poll :=
  (c.mapEnv fun e => e.emit .poll).phase h .io

theorem timers (c : Corr w s) (b : Base ⟨s, none⟩) (h : s.control = .hub .timers)
    (hub : s.hub = .running) : ∃ w' x, w.uvRunTimers = .ok w' ∧ Corr w' (s.timers x) := by
  have henv : w.env = s.env := c.env
  cases hl : s.env.loop.timerHandles with
  | nil =>
    refine ⟨{ w.emit .poll with control := .hub .io }, ⟨.null, .null⟩, ?_, ?_⟩
    · simp only [World.uvRunTimers, henv, hl]
    · simp only [Sched.timers, hl]
      exact c.poll h
  | cons t ts =>
    by_cases due : (s.env.timer t).timeout > s.env.loop.time
    · refine ⟨{ w.emit .poll with control := .hub .io }, ⟨.null, .null⟩, ?_, ?_⟩
      · simp only [World.uvRunTimers, henv, hl, if_pos due]
      · simp only [Sched.timers, hl, if_pos due]
        exact c.poll h
    · obtain ⟨active, cb, rpt, f, hf, hs, -⟩ : (s.env.timer t).active = true ∧
          (s.env.timer t).timerCb = true ∧ (s.env.timer t).rpt = 0 ∧ ∃ f, s.place t = .blocked f ∧
          f.pending = .sleep ∧ _ := b.timers.armed t (by simp [hl])
      obtain ⟨hstate, -, hloop⟩ : Cell w t (.blocked f) := hf ▸ c.cell t
      have hcur : w.hub.current = none := by rw [c.current, h]; rfl
      let w₁ : World := { w with env := w.env.timerStop t }
      let g : Env → Env := fun e => (e.timerStop t).emit (.fired (e.armedBy t))
      have c₁ : Corr { w with env := g w.env } { s with env := g s.env } := c.mapEnv g
      obtain ⟨w', x, hw', -, corr⟩ := callback c₁.toCouple hub hcur (by rw [c.control, h]; rfl)
        (b.core.nobody hub) hf (b.core.queues.self t f hf) (by rw [hs]; rfl) (by simp [hs]) .timers
      refine ⟨w', x, ?_, ?_⟩
      · have hstop : w.uvTimerStop t = .ok w₁ := by
          simp [World.uvTimerStop, henv, active, hloop hs, w₁]
        have hcb : (w₁.env.timer t).timerCb = true := by
          simp [w₁, henv, Env.timerStop_eq _ active, cb]
        have hagain : w₁.uvTimerAgain t = .ok w₁ := by
          have hrpt : (w₁.env.timer t).rpt = 0 := by
            simp [w₁, henv, Env.timerStop_eq _ active, rpt]
          simp [World.uvTimerAgain, hcb, hrpt]
        have harm : w₁.env.armedBy t = w.env.armedBy t := by
          simp [w₁, henv, Env.timerStop_eq _ active]
        have hrun : w.uvRunTimers = (w₁.emit (.fired (w₁.env.armedBy t))).sleepCb t := by
          simp only [World.uvRunTimers, henv, hl, if_neg due, hstop, hagain, ok_bind]
          rw [check_pos hcb]
          rfl
        rw [hrun, harm, World.sleepCb, check_pos (by
            rw [show (w₁.emit (.fired (w.env.armedBy t))).co = w.co from rfl, hstate, hs]
            rfl),
          check_pos (by exact hcur)]
        exact hw'
      · simp only [Sched.timers, hl, if_neg due]
        exact corr

theorem resolve (c : Corr w s) (b : Base ⟨s, none⟩) {r : ReqId} (h : s.control = .hub .io)
    (hub : s.hub = .running) (active : r ∈ s.env.loop.activeReqs) (error : Int) (res : Word)
    (valid : s.fault (.resolve r error res) = none) :
    ∃ w' x, w.getaddrinfoCb r error res = .ok w' ∧ Corr w' (s.resolve x r error res) := by
  have hdata : (w.env.complete r error res).reqData r = s.env.reqData r := by rw [c.env]; rfl
  obtain ⟨my, hmy, -⟩ := b.lookups.owner_at active
  obtain ⟨f, hf, hs⟩ : ∃ f, s.place my = .blocked f ∧ f.pending = .getaddrinfo := by
    cases hp : s.place my with
    | blocked f => exact ⟨f, rfl, by simpa [Sched.fault, hmy, hp] using valid⟩
    | unborn | new | running | dead => simp [Sched.fault, hmy, hp] at valid
  have hcur : w.hub.current = none := by rw [c.current, h]; rfl
  have hstate : (w.co my).state = .waitingGetaddrinfo := by
    have hcell : Cell w my (.blocked f) := hf ▸ c.cell my
    rw [hcell.1, hs]
    rfl
  have c₁ := c.mapEnv fun e => e.complete r error res
  have hun : ∀ q, my ∉ s.queue q := by
    intro q hq
    obtain ⟨g, hg, hgq⟩ := (b.core.queues.queued q my).mp hq
    rw [hf] at hg
    cases hg
    rw [hs] at hgq
    cases hgq
  let w₁ : World := { w with
    env := w.env.complete r error res, links := w.links.writeNext (.op my) res }
  have c₂ : Couple (w₁.setThird my (.data error)) (s.complete r error res)
      (w₁.setThird my (.data error)).stored := by
    have hst : (w₁.setThird my (.data error)).stored = w.stored := by
      funext o
      cases o with
      | none => rfl
      | some u => by_cases hu : u = my <;> simp [World.stored, World.setThird, World.modify, w₁, hu]
    rw [hst]
    exact (c₁.toCouple.writeNext (t := my)
      (by rw [show ({ s with env := _ } : Sched).place = s.place from rfl, hf]; simp) hun res).setThirdOf
      hf (.inr (by rw [hs]; rfl)) _
  obtain ⟨w', x, hw', hx, corr⟩ := callback c₂ hub hcur (by
      rw [show (w₁.setThird my (.data error)).control = s.control from c.control, h]; rfl)
    (b.core.nobody hub) hf (b.core.queues.self my f hf) (by rw [hs]; rfl) (by simp [hs]) .io
  refine ⟨w', x, ?_, ?_⟩
  · simp only [World.getaddrinfoCb, hdata, hmy]
    rw [check_pos hstate]
    exact hw'
  · have hxe : x = ⟨.data error, res⟩ := by
      rw [hx]
      simp [World.setThird, World.modify, w₁, Traced.writeNext, Links.setNext]
    simp only [Sched.resolve, hmy]
    rw [hxe] at corr
    exact corr

theorem iterate (c : Corr w s) (b : Base ⟨s, none⟩) (h : s.control = .hub ph)
    (hub : s.hub = .running) : ∃ w' x, w.uvRunIterate = .ok w' ∧ Corr w' (s.iterate x) := by
  have henv : w.env = s.env := c.env
  cases alive : s.env.uvLoopAlive with
  | true =>
    refine ⟨{ w with env := w.env.uvUpdateTime, control := .hub .timers }, ⟨.null, .null⟩, ?_, ?_⟩
    · simp only [World.uvRunIterate, henv, alive, if_true]
    · simp only [Sched.iterate, alive, if_true]
      exact (c.mapEnv fun e => e.uvUpdateTime).phase h .timers
  | false =>
    obtain ⟨w', x, hw', corr⟩ := c.hubReturn b h hub
    refine ⟨w', x, ?_, ?_⟩
    · simpa only [World.uvRunIterate, henv, alive, if_neg Bool.false_ne_true] using hw'
    · simpa only [Sched.iterate, alive, if_neg Bool.false_ne_true] using corr

/-! ## The program prepares objects -/

theorem initHead (c : Corr w s) {q : QueueId} (hq : s.queue q = []) :
    Corr { w with links := w.links.init (.head q) } s :=
  { toCouple := (World.stored_congr (w := w) rfl rfl) ▸ c.toCouple.initHead hq
    control := c.control
    current := c.current
    running := c.running
    hubRunning := c.hubRunning }

theorem channelInit (c : Corr w s) {ch : Chan} (hr : s.queue (.receivers ch) = [])
    (hs : s.queue (.senders ch) = []) : Corr (w.channelInit ch) s :=
  (c.initHead hr).initHead hs

theorem cothreadInit (c : Corr w s) (queues : s.Queues)
    (ht : s.place t = .unborn ∨ s.place t = .new ∨ s.place t = .dead) (run : Nat) :
    Corr (w.cothreadInit t (.fn run)) { s.setPlace t .new with env := s.env.initCothread t } := by
  have hnb : ∀ f, s.place t ≠ .blocked f := by rcases ht with h | h | h <;> simp [h]
  have hun : Unlinked w.links.history (.op t) := c.toCouple.unlinked (queues.not_queued hnb)
  have hco : ∀ u, u ≠ t → (w.cothreadInit t (.fn run)).co u = w.co u := by
    intro u hu
    simp [World.cothreadInit, World.setStacklet, World.setState, World.modify, hu]
  have hplace : ∀ u, u ≠ t → (s.setPlace t .new).place u = s.place u := fun u hu => by
    simp [Sched.setPlace, hu]
  have hstored : ∀ o, o ≠ some t → (w.cothreadInit t (.fn run)).stored o = w.stored o := by
    intro o ho
    cases o with
    | none => rfl
    | some u =>
      have hut : u ≠ t := fun he => ho (he ▸ rfl)
      simp [World.stored, hco u hut]
  have hblocked : ∀ u f, (s.setPlace t .new).place u = .blocked f → u ≠ t := by
    rintro u f hu rfl
    simp [Sched.setPlace] at hu
  refine
    { main := c.main
      env := congrArg (·.initCothread t) c.env
      good := c.good.writePrev (Word.not_isHead_op t) hun _
      contents := c.contents
      linked := fun q u hu => by
        have hut : u ≠ t := by
          rintro rfl
          exact queues.not_queued hnb q hu
        change (s.setPlace t .new).place u ≠ .new
        rw [hplace u hut]
        exact c.linked q u hu
      fresh := c.fresh
      parked := fun u f hu => by
        have hut := hblocked u f hu
        obtain ⟨n, hn, hst⟩ := c.parked u f ((hplace u hut).symm.trans hu)
        exact ⟨n, (hstored (some u) (by simpa using hut)).trans hn, hst⟩
      hubParked := c.hubParked
      hubIdle := c.hubIdle
      owned := fun n st hst => by
        obtain ⟨ho, he⟩ := c.owned n st hst
        obtain ⟨_ | u, current, k⟩ := st
        · exact ⟨ho, he⟩
        · obtain ⟨f, hf, heq⟩ := he
          have hut : u ≠ t := by
            rintro rfl
            exact hnb f hf
          exact ⟨(hstored (some u) (by simpa using hut)).trans ho, f,
            (hplace u hut).trans hf, heq⟩
      usedNodup := c.usedNodup
      used := c.used
      cell := fun u => ?_
      control := c.control
      current := c.current
      running := fun u hu => ?_
      hubRunning := c.hubRunning }
  · change Cell _ u ((s.setPlace t .new).place u)
    by_cases hut : u = t
    · subst hut
      simp [Sched.setPlace, Cell, World.cothreadInit, World.setStacklet, World.setState,
        World.modify, Traced.writePrev, Links.setPrev, Word.null]
    · rw [hplace u hut]
      refine (c.cell u).congr (hco u hut) rfl fun _ => ?_
      have hne : (Word.op u) ≠ .op t := fun he => hut (Word.op.inj he)
      simp [World.cothreadInit, World.setStacklet, World.setState, World.modify,
        Traced.writePrev, Links.setPrev, hne]
  · have hu' : (s.setPlace t .new).place u = .running := hu
    have hut : u ≠ t := by
      rintro rfl
      simp [Sched.setPlace] at hu'
    rw [hco u hut]
    exact c.running u ((hplace u hut).symm.trans hu')

/-! ## One action -/

/-- What the callers of gevent.c promise, in terms of the scheduler. -/
theorem allowed (c : Corr w s) (b : Base ⟨s, none⟩) {a : World.Action} (legal : w.Legal a) :
    s.Allowed a := by
  have hknown : w.env.known = s.env.known := by rw [c.env]
  have free : ∀ ch, w.channelFree ch = true →
      s.queue (.receivers ch) = [] ∧ s.queue (.senders ch) = [] := by
    intro ch h
    simp only [World.channelFree, Bool.and_eq_true] at h
    exact ⟨(c.toCouple.queueEmpty _).mp h.1, (c.toCouple.queueEmpty _).mp h.2⟩
  cases a with
  | call a =>
    cases a <;> simp only [World.Legal, Sched.Allowed, c.control, hknown] at legal ⊢ <;> exact legal
  | finish =>
    simp only [World.Legal, Sched.Allowed, c.control, c.main] at legal ⊢
    exact legal
  | cothreadInit t run =>
    obtain ⟨hm, hst⟩ := legal
    refine ⟨by rw [← c.main]; exact hm, ?_⟩
    by_cases hk : t ∈ w.env.known
    · have hcell := c.cell t
      cases hp : s.place t with
      | unborn => exact .inl rfl
      | new => exact .inr (.inl rfl)
      | dead => exact .inr (.inr rfl)
      | running =>
        have := (c.running t hp).1
        rcases hst hk with h | h <;> rw [this] at h <;> cases h
      | blocked f =>
        rw [hp] at hcell
        rcases hst hk with h | h <;> rw [hcell.1] at h <;> cases hf : f.pending <;>
          simp [hf, Pending.state] at h
    · left
      by_contra hne
      exact hk (hknown ▸ (b.core.known t).mpr hne)
  | channelInit ch => exact free ch legal
  | semaphoreInit m counter =>
    obtain ⟨hf, low, high⟩ := legal
    exact ⟨(free _ hf).1, (free _ hf).2, low, high⟩
  | timers => exact c.control.symm.trans legal
  | resolve r error res =>
    obtain ⟨hc, hr⟩ := legal
    exact ⟨c.control.symm.trans hc, by rw [← c.env]; exact hr⟩
  | iterate => exact legal.imp (fun h => c.control.symm.trans h) fun h => c.control.symm.trans h
  | setExitFn | updateTime | others | handleInit | handleClose | tick => trivial

/-- A request under way always has a blocked cothread to its name. -/
theorem asker_blocked (b : Base ⟨s, none⟩) {r : ReqId} (hub : s.hub = .running)
    (active : r ∈ s.env.loop.activeReqs) :
    ∃ my f, s.env.reqData r = some my ∧ s.place my = .blocked f := by
  obtain ⟨my, hmy, ⟨f, hf, -⟩ | ⟨rfl, -⟩⟩ := b.lookups.owner_at active
  · exact ⟨my, f, hmy, hf⟩
  · obtain ⟨f, hf⟩ := b.core.main.resolve_left (b.core.nobody hub s.main)
    exact ⟨s.main, f, hmy, hf⟩

/-- Where the scheduler names a fault, the program has it. -/
theorem exec_fault (c : Corr w s) (b : Base ⟨s, none⟩) (st : s.Settled) {a : World.Action}
    (allowed : s.Allowed a) {f : Fault} (hf : s.fault a = some f) : w.exec a = .error f := by
  cases a with
  | call a =>
    cases hc : s.control with
    | hub ph =>
      have : s.control.owner.isSome := by cases a <;> first | exact allowed | exact allowed.1
      simp [hc, Control.owner] at this
    | user t =>
      have hwc : w.control = .user t := c.control.trans hc
      have call : Calling { w with env := w.env.enter t a } { s with env := s.env.enter t a } t :=
        (c.calling b st hc).mapEnv fun e => e.enter t a
      cases a with
      | spawn u =>
        have hne : s.place u ≠ .new := by
          intro h
          simp [Sched.fault, h] at hf
        have hfe : f = .assertion .spawn := by simpa [Sched.fault, hne] using hf.symm
        have born : s.place u ≠ .unborn := (b.core.known u).mp allowed.2
        rw [hfe]
        simp only [World.exec, World.call, hwc]
        exact call.spawn_fault hne born _
      | sleep d =>
        have hd : d < 0 := by
          by_contra h
          simp [Sched.fault, h] at hf
        have hfe : f = .assertion .uvTimerStart := by simpa [Sched.fault, hd] using hf.symm
        rw [hfe]
        simp only [World.exec, World.call, hwc]
        exact Calling.sleep_fault call.getCurrent hd _ _ true
      | wait | receive | send | acquire | release | getaddrinfo => simp [Sched.fault] at hf
  | resolve r error res =>
    have hub : s.hub = .running := st.loop allowed.1
    obtain ⟨my, g, hmy, hg⟩ := asker_blocked b hub allowed.2
    have hne : g.pending ≠ .getaddrinfo := by
      intro h
      simp [Sched.fault, hmy, hg, h] at hf
    have hfe : f = .assertion .getaddrinfoCb := by simpa [Sched.fault, hmy, hg, hne] using hf.symm
    have hdata : (w.env.complete r error res).reqData r = s.env.reqData r := by rw [c.env]; rfl
    have hstate : (w.co my).state ≠ .waitingGetaddrinfo := by
      have hcell : Cell w my (.blocked g) := hg ▸ c.cell my
      rw [hcell.1]
      cases hp : g.pending <;> simp_all [Pending.state]
    rw [hfe]
    simp only [World.exec, World.getaddrinfoCb, hdata, hmy]
    rw [check_neg hstate]
    rfl
  | finish | cothreadInit | setExitFn | channelInit | semaphoreInit | timers | iterate | updateTime
  | others | handleInit | handleClose | tick => simp [Sched.fault] at hf

/-- Where it names none, the program does what the scheduler does. -/
theorem exec (c : Corr w s) (b : Base ⟨s, none⟩) (st : s.Settled) {a : World.Action}
    (allowed : s.Allowed a) (valid : s.fault a = none) :
    ∃ w' x, w.exec a = .ok w' ∧ Corr w' (s.next x a) := by
  cases a with
  | call a =>
    cases hc : s.control with
    | hub ph =>
      have : s.control.owner.isSome := by cases a <;> first | exact allowed | exact allowed.1
      simp [hc, Control.owner] at this
    | user t =>
      have hwc : w.control = .user t := c.control.trans hc
      have call : Calling { w with env := w.env.enter t a } { s with env := s.env.enter t a } t :=
        (c.calling b st hc).mapEnv fun e => e.enter t a
      obtain ⟨w', x, hw', corr⟩ := call.perform w.env.calls a
        (by rintro u rfl; simpa [Sched.fault] using valid)
        (by rintro d rfl; simpa [Sched.fault] using valid)
      refine ⟨w', x, ?_, ?_⟩
      · simp only [World.exec, World.call, hwc]
        exact hw'
      · simp only [Sched.next, hc]
        rw [c.env] at corr
        exact corr
  | finish =>
    cases hc : s.control with
    | hub ph => simp [Sched.Allowed, hc, Control.owner] at allowed
    | user t =>
      have hwc : w.control = .user t := c.control.trans hc
      have main : t ≠ s.main := by simpa [Sched.Allowed, hc, Control.owner] using allowed
      obtain ⟨w', x, hw', corr⟩ := c.finish b st hc main
      exact ⟨w', x, by simpa only [World.exec, hwc] using hw', by simpa only [Sched.next, hc] using corr⟩
  | cothreadInit t run =>
    exact ⟨_, ⟨.null, .null⟩, rfl, c.cothreadInit b.core.queues allowed.2 run⟩
  | setExitFn t v => exact ⟨_, ⟨.null, .null⟩, rfl, c.mapEnv fun e => e.setExitFn t v⟩
  | channelInit ch => exact ⟨_, ⟨.null, .null⟩, rfl, c.channelInit allowed.1 allowed.2⟩
  | semaphoreInit m counter =>
    obtain ⟨hr, hs, -, -⟩ := allowed
    exact ⟨_, ⟨.null, .null⟩, rfl,
      ((c.mapEnv fun e => e.setCounter m counter).channelInit hr hs).mapEnv
        fun e => e.emit (.semInit m counter)⟩
  | timers => exact c.timers b allowed (st.loop allowed)
  | resolve r error res =>
    exact c.resolve b allowed.1 (st.loop allowed.1) allowed.2 error res valid
  | iterate =>
    rcases allowed with h | h
    · exact c.iterate b h (st.loop h)
    · exact c.iterate b h (st.loop h)
  | updateTime => exact ⟨_, ⟨.null, .null⟩, rfl, c.mapEnv fun e => e.uvUpdateTime⟩
  | others n => exact ⟨_, ⟨.null, .null⟩, rfl, c.mapEnv fun e => e.setOthers n⟩
  | handleInit h => exact ⟨_, ⟨.null, .null⟩, rfl, c.withHandleList _⟩
  | handleClose h => exact ⟨_, ⟨.null, .null⟩, rfl, c.withHandleList _⟩
  | tick d => exact ⟨_, ⟨.null, .null⟩, rfl, c.mapEnv fun e => e.tick d⟩

end Corr

/-! ## The start -/

theorem World.Raw.good {w : World} (r : w.Raw) : w.links.Good Word.IsHead where
  disciplined := by rw [r.history]; trivial
  ring x hx := by
    obtain ⟨q, rfl⟩ := hx
    rw [r.history]
    exact ⟨by simp [Intrusive.contents], r.channel q |>.2, r.channel q |>.1⟩
  member q x hx := by rw [r.history] at hx; cases hx
  apart q q' x hx := by rw [r.history] at hx; cases hx

theorem World.Raw.hubInit {w : World} (r : w.Raw) (main : Tid) :
    ∃ s : Sched, s.Initial ∧ Corr (w.hubInit main) s := by
  let s : Sched :=
    { main := main
      place := Function.update (fun _ => .unborn) main .running
      queue := fun _ => []
      hub := .idle
      control := .user main
      env := (w.hubInit main).env }
  have hun : ∀ x, Unlinked w.links.history x := by
    intro x q hx
    rw [r.history] at hx
    cases hx
  have good : (w.hubInit main).links.Good Word.IsHead := by
    have g := r.good.init (hun (.head .ready)) (by rw [r.history]; rfl)
    exact g.writePrev (Word.not_isHead_op main) (by
      intro q hx
      rw [Traced.init, r.history] at hx
      cases hx) .null
  have hplace : ∀ t, t ≠ main → s.place t = .unborn := fun t ht => by simp [s, ht]
  have hnb : ∀ t f, s.place t ≠ .blocked f := by
    intro t f
    by_cases ht : t = main <;> simp [s, ht]
  refine ⟨s, ⟨rfl, fun _ => rfl, rfl, rfl, r.timers, r.activeHandles, r.activeReqs, ?_, ?_⟩, ?_⟩
  · change main :: w.env.known = [main]
    rw [r.known]
  · change Event.start main :: .init main :: w.env.log = [.start main, .init main]
    rw [r.log]
  · exact
      { main := rfl
        env := rfl
        good := good
        contents := fun q => by
          change Intrusive.contents (.overwrite _ :: .init _ :: w.links.history) _ = _
          rw [r.history]
          rfl
        linked := fun q t ht => by cases ht
        fresh := fun n _ => r.suspended n
        parked := fun t f ht => absurd ht (hnb t f)
        hubParked := fun ph h => by cases h
        hubIdle := fun _ => rfl
        owned := fun n st hst => by
          have hnone : (w.hubInit main).thread.suspended n = none := r.suspended n
          rw [hnone] at hst
          cases hst
        usedNodup := by
          rw [show (w.hubInit main).thread.used = [] from r.used]
          exact List.nodup_nil
        used := fun x hx => by
          rw [show (w.hubInit main).thread.used = [] from r.used] at hx
          cases hx
        cell := fun t => by
          by_cases ht : t = main
          · subst ht; simp [s, Cell]
          · rw [hplace t ht]; trivial
        control := rfl
        current := rfl
        running := fun t ht => by
          have htm : t = main := by
            by_contra hne
            rw [hplace t hne] at ht
            cases ht
          subst htm
          simp [World.hubInit, World.cothreadInit, World.setStacklet, World.setState, World.modify,
            World.emit]
        hubRunning := fun h => by cases h }

/-- Every run of gevent.c is a run of the scheduler. -/
theorem gevent_refines : gevent.Refines scheduler Corr where
  start w h := by
    obtain ⟨w₀, main, raw, rfl⟩ := h
    exact raw.hubInit main
  step w s a w' r c legal exec := by
    obtain ⟨b, st⟩ := scheduler_settled r
    have allowed := c.allowed b legal
    cases hf : s.fault a with
    | some f =>
      have := c.exec_fault b st allowed hf
      rw [show gevent.exec w a = w.exec a from rfl, this] at exec
      cases exec
    | none =>
      obtain ⟨w'', x, hw'', corr⟩ := c.exec b st allowed hf
      rw [show gevent.exec w a = w.exec a from rfl, hw''] at exec
      cases exec
      exact ⟨s.next x a, ⟨allowed, hf, x, rfl⟩, corr⟩

end Gevent
