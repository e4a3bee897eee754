import Gevent.Refine.Untouched
import Gevent.Refine.Simulation

/-!
# What a step leaves alone

Every legal action commutes with a clear scribble that it has no business with
(`Corr.scribble_exec`): it neither reads nor writes what is scribbled over.
-/

namespace Gevent
open Intrusive

namespace Calling
variable {w : World} {s : Sched} {t u : Tid} {f : Frame} {j : Scribble} {q : QueueId} {k : CallId}

theorem spared (c : Calling w s t) (hj : j.Clear s) : j.Spares t :=
  hj.structs t (by simp [c.place]) (by simp [c.place])

theorem left_spared (c : Calling w s t) (hj : j.Clear s) : ∀ u, w.hub.current = some u → j.Spares u := by
  intro u hu
  rw [c.current] at hu
  cases hu
  exact c.spared hj

theorem scribble_getCurrent (c : Calling w s t) (hj : j.Clear s) :
    (w.scribble j).getCurrent = .ok t :=
  (World.scribble_getCurrent (c.left_spared hj)).trans c.getCurrent

theorem scribble_activate (c : Calling w s t) (hj : j.Clear s) (hl : j.SparesLinks t) :
    (w.scribble j).activate t = .ok (((w.setState t .ready).insertTail .ready t).scribble j) := by
  rw [World.scribble_activate (c.spared hj) hl (c.toCouple.neighbours hj.queued List.mem_cons_self).1,
    c.activate]
  rfl

/-- The caller blocks in a queue. -/
theorem clear_block (c : Calling w s t) (hj : j.Clear s) (hl : j.SparesLinks t) (q : QueueId)
    (f : Frame) : j.Clear ((s.push q t).setPlace t (.blocked f)) :=
  (hj.push hl).setPlace (c.spared hj) fun _ _ => hl

theorem scribble_spawn (c : Calling w s t) (hj : j.Clear s) (hl : j.SparesLinks t) (hu : j.Spares u)
    (born : s.place u ≠ .unborn) (k : CallId) :
    (w.scribble j).cothreadSpawn k u = (·.scribble j) <$> w.cothreadSpawn k u := by
  simp only [World.cothreadSpawn, c.scribble_getCurrent hj, c.getCurrent, ok_bind,
    c.scribble_activate hj hl, c.activate, World.scribble_co hu, map_bind]
  by_cases hnew : s.place u = .new
  · have hut : u ≠ t := by
      rintro rfl
      rw [c.place] at hnew
      cases hnew
    have l := c.ready.suspend (f := ⟨t, k, .spawn u, .spawn, .program⟩) (ready_cell rfl)
    refine bind_congr fun _ => l.scribble_switchNew (c.clear_block hj hl .ready _)
      (c.left_spared hj) ?_
    simpa [Sched.setPlace, Sched.push, hut] using hnew
  · rw [check_neg (c.ready_state_ne hnew born)]
    rfl

theorem scribble_startTimer (c : Calling w s t) (hj : j.Clear s)
    (tree : ∀ u ∈ w.env.loop.timerHandles, j.Spares u) (op : Call) (timeout : Int) (ref : Bool) :
    ((w.uvTimerInit t).scribble j).startTimer k op timeout ref t =
      (·.scribble j) <$> (w.uvTimerInit t).startTimer k op timeout ref t := by
  have ht := c.spared hj
  have hinit : ((w.uvTimerInit t).env.timer t).active = false := by
    simp [World.uvTimerInit, World.setThird, World.modify, Env.timerInit, Env.setTimer]
  have hloop : ((w.uvTimerInit t).co t).third = .loop := by
    simp [World.uvTimerInit, World.setThird, World.modify]
  simp only [World.startTimer, World.scribble_uvTimerStart ht (w := w.uvTimerInit t) tree hinit,
    bind_map_left, map_bind]
  by_cases nonneg : 0 ≤ timeout
  · let f : Frame := ⟨t, k, op, .sleep, .program⟩
    let g : Env → Env := fun e =>
      let e := ((e.timerInit t).timerStart t timeout.toNat 0).arm t k
      if ref then e else e.uvHandleUnref t
    let w₁ : World := { w.setThird t .loop with
      handles := { w.handles with links := w.handles.links.insertTail .head (.timer t) } }
    have b₁ : Busy w₁ s t := (c.toBusy.setThird .loop).withHandleList _
    have b₂ : Busy ({ w₁ with env := g w.env }.setState t .waitingTimer)
        (s.arm t k timeout.toNat ref) t := (b₁.mapEnv g).setState .waitingTimer
    have hcell : Cell ({ w₁ with env := g w.env }.setState t .waitingTimer) t (.blocked f) := by
      refine ⟨by simp [World.setState, World.modify, f, Pending.state], by simp [f], ?_⟩
      simp [World.setState, World.modify, w₁, World.setThird]
    have hq : ((s.arm t k timeout.toNat ref).setPlace t (.blocked f)).Queues :=
      (c.block_queues (f := f) rfl).congr rfl rfl
    have hclear : j.Clear ((s.arm t k timeout.toNat ref).setPlace t (.blocked f)) :=
      (hj.setPlace (f := f) ht fun h _ => absurd rfl h).congr rfl rfl
    have hyield := b₂.scribble_yield hcell hq (by simp [f, Pending.queue]) hclear
    have hstart : (w.uvTimerInit t).uvTimerStart t timeout 0 =
        .ok { w.uvTimerInit t with env := (w.uvTimerInit t).env.timerStart t timeout.toNat 0 } := by
      simp only [World.uvTimerStart]
      rw [check_pos nonneg]
      simp only [ok_bind, hinit, if_neg Bool.false_ne_true]
      rw [check_pos hloop]
      rfl
    have hpost : ∀ w₂ : World,
        (if ref then { w₂.scribble j with env := (w₂.scribble j).env.arm t k }
          else World.uvUnref { w₂.scribble j with env := (w₂.scribble j).env.arm t k } t).setState t
            .waitingTimer =
        ((if ref then { w₂ with env := w₂.env.arm t k }
          else World.uvUnref { w₂ with env := w₂.env.arm t k } t).setState t .waitingTimer).scribble j := by
      intro w₂
      have harm : ({ w₂.scribble j with env := (w₂.scribble j).env.arm t k } : World) =
          ({ w₂ with env := w₂.env.arm t k } : World).scribble j := by
        rw [World.scribble_env, Env.scribble_arm ht]
        rfl
      rw [harm]
      cases ref <;> simp [World.scribble_uvUnref ht, World.scribble_setState ht]
    rw [hstart]
    simp only [ok_bind]
    rw [hpost]
    cases ref <;> exact hyield
  · have hstart : (w.uvTimerInit t).uvTimerStart t timeout 0 = .error (.assertion .uvTimerStart) := by
      simp only [World.uvTimerStart]
      rw [check_neg nonneg]
      rfl
    rw [hstart]
    rfl

theorem scribble_wait (c : Calling w s t) (hj : j.Clear s) {timeout : Int} (h : ¬ 0 < timeout)
    (k : CallId) : (w.scribble j).wait k t timeout = (·.scribble j) <$> w.wait k t timeout := by
  let f : Frame := ⟨t, k, .wait timeout, .wait, .program⟩
  simp only [World.wait, if_neg h]
  refine c.toBusy.scribble_yield (f := f) ⟨by simp [c.state, Pending.state, f], by simp [f], by simp [f]⟩
    (c.block_queues (f := f) rfl) (by simp [Pending.queue, f]) ?_
  exact hj.setPlace (c.spared hj) fun _ h => absurd rfl h

theorem scribble_enqueue (c : Calling w s t) (hj : j.Clear s) (hl : j.SparesLinks t) (q : QueueId)
    (k : CallId) : (w.scribble j).enqueue q k t = (w.enqueue q k t).scribble j := by
  have hinit : ({ w.scribble j with links := (w.scribble j).links.init (.op t) } : World) =
      ({ w with links := w.links.init (.op t) } : World).scribble j := by
    rw [World.scribble_links, Traced.patch_init hl]
    rfl
  have c₁ := c.toCouple.initNode (t := t) (by simp [c.place]) c.unqueued
  simp only [World.enqueue, hinit, c₁.scribble_insertTail hj.queued hl]
  rfl

theorem scribble_receive (c : Calling w s t) (hj : j.Clear s) (hl : j.SparesLinks t) (k : CallId)
    (ch : Chan) (caller : Caller) :
    (w.scribble j).channelReceive k ch caller = (·.scribble j) <$> w.channelReceive k ch caller := by
  have ht := c.spared hj
  cases hs : s.queue (.senders ch) with
  | nil =>
    have he : w.queueEmpty (.senders ch) = true := (c.toCouple.queueEmpty _).mpr hs
    let f : Frame := ⟨t, k, .receive ch, .receive ch, caller⟩
    have b := (c.enqueue (.receivers ch) k).setState .channelR
    have hq : (((s.emit (.blocked (.receivers ch) k)).push (.receivers ch) t).setPlace t
        (.blocked f)).Queues :=
      (c.block_queues (f := f) rfl).congr rfl rfl
    have hyield := b.scribble_yield (f := f) (j := j)
      ⟨by simp [World.setState, World.modify, f, Pending.state], by simp [f], by simp [f]⟩ hq
      (by simp [f, Pending.queue]) ((c.clear_block hj hl (.receivers ch) f).congr rfl rfl)
    simp only [World.channelReceive, c.scribble_getCurrent hj, c.getCurrent, ok_bind,
      World.scribble_queueEmpty, he, if_true, c.scribble_enqueue hj hl, World.scribble_setState ht]
    exact hyield
  | cons u us =>
    have he := c.toCouple.queueEmpty_cons hs
    obtain ⟨g, hg, hgq⟩ := (c.queues.queued (.senders ch) u).mp (by simp [hs])
    have hut := c.ne_of_blocked hg
    obtain ⟨v, hv⟩ : ∃ v, g.pending = .send ch v := by
      cases hp : g.pending <;> simp_all [Pending.queue]
    obtain ⟨-, hthird, -⟩ : Cell w u (.blocked g) := hg ▸ c.cell u
    have hval : (w.co u).third = v := hthird ch v hv
    let f : Frame := ⟨t, k, .receive ch, .received v, caller⟩
    have l := (c.ready.emit (.handover ch (s.env.inCall u) k v)).suspend (f := f) (ready_cell rfl)
    have hwait : (((s.push .ready t).emit (.handover ch (s.env.inCall u) k v)).setPlace t
        (.blocked f)).Waits u g.pending := by
      have hmem : u ∈ s.queue (.senders ch) := by simp [hs]
      simpa [Sched.Waits, hv, Pending.queue, Sched.setPlace, Sched.push, Sched.emit] using hmem
    have hswitch := l.scribble_switch (u := u) (j := j)
      ((c.clear_block hj hl .ready f).congr rfl rfl) (c.left_spared hj)
      (by simpa [Sched.setPlace, Sched.push, Sched.emit, hut] using hg) (c.queues.self u g hg)
      (by rw [(c.ready.emit _).current]; simpa using Ne.symm hut) hwait (by simp [hv])
    simp only [World.channelReceive, c.scribble_getCurrent hj, c.getCurrent, ok_bind,
      World.scribble_queueEmpty, World.scribble_queueHead, he, if_neg Bool.false_ne_true,
      c.toCouple.queueHead hs, World.ngxQueueData, World.scribble_co (hj.blocked hg), hval,
      c.scribble_activate hj hl, c.activate, map_bind]
    refine bind_congr fun _ => ?_
    rw [← c.env] at hswitch
    exact hswitch

theorem scribble_send (c : Calling w s t) (hj : j.Clear s) (hl : j.SparesLinks t) (k : CallId)
    (ch : Chan) (v : Word) (caller : Caller) :
    (w.scribble j).channelSend k ch v caller = (·.scribble j) <$> w.channelSend k ch v caller := by
  have ht := c.spared hj
  cases hr : s.queue (.receivers ch) with
  | nil =>
    have he : w.queueEmpty (.receivers ch) = true := (c.toCouple.queueEmpty _).mpr hr
    let f : Frame := ⟨t, k, .send ch v, .send ch v, caller⟩
    have b := ((c.enqueue (.senders ch) k).setThird v).setState .channelS
    have hq : (((s.emit (.blocked (.senders ch) k)).push (.senders ch) t).setPlace t
        (.blocked f)).Queues :=
      (c.block_queues (f := f) rfl).congr rfl rfl
    have hyield := b.scribble_yield (f := f) (j := j)
      ⟨by simp [World.setState, World.modify, f, Pending.state],
        by simp [World.setState, World.setThird, World.modify, f], by simp [f]⟩ hq
      (by simp [f, Pending.queue]) ((c.clear_block hj hl (.senders ch) f).congr rfl rfl)
    simp only [World.channelSend, c.scribble_getCurrent hj, c.getCurrent, ok_bind,
      World.scribble_queueEmpty, he, if_true, c.scribble_enqueue hj hl, World.scribble_setThird ht,
      World.scribble_setState ht]
    exact hyield
  | cons u us =>
    have he := c.toCouple.queueEmpty_cons hr
    obtain ⟨g, hg, hgq⟩ := (c.queues.queued (.receivers ch) u).mp (by simp [hr])
    have hut := c.ne_of_blocked hg
    have hv : g.pending = .receive ch := by
      cases hp : g.pending <;> simp_all [Pending.queue]
    have c₁ : Calling (w.setThird u v) s t :=
      { toBusy := c.toBusy.setThirdOf hg (.inl (by rw [hv]; rfl)) v
        state := by simpa [World.setThird, World.modify, Ne.symm hut] using c.state
        null := by simpa [World.setThird, World.modify, Ne.symm hut] using c.null
        user := c.user
        queues := c.queues }
    let f : Frame := ⟨t, k, .send ch v, .sent, caller⟩
    have l := (c₁.ready.emit (.handover ch k (s.env.inCall u) v)).suspend (f := f) (ready_cell rfl)
    have hwait : (((s.push .ready t).emit (.handover ch k (s.env.inCall u) v)).setPlace t
        (.blocked f)).Waits u g.pending := by
      have hmem : u ∈ s.queue (.receivers ch) := by simp [hr]
      simpa [Sched.Waits, hv, Pending.queue, Sched.setPlace, Sched.push, Sched.emit] using hmem
    have hswitch := l.scribble_switch (u := u) (j := j)
      ((c.clear_block hj hl .ready f).congr rfl rfl) (c.left_spared hj)
      (by simpa [Sched.setPlace, Sched.push, Sched.emit, hut] using hg) (c.queues.self u g hg)
      (by rw [(c₁.ready.emit _).current]; simpa using Ne.symm hut) hwait (by simp [hv])
    have hspare := hj.blocked hg
    simp only [World.channelSend, c.scribble_getCurrent hj, c.getCurrent, ok_bind,
      World.scribble_queueEmpty, World.scribble_queueHead, he, if_neg Bool.false_ne_true,
      c.toCouple.queueHead hr, World.ngxQueueData, World.scribble_co hspare,
      World.scribble_setThird hspare, c₁.scribble_activate hj hl, c₁.activate, map_bind]
    refine bind_congr fun _ => ?_
    rw [← c.env] at hswitch
    exact hswitch

theorem scribble_acquire (c : Calling w s t) (hj : j.Clear s) (k : CallId) (m : Sem)
    (hl : ¬ 0 < w.env.counter m → j.SparesLinks t) :
    (w.scribble j).semaphoreAcquire k t m = (·.scribble j) <$> w.semaphoreAcquire k t m := by
  by_cases free : 0 < w.env.counter m
  · simp only [World.semaphoreAcquire, World.scribble_env, Env.scribble_counter, if_pos free]
    rfl
  · simp only [World.semaphoreAcquire, World.scribble_env, Env.scribble_counter, if_neg free]
    exact (c.mapEnv fun e => e.enter t (.receive (.ofSem m))).scribble_receive (hj.congr rfl rfl)
      (hl free) w.env.calls (.ofSem m) (.acquire k m)

theorem scribble_release (c : Calling w s t) (hj : j.Clear s) (k : CallId) (m : Sem)
    (hl : w.queueEmpty (.receivers (.ofSem m)) = false → j.SparesLinks t) :
    (w.scribble j).semaphoreRelease k t m = (·.scribble j) <$> w.semaphoreRelease k t m := by
  cases he : w.queueEmpty (.receivers (.ofSem m)) with
  | true =>
    simp only [World.semaphoreRelease, World.scribble_queueEmpty, he, Bool.not_true,
      if_neg Bool.false_ne_true]
    rfl
  | false =>
    simp only [World.semaphoreRelease, World.scribble_queueEmpty, he, Bool.not_false, if_true]
    exact (c.mapEnv fun e => e.enter t (.send (.ofSem m) .null)).scribble_send (hj.congr rfl rfl)
      (hl he) w.env.calls (.ofSem m) .null (.release k m)

theorem scribble_mallocReq (hl : j.SparesLinks t) :
    (w.scribble j).mallocReq t = ((w.mallocReq t).1.scribble j, (w.mallocReq t).2) := by
  simp only [World.mallocReq, World.scribble_links, Traced.patch_writePrev hl]
  rfl

theorem scribble_getaddrinfo (c : Calling w s t) (hj : j.Clear s) (hl : j.SparesLinks t) (k : CallId)
    (o : Submit) : (w.scribble j).getaddrinfo k o = (·.scribble j) <$> w.getaddrinfo k o := by
  simp only [World.getaddrinfo, c.scribble_getCurrent hj, c.getCurrent, ok_bind]
  cases o with
  | noMemory =>
    simp only [World.scribble_links, Traced.patch_writePrev hl]
    rfl
  | failed =>
    simp only [scribble_mallocReq hl]
    rfl
  | submitted =>
    let f : Frame := ⟨t, k, .getaddrinfo .submitted, .getaddrinfo, .program⟩
    have c₁ := (c.writePrev (.req w.env.nextReq)).mapEnv fun e => e.mallocReq.submit t k e.nextReq
    have b := c₁.toBusy.setState .waitingGetaddrinfo
    have hyield := b.scribble_yield (f := f) (j := j)
      ⟨by simp [World.setState, World.modify, f, Pending.state], by simp [f], by simp [f]⟩
      ((c.block_queues (f := f) rfl).congr rfl rfl) (by simp [f, Pending.queue])
      ((hj.setPlace (f := f) (c.spared hj) fun _ _ => hl).congr rfl rfl)
    simp only [scribble_mallocReq hl]
    rw [← World.scribble_setState (c.spared hj)] at hyield
    exact hyield

/-- What a call of `t` uses besides the structs: links, or the list of handles. -/
structure Uses (j : Scribble) (x : Handles) (t : Tid) (a : Call) : Prop where
  links : (∀ d, a ≠ .sleep d) → (∀ d, a ≠ .wait d) → j.SparesLinks t
  nodes : ((∃ d, a = .sleep d) ∨ ∃ d, 0 < d ∧ a = .wait d) → j.nodes.Spares .head ∧
    j.nodes.Spares (.timer t) ∧ j.nodes.Spares (x.links.prev .head)
  spawn : ∀ u, a = .spawn u → j.Spares u

theorem scribble_sleep (c : Calling w s t) (hj : j.Clear s)
    (tree : ∀ u ∈ w.env.loop.timerHandles, j.Spares u) (op : Call) (timeout : Int) (ref : Bool)
    (nodes : j.nodes.Spares .head ∧ j.nodes.Spares (.timer t) ∧
      j.nodes.Spares (w.handles.links.prev .head)) :
    (w.scribble j).sleepInternal k op timeout ref = (·.scribble j) <$> w.sleepInternal k op timeout ref := by
  obtain ⟨head, node, last⟩ := nodes
  simp only [World.sleepInternal_eq, c.scribble_getCurrent hj, c.getCurrent, ok_bind,
    World.scribble_uvTimerInit (c.spared hj) head node last]
  exact c.scribble_startTimer hj tree op timeout ref

theorem scribble_perform (c : Calling w s t) (hj : j.Clear s)
    (tree : ∀ u ∈ w.env.loop.timerHandles, j.Spares u) (k : CallId) (a : Call)
    (born : ∀ u, a = .spawn u → s.place u ≠ .unborn) (uses : Uses j w.handles t a) :
    (w.scribble j).perform k t a = (·.scribble j) <$> w.perform k t a := by
  cases a with
  | spawn u =>
    exact c.scribble_spawn hj (uses.links (by simp) (by simp)) (uses.spawn u rfl) (born u rfl) k
  | sleep d => exact c.scribble_sleep hj tree (.sleep d) d true (uses.nodes (.inl ⟨d, rfl⟩))
  | wait d =>
    by_cases hd : 0 < d
    · simp only [World.perform, World.wait, if_pos hd]
      exact c.scribble_sleep hj tree (.wait d) d false (uses.nodes (.inr ⟨d, hd, rfl⟩))
    · exact c.scribble_wait hj hd k
  | receive ch => exact c.scribble_receive hj (uses.links (by simp) (by simp)) k ch .program
  | send ch v => exact c.scribble_send hj (uses.links (by simp) (by simp)) k ch v .program
  | acquire m => exact c.scribble_acquire hj k m fun _ => uses.links (by simp) (by simp)
  | release m => exact c.scribble_release hj k m fun _ => uses.links (by simp) (by simp)
  | getaddrinfo o => exact c.scribble_getaddrinfo hj (uses.links (by simp) (by simp)) k o

end Calling

/-! ## Actions -/

/-- The action is no business of the scribbled parts. -/
structure Scribble.Aside (j : Scribble) (w : World) (a : World.Action) : Prop where
  call : ∀ t c, a = .call c → w.control = .user t → Calling.Uses j w.handles t c
  init : ∀ t run, a = .cothreadInit t run → j.Spares t ∧ j.SparesLinks t
  exitFn : ∀ t b, a = .setExitFn t b → j.Spares t
  handleInit : ∀ h, a = .handleInit h → j.others = none ∧ j.nodes.Spares .head ∧
    j.nodes.Spares (.other h) ∧ j.nodes.Spares (w.handles.links.prev .head)
  handleClose : ∀ h, a = .handleClose h → j.others = none ∧ j.nodes.Spares (.other h) ∧
    j.nodes.Spares (w.handles.links.prev (.other h)) ∧
    j.nodes.Spares (w.handles.links.next (.other h))

namespace Corr
variable {w : World} {s : Sched} {t u : Tid} {j : Scribble} {ph : Phase}

theorem scribble_finish (c : Corr w s) (b : Base ⟨s, none⟩) (st : s.Settled) (hj : j.Clear s)
    (h : s.control = .user t) (main : t ≠ s.main) :
    (w.scribble j).cothreadReturn t = (·.scribble j) <$> w.cothreadReturn t := by
  have call := c.calling b st h
  have d := c.dying b st h main
  have hset : ((w.scribble j).emit (.finish t)).setStacklet t .null =
      ((w.emit (.finish t)).setStacklet t .null).scribble j :=
    World.scribble_setStacklet (w := w.emit (.finish t)) (call.spared hj) .null
  have hnext := d.scribble_next d.queues d.mainBlocked (fun _ => by rw [d.currentDied]; simp)
    ((hj.die (t := t)).congr rfl rfl) (call.left_spared hj)
  rw [d.cothreadReturn]
  simp only [World.cothreadReturn, hset, d.null]
  exact hnext

theorem scribble_hubReturn (c : Corr w s) (b : Base ⟨s, none⟩) (hj : j.Clear s)
    (h : s.control = .hub ph) (hub : s.hub = .running) :
    (w.scribble j).hubReturn = (·.scribble j) <$> w.hubReturn := by
  have hnull := c.hubRunning hub
  have hcur : w.hub.current = none := by rw [c.current, h]; rfl
  let w₁ : World := { w.emit .runEnd with
    hub := { w.hub with loopAlive := false, stacklet := .null } }
  have hst : w₁.stored = w.stored := World.stored_congr hnull.symm rfl
  have c₁ : Couple w₁ (s.emit .runEnd) w₁.stored := by
    rw [hst]
    exact { c.toCouple.emit .runEnd with
      hubIdle := fun _ => rfl
      cell := fun t => (c.cell t).congr rfl rfl fun _ => rfl }
  have nobody := b.core.nobody hub
  have l := c₁.endHub hub hcur rfl nobody
  have hmain : ∃ f, s.place s.main = .blocked f := b.core.main.resolve_left (nobody s.main)
  exact l.scribble_next (b.core.queues.congr rfl rfl) hmain (fun hne => absurd rfl hne)
    (hj.congr rfl rfl) (by simp [w₁, hcur])

theorem tree_spared (c : Corr w s) (b : Base ⟨s, none⟩) (hj : j.Clear s) :
    ∀ u ∈ w.env.loop.timerHandles, j.Spares u := by
  rw [c.env]
  intro u hu
  obtain ⟨-, -, -, f, hf, -⟩ := b.timers.armed u hu
  exact hj.blocked hf

theorem scribble_callback {f : Frame} {w₁ : World} {s₁ : Sched} (c₁ : Couple w₁ s₁ w₁.stored)
    (hub : s₁.hub = .running) (hcur : w₁.hub.current = none) (hcon : w₁.control.owner = none)
    (nobody : ∀ u, s₁.place u ≠ .running) (hu : s₁.place u = .blocked f) (hself : f.self = u)
    (hq : f.pending.queue = none) (hp : f.pending ≠ .wait) (ph : Phase) (hj : j.Clear s₁) :
    (w₁.scribble j).switch u (.callback ph) = (·.scribble j) <$> w₁.switch u (.callback ph) := by
  have l := c₁.leaveHub hub hcur hcon nobody ph
  have l' : Leaving (w₁.suspend w₁.hub.current (.callback ph)).1 { s₁ with hub := .suspended ph }
      (Function.update w₁.stored none (.stack w₁.thread.next))
      (w₁.suspend w₁.hub.current (.callback ph)).2 none := by
    rw [hcur]
    exact l
  exact l'.scribble_switch (hj.congr rfl rfl) (by simp [hcur]) hu hself (by rw [hcur]; simp)
    (by simp [Sched.Waits, hq]) hp

theorem scribble_timers (c : Corr w s) (b : Base ⟨s, none⟩) (hj : j.Clear s)
    (h : s.control = .hub .timers) (hub : s.hub = .running) :
    (w.scribble j).uvRunTimers = (·.scribble j) <$> w.uvRunTimers := by
  have henv : w.env = s.env := c.env
  cases hl : w.env.loop.timerHandles with
  | nil =>
    simp only [World.uvRunTimers, World.scribble_env, Env.scribble_loop, hl]
    rfl
  | cons t ts =>
    have ht : j.Spares t := c.tree_spared b hj t (by simp [hl])
    simp only [World.uvRunTimers, World.scribble_env, Env.scribble_loop, hl, Env.scribble_timer ht]
    by_cases due : (w.env.timer t).timeout > w.env.loop.time
    · simp only [if_pos due]
      rfl
    · obtain ⟨active, cb, rpt, f, hf, hs, -⟩ : (s.env.timer t).active = true ∧
          (s.env.timer t).timerCb = true ∧ (s.env.timer t).rpt = 0 ∧ ∃ f, s.place t = .blocked f ∧
          f.pending = .sleep ∧ _ := b.timers.armed t (by simp [← henv, hl])
      obtain ⟨-, -, hloop⟩ : Cell w t (.blocked f) := hf ▸ c.cell t
      have hcur : w.hub.current = none := by rw [c.current, h]; rfl
      let w₁ : World := { w with env := w.env.timerStop t }
      have hstop : w.uvTimerStop t = .ok w₁ := by
        simp [World.uvTimerStop, henv, active, hloop hs, w₁]
      have hrpt : (w₁.env.timer t).rpt = 0 := by
        simp [w₁, henv, Env.timerStop_eq _ active, rpt]
      have harm : w₁.env.armedBy t = w.env.armedBy t := by
        simp [w₁, henv, Env.timerStop_eq _ active]
      have hagain : w₁.uvTimerAgain t = .ok w₁ := by
        simp only [World.uvTimerAgain, hrpt, if_true]
        split <;> rfl
      have c₁ := c.mapEnv fun e => (e.timerStop t).emit (.fired (e.armedBy t))
      have hswitch := scribble_callback c₁.toCouple hub hcur (by rw [c.control, h]; rfl)
        (b.core.nobody hub) hf (b.core.queues.self t f hf) (by rw [hs]; rfl) (by simp [hs]) .timers
        (hj.congr rfl rfl)
      simp only [if_neg due, World.scribble_uvTimerStop ht, hstop, map_bind, bind_map_left, ok_bind,
        World.scribble_uvTimerAgain ht hrpt, hagain, World.scribble_env, Env.scribble_timer ht,
        Env.scribble_armedBy, harm]
      refine bind_congr fun _ => ?_
      have hco : ((w₁.scribble j).emit (.fired (w.env.armedBy t))).co t =
          (w₁.emit (.fired (w.env.armedBy t))).co t := World.scribble_co (w := w₁) ht
      simp only [World.sleepCb, hco, map_bind]
      exact bind_congr fun _ => bind_congr fun _ => hswitch

theorem scribble_resolve (c : Corr w s) (b : Base ⟨s, none⟩) (hj : j.Clear s) {r : ReqId}
    (h : s.control = .hub .io) (hub : s.hub = .running) (active : r ∈ s.env.loop.activeReqs)
    (error : Int) (res : Word) :
    (w.scribble j).getaddrinfoCb r error res = (·.scribble j) <$> w.getaddrinfoCb r error res := by
  have hdata : (w.env.complete r error res).reqData r = s.env.reqData r := by rw [c.env]; rfl
  have hdata' : ((w.scribble j).env.complete r error res).reqData r = s.env.reqData r := hdata
  obtain ⟨my, f, hmy, hf⟩ := asker_blocked b hub active
  have hspare := hj.blocked hf
  have hcell : Cell w my (.blocked f) := hf ▸ c.cell my
  simp only [World.getaddrinfoCb, hdata, hdata', hmy, map_bind]
  by_cases pending : f.pending = .getaddrinfo
  · have hlinks : j.SparesLinks my := hj.links my (by rw [hf]; simp [Place.UsesLinks, pending])
    have hcur : w.hub.current = none := by rw [c.current, h]; rfl
    have c₁ := c.mapEnv fun e => e.complete r error res
    have hun : ∀ q, my ∉ s.queue q := by
      intro q hq
      obtain ⟨g, hg, hgq⟩ := (b.core.queues.queued q my).mp hq
      rw [hf] at hg
      cases hg
      rw [pending] at hgq
      cases hgq
    let w₁ : World := { w with
      env := w.env.complete r error res, links := w.links.writeNext (.op my) res }
    have c₂ : Couple (w₁.setThird my (.data error)) (s.complete r error res)
        (w₁.setThird my (.data error)).stored := by
      have hst : (w₁.setThird my (.data error)).stored = w.stored := by
        funext o
        cases o with
        | none => rfl
        | some u => by_cases hu : u = my <;> simp [World.stored, World.setThird, World.modify, w₁, hu]
      rw [hst]
      exact (c₁.toCouple.writeNext (t := my)
        (by rw [show ({ s with env := _ } : Sched).place = s.place from rfl, hf]; simp) hun res).setThirdOf
        hf (.inr (by rw [pending]; rfl)) _
    have hswitch := scribble_callback c₂ hub hcur (by
        rw [show (w₁.setThird my (.data error)).control = s.control from c.control, h]; rfl)
      (b.core.nobody hub) hf (b.core.queues.self my f hf) (by rw [pending]; rfl) (by simp [pending])
      .io (hj.congr rfl rfl)
    have hwrite : ({ w.scribble j with
        env := (w.scribble j).env.complete r error res
        links := (w.scribble j).links.writeNext (.op my) res } : World) = w₁.scribble j := by
      rw [World.scribble_links, Traced.patch_writeNext hlinks]
      rfl
    have hco : ({ w.scribble j with env := (w.scribble j).env.complete r error res } : World).co my =
        ({ w with env := w.env.complete r error res } : World).co my := World.scribble_co hspare
    rw [hwrite, World.scribble_setThird hspare, hco]
    exact bind_congr fun _ => hswitch
  · have hstate : (w.co my).state ≠ .waitingGetaddrinfo := by
      rw [hcell.1]
      cases hp : f.pending <;> simp_all [Pending.state]
    have hco : ({ w.scribble j with env := (w.scribble j).env.complete r error res } : World).co my =
        ({ w with env := w.env.complete r error res } : World).co my := World.scribble_co hspare
    rw [hco, check_neg hstate]
    rfl

theorem scribble_iterate (c : Corr w s) (b : Base ⟨s, none⟩) (hj : j.Clear s)
    (h : s.control = .hub ph) (hub : s.hub = .running) :
    (w.scribble j).uvRunIterate = (·.scribble j) <$> w.uvRunIterate := by
  simp only [World.uvRunIterate, World.scribble_env, Env.scribble_uvLoopAlive]
  cases alive : w.env.uvLoopAlive with
  | true => rfl
  | false =>
    simp only [Bool.false_eq_true, if_false]
    exact c.scribble_hubReturn b hj h hub

theorem scribble_cothreadInit (ht : j.Spares t) (hl : j.SparesLinks t) (run : Word) :
    (w.scribble j).cothreadInit t run = (w.cothreadInit t run).scribble j := by
  have hwrite : ({ (w.setState t .new).scribble j with
      links := ((w.setState t .new).scribble j).links.writePrev (.op t) run } : World) =
      ({ w.setState t .new with links := (w.setState t .new).links.writePrev (.op t) run } :
        World).scribble j := by
    rw [World.scribble_links, Traced.patch_writePrev hl]
    rfl
  simp only [World.cothreadInit, World.scribble_setState ht]
  rw [hwrite, World.scribble_setStacklet ht, World.scribble_env, Env.scribble_initCothread ht]
  rfl

theorem scribble_channelInit (ch : Chan) :
    (w.scribble j).channelInit ch = (w.channelInit ch).scribble j := by
  simp only [World.channelInit, World.scribble_links, Traced.patch_init (j.spares_head _)]
  rfl

/-- An action that has no business with the scribbled parts commutes with the scribble. -/
theorem scribble_exec (c : Corr w s) (b : Base ⟨s, none⟩) (st : s.Settled) {a : World.Action}
    (allowed : s.Allowed a) (hj : j.Clear s) (aside : j.Aside w a) :
    (w.scribble j).exec a = (·.scribble j) <$> w.exec a := by
  cases a with
  | call a =>
    cases hc : s.control with
    | hub ph =>
      have : s.control.owner.isSome := by cases a <;> first | exact allowed | exact allowed.1
      simp [hc, Control.owner] at this
    | user t =>
      have hwc : w.control = .user t := c.control.trans hc
      have call : Calling { w with env := w.env.enter t a } { s with env := s.env.enter t a } t :=
        (c.calling b st hc).mapEnv fun e => e.enter t a
      have hperform := call.scribble_perform (j := j) (hj.congr rfl rfl) (c.tree_spared b hj)
        w.env.calls a (by rintro u rfl; exact (b.core.known u).mp allowed.2) (aside.call t a rfl hwc)
      simp only [World.exec, World.call, World.scribble_control, hwc]
      exact hperform
  | finish =>
    cases hc : s.control with
    | hub ph => simp [Sched.Allowed, hc, Control.owner] at allowed
    | user t =>
      have main : t ≠ s.main := by simpa [Sched.Allowed, hc, Control.owner] using allowed
      simp only [World.exec, World.scribble_control, c.control.trans hc]
      exact c.scribble_finish b st hj hc main
  | cothreadInit t run =>
    obtain ⟨ht, hl⟩ := aside.init t run rfl
    exact congrArg Except.ok (scribble_cothreadInit ht hl _)
  | setExitFn t v =>
    simp only [World.exec, World.scribble_env, Env.scribble_setExitFn (aside.exitFn t v rfl)]
    rfl
  | channelInit ch => exact congrArg Except.ok (scribble_channelInit ch)
  | semaphoreInit m counter =>
    have hinit : ((w.setCounter m counter).scribble j).channelInit (.ofSem m) =
        ((w.setCounter m counter).channelInit (.ofSem m)).scribble j := scribble_channelInit _
    exact congrArg (fun w : World => Except.ok (w.emit (.semInit m counter))) hinit
  | timers => exact c.scribble_timers b hj allowed (st.loop allowed)
  | resolve r error res =>
    exact c.scribble_resolve b hj allowed.1 (st.loop allowed.1) allowed.2 error res
  | iterate =>
    rcases allowed with h | h
    · exact c.scribble_iterate b hj h (st.loop h)
    · exact c.scribble_iterate b hj h (st.loop h)
  | handleInit h =>
    obtain ⟨others, head, node, last⟩ := aside.handleInit h rfl
    simp only [World.exec, World.scribble, others, Links.patch_insertTail head node last]
    rfl
  | handleClose h =>
    obtain ⟨others, node, prev, next⟩ := aside.handleClose h rfl
    simp only [World.exec, World.scribble, others, Links.patch_remove node prev next]
    rfl
  | updateTime | others | tick => rfl

end Corr
end Gevent
