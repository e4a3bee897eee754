import Gevent.Refine.Busy

/-!
# The API functions do what the scheduler does

One lemma for each function of gevent.h that can give up control, from the
entry of the function (`Calling`) to the next own code of a cothread or of the
loop, and one for each assertion a caller can violate.
-/

namespace Gevent
open Intrusive

/-- Cothread `t` has entered a gevent function. -/
structure Calling (w : World) (s : Sched) (t : Tid) : Prop extends Busy w s t where
  state : (w.co t).state = .current
  null : (w.co t).stacklet = .null
  user : s.control = .user t
  queues : s.Queues

namespace Calling
variable {w : World} {s : Sched} {t u : Tid} {f : Frame} {q : QueueId} {k : CallId} {ch : Chan}
  {v : Word} {m : Sem} {caller : Caller}

theorem unqueued (c : Calling w s t) (q : QueueId) : t ∉ s.queue q :=
  c.queues.not_queued (by simp [c.place]) q

theorem getCurrent (c : Calling w s t) : w.getCurrent = .ok t := by
  simp [World.getCurrent, c.current, c.state]

theorem mapEnv (c : Calling w s t) (g : Env → Env) :
    Calling { w with env := g w.env } { s with env := g s.env } t :=
  { toBusy := c.toBusy.mapEnv g
    state := c.state
    null := c.null
    user := c.user
    queues := c.queues.congr rfl rfl }

/-- The function may return at once. -/
theorem corr (c : Calling w s t) : Corr w s :=
  { toCouple := c.toCouple
    control := by rw [c.control, c.user]
    current := by rw [c.current, c.user]; rfl
    running := fun u hu => by
      rw [c.only u hu]
      exact ⟨c.state, c.null⟩
    hubRunning := fun h => absurd h c.hubAway }

theorem activate (c : Calling w s t) :
    w.activate t = .ok ((w.setState t .ready).insertTail .ready t) := by
  simp [World.activate, c.state]

/-- The caller has queued itself as ready. -/
theorem ready (c : Calling w s t) :
    Busy ((w.setState t .ready).insertTail .ready t) (s.push .ready t) t :=
  (c.toBusy.setState .ready).push c.unqueued

theorem ready_cell (hp : f.pending.queue = some .ready) :
    Cell ((w.setState t .ready).insertTail .ready t) t (.blocked f) := by
  refine ⟨by simp [World.insertTail, World.setState, World.modify, Pending.state_ready hp], ?_, ?_⟩
  · intro ch v h
    rw [h] at hp
    cases hp
  · intro h
    rw [h] at hp
    cases hp

theorem block_queues (c : Calling w s t) (hf : f.self = t) : (s.block t f).Queues :=
  c.queues.block (by simp [c.place]) hf

theorem ne_of_blocked (c : Calling w s t) (hu : s.place u = .blocked f) : u ≠ t := by
  rintro rfl
  rw [c.place] at hu
  cases hu

/-! ## `gevent_cothread_spawn` -/

theorem spawn (c : Calling w s t) (hu : s.place u = .new) (k : CallId) :
    ∃ w', w.cothreadSpawn k u = .ok w' ∧
      Corr w' ((s.block t ⟨t, k, .spawn u, .spawn, .program⟩).startCothread u) := by
  have hut : u ≠ t := by
    rintro rfl
    rw [c.place] at hu
    cases hu
  have hstate : (w.co u).state = .new := by
    have := c.cell u
    rw [hu] at this
    exact this.1
  have l := c.ready.suspend (f := ⟨t, k, .spawn u, .spawn, .program⟩) (ready_cell rfl)
  obtain ⟨w', hw', corr⟩ := l.switchNew (u := u)
    (by simpa [Sched.setPlace, Sched.push, hut] using hu)
    (by rw [c.ready.current]; simpa using Ne.symm hut)
  refine ⟨w', ?_, corr⟩
  simp only [World.cothreadSpawn, c.getCurrent, c.activate, ok_bind]
  rw [check_pos (by simp [World.insertTail, World.setState, World.modify, hut, hstate])]
  exact hw'

/-- Only a new cothread is in the state that `gevent_cothread_spawn` asks for. -/
theorem ready_state_ne (c : Calling w s t) (hu : s.place u ≠ .new) (born : s.place u ≠ .unborn) :
    (((w.setState t .ready).insertTail .ready t).co u).state ≠ .new := by
  by_cases hut : u = t
  · subst hut
    simp [World.insertTail, World.setState, World.modify]
  · have hcell := c.cell u
    have hco : ((w.setState t .ready).insertTail .ready t).co u = w.co u := by
      simp [World.insertTail, World.setState, World.modify, hut]
    rw [hco]
    cases hp : s.place u with
    | unborn => exact absurd hp born
    | new => exact absurd hp hu
    | running => exact absurd (c.only u hp) hut
    | blocked f =>
      rw [hp] at hcell
      rw [hcell.1]
      cases f.pending <;> simp [Pending.state]
    | dead =>
      rw [hp] at hcell
      rcases hcell with h | h
      · rw [h]; simp
      · rw [c.current] at h
        exact absurd (Option.some.inj h).symm hut

theorem spawn_fault (c : Calling w s t) (hu : s.place u ≠ .new) (born : s.place u ≠ .unborn)
    (k : CallId) : w.cothreadSpawn k u = .error (.assertion .spawn) := by
  simp only [World.cothreadSpawn, c.getCurrent, c.activate, ok_bind]
  rw [check_neg (c.ready_state_ne hu born)]
  rfl

/-! ## Sleeping -/

theorem sleep (c : Calling w s t) {timeout : Int} (nonneg : 0 ≤ timeout) (k : CallId) (op : Call)
    (ref : Bool) : ∃ w' x, w.sleepInternal k op timeout ref = .ok w' ∧
      Corr w' (s.sleepInternal x t k op timeout ref) := by
  let f : Frame := ⟨t, k, op, .sleep, .program⟩
  let g : Env → Env := fun e =>
    let e := ((e.timerInit t).timerStart t timeout.toNat 0).arm t k
    if ref then e else e.uvHandleUnref t
  let w₁ : World := { w.setThird t .loop with
    handles := { w.handles with links := w.handles.links.insertTail .head (.timer t) } }
  have b₁ : Busy w₁ s t := (c.toBusy.setThird .loop).withHandleList _
  have b₂ : Busy ({ w₁ with env := g w.env }.setState t .waitingTimer) (s.arm t k timeout.toNat ref) t :=
    (b₁.mapEnv g).setState .waitingTimer
  have hcell : Cell ({ w₁ with env := g w.env }.setState t .waitingTimer) t (.blocked f) := by
    refine ⟨by simp [World.setState, World.modify, f, Pending.state], by simp [f], ?_⟩
    simp [World.setState, World.modify, w₁, World.setThird]
  have hq : ((s.arm t k timeout.toNat ref).setPlace t (.blocked f)).Queues :=
    (c.block_queues (f := f) rfl).congr rfl rfl
  obtain ⟨w', x, hw', corr⟩ := b₂.yield hcell hq (by simp [f, Pending.queue])
  refine ⟨w', x, ?_, corr⟩
  have hinit : ((w.uvTimerInit t).env.timer t).active = false := by
    simp [World.uvTimerInit, World.setThird, World.modify, Env.timerInit, Env.setTimer]
  have hloop : ((w.uvTimerInit t).co t).third = .loop := by
    simp [World.uvTimerInit, World.setThird, World.modify]
  simp only [World.sleepInternal, c.getCurrent, ok_bind, World.uvTimerStart]
  rw [check_pos nonneg]
  simp only [ok_bind, hinit, if_neg Bool.false_ne_true]
  rw [check_pos hloop]
  cases ref <;> exact hw'

theorem sleep_fault {w : World} (current : w.getCurrent = .ok t) {timeout : Int}
    (negative : timeout < 0) (k : CallId) (op : Call) (ref : Bool) :
    w.sleepInternal k op timeout ref = .error (.assertion .uvTimerStart) := by
  simp only [World.sleepInternal, current, ok_bind, World.uvTimerStart]
  rw [check_neg (by omega)]
  rfl

theorem wait (c : Calling w s t) {timeout : Int} (h : ¬ 0 < timeout) (k : CallId) :
    ∃ w' x, w.wait k t timeout = .ok w' ∧
      Corr w' ((s.block t ⟨t, k, .wait timeout, .wait, .program⟩).yield x) := by
  simp only [World.wait, if_neg h]
  refine c.toBusy.yield (f := ⟨t, k, .wait timeout, .wait, .program⟩)
    ⟨by simp [c.state, Pending.state], by simp, by simp⟩ ?_ (by simp [Pending.queue])
  exact c.block_queues (f := ⟨t, k, .wait timeout, .wait, .program⟩) rfl

/-! ## Channels -/

/-- The caller has queued itself on a channel. -/
theorem enqueue (c : Calling w s t) (q : QueueId) (k : CallId) :
    Busy (w.enqueue q k t) ((s.emit (.blocked q k)).push q t) t :=
  ((c.toBusy.initNode c.unqueued).push c.unqueued).emit (.blocked q k)

theorem receive (c : Calling w s t) (k : CallId) (ch : Chan) (caller : Caller) :
    ∃ w' x, w.channelReceive k ch caller = .ok w' ∧ Corr w' (s.receive x t k ch caller) := by
  cases hs : s.queue (.senders ch) with
  | nil =>
    have he : w.queueEmpty (.senders ch) = true := (c.toCouple.queueEmpty _).mpr hs
    let f : Frame := ⟨t, k, .receive ch, .receive ch, caller⟩
    have b := (c.enqueue (.receivers ch) k).setState .channelR
    have hq : (((s.emit (.blocked (.receivers ch) k)).push (.receivers ch) t).setPlace t
        (.blocked f)).Queues :=
      (c.block_queues (f := f) rfl).congr rfl rfl
    obtain ⟨w', x, hw', corr⟩ := b.yield (f := f)
      ⟨by simp [World.setState, World.modify, f, Pending.state], by simp [f], by simp [f]⟩ hq
      (by simp [f, Pending.queue])
    refine ⟨w', x, ?_, ?_⟩
    · simp only [World.channelReceive, c.getCurrent, ok_bind, he, if_true]
      exact hw'
    · simp only [Sched.receive, hs]
      exact corr
  | cons u us =>
    have he := c.toCouple.queueEmpty_cons hs
    obtain ⟨g, hg, hgq⟩ := (c.queues.queued (.senders ch) u).mp (by simp [hs])
    have hut := c.ne_of_blocked hg
    obtain ⟨v, hv⟩ : ∃ v, g.pending = .send ch v := by
      cases hp : g.pending <;> simp_all [Pending.queue]
    obtain ⟨hstate, hthird, -⟩ : Cell w u (.blocked g) := hg ▸ c.cell u
    have hoffer : s.offer u = v := by
      obtain ⟨gs, gk, go, gp, gc⟩ := g
      cases hv
      simp only [Sched.offer, hg]
    have hval : (w.co u).third = v := hthird ch v hv
    let f : Frame := ⟨t, k, .receive ch, .received v, caller⟩
    have l := (c.ready.emit (.handover ch (s.env.inCall u) k v)).suspend (f := f) (ready_cell rfl)
    have hself : g.self = u := c.queues.self u g hg
    have hwait : (((s.push .ready t).emit (.handover ch (s.env.inCall u) k v)).setPlace t
        (.blocked f)).Waits u g.pending := by
      have hmem : u ∈ s.queue (.senders ch) := by simp [hs]
      simpa [Sched.Waits, hv, Pending.queue, Sched.setPlace, Sched.push, Sched.emit] using hmem
    obtain ⟨w', hw', corr⟩ := l.switch (u := u)
      (by simpa [Sched.setPlace, Sched.push, Sched.emit, hut] using hg) hself
      (by rw [(c.ready.emit _).current]; simpa using Ne.symm hut) hwait (by simp [hv])
    let w₂ := ((w.setState t .ready).insertTail .ready t).emit (.handover ch (s.env.inCall u) k v)
    refine ⟨w', ⟨(w₂.co u).third, w₂.links.links.next (.op u)⟩, ?_, ?_⟩
    · simp only [World.channelReceive, c.getCurrent, ok_bind, he, if_neg Bool.false_ne_true,
        c.toCouple.queueHead hs, World.ngxQueueData]
      rw [check_pos (by rw [hstate, hv]; rfl), hval]
      simp only [ok_bind, c.activate]
      rw [← c.env] at hw'
      exact hw'
    · simp only [Sched.receive, hs, hoffer]
      rw [Sched.block_env]
      exact corr

theorem send (c : Calling w s t) (k : CallId) (ch : Chan) (v : Word) (caller : Caller) :
    ∃ w' x, w.channelSend k ch v caller = .ok w' ∧ Corr w' (s.send x t k ch v caller) := by
  cases hr : s.queue (.receivers ch) with
  | nil =>
    have he : w.queueEmpty (.receivers ch) = true := (c.toCouple.queueEmpty _).mpr hr
    let f : Frame := ⟨t, k, .send ch v, .send ch v, caller⟩
    have b := ((c.enqueue (.senders ch) k).setThird v).setState .channelS
    have hq : (((s.emit (.blocked (.senders ch) k)).push (.senders ch) t).setPlace t
        (.blocked f)).Queues :=
      (c.block_queues (f := f) rfl).congr rfl rfl
    obtain ⟨w', x, hw', corr⟩ := b.yield (f := f)
      ⟨by simp [World.setState, World.modify, f, Pending.state],
        by simp [World.setState, World.setThird, World.modify, f], by simp [f]⟩ hq
      (by simp [f, Pending.queue])
    refine ⟨w', x, ?_, ?_⟩
    · simp only [World.channelSend, c.getCurrent, ok_bind, he, if_true]
      exact hw'
    · simp only [Sched.send, hr]
      exact corr
  | cons u us =>
    have he := c.toCouple.queueEmpty_cons hr
    obtain ⟨g, hg, hgq⟩ := (c.queues.queued (.receivers ch) u).mp (by simp [hr])
    have hut := c.ne_of_blocked hg
    have hv : g.pending = .receive ch := by
      cases hp : g.pending <;> simp_all [Pending.queue]
    have hstate : (w.co u).state = .channelR := by
      have hcell : Cell w u (.blocked g) := hg ▸ c.cell u
      rw [hcell.1, hv]
      rfl
    have c₁ : Calling (w.setThird u v) s t :=
      { toBusy := c.toBusy.setThirdOf hg (.inl (by rw [hv]; rfl)) v
        state := by simpa [World.setThird, World.modify, Ne.symm hut] using c.state
        null := by simpa [World.setThird, World.modify, Ne.symm hut] using c.null
        user := c.user
        queues := c.queues }
    let f : Frame := ⟨t, k, .send ch v, .sent, caller⟩
    have l := (c₁.ready.emit (.handover ch k (s.env.inCall u) v)).suspend (f := f) (ready_cell rfl)
    have hself : g.self = u := c.queues.self u g hg
    have hwait : (((s.push .ready t).emit (.handover ch k (s.env.inCall u) v)).setPlace t
        (.blocked f)).Waits u g.pending := by
      have hmem : u ∈ s.queue (.receivers ch) := by simp [hr]
      simpa [Sched.Waits, hv, Pending.queue, Sched.setPlace, Sched.push, Sched.emit] using hmem
    obtain ⟨w', hw', corr⟩ := l.switch (u := u)
      (by simpa [Sched.setPlace, Sched.push, Sched.emit, hut] using hg) hself
      (by rw [(c₁.ready.emit _).current]; simpa using Ne.symm hut) hwait (by simp [hv])
    let w₂ := (((w.setThird u v).setState t .ready).insertTail .ready t).emit
      (.handover ch k (s.env.inCall u) v)
    have hthird : (w₂.co u).third = v := by
      simp [w₂, World.emit, World.insertTail, World.setState, World.setThird, World.modify, hut]
    refine ⟨w', ⟨v, w₂.links.links.next (.op u)⟩, ?_, ?_⟩
    · simp only [World.channelSend, c.getCurrent, ok_bind, he, if_neg Bool.false_ne_true,
        c.toCouple.queueHead hr, World.ngxQueueData]
      rw [check_pos hstate]
      simp only [ok_bind, c₁.activate]
      rw [← c.env] at hw'
      exact hw'
    · simp only [Sched.send, hr]
      rw [Sched.block_env]
      change Corr w' (Sched.resume _ u ⟨(w₂.co u).third, _⟩ none) at corr
      rw [hthird] at corr
      exact corr

/-! ## Semaphores -/

theorem acquire (c : Calling w s t) (k : CallId) (m : Sem) :
    ∃ w' x, w.semaphoreAcquire k t m = .ok w' ∧ Corr w' (s.acquire x t k m) := by
  by_cases free : 0 < s.env.counter m
  · have hfree : 0 < w.env.counter m := by rw [c.env]; exact free
    let g : Env → Env := fun e =>
      let e := e.setCounter m (e.counter m - 1)
      e.emit (.ret k t (.acquire m) (.int (e.counter m)))
    refine ⟨{ w with env := g w.env }, ⟨.null, .null⟩, ?_, ?_⟩
    · simp only [World.semaphoreAcquire, if_pos hfree]
      rfl
    · simp only [Sched.acquire, if_pos free]
      exact (c.mapEnv g).corr
  · have hfree : ¬ 0 < w.env.counter m := by rw [c.env]; exact free
    obtain ⟨w', x, hw', corr⟩ := (c.mapEnv fun e => e.enter t (.receive (.ofSem m))).receive
      w.env.calls (.ofSem m) (.acquire k m)
    refine ⟨w', x, ?_, ?_⟩
    · simp only [World.semaphoreAcquire, if_neg hfree]
      exact hw'
    · simp only [Sched.acquire, if_neg free]
      rw [c.env] at corr
      exact corr

theorem release (c : Calling w s t) (k : CallId) (m : Sem) :
    ∃ w' x, w.semaphoreRelease k t m = .ok w' ∧ Corr w' (s.release x t k m) := by
  cases hr : s.queue (.receivers (.ofSem m)) with
  | nil =>
    have he := (c.toCouple.queueEmpty (.receivers (.ofSem m))).mpr hr
    let g : Env → Env := fun e =>
      let e := e.setCounter m (World.int32 (e.counter m + 1))
      e.emit (.ret k t (.release m) (.int (e.counter m)))
    refine ⟨{ w with env := g w.env }, ⟨.null, .null⟩, ?_, ?_⟩
    · simp only [World.semaphoreRelease, he, Bool.not_true, if_neg Bool.false_ne_true]
      rfl
    · simp only [Sched.release, hr]
      exact (c.mapEnv g).corr
  | cons u us =>
    have he := c.toCouple.queueEmpty_cons hr
    obtain ⟨w', x, hw', corr⟩ := (c.mapEnv fun e => e.enter t (.send (.ofSem m) .null)).send
      w.env.calls (.ofSem m) .null (.release k m)
    refine ⟨w', x, ?_, ?_⟩
    · simp only [World.semaphoreRelease, he, Bool.not_false, if_true]
      exact hw'
    · simp only [Sched.release, hr]
      rw [c.env] at corr
      exact corr

/-! ## `gevent_getaddrinfo` -/

/-- Writing the request over the ready link. -/
theorem writePrev (c : Calling w s t) (v : Word) :
    Calling { w with links := w.links.writePrev (.op t) v } s t :=
  { toBusy := c.toBusy.writePrev c.unqueued v
    state := c.state
    null := c.null
    user := c.user
    queues := c.queues }

theorem getaddrinfo (c : Calling w s t) (k : CallId) (o : Submit) :
    ∃ w' x, w.getaddrinfo k o = .ok w' ∧ Corr w' (s.getaddrinfo x t k o) := by
  have hnext : w.env.nextReq = s.env.nextReq := by rw [c.env]
  cases o with
  | noMemory =>
    have c₁ := (c.writePrev .null).mapEnv fun e =>
      e.emit (.ret k t (.getaddrinfo .noMemory) (.addrinfo (.data (-1)) none))
    refine ⟨_, ⟨.null, .null⟩, ?_, c₁.corr⟩
    simp only [World.getaddrinfo, c.getCurrent, ok_bind]
    rfl
  | failed =>
    have c₁ := (c.writePrev (.req w.env.nextReq)).mapEnv fun e =>
      (e.mallocReq.emit (.free e.nextReq)).emit
        (.ret k t (.getaddrinfo .failed) (.addrinfo (.data (-1)) none))
    refine ⟨_, ⟨.null, .null⟩, ?_, c₁.corr⟩
    simp only [World.getaddrinfo, c.getCurrent, ok_bind]
    rfl
  | submitted =>
    let f : Frame := ⟨t, k, .getaddrinfo .submitted, .getaddrinfo, .program⟩
    have c₁ := (c.writePrev (.req w.env.nextReq)).mapEnv fun e => e.mallocReq.submit t k e.nextReq
    have b := c₁.toBusy.setState .waitingGetaddrinfo
    obtain ⟨w', x, hw', corr⟩ := b.yield (f := f)
      ⟨by simp [World.setState, World.modify, f, Pending.state], by simp [f], by simp [f]⟩
      ((c.block_queues (f := f) rfl).congr rfl rfl) (by simp [f, Pending.queue])
    refine ⟨w', x, ?_, corr⟩
    simp only [World.getaddrinfo, c.getCurrent, ok_bind]
    exact hw'

/-! ## All calls -/

theorem perform (c : Calling w s t) (k : CallId) (a : Call)
    (valid : ∀ u, a = .spawn u → s.place u = .new) (nonneg : ∀ d, a = .sleep d → 0 ≤ d) :
    ∃ w' x, w.perform k t a = .ok w' ∧ Corr w' (s.perform x t k a) := by
  cases a with
  | spawn u =>
    obtain ⟨w', hw', corr⟩ := c.spawn (valid u rfl) k
    exact ⟨w', ⟨.null, .null⟩, hw', corr⟩
  | sleep d => exact c.sleep (nonneg d rfl) k (.sleep d) true
  | wait d =>
    by_cases hd : 0 < d
    · obtain ⟨w', x, hw', corr⟩ := c.sleep (show 0 ≤ d by omega) k (.wait d) false
      exact ⟨w', x, by simpa only [World.perform, World.wait, if_pos hd] using hw',
        by simpa only [Sched.perform, if_pos hd] using corr⟩
    · obtain ⟨w', x, hw', corr⟩ := c.wait hd k
      exact ⟨w', x, hw', by simpa only [Sched.perform, if_neg hd] using corr⟩
  | receive ch => exact c.receive k ch .program
  | send ch v => exact c.send k ch v .program
  | acquire m => exact c.acquire k m
  | release m => exact c.release k m
  | getaddrinfo o => exact c.getaddrinfo k o

end Calling
end Gevent
