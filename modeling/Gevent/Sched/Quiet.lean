import Gevent.Sched.Alarms

/-!
# Steps that leave the timers alone

Who is picked from a queue was not asleep. So most calls touch no timer and let
no sleeper continue (`Sched.Quiet`), and only the last resort of
`_get_next_stacklet` may find the main cothread asleep (`Sched.handOn_quiet`).
-/

namespace Gevent

/-- The calls that timers have ended, latest first. -/
def Env.firedCalls (e : Env) : List CallId :=
  e.log.filterMap fun ev =>
    match ev with
    | .fired k => some k
    | _ => none

theorem Env.firedCalls_eq {e e' : Env} {es : List Event} (log : e'.log = es ++ e.log)
    (none : ∀ ev ∈ es, ∀ k, ev ≠ .fired k) : e'.firedCalls = e.firedCalls := by
  rw [firedCalls, firedCalls, log, List.filterMap_append, List.append_left_eq_self,
    List.filterMap_eq_nil_iff]
  intro ev hev
  have := none ev hev
  cases ev <;> simp at this ⊢

theorem Env.switching_unfired {e : Env} {new died : Option Tid} :
    ∀ ev ∈ e.switching new died, ∀ k, ev ≠ .fired k := by
  intro ev hev k
  rcases Env.mem_switching.mp hev with rfl | ⟨t, -, -, rfl⟩ <;> simp

theorem TimerOut.firedCalls {e e' : Env} {u : Tid} {f : Frame} {new died : Option Tid}
    (h : TimerOut e e' u f (e.switching new died)) : e'.firedCalls = e.firedCalls := by
  refine Env.firedCalls_eq h.log fun ev hev k => ?_
  rcases List.mem_cons.mp hev with rfl | hev
  · simp
  · exact Env.switching_unfired ev hev k

namespace Sched

/-- The timers stay as they are, and nobody continues in `_sleep_internal`. -/
structure Quiet (s s' : Sched) : Prop where
  time : s'.env.loop.time = s.env.loop.time
  timers : SameTimers s.env s'.env
  fired : s'.env.firedCalls = s.env.firedCalls
  awake : ∀ u f, s'.control = .user u → s.place u = .blocked f → f.pending ≠ .sleep

section
variable {s s₁ s' : Sched} {t u : Tid} {f g : Frame} {k : CallId} {c : Call} {ch : Chan} {v : Word}
  {caller : Caller} {m : Sem} {x : Leftover} {died : Option Tid} {q : QueueId}

/-- Something else happens first, and nobody who was suspended continues. -/
theorem Quiet.after (h : s₁.Quiet s') (time : s₁.env.loop.time = s.env.loop.time)
    (timers : SameTimers s.env s₁.env) (fired : s₁.env.firedCalls = s.env.firedCalls)
    (suspended : ∀ u f, s.place u = .blocked f → s₁.place u = .blocked f) : s.Quiet s' where
  time := h.time.trans time
  timers := ⟨h.timers.timer.trans timers.timer, h.timers.handles.trans timers.handles,
    h.timers.armedBy.trans timers.armedBy⟩
  fired := h.fired.trans fired
  awake u f control place := h.awake u f control (suspended u f place)

/-- The executing cothread goes on, or the loop. -/
theorem Quiet.stay (settled : ∀ t, s'.control = .user t → s.place t = .running)
    (time : s'.env.loop.time = s.env.loop.time) (timers : SameTimers s.env s'.env)
    (fired : s'.env.firedCalls = s.env.firedCalls) : s.Quiet s' where
  time := time
  timers := timers
  fired := fired
  awake u f control place := by
    rw [settled u control] at place
    cases place

/-- Changing the place of a cothread that is not suspended suspends nobody else. -/
theorem suspended_update {p : Place} (ht : ∀ f, s.place t ≠ .blocked f)
    (hs : s₁.place = Function.update s.place t p) (u : Tid) (f : Frame)
    (hu : s.place u = .blocked f) : s₁.place u = .blocked f := by
  have hut : u ≠ t := by
    rintro rfl
    exact ht f hu
  rw [hs, Function.update_of_ne hut, hu]

theorem quiet_enterHub : s.Quiet (s.enterHub died) := by
  rw [enterHub_eq]
  refine .stay (fun t control => by cases control) rfl ⟨rfl, rfl, rfl⟩
    (Env.firedCalls_eq (List.append_assoc ..).symm fun ev hev k => ?_)
  rcases mem_hubEvents hev with rfl | rfl | ⟨t, -, -, rfl⟩ <;> simp

theorem quiet_resume (hu : s.place u = .blocked f) (awake : f.pending ≠ .sleep) :
    s.Quiet (s.resume u x died) := by
  have henv := resume_awake hu awake x died
  refine ⟨by rw [henv], by rw [henv]; exact ⟨rfl, rfl, rfl⟩,
    Env.firedCalls_eq (by rw [henv]) fun ev hev k => ?_, fun w g control place => ?_⟩
  · rcases List.mem_append.mp hev with hev | hev
    · obtain ⟨_, _, _, rfl, -⟩ := Frame.mem_returns hev
      simp
    · exact Env.switching_unfired ev hev k
  · rw [resume_control hu] at control
    cases control
    rw [hu] at place
    cases place
    exact awake

/-- Whoever is in a queue is not asleep. -/
theorem awake_of_queue (h : f.pending.queue = some q) : f.pending ≠ .sleep := by
  intro asleep
  rw [asleep] at h
  cases h

theorem quiet_start (new : s.place u = .new) : s.Quiet (s.startCothread u) where
  time := rfl
  timers := ⟨rfl, rfl, rfl⟩
  fired := rfl
  awake w f control place := by
    cases control
    rw [new] at place
    cases place

/-- The caller blocks, and the first ready cothread continues, or the loop. -/
theorem quiet_yield (core : Core ⟨s, none⟩) (ht : s.place t = .running)
    (aside : f.pending.queue ≠ some .ready) (x : Leftover) :
    (s.block t f).Quiet ((s.block t f).yield x) := by
  have ready : (s.block t f).queue .ready = s.queue .ready := by
    rw [block_queue, if_neg aside]
  cases hq : s.queue .ready with
  | nil =>
    rw [yield, ready, hq]
    exact quiet_enterHub
  | cons u us =>
    rw [yield, ready, hq]
    obtain ⟨g, hg, pending, hut⟩ := core.partner ht hq
    exact quiet_resume (by simpa [hut] using hg) (awake_of_queue pending)

/-- The caller blocks in a call that does not sleep. -/
theorem quiet_block (core : Core ⟨s, none⟩) (ht : s.place t = .running)
    (aside : f.pending.queue ≠ some .ready) (x : Leftover) (e : Env)
    (known : e.known = s.env.known) (time : e.loop.time = s.env.loop.time)
    (timers : SameTimers s.env e) (fired : e.firedCalls = s.env.firedCalls) :
    s.Quiet ((block { s with env := e } t f).yield x) := by
  refine (quiet_yield (core.env e known) ht aside x).after ?_ ?_ ?_ fun u g hu => ?_
  · simpa using time
  · simpa using timers
  · simpa using fired
  · exact suspended_update (t := t) (by simp [ht]) (block_place ..) u g hu

/-- The caller passes the channel to its partner. -/
theorem quiet_meet (core : Core ⟨s, none⟩) (ht : s.place t = .running) {us : List Tid}
    (first : s.queue q = u :: us) {ev : Event} (other : ∀ k, ev ≠ .fired k) (x : Leftover) :
    s.Quiet (((s.block t f).emit ev).resume u x none) := by
  obtain ⟨g, hg, pending, hut⟩ := core.partner ht first
  have h : ((s.block t f).emit ev).Quiet (((s.block t f).emit ev).resume u x none) :=
    quiet_resume (by simpa [emit, hut] using hg) (awake_of_queue pending)
  have log : ((s.block t f).emit ev).env.log = [ev] ++ s.env.log := by simp [emit, Env.emit]
  refine h.after (by simp [emit, Env.emit]) ?_ ?_ fun w g hw => ?_
  · simpa [emit, Env.emit] using ⟨rfl, rfl, rfl⟩
  · exact Env.firedCalls_eq log (by simpa using other)
  · exact suspended_update (t := t) (by simp [ht]) (block_place ..) w g hw

theorem quiet_receive (core : Core ⟨s, none⟩) (ht : s.place t = .running) (x : Leftover) :
    s.Quiet (s.receive x t k ch caller) := by
  cases hq : s.queue (.senders ch) with
  | nil =>
    simp only [receive, hq]
    refine quiet_block core ht ?_ x _ rfl rfl ⟨rfl, rfl, rfl⟩ rfl
    simp [Pending.queue]
  | cons u us =>
    simp only [receive, hq]
    exact quiet_meet core ht hq (by simp) x

theorem quiet_send (core : Core ⟨s, none⟩) (ht : s.place t = .running) (x : Leftover) :
    s.Quiet (s.send x t k ch v caller) := by
  cases hq : s.queue (.receivers ch) with
  | nil =>
    simp only [send, hq]
    refine quiet_block core ht ?_ x _ rfl rfl ⟨rfl, rfl, rfl⟩ rfl
    simp [Pending.queue]
  | cons u us =>
    simp only [send, hq]
    exact quiet_meet core ht hq (by simp) _

theorem quiet_enter (h : (s.enter t c).Quiet s') : s.Quiet s' :=
  h.after rfl ⟨rfl, rfl, rfl⟩ rfl fun _ _ hu => hu

/-- The calls that do not sleep. -/
theorem quiet_perform (core : Core ⟨s, none⟩) (ht : s.place t = .running)
    (control : s.control = .user t) (valid : ∀ u, c = .spawn u → s.place u = .new)
    (awake : ∀ d, c ≠ .sleep d) (waits : ∀ d, 0 < d → c ≠ .wait d) (x : Leftover) :
    s.Quiet (s.perform x t k c) := by
  have here : ∀ u, s.control = .user u → s.place u = .running := by
    intro u hu
    rw [control] at hu
    cases hu
    exact ht
  have entered : ∀ op, Core ⟨s.enter t op, none⟩ := fun op => core.env _ rfl
  cases c with
  | spawn u =>
    have new := valid u rfl
    have hut : u ≠ t := by
      rintro rfl
      rw [ht] at new
      cases new
    have h := quiet_start (s := s.block t ⟨t, k, .spawn u, .spawn, .program⟩) (u := u)
      (by simpa [hut] using new)
    refine h.after (by simp) ?_ (by simp) fun w g hw => ?_
    · simpa using SameTimers.refl s.env
    · exact suspended_update (t := t) (by simp [ht]) (block_place ..) w g hw
  | sleep d => exact absurd rfl (awake d)
  | wait d =>
    have never : ¬ 0 < d := fun hd => waits d hd rfl
    simp only [perform, if_neg never]
    refine quiet_block core ht ?_ x s.env rfl rfl (.refl _) rfl
    simp [Pending.queue]
  | receive ch => exact quiet_receive core ht x
  | send ch v => exact quiet_send core ht x
  | acquire m =>
    simp only [perform, acquire]
    split
    · exact .stay here rfl ⟨rfl, rfl, rfl⟩ rfl
    · exact quiet_enter (quiet_receive (entered _) ht x)
  | release m =>
    simp only [perform, release]
    split
    · exact quiet_enter (quiet_send (entered _) ht x)
    · exact .stay here rfl ⟨rfl, rfl, rfl⟩ rfl
  | getaddrinfo o =>
    by_cases ho : o = .submitted
    · simp only [perform, getaddrinfo, if_pos ho]
      refine quiet_block core ht ?_ x _ rfl rfl ⟨rfl, rfl, rfl⟩ rfl
      simp [Pending.queue]
    · simp only [perform, getaddrinfo, if_neg ho]
      cases o with
      | submitted => exact absurd rfl ho
      | noMemory | failed => exact .stay here rfl ⟨rfl, rfl, rfl⟩ rfl

/-- Who continues when a stack has ended was not asleep, unless it is the main
cothread, as a last resort. -/
theorem handOn_quiet (core : Core ⟨s, none⟩) (a : s.Away) (x : Leftover) (died : Option Tid) :
    s.Quiet (s.handOn x died) ∨ (s.queue .ready = [] ∧ s.hub = .idle ∧
      s.handOn x died = s.fallback x died ∧
      ∃ f, s.place s.main = .blocked f ∧ f.pending = .sleep) := by
  cases hq : s.queue .ready with
  | cons u us =>
    obtain ⟨f, hf, pending⟩ := (core.queues.queued .ready u).mp (by simp [hq])
    simp only [handOn, hq]
    exact .inl (quiet_resume hf (awake_of_queue pending))
  | nil =>
    cases hh : s.hub with
    | suspended ph =>
      simp only [handOn, hq, hh]
      exact .inl quiet_enterHub
    | running => exact absurd hh a.hub
    | idle =>
      obtain ⟨f, hf⟩ := main_blocked core a
      simp only [handOn, hq, hh]
      by_cases asleep : f.pending = .sleep
      · exact .inr ⟨trivial, trivial, trivial, f, hf, asleep⟩
      · have h : (s.emit (.fallback (s.env.inCall s.main))).Quiet (s.fallback x died) :=
          quiet_resume hf asleep
        exact .inl (h.after rfl ⟨rfl, rfl, rfl⟩ rfl fun _ _ hu => hu)

/-- Who waits for an answer does not sleep. -/
theorem quiet_resolve {r : ReqId} {error : Int} {res : Word}
    (settled : ∀ t, s.control = .user t → s.place t = .running)
    (valid : s.fault (.resolve r error res) = none) (x : Leftover) :
    s.Quiet (s.resolve x r error res) := by
  cases data : s.env.reqData r with
  | none =>
    simp only [resolve, data]
    exact .stay settled rfl ⟨rfl, rfl, rfl⟩ rfl
  | some my =>
    simp only [resolve, data]
    cases place : s.place my with
    | blocked f =>
      have pending : f.pending = .getaddrinfo := by simpa [fault, data, place] using valid
      exact (quiet_resume (s := { s.complete r error res with hub := .suspended .io }) place
        (by simp [pending])).after rfl ⟨rfl, rfl, rfl⟩ rfl fun _ _ hu => hu
    | unborn | new | running | dead => simp [fault, data, place] at valid

end

end Sched
end Gevent
