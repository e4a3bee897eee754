import Gevent.Histories
import Gevent.QueueLists
import Gevent.Sched.Requests

/-!
# Resolver calls keep their results

Every completed request resumes the cothread that asked for it, and its call
returns what the request brought; every request is freed once, and a call that
fails leaves no trace (`resolver_calls_sound`).
-/

namespace Gevent

structure World.ResolverSound (w : World) : Prop where
  /-- The completion of a request makes the call that submitted it return. -/
  completion : ∀ q error res, w.Legal (.resolve q error res) → ∃ t, w.env.reqData q = some t ∧
    (t ≠ w.hub.main → (w.co t).state = .waitingGetaddrinfo ∧
      ∃ f, w.frame t = some f ∧ .submitted f.call q ∈ w.env.log ∧
      ∃ w', gevent.exec w (.resolve q error res) = .ok w' ∧ w'.control = .user t ∧
      ∃ l, w'.env.log = .ret f.call t (.getaddrinfo .submitted)
        (.addrinfo (.data error) (if error = 0 then some res else none)) :: l)
  /-- The request of a suspended call is under way. -/
  outstanding : ∀ t f, t ≠ w.hub.main → w.frame t = some f → f.op = .getaddrinfo .submitted →
    ∃ q ∈ w.env.loop.activeReqs, w.env.reqData q = some t ∧ .submitted f.call q ∈ w.env.log
  answers : ∀ l₁ k t r l₂, w.env.log = l₁ ++ .ret k t (.getaddrinfo .submitted) r :: l₂ →
    t ≠ w.hub.main → ∃ q error res, .submitted k q ∈ l₂ ∧ .resolved q error res ∈ l₂ ∧
      r = .addrinfo (.data error) (if error = 0 then some res else none)
  own : ∀ k q k' q', .submitted k q ∈ w.env.log → .submitted k' q' ∈ w.env.log → (k = k' ↔ q = q')
  once : ∀ q e res e' res', .resolved q e res ∈ w.env.log → .resolved q e' res' ∈ w.env.log →
    e = e' ∧ res = res'
  freed : ∀ q, .malloc q ∈ w.env.log →
    w.env.log.count (.free q) = if q ∈ w.env.loop.activeReqs then 0 else 1
  allocated : ∀ q, .free q ∈ w.env.log ∨ q ∈ w.env.loop.activeReqs → .malloc q ∈ w.env.log
  /-- A call that fails returns at once; its request, if any, is freed. -/
  refused : ∀ t o, w.control = .user t → o ≠ .submitted →
    ∃ w', gevent.exec w (.call (.getaddrinfo o)) = .ok w' ∧ w'.control = .user t ∧
      w'.co = w.co ∧ (∀ q, w'.enqueued q = w.enqueued q) ∧
      w'.env.loop.activeReqs = w.env.loop.activeReqs ∧
      (∀ q, .malloc q ∈ w'.env.log → .malloc q ∈ w.env.log ∨ .free q ∈ w'.env.log) ∧
      ∃ k l, w'.env.log = .ret k t (.getaddrinfo o) (.addrinfo (.data (-1)) none) :: l

/-- The semaphore functions make no resolver calls. -/
theorem Frame.Fits.program {f : Frame} (fits : f.Fits) {o : Submit} (op : f.op = .getaddrinfo o) :
    f.caller = .program := by
  have h := fits.1
  obtain ⟨self, call, op', pending, caller⟩ := f
  cases op
  cases caller with
  | program => rfl
  | acquire k m | release k m => cases h

theorem Frame.Fits.getaddrinfo {f : Frame} (fits : f.Fits) :
    f.pending = .getaddrinfo ↔ f.op = .getaddrinfo .submitted := by
  have h := fits.2
  obtain ⟨self, call, op, pending, caller⟩ := f
  cases pending <;> simp only [reduceCtorEq, false_iff, true_iff] at h ⊢ <;> grind

theorem Pending.result_getaddrinfo (error : Int) (res : Word) :
    Pending.getaddrinfo.result ⟨.data error, res⟩ =
      .addrinfo (.data error) (if error = 0 then some res else none) := by
  simp [result, Word.null]

namespace Paired
variable {w : World} {s : Sched} {t : Tid}

/-- A request of a spawned cothread is answered in the call that made it. -/
theorem completion (p : Paired w s) {q : ReqId} {error : Int} {res : Word}
    (legal : w.Legal (.resolve q error res)) : ∃ t, w.env.reqData q = some t ∧
    (t ≠ w.hub.main → (w.co t).state = .waitingGetaddrinfo ∧
      ∃ f, w.frame t = some f ∧ .submitted f.call q ∈ w.env.log ∧
      ∃ w', gevent.exec w (.resolve q error res) = .ok w' ∧ w'.control = .user t ∧
      ∃ l, w'.env.log = .ret f.call t (.getaddrinfo .submitted)
        (.addrinfo (.data error) (if error = 0 then some res else none)) :: l) := by
  have active : q ∈ s.env.loop.activeReqs := (p.allowed p.base legal).2
  obtain ⟨t, data, ho⟩ := p.base.lookups.owner_at active
  refine ⟨t, by rw [p.env]; exact data, fun hne => ?_⟩
  obtain ⟨f, hf, pending, hcall⟩ := ho.resolve_right fun h => hne (p.main_eq ▸ h.1)
  have hop : f.op = .getaddrinfo .submitted :=
    (p.base.calls.frame t f hf).fits.getaddrinfo.mp pending
  have hself : f.self = t := p.base.core.queues.self t f hf
  obtain ⟨w', x, exec, c⟩ := p.exec_ok legal (by simp [Sched.fault, data, hf, pending])
  have hnext : s.next x (.resolve q error res) =
      Sched.resume { s.complete q error res with hub := .suspended .io } t
        ⟨.data error, res⟩ none := by
    simp [Sched.next, Sched.resolve, data]
  have hp : Sched.place { s.complete q error res with hub := .suspended .io } t = .blocked f := hf
  refine ⟨?_, f, (p.frame_eq t).mpr hf, ?_, w', exec, ?_, ?_⟩
  · have hs := p.state_eq (t := t)
    rw [hf] at hs
    exact hs.trans (congrArg Pending.state pending)
  · rw [p.env, hcall]
    exact p.base.lookups.submitted q active
  · rw [c.control, hnext, Sched.resume_control hp]
  · obtain ⟨tm, hs, n, he⟩ := Sched.resume_shape hp ⟨.data error, res⟩ none
    rw [c.env, hnext, he]
    simp only [Frame.returns, (p.base.calls.frame t f hf).fits.program hop, hself, hop, pending,
      Pending.result_getaddrinfo]
    exact ⟨_, rfl⟩

theorem refused (p : Paired w s) {o : Submit} (hc : w.control = .user t) (fails : o ≠ .submitted) :
    ∃ w', gevent.exec w (.call (.getaddrinfo o)) = .ok w' ∧ w'.control = .user t ∧
      w'.co = w.co ∧ (∀ q, w'.enqueued q = w.enqueued q) ∧
      w'.env.loop.activeReqs = w.env.loop.activeReqs ∧
      (∀ q, .malloc q ∈ w'.env.log → .malloc q ∈ w.env.log ∨ .free q ∈ w'.env.log) ∧
      ∃ k l, w'.env.log = .ret k t (.getaddrinfo o) (.addrinfo (.data (-1)) none) :: l := by
  have hs : s.control = .user t := p.control ▸ hc
  have call := (p.calling p.base p.settled hs).mapEnv fun e => e.enter t (.getaddrinfo o)
  have hcur := call.getCurrent
  have hexec : gevent.exec w (.call (.getaddrinfo o)) =
      World.getaddrinfo { w with env := w.env.enter t (.getaddrinfo o) } w.env.calls o := by
    simp only [gevent, World.exec, World.call, hc, World.enter, World.perform]
  rw [hexec]
  cases o with
  | submitted => exact absurd rfl fails
  | noMemory =>
    simp only [World.getaddrinfo, hcur, ok_bind]
    refine ⟨_, rfl, hc, rfl, fun q => rfl, rfl, fun q hq => .inl ?_, _, _, rfl⟩
    simpa [World.leave, World.emit, Env.emit, Env.enter] using hq
  | failed =>
    simp only [World.getaddrinfo, hcur, ok_bind]
    refine ⟨_, rfl, hc, rfl, fun q => rfl, rfl, fun q hq => ?_, _, _, rfl⟩
    by_cases hqn : q = w.env.nextReq
    · right
      simp [World.leave, World.emit, Env.emit, World.mallocReq, Env.mallocReq, Env.enter, hqn]
    · left
      simpa [World.leave, World.emit, Env.emit, World.mallocReq, Env.mallocReq, Env.enter, hqn] using hq

end Paired

/-- Concurrent resolver calls of spawned cothreads neither mix up nor lose their results. -/
theorem resolver_calls_sound {w : World} (r : gevent.Reach anyStep w) : w.ResolverSound := by
  obtain ⟨s, p⟩ := reach_paired r
  have reqs := scheduler_requests p.reach
  have henv := p.env
  refine ⟨fun q error res legal => p.completion legal, ?_, ?_, ?_, ?_, ?_, ?_,
    fun t o hc fails => p.refused hc fails⟩
  · intro t f _ hf hop
    have hp := (p.frame_eq t).mp hf
    have pending := (p.base.calls.frame t f hp).fits.getaddrinfo.mpr hop
    obtain ⟨q, hq, hby, hd⟩ := p.base.lookups.requester_at hp pending
    rw [henv]
    exact ⟨q, hq, hd, hby ▸ p.base.lookups.submitted q hq⟩
  · intro l₁ k t r l₂ hlog hne
    have ordered := p.ordered
    rw [hlog] at ordered
    obtain ⟨hcall, why⟩ := ordered.returns.at
    rcases why with hs | hfall | ⟨-, hm, -⟩
    · exact hs
    · have h₂ : Ordered w.hub.main l₂ :=
        Ordered.past (show Ordered w.hub.main ([.ret k t _ r] ++ l₂) from ordered.past)
      obtain ⟨a, b, hab, ⟨d, hd⟩, -⟩ := h₂.returns.of_mem hfall
      have hd : .call k w.hub.main d ∈ l₂ := by simp [hab, hd]
      exact absurd (call_unique h₂.fresh hcall hd).1 hne
    · exact absurd hm hne
  · rw [henv]
    exact fun k q k' q' => submitted_unique reqs.ordered
  · rw [henv]
    exact fun q e res e' res' => resolved_unique reqs.ordered
  · rw [henv]
    exact reqs.freed
  · rw [henv]
    exact reqs.allocated

set_option maxRecDepth 100000 in
/-- Two cothreads ask at once and are answered in the other order, one with an error. -/
theorem resolver_calls_sound_run : ∃ w, gevent.Reach anyStep w ∧
    .ret 3 2 (.getaddrinfo .submitted) (.addrinfo (.data (-3)) none) ∈ w.env.log ∧
    .ret 1 1 (.getaddrinfo .submitted) (.addrinfo (.data 0) (some (.data 7))) ∈ w.env.log ∧
    w.ResolverSound := by
  have h : (gevent.play anyStep zeroStart [.cothreadInit 1 1, .cothreadInit 2 1,
      .call (.spawn 1), .call (.getaddrinfo .submitted), .call (.spawn 2),
      .call (.getaddrinfo .submitted), .call (.sleep 5), .iterate, .timers, .resolve 1 (-3) .null,
      .finish, .resolve 0 0 (.data 7)]).any (fun w => decide
        (.ret 3 2 (.getaddrinfo .submitted) (.addrinfo (.data (-3)) none) ∈ w.env.log ∧
        .ret 1 1 (.getaddrinfo .submitted) (.addrinfo (.data 0) (some (.data 7))) ∈ w.env.log)) =
      true := by decide
  obtain ⟨w, r, h2, h1⟩ := Machine.Reach.of_play zeroStart_start h
  exact ⟨w, r, h2, h1, resolver_calls_sound r⟩

end Gevent
