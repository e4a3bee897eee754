import Gevent.Sched.Path

/-!
# Requests, once each

Every resolver request is allocated once, submitted by one call, completed at
most once and freed exactly when nothing will complete it any more.
-/

namespace Gevent

/-- The request that an event is about. -/
def Event.request : Event → Option ReqId
  | .malloc r | .free r | .submitted _ r | .resolved r _ _ => some r
  | _ => none

/-- A request is submitted once, by a call that submits once, and completed once. -/
def Event.AsksOnce : Event → List Event → Prop
  | .submitted k r, past => .malloc r ∈ past ∧ ∀ k' r', .submitted k' r' ∈ past → k' ≠ k ∧ r' ≠ r
  | .resolved r _ _, past => (∃ k, .submitted k r ∈ past) ∧ ∀ e res, .resolved r e res ∉ past
  | _, _ => True

/-- What a move does to the requests. -/
inductive RequestMove : Moment → Moment → Prop
  | still {m m' : Moment} (es : List Event) (log : m'.sched.env.log = es ++ m.sched.env.log)
      (others : ∀ e ∈ es, e.request = none)
      (active : m'.sched.env.loop.activeReqs = m.sched.env.loop.activeReqs)
      (next : m'.sched.env.nextReq = m.sched.env.nextReq) : RequestMove m m'
  | refused {m m' : Moment} (e : Event) (other : e.request = none)
      (log : m'.sched.env.log =
        e :: .free m.sched.env.nextReq :: .malloc m.sched.env.nextReq :: m.sched.env.log)
      (active : m'.sched.env.loop.activeReqs = m.sched.env.loop.activeReqs)
      (next : m'.sched.env.nextReq = m.sched.env.nextReq + 1) : RequestMove m m'
  | submit {m m' : Moment} (k : CallId) (first : ∀ r, .submitted k r ∉ m.sched.env.log)
      (log : m'.sched.env.log =
        .submitted k m.sched.env.nextReq :: .malloc m.sched.env.nextReq :: m.sched.env.log)
      (active : m'.sched.env.loop.activeReqs =
        m.sched.env.loop.activeReqs ++ [m.sched.env.nextReq])
      (next : m'.sched.env.nextReq = m.sched.env.nextReq + 1) : RequestMove m m'
  | complete {m m' : Moment} (r : ReqId) (error : Int) (res : Word)
      (pending : r ∈ m.sched.env.loop.activeReqs)
      (log : m'.sched.env.log = .free r :: .resolved r error res :: m.sched.env.log)
      (active : m'.sched.env.loop.activeReqs = m.sched.env.loop.activeReqs.erase r)
      (next : m'.sched.env.nextReq = m.sched.env.nextReq) : RequestMove m m'

theorem Env.switching_request {e : Env} {new died : Option Tid} :
    ∀ ev ∈ e.switching new died, ev.request = none := by
  intro ev hev
  rcases Env.mem_switching.mp hev with rfl | ⟨t, -, -, rfl⟩ <;> rfl

theorem Frame.returns_request {f : Frame} {r : Result} {counter : Sem → Int} :
    ∀ ev ∈ f.returns r counter, ev.request = none := by
  intro ev hev
  obtain ⟨k, c, r', rfl, -⟩ := Frame.mem_returns hev
  rfl

/-- A call just made has submitted nothing. -/
theorem Calls.not_submitted {R : Rules} {s : Sched} {k : Option (Tid × Leftover)} {f : Frame}
    (h : Calls ⟨s, k⟩) (e : s.Entered R f) (r : ReqId) : .submitted f.call r ∉ s.env.log := by
  obtain ⟨l, hl⟩ := e.log
  have ho : Hist Event.Fresh s.env.log := h.ordered
  rw [hl] at ho ⊢
  intro hm
  have hm := (List.mem_cons.mp hm).resolve_left (by simp)
  exact Nat.lt_irrefl _ (ho.1 _ hm f.call (by simp [Event.ids]))

theorem Move.request {R : Rules} {m m' : Moment} (calls : Calls m) (hm : Move R m m') :
    RequestMove m m' := by
  cases hm with
  | enter | acquireWaits | releaseMeets | take | give | semInit | tick | poll | fallback | hubEnd
  | init | die =>
    exact .still [_] rfl (by simp [Event.request]) rfl rfl
  | setExitFn | updateTime | others | turn | pick => exact .still [] rfl (by simp) rfl rfl
  | start => exact .still [_, _] rfl (by simp [Event.request]) rfl rfl
  | @refuse s t k o called fails =>
    cases o with
    | submitted => exact absurd rfl fails
    | noMemory => exact .still [_] rfl (by simp [Event.request]) rfl rfl
    | failed => exact .refused _ rfl rfl rfl rfl
  | pause => exact .still [] (by simp) (by simp) (by simp) (by simp)
  | @sleep s f timeout ref entered pending nonneg kind =>
    rw [Sched.arm_eq]
    exact .still [_] (by simp; rfl) (by simp [Event.request]) (by simp) (by simp)
  | @lookup s f entered pending =>
    refine .submit f.call (calls.not_submitted entered) ?_ ?_ ?_ <;>
      simp [Sched.submit, Env.submit, Env.mallocReq]
  | @queueReceive s f ch =>
    refine .still [.blocked (.receivers ch) f.call] ?_ ?_ ?_ ?_ <;>
      simp [Sched.emit, Env.emit, Event.request]
  | @queueSend s f ch =>
    refine .still [.blocked (.senders ch) f.call] ?_ ?_ ?_ ?_ <;>
      simp [Sched.emit, Env.emit, Event.request]
  | @meetSender s f ch u =>
    refine .still [.handover ch (s.env.inCall u) f.call (s.offer u)] ?_ ?_ ?_ ?_ <;>
      simp [Sched.emit, Env.emit, Event.request]
  | @meetReceiver s f ch v u =>
    refine .still [.handover ch f.call (s.env.inCall u) v] ?_ ?_ ?_ ?_ <;>
      simp [Sched.emit, Env.emit, Event.request]
  | @fire s t ts x hub control first due active f place pending =>
    rw [Sched.fire_eq active]
    exact .still [_] rfl (by simp [Event.request]) rfl rfl
  | @answer s r error res my x hub control active => exact .complete r error res active rfl rfl rfl
  | @drop s r error res hub active => exact .complete r error res active rfl rfl rfl
  | @resume s u x f died away place dead =>
    obtain ⟨tm, hs, n, he⟩ := Sched.resume_shape place x died
    refine .still (f.returns (f.pending.result x) s.env.counter ++ s.env.switching (some u) died)
      (by rw [he]; simp) ?_ (by rw [he]) (by rw [he])
    intro e hev
    rcases List.mem_append.mp hev with hev | hev
    · exact Frame.returns_request e hev
    · exact Env.switching_request e hev
  | @enterHub s died away ready dead =>
    rw [Sched.enterHub_eq]
    refine .still (s.entryEvents ++ s.env.switching none died) (List.append_assoc ..).symm ?_ rfl rfl
    intro e hev
    rcases Sched.mem_hubEvents hev with rfl | rfl | ⟨t, -, -, rfl⟩ <;> rfl

structure Requests (m : Moment) : Prop where
  below : ∀ e ∈ m.sched.env.log, ∀ r, e.request = some r → r < m.sched.env.nextReq
  nodup : m.sched.env.loop.activeReqs.Nodup
  active : ∀ r ∈ m.sched.env.loop.activeReqs, (∃ k, .submitted k r ∈ m.sched.env.log) ∧
    ∀ e res, .resolved r e res ∉ m.sched.env.log
  allocated : ∀ r, .free r ∈ m.sched.env.log ∨ r ∈ m.sched.env.loop.activeReqs →
    .malloc r ∈ m.sched.env.log
  freed : ∀ r, .malloc r ∈ m.sched.env.log →
    m.sched.env.log.count (.free r) = if r ∈ m.sched.env.loop.activeReqs then 0 else 1
  ordered : Hist Event.AsksOnce m.sched.env.log

namespace Requests
variable {s : Sched} {m m' : Moment} {r : ReqId}

theorem initial (h : s.Initial) : Requests ⟨s, none⟩ := by
  constructor <;>
    simp [h.log, h.activeReqs, Event.request, Event.AsksOnce, Hist]

/-- No event has named a request yet to be allocated. -/
theorem fresh (h : Requests m) {e : Event} (he : e ∈ m.sched.env.log) :
    e.request ≠ some m.sched.env.nextReq :=
  fun hr => Nat.lt_irrefl _ (h.below e he _ hr)

theorem fresh_active (h : Requests m) : m.sched.env.nextReq ∉ m.sched.env.loop.activeReqs :=
  fun hr => h.fresh (h.allocated _ (.inr hr)) rfl

theorem fresh_freed (h : Requests m) : m.sched.env.log.count (.free m.sched.env.nextReq) = 0 :=
  List.count_eq_zero_of_not_mem fun hm => h.fresh hm rfl

theorem asksOnce_of_none {e : Event} (h : e.request = none) (past : List Event) : e.AsksOnce past := by
  cases e with
  | submitted | resolved => cases h
  | _ => trivial

/-- Nothing is said about requests. -/
theorem still (h : Requests m) (es : List Event) (log : m'.sched.env.log = es ++ m.sched.env.log)
    (others : ∀ e ∈ es, e.request = none)
    (active : m'.sched.env.loop.activeReqs = m.sched.env.loop.activeReqs)
    (next : m'.sched.env.nextReq = m.sched.env.nextReq) : Requests m' := by
  have hmem : ∀ {e}, e.request ≠ none → (e ∈ m'.sched.env.log ↔ e ∈ m.sched.env.log) := by
    intro e he
    rw [log, List.mem_append]
    exact ⟨fun h => h.resolve_left fun hes => he (others e hes), .inr⟩
  refine ⟨?_, by rw [active]; exact h.nodup, ?_, ?_, ?_, ?_⟩
  · intro e he r hr
    rw [next]
    exact h.below e ((hmem (by simp [hr])).mp he) r hr
  · intro r hr
    rw [active] at hr
    obtain ⟨⟨k, hk⟩, hno⟩ := h.active r hr
    exact ⟨⟨k, (hmem (by simp [Event.request])).mpr hk⟩,
      fun e res he => hno e res ((hmem (by simp [Event.request])).mp he)⟩
  · intro r hr
    rw [active, hmem (by simp [Event.request])] at hr
    exact (hmem (by simp [Event.request])).mpr (h.allocated r hr)
  · intro r hr
    have hes : es.count (.free r) = 0 :=
      List.count_eq_zero_of_not_mem fun hm => by cases others _ hm
    rw [active, log, List.count_append, hes, Nat.zero_add]
    exact h.freed r ((hmem (by simp [Event.request])).mp hr)
  · rw [log]
    exact h.ordered.extend fun e he l => asksOnce_of_none (others e he) l

/-- A request is allocated, and freed at once as it cannot be submitted. -/
theorem refused (h : Requests m) (e : Event) (other : e.request = none)
    (log : m'.sched.env.log =
      e :: .free m.sched.env.nextReq :: .malloc m.sched.env.nextReq :: m.sched.env.log)
    (active : m'.sched.env.loop.activeReqs = m.sched.env.loop.activeReqs)
    (next : m'.sched.env.nextReq = m.sched.env.nextReq + 1) : Requests m' := by
  have hne : ∀ ev : Event, ev.request ≠ none → ev ≠ e := fun ev hev he => hev (he ▸ other)
  have old : ∀ {ev}, (∀ r, ev ≠ .free r) → (∀ r, ev ≠ .malloc r) → ev.request ≠ none →
      (ev ∈ m'.sched.env.log ↔ ev ∈ m.sched.env.log) := by
    intro ev hf hm hev
    simp [log, hne ev hev, hf, hm]
  refine ⟨?_, by rw [active]; exact h.nodup, ?_, ?_, ?_, ?_⟩
  · intro ev hev r hr
    rw [next]
    rw [log] at hev
    simp only [List.mem_cons] at hev
    rcases hev with rfl | rfl | rfl | hev
    · rw [other] at hr
      cases hr
    · cases hr
      exact Nat.lt_succ_self _
    · cases hr
      exact Nat.lt_succ_self _
    · exact Nat.lt_succ_of_lt (h.below ev hev r hr)
  · intro r hr
    rw [active] at hr
    obtain ⟨⟨k, hk⟩, hno⟩ := h.active r hr
    exact ⟨⟨k, (old (by simp) (by simp) (by simp [Event.request])).mpr hk⟩,
      fun i res he => hno i res ((old (by simp) (by simp) (by simp [Event.request])).mp he)⟩
  · intro r hr
    by_cases hrn : r = m.sched.env.nextReq
    · simp [log, hrn]
    · rw [active] at hr
      have hf : .free r ∈ m'.sched.env.log ↔ .free r ∈ m.sched.env.log := by
        simp [log, hne (.free r) (by simp [Event.request]), hrn]
      rw [hf] at hr
      simp [log, h.allocated r hr]
  · intro r hr
    have hcount : m'.sched.env.log.count (.free r) =
        m.sched.env.log.count (.free r) + if r = m.sched.env.nextReq then 1 else 0 := by
      have he := (hne (.free r) (by simp [Event.request])).symm
      rw [log, List.count_cons_of_ne he]
      by_cases hrn : r = m.sched.env.nextReq
      · simp [hrn]
      · simp [hrn, Ne.symm hrn]
    by_cases hrn : r = m.sched.env.nextReq
    · subst hrn
      simp [hcount, h.fresh_freed, active, h.fresh_active]
    · have hm : .malloc r ∈ m.sched.env.log := by
        simpa [log, hne (.malloc r) (by simp [Event.request]), hrn] using hr
      simpa [hcount, hrn, active] using h.freed r hm
  · rw [log]
    exact ⟨asksOnce_of_none other _, trivial, trivial, h.ordered⟩

/-- A request is allocated, and under way. -/
theorem submit (h : Requests m) (k : CallId) (first : ∀ r, .submitted k r ∉ m.sched.env.log)
    (log : m'.sched.env.log =
      .submitted k m.sched.env.nextReq :: .malloc m.sched.env.nextReq :: m.sched.env.log)
    (active : m'.sched.env.loop.activeReqs = m.sched.env.loop.activeReqs ++ [m.sched.env.nextReq])
    (next : m'.sched.env.nextReq = m.sched.env.nextReq + 1) : Requests m' := by
  refine ⟨?_, ?_, ?_, ?_, ?_, ?_⟩
  · intro ev hev r hr
    rw [next]
    rw [log] at hev
    simp only [List.mem_cons] at hev
    rcases hev with rfl | rfl | hev
    · cases hr
      exact Nat.lt_succ_self _
    · cases hr
      exact Nat.lt_succ_self _
    · exact Nat.lt_succ_of_lt (h.below ev hev r hr)
  · rw [active]
    exact List.nodup_append.mpr ⟨h.nodup, by simp, by
      rintro a ha b hb rfl
      rw [List.mem_singleton.mp hb] at ha
      exact h.fresh_active ha⟩
  · intro r hr
    rw [active, List.mem_append, List.mem_singleton] at hr
    rcases hr with hr | rfl
    · obtain ⟨⟨k', hk⟩, hno⟩ := h.active r hr
      exact ⟨⟨k', by simp [log, hk]⟩, fun e res he => hno e res (by simpa [log] using he)⟩
    · refine ⟨⟨k, by simp [log]⟩, fun e res he => ?_⟩
      exact h.fresh (by simpa [log] using he) rfl
  · intro r hr
    rw [active, List.mem_append, List.mem_singleton] at hr
    have hr : (.free r ∈ m.sched.env.log ∨ r ∈ m.sched.env.loop.activeReqs) ∨
        r = m.sched.env.nextReq := by
      simpa [log, or_assoc] using hr
    rcases hr with hr | rfl
    · simp [log, h.allocated r hr]
    · simp [log]
  · intro r hr
    have hcount : m'.sched.env.log.count (.free r) = m.sched.env.log.count (.free r) := by
      simp [log]
    rw [hcount, active]
    by_cases hrn : r = m.sched.env.nextReq
    · subst hrn
      simp [h.fresh_freed]
    · have hm : .malloc r ∈ m.sched.env.log := by simpa [log, hrn] using hr
      simpa [hrn] using h.freed r hm
  · rw [log]
    refine ⟨⟨List.mem_cons_self, fun k' r' hmem => ?_⟩, trivial, h.ordered⟩
    have hmem := (List.mem_cons.mp hmem).resolve_left (by simp)
    refine ⟨?_, ?_⟩
    · rintro rfl
      exact first r' hmem
    · rintro rfl
      exact h.fresh hmem rfl

/-- A request is answered, and freed. -/
theorem complete (h : Requests m) (error : Int) (res : Word)
    (pending : r ∈ m.sched.env.loop.activeReqs)
    (log : m'.sched.env.log = .free r :: .resolved r error res :: m.sched.env.log)
    (active : m'.sched.env.loop.activeReqs = m.sched.env.loop.activeReqs.erase r)
    (next : m'.sched.env.nextReq = m.sched.env.nextReq) : Requests m' := by
  obtain ⟨hsub, hno⟩ := h.active r pending
  have hmem : ∀ r', r' ∈ m.sched.env.loop.activeReqs.erase r ↔
      r' ≠ r ∧ r' ∈ m.sched.env.loop.activeReqs := fun r' => h.nodup.mem_erase_iff
  refine ⟨?_, by rw [active]; exact h.nodup.erase r, ?_, ?_, ?_, ?_⟩
  · intro ev hev r' hr'
    rw [next]
    rw [log] at hev
    simp only [List.mem_cons] at hev
    obtain ⟨k, hk⟩ := hsub
    rcases hev with rfl | rfl | hev
    · cases hr'
      exact h.below _ hk r rfl
    · cases hr'
      exact h.below _ hk r rfl
    · exact h.below ev hev r' hr'
  · intro r' hr'
    rw [active, hmem] at hr'
    obtain ⟨⟨k, hk⟩, hnone⟩ := h.active r' hr'.2
    exact ⟨⟨k, by simp [log, hk]⟩, fun e res' he => hnone e res' (by simpa [log, hr'.1] using he)⟩
  · intro r' hr'
    rw [active, hmem] at hr'
    by_cases hrr : r' = r
    · subst hrr
      simp [log, h.allocated r' (.inr pending)]
    · have hr' : .free r' ∈ m.sched.env.log ∨ r' ∈ m.sched.env.loop.activeReqs := by
        simpa [log, hrr] using hr'
      simp [log, h.allocated r' hr']
  · intro r' hr'
    have hm : .malloc r' ∈ m.sched.env.log := by simpa [log] using hr'
    have hold := h.freed r' hm
    rw [active, log]
    by_cases hrr : r' = r
    · subst hrr
      rw [if_pos pending] at hold
      simp [hold, hmem]
    · simpa [List.count_cons, hmem, hrr, Ne.symm hrr] using hold
  · rw [log]
    exact ⟨trivial, ⟨hsub, hno⟩, h.ordered⟩

theorem step (h : Requests m) (hm : RequestMove m m') : Requests m' := by
  cases hm with
  | still es log others active next => exact h.still es log others active next
  | refused e other log active next => exact h.refused e other log active next
  | submit k first log active next => exact h.submit k first log active next
  | complete r error res pending log active next => exact h.complete error res pending log active next

end Requests

theorem scheduler_requests {ok : Sched → World.Action → Prop} {s : Sched}
    (r : scheduler.Reach ok s) : Requests ⟨s, none⟩ :=
  scheduler_invariant (P := Requests) (fun _ h => .initial h)
    (fun _ _ b h hm => h.step (hm.request b.calls)) (Rules.reach_any r)

/-- Calls and requests belong to each other. -/
theorem submitted_unique {log : List Event} (h : Hist Event.AsksOnce log) {k k' : CallId}
    {r r' : ReqId} (h1 : .submitted k r ∈ log) (h2 : .submitted k' r' ∈ log) : k = k' ↔ r = r' := by
  induction log with
  | nil => cases h1
  | cons e l ih =>
    rcases List.mem_cons.mp h1 with rfl | m1 <;> rcases List.mem_cons.mp h2 with e2 | m2
    · cases e2
      simp
    · obtain ⟨hk, hr⟩ := h.1.2 _ _ m2
      simp [hk.symm, hr.symm]
    · subst e2
      obtain ⟨hk, hr⟩ := h.1.2 _ _ m1
      simp [hk, hr]
    · exact ih h.2 m1 m2

theorem resolved_unique {log : List Event} (h : Hist Event.AsksOnce log) {r : ReqId} {e e' : Int}
    {res res' : Word} (h1 : .resolved r e res ∈ log) (h2 : .resolved r e' res' ∈ log) :
    e = e' ∧ res = res' := by
  induction log with
  | nil => cases h1
  | cons ev l ih =>
    rcases List.mem_cons.mp h1 with rfl | m1 <;> rcases List.mem_cons.mp h2 with e2 | m2
    · cases e2
      exact ⟨rfl, rfl⟩
    · exact absurd m2 (h.1.2 _ _)
    · subst e2
      exact absurd m1 (h.1.2 _ _)
    · exact ih h.2 m1 m2

end Gevent
