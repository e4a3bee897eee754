import Gevent.Lib.History
import Gevent.Sched.Moves
import Gevent.Sched.Core
import Gevent.Sched.Timers

/-!
# The calls of a run

Calls are numbered in the order in which they are made, and every blocked
cothread is in a call of its own that has not returned.
-/

namespace Gevent

/-- The calls an event is about. -/
def Event.ids : Event → List CallId
  | .call k _ _ | .ret k _ _ _ | .blocked _ k | .armed k _ _ | .fired k | .submitted k _
  | .fallback k => [k]
  | .handover _ k k' _ => [k, k']
  | _ => []

/-- The call that an event ends. -/
def Event.ends : Event → Option CallId
  | .ret k _ _ _ => some k
  | _ => none

/-- A call is newer than everything before it. -/
def Event.Fresh : Event → List Event → Prop
  | .call k _ _, past => ∀ e ∈ past, ∀ k' ∈ e.ids, k' < k
  | _, _ => True

/-- The calls that are under way in a frame. -/
def Frame.ids (f : Frame) : List CallId :=
  match f.caller with
  | .program => [f.call]
  | .acquire k _ | .release k _ => [f.call, k]

/-- How they were made. -/
def Frame.made (f : Frame) : List Event :=
  match f.caller with
  | .program => [.call f.call f.self f.op]
  | .acquire k m => [.call f.call f.self f.op, .call k f.self (.acquire m)]
  | .release k m => [.call f.call f.self f.op, .call k f.self (.release m)]

theorem Frame.exists_made {f : Frame} {k : CallId} (hk : k ∈ f.ids) :
    ∃ c, Event.call k f.self c ∈ f.made := by
  obtain ⟨self, call, op, pending, caller⟩ := f
  cases caller with
  | program => exact ⟨op, by simpa [ids, made] using hk⟩
  | acquire k' m =>
    rcases List.mem_cons.mp hk with rfl | h
    · exact ⟨op, by simp [made]⟩
    · exact ⟨.acquire m, by simp_all [made]⟩
  | release k' m =>
    rcases List.mem_cons.mp hk with rfl | h
    · exact ⟨op, by simp [made]⟩
    · exact ⟨.release m, by simp_all [made]⟩

theorem Frame.call_mem_ids (f : Frame) : f.call ∈ f.ids := by
  obtain ⟨self, call, op, pending, caller⟩ := f
  cases caller <;> simp [ids]

theorem Frame.call_mem_made (f : Frame) : Event.call f.call f.self f.op ∈ f.made := by
  obtain ⟨self, call, op, pending, caller⟩ := f
  cases caller <;> simp [made]

theorem call_unique {log : List Event} (h : Hist Event.Fresh log) {k : CallId} {t u : Tid}
    {c d : Call} (h1 : Event.call k t c ∈ log) (h2 : Event.call k u d ∈ log) : t = u ∧ c = d := by
  induction log with
  | nil => cases h1
  | cons e l ih =>
    rcases List.mem_cons.mp h1 with e1 | l1 <;> rcases List.mem_cons.mp h2 with e2 | l2
    · rw [← e1] at e2
      cases e2
      exact ⟨rfl, rfl⟩
    · subst e1
      exact absurd (h.1 _ l2 k (by simp [Event.ids])) (Nat.lt_irrefl k)
    · subst e2
      exact absurd (h.1 _ l1 k (by simp [Event.ids])) (Nat.lt_irrefl k)
    · exact ih h.2 l1 l2

/-- The call of a frame is the last one its cothread made, and is under way. -/
structure Frame.Open (f : Frame) (e : Env) : Prop where
  inCall : e.inCall f.self = f.call
  fits : f.Fits
  made : ∀ ev ∈ f.made, ev ∈ e.log
  unreturned : ∀ k ∈ f.ids, ∀ ev ∈ e.log, ev.ends ≠ some k

structure Calls (m : Moment) : Prop where
  bound : ∀ ev ∈ m.sched.env.log, ∀ k ∈ ev.ids, k < m.sched.env.calls
  ordered : Hist Event.Fresh m.sched.env.log
  frame : ∀ t f, m.sched.place t = .blocked f → f.Open m.sched.env

namespace Calls
variable {R : Rules} {s s' : Sched} {t u : Tid} {f : Frame} {k k' : Option (Tid × Leftover)} {i : CallId}
  {c : Call}

theorem initial (h : s.Initial) : Calls ⟨s, none⟩ where
  bound ev hev i hi := by
    rw [h.log] at hev
    rcases List.mem_pair.mp hev with rfl | rfl <;> simp [Event.ids] at hi
  ordered := by rw [h.log]; exact ⟨trivial, trivial, trivial⟩
  frame t f ht := by
    rw [h.place] at ht
    by_cases he : t = s.main <;> simp [he] at ht

/-- The first blocked sender is in a send call of the value it offers. -/
theorem sender (h : Calls ⟨s, k⟩) (queues : s.Queues) {ch : Chan} {us : List Tid}
    (first : s.queue (.senders ch) = u :: us) :
    ∃ g, s.place u = .blocked g ∧ g.pending = .send ch (s.offer u) ∧ g.call = s.env.inCall u ∧
      .call (s.env.inCall u) u (.send ch (s.offer u)) ∈ s.env.log := by
  obtain ⟨g, hg, hq⟩ := (queues.queued (.senders ch) u).mp (by simp [first])
  have o := h.frame u g hg
  have hself := queues.self u g hg
  have hg : s.place u = .blocked g := hg
  have hcall : s.env.inCall u = g.call := hself ▸ o.inCall
  have hmade : .call g.call g.self g.op ∈ s.env.log := o.made _ g.call_mem_made
  have fits := o.fits.2
  obtain ⟨self, call, op, pending, caller⟩ := g
  cases pending with
  | send ch' v =>
    cases hq
    have hoffer : s.offer u = v := by simp [Sched.offer, hg]
    obtain rfl : self = u := hself
    obtain rfl : op = .send ch v := fits
    rw [hoffer, hcall]
    exact ⟨_, hg, rfl, rfl, hmade⟩
  | _ => cases hq

/-- The first blocked receiver is in a receive call. -/
theorem receiver (h : Calls ⟨s, k⟩) (queues : s.Queues) {ch : Chan} {us : List Tid}
    (first : s.queue (.receivers ch) = u :: us) :
    ∃ g, s.place u = .blocked g ∧ g.pending = .receive ch ∧ g.call = s.env.inCall u ∧
      .call (s.env.inCall u) u (.receive ch) ∈ s.env.log := by
  obtain ⟨g, hg, hq⟩ := (queues.queued (.receivers ch) u).mp (by simp [first])
  have o := h.frame u g hg
  have hself := queues.self u g hg
  have hcall : s.env.inCall u = g.call := hself ▸ o.inCall
  have hmade : .call g.call g.self g.op ∈ s.env.log := o.made _ g.call_mem_made
  have fits := o.fits.2
  obtain ⟨self, call, op, pending, caller⟩ := g
  cases pending with
  | receive ch' =>
    cases hq
    obtain rfl : self = u := hself
    obtain rfl : op = .receive ch := fits
    rw [hcall]
    exact ⟨_, hg, rfl, rfl, hmade⟩
  | _ => cases hq

/-- Events that make no call extend the history; blocked cothreads stay in their calls. -/
theorem extend (h : Calls ⟨s, k⟩) (es : List Event) (hlog : s'.env.log = es ++ s.env.log)
    (hcalls : s'.env.calls = s.env.calls) (hin : s'.env.inCall = s.env.inCall)
    (bound : ∀ ev ∈ es, ∀ i ∈ ev.ids, i < s.env.calls) (fresh : ∀ ev ∈ es, ∀ l, ev.Fresh l)
    (frame : ∀ t f, s'.place t = .blocked f → f.Open s.env ∧
      ∀ i ∈ f.ids, ∀ ev ∈ es, ev.ends ≠ some i) : Calls ⟨s', k'⟩ where
  bound ev hev i hi := by
    rw [hlog] at hev
    rw [hcalls]
    rcases List.mem_append.mp hev with hev | hev
    · exact bound ev hev i hi
    · exact h.bound ev hev i hi
  ordered := by
    rw [hlog]
    exact h.ordered.extend fresh
  frame t f ht := by
    obtain ⟨o, hend⟩ := frame t f ht
    refine ⟨by rw [hin]; exact o.inCall, o.fits, ?_, ?_⟩
    · intro ev hev
      rw [hlog]
      exact List.mem_append_right _ (o.made ev hev)
    · intro i hi ev hev
      rw [hlog] at hev
      rcases List.mem_append.mp hev with hev | hev
      · exact hend i hi ev hev
      · exact o.unreturned i hi ev hev

/-- Events that end no call, while nobody enters or leaves a call. -/
theorem quiet (h : Calls ⟨s, k⟩) (es : List Event) (hlog : s'.env.log = es ++ s.env.log)
    (hcalls : s'.env.calls = s.env.calls) (hin : s'.env.inCall = s.env.inCall)
    (bound : ∀ ev ∈ es, ∀ i ∈ ev.ids, i < s.env.calls) (fresh : ∀ ev ∈ es, ∀ l, ev.Fresh l)
    (ends : ∀ ev ∈ es, ev.ends = none)
    (frame : ∀ t f, s'.place t = .blocked f → s.place t = .blocked f ∨ f.Open s.env) :
    Calls ⟨s', k'⟩ :=
  h.extend es hlog hcalls hin bound fresh fun t f ht =>
    ⟨(frame t f ht).elim (h.frame t f) id, fun i _ ev hev => by rw [ends ev hev]; simp⟩

/-- The calls under way in different cothreads are different. -/
theorem ids_ne (h : Calls ⟨s, k⟩) (ht : s.place t = .blocked f) (hself : f.self = t)
    (hc : Event.call i u c ∈ s.env.log) (hne : t ≠ u) : i ∉ f.ids := by
  intro hi
  obtain ⟨d, hd⟩ := f.exists_made hi
  have := (call_unique h.ordered ((h.frame t f ht).made _ hd) hc).1
  exact hne (hself ▸ this)

theorem called_lt (h : Calls ⟨s, k⟩) (hc : Event.call i u c ∈ s.env.log) : i < s.env.calls :=
  h.bound _ hc i (by simp [Event.ids])

/-- A call just made has not returned. -/
theorem entered_open (h : Calls ⟨s, k⟩) (e : s.Entered R f) : f.Open s.env := by
  obtain ⟨l, hl⟩ := e.log
  have ho : Hist Event.Fresh s.env.log := h.ordered
  rw [hl] at ho
  have hnew : ∀ ev ∈ l, ev.ends ≠ some f.call := by
    intro ev hev he
    have : f.call ∈ ev.ids := by
      cases ev <;> simp_all [Event.ends, Event.ids]
    exact absurd (ho.1 ev hev _ this) (Nat.lt_irrefl _)
  have hout : ∀ i ∈ f.ids, i = f.call ∨ ∃ c l', l = .call i f.self c :: l' := by
    intro i hi
    have outer := e.outer
    obtain ⟨self, call, op, pending, caller⟩ := f
    cases caller with
    | program => exact .inl (by simpa [Frame.ids] using hi)
    | acquire j m =>
      obtain ⟨l', hl'⟩ := outer
      rcases List.mem_cons.mp hi with h | h
      · exact .inl h
      · rw [hl] at hl'
        rw [List.mem_singleton.mp h]
        exact .inr ⟨_, l', (List.cons.inj hl').2⟩
    | release j m =>
      obtain ⟨l', hl'⟩ := outer
      rcases List.mem_cons.mp hi with h | h
      · exact .inl h
      · rw [hl] at hl'
        rw [List.mem_singleton.mp h]
        exact .inr ⟨_, l', (List.cons.inj hl').2⟩
  refine ⟨e.inCall, e.fits, ?_, ?_⟩
  · intro ev hev
    rw [hl]
    have outer := e.outer
    obtain ⟨self, call, op, pending, caller⟩ := f
    cases caller with
    | program => exact List.mem_cons.mpr (.inl (by simpa [Frame.made] using hev))
    | acquire j m =>
      obtain ⟨l', hl'⟩ := outer
      rw [hl] at hl'
      rw [(List.cons.inj hl').2]
      simp only [Frame.made] at hev
      grind
    | release j m =>
      obtain ⟨l', hl'⟩ := outer
      rw [hl] at hl'
      rw [(List.cons.inj hl').2]
      simp only [Frame.made] at hev
      grind
  · intro i hi ev hev
    rw [hl] at hev
    rcases List.mem_cons.mp hev with rfl | hev
    · simp [Event.ends]
    · rcases hout i hi with rfl | ⟨c, l', rfl⟩
      · exact hnew ev hev
      · rcases List.mem_cons.mp hev with rfl | hev
        · simp [Event.ends]
        · intro he
          have : i ∈ ev.ids := by
            cases ev <;> simp_all [Event.ends, Event.ids]
          exact absurd (ho.2.1 ev hev _ this) (Nat.lt_irrefl _)

/-- A call of the running cothread returns. -/
theorem leave (h : Calls ⟨s, none⟩) (core : Core ⟨s, none⟩) (called : s.Called t i c)
    (es : List Event) (hlog : s'.env.log = es ++ s.env.log)
    (hcalls : s'.env.calls = s.env.calls) (hin : s'.env.inCall = s.env.inCall)
    (hes : ∀ ev ∈ es, (∃ r, ev = .ret i t c r) ∨ ∃ r, ev = .free r ∨ ev = .malloc r)
    (hp : s'.place = s.place) : Calls ⟨s', none⟩ := by
  obtain ⟨l, hl⟩ := called.log
  have hc : Event.call i t c ∈ s.env.log := by simp [hl]
  refine h.extend es hlog hcalls hin ?_ ?_ ?_
  · intro ev hev j hj
    rcases hes ev hev with ⟨r, rfl⟩ | ⟨r, rfl | rfl⟩
    · rw [List.mem_singleton.mp hj]
      exact h.called_lt hc
    · cases hj
    · cases hj
  · intro ev hev l
    rcases hes ev hev with ⟨r, rfl⟩ | ⟨r, rfl | rfl⟩ <;> trivial
  · intro u f hu
    rw [hp] at hu
    refine ⟨h.frame u f hu, ?_⟩
    intro j hj ev hev he
    have hne : u ≠ t := by
      rintro rfl
      rw [called.running] at hu
      cases hu
    rcases hes ev hev with ⟨r, rfl⟩ | ⟨r, rfl | rfl⟩
    · cases he
      exact h.ids_ne hu (core.queues.self u f hu) hc hne hj
    · cases he
    · cases he

/-- The running cothread blocks in the call it has just made. -/
theorem block (h : Calls ⟨s, none⟩) (e : s.Entered R f) (es : List Event)
    (hlog : s'.env.log = es ++ s.env.log) (hcalls : s'.env.calls = s.env.calls)
    (hin : s'.env.inCall = s.env.inCall)
    (bound : ∀ ev ∈ es, ∀ i ∈ ev.ids, i < s.env.calls) (fresh : ∀ ev ∈ es, ∀ l, ev.Fresh l)
    (ends : ∀ ev ∈ es, ev.ends = none)
    (hp : s'.place = Function.update s.place f.self (.blocked f)) : Calls ⟨s', k'⟩ := by
  refine h.quiet es hlog hcalls hin bound fresh ends ?_
  intro t g ht
  rw [hp] at ht
  by_cases htf : t = f.self
  · subst htf
    have hg : f = g := by simpa using ht
    exact .inr (hg ▸ h.entered_open e)
  · exact .inl (by simpa [htf] using ht)

theorem entered_lt (h : Calls ⟨s, k⟩) (e : s.Entered R f) : f.call < s.env.calls := by
  obtain ⟨l, hl⟩ := e.log
  exact h.called_lt (u := f.self) (c := f.op) (by simp [hl])

theorem blocked_lt (h : Calls ⟨s, k⟩) (hu : s.place u = .blocked f) (hself : f.self = u) :
    s.env.inCall u < s.env.calls := by
  have o := h.frame u f hu
  rw [← hself, o.inCall]
  exact h.called_lt (o.made _ f.call_mem_made)

theorem enter (h : Calls ⟨s, none⟩) (core : Core ⟨s, none⟩) (ht : s.place t = .running)
    (c : Call) : Calls ⟨s.enter t c, none⟩ where
  bound ev hev i hi := by
    rcases List.mem_cons.mp hev with rfl | hev
    · rw [List.mem_singleton.mp hi]
      exact Nat.lt_succ_self _
    · exact Nat.lt_succ_of_lt (h.bound ev hev i hi)
  ordered := ⟨h.bound, h.ordered⟩
  frame u f hu := by
    have o := h.frame u f hu
    have hself : f.self = u := core.queues.self u f hu
    have hne : f.self ≠ t := by
      rintro rfl
      rw [show s.place f.self = .blocked f by rw [hself]; exact hu] at ht
      cases ht
    refine ⟨?_, o.fits, fun ev hev => List.mem_cons_of_mem _ (o.made ev hev), ?_⟩
    · simpa [Sched.enter, Env.enter, hne] using o.inCall
    · intro i hi ev hev
      rcases List.mem_cons.mp hev with rfl | hev
      · simp [Event.ends]
      · exact o.unreturned i hi ev hev

theorem resume (h : Calls ⟨s, k⟩) (queues : s.Queues) (hu : s.place u = .blocked f)
    (x : Leftover) (died : Option Tid) : Calls ⟨s.resume u x died, none⟩ := by
  obtain ⟨tm, hs, n, he⟩ := Sched.resume_shape hu x died
  have hself := queues.self u f hu
  have o := h.frame u f hu
  have hret : ∀ r cs, ∀ ev ∈ f.returns r cs, (∀ l, ev.Fresh l) ∧
      ∃ j ∈ f.ids, ev.ends = some j ∧ ev.ids = [j] := by
    intro r cs ev hev
    obtain ⟨self, call, op, pending, caller⟩ := f
    cases caller with
    | program =>
      rw [List.mem_singleton.mp hev]
      exact ⟨fun _ => trivial, call, by simp [Frame.ids], rfl, rfl⟩
    | acquire j m | release j m =>
      rcases List.mem_pair.mp hev with rfl | rfl
      · exact ⟨fun _ => trivial, j, by simp [Frame.ids], rfl, rfl⟩
      · exact ⟨fun _ => trivial, call, by simp [Frame.ids], rfl, rfl⟩
  refine h.extend (f.returns (f.pending.result x) s.env.counter ++ s.env.switching (some u) died)
    (by rw [he]; simp) (by rw [he]) (by rw [he]) ?_ ?_ ?_
  · intro ev hev i hi
    rcases List.mem_append.mp hev with hev | hev
    · obtain ⟨-, j, hj, -, hids⟩ := hret _ _ ev hev
      rw [hids] at hi
      rw [List.mem_singleton.mp hi]
      obtain ⟨c, hc⟩ := f.exists_made hj
      exact h.called_lt (o.made _ hc)
    · rcases Env.mem_switching.mp hev with rfl | ⟨t, -, -, rfl⟩ <;> cases hi
  · intro ev hev l
    rcases List.mem_append.mp hev with hev | hev
    · exact (hret _ _ ev hev).1 l
    · rcases Env.mem_switching.mp hev with rfl | ⟨t, -, -, rfl⟩ <;> trivial
  · intro t g ht
    rw [Sched.resume_place hu] at ht
    have htu : t ≠ u := by
      rintro rfl
      simp at ht
    rw [Function.update_of_ne htu] at ht
    refine ⟨h.frame t g ht, ?_⟩
    intro i hi ev hev hend
    rcases List.mem_append.mp hev with hev | hev
    · obtain ⟨-, j, hj, hends, -⟩ := hret _ _ ev hev
      rw [hends] at hend
      cases hend
      obtain ⟨c, hc⟩ := f.exists_made hj
      exact h.ids_ne ht (queues.self t g ht) (o.made _ hc) (by rw [hself]; exact htu) hi
    · rcases Env.mem_switching.mp hev with rfl | ⟨t, -, -, rfl⟩ <;> cases hend

/-- The running cothread starts to wait on a channel. -/
theorem queueOn (h : Calls ⟨s, none⟩) (e : s.Entered R f) (q : QueueId) :
    Calls ⟨(s.emit (.blocked q f.call)).block f.self f, none⟩ := by
  have hlt := h.entered_lt e
  exact h.block e [_] (by simp [Sched.emit, Env.emit]; rfl) (by simp [Sched.emit, Env.emit])
    (by simp [Sched.emit, Env.emit]) (by simpa [Event.ids] using hlt)
    (by simp [Event.Fresh]) (by simp [Event.ends]) (by simp [Sched.emit])

/-- The running cothread hands over to its partner, or gets from it. -/
theorem meet (h : Calls ⟨s, none⟩) (core : Core ⟨s, none⟩) (e : s.Entered R f) {q : QueueId}
    {us : List Tid} {x : Leftover} (partner : s.queue q = u :: us) (ev : Event)
    (ids : ∀ i ∈ ev.ids, i = s.env.inCall u ∨ i = f.call) (fresh : ∀ l, ev.Fresh l)
    (ends : ev.ends = none) : Calls ⟨(s.block f.self f).emit ev, some (u, x)⟩ := by
  obtain ⟨g, hg, -⟩ := (core.queues.queued q u).mp (by simp [partner])
  have hu := h.blocked_lt hg (core.queues.self u g hg)
  have hlt := h.entered_lt e
  refine h.block e [ev] (by simp [Sched.emit, Env.emit]) (by simp [Sched.emit, Env.emit])
    (by simp [Sched.emit, Env.emit]) ?_ (by simpa using fresh) (by simpa using ends)
    (by simp [Sched.emit])
  intro ev' hev i hi
  rw [List.mem_singleton.mp hev] at hi
  rcases ids i hi with rfl | rfl
  · exact hu
  · exact hlt

theorem move {m m' : Moment} (h : Calls m) (core : Core m) (timers : Timers m) (hm : Move R m m') :
    Calls m' := by
  cases hm with
  | enter c running => exact h.enter core running c
  | acquireWaits called => exact h.enter core called.running _
  | releaseMeets called => exact h.enter core called.running _
  | take called free =>
    exact h.leave core called [_] rfl rfl rfl (by simp) rfl
  | give called may alone =>
    exact h.leave core called [_] rfl rfl rfl (by simp) rfl
  | @refuse s t k o called fails =>
    cases o with
    | noMemory => exact h.leave core called [_] rfl rfl rfl (by simp) rfl
    | failed => exact h.leave core called [_, _, _] rfl rfl rfl (by simp) rfl
    | submitted => exact absurd rfl fails
  | @pause s f entered kind =>
    exact h.block entered [] (by simp) (by simp) (by simp) (by simp) (by simp) (by simp) (by simp)
  | @sleep s f timeout ref entered pending nonneg kind =>
    have hlt := h.entered_lt entered
    rw [Sched.arm_eq]
    exact h.block entered [_] (by simp; rfl) (by simp) (by simp) (by simpa [Event.ids] using hlt)
      (by simp [Event.Fresh]) (by simp [Event.ends]) (by simp)
  | @lookup s f entered pending =>
    have hlt := h.entered_lt entered
    exact h.block entered [.submitted f.call s.env.nextReq, .malloc s.env.nextReq]
      (by simp [Sched.submit, Env.submit, Env.mallocReq]) (by simp [Sched.submit, Env.submit, Env.mallocReq])
      (by simp [Sched.submit, Env.submit, Env.mallocReq]) (by simpa [Event.ids] using hlt)
      (by simp [Event.Fresh]) (by simp [Event.ends]) (by simp [Sched.submit])
  | queueReceive entered | queueSend entered => exact h.queueOn entered _
  | meetSender entered op pending partner | meetReceiver entered op pending partner =>
    exact h.meet core entered partner _ (by simp [Event.ids, or_comm]) (fun _ => trivial) rfl
  | die =>
    exact h.quiet [_] rfl rfl rfl (by simp [Event.ids]) (by simp [Event.Fresh])
      (by simp [Event.ends]) fun _ _ ht =>
        .inl (Sched.blocked_of_update (fun _ => Place.noConfusion) ht)
  | pick | setExitFn | updateTime | others =>
    exact h.quiet [] rfl rfl rfl (by simp) (by simp) (by simp) fun _ _ ht => .inl ht
  | @fallback s x away ready hub reason =>
    rcases core.main with hm | ⟨f, hf⟩
    · exact absurd hm (away.nobody _)
    · have hlt := h.blocked_lt hf (core.queues.self _ f hf)
      exact h.quiet [_] rfl rfl rfl (by simpa [Event.ids] using hlt) (by simp [Event.Fresh])
        (by simp [Event.ends]) fun _ _ ht => .inl ht
  | @fire s t ts x hub control first due active f place pending =>
    have hlt : s.env.armedBy t < s.env.calls := by
      rw [(timers.sleeper t f place pending).1]
      exact h.called_lt ((h.frame t f place).made _ f.call_mem_made)
    rw [Sched.fire_eq active]
    exact h.quiet [_] rfl rfl rfl (by simpa [Event.ids] using hlt) (by simp [Event.Fresh])
      (by simp [Event.ends]) fun _ _ ht => .inl ht
  | answer =>
    exact h.quiet [_, _] rfl rfl rfl (by simp [Event.ids]) (by simp [Event.Fresh])
      (by simp [Event.ends]) fun _ _ ht => .inl ht
  | resume away place dead => exact h.resume core.queues place _ _
  | start =>
    exact h.quiet [_, _] rfl rfl rfl (by simp [Event.ids]) (by simp [Event.Fresh])
      (by simp [Event.ends]) fun _ _ ht =>
        .inl (Sched.blocked_of_update (fun _ => Place.noConfusion) ht)
  | @enterHub s died away ready dead =>
    rw [Sched.enterHub_eq]
    have hes : ∀ ev ∈ s.entryEvents ++ s.env.switching none died,
        ev.ids = [] ∧ (∀ l, ev.Fresh l) ∧ ev.ends = none := by
      intro ev hev
      rcases Sched.mem_hubEvents hev with rfl | rfl | ⟨t, -, -, rfl⟩ <;>
        exact ⟨rfl, fun _ => trivial, rfl⟩
    exact h.quiet _ (List.append_assoc ..).symm rfl rfl
      (fun ev hev i hi => by rw [(hes ev hev).1] at hi; cases hi)
      (fun ev hev => (hes ev hev).2.1) (fun ev hev => (hes ev hev).2.2) fun _ _ ht => .inl ht
  | poll | hubEnd | semInit | tick =>
    exact h.quiet [_] rfl rfl rfl (by simp [Event.ids]) (by simp [Event.Fresh])
      (by simp [Event.ends]) fun _ _ ht => .inl ht
  | drop =>
    exact h.quiet [_, _] rfl rfl rfl (by simp [Event.ids]) (by simp [Event.Fresh])
      (by simp [Event.ends]) fun _ _ ht => .inl ht
  | turn => exact h.quiet [] rfl rfl rfl (by simp) (by simp) (by simp) fun _ _ ht => .inl ht
  | init =>
    exact h.quiet [_] rfl rfl rfl (by simp [Event.ids]) (by simp [Event.Fresh])
      (by simp [Event.ends]) fun _ _ ht =>
        .inl (Sched.blocked_of_update (fun _ => Place.noConfusion) ht)

end Calls
end Gevent
