import Gevent.Sched.Calls

/-!
# Resolver requests

Every request under way belongs to the cothread blocked in the call that made
it, unless the main cothread has been resumed by the last resort of
`_get_next_stacklet` in the middle of a `gevent_getaddrinfo` (`Lost`); every
cothread blocked in `gevent_getaddrinfo` has its request under way, except while
it is being resumed.
-/

namespace Gevent

/-- The main cothread has been resumed without an answer to its request. -/
def Lost (log : List Event) : Prop :=
  ∃ k t, .fallback k ∈ log ∧ .call k t (.getaddrinfo .submitted) ∈ log

theorem Lost.mono {log log' : List Event} (h : Lost log) (hsub : ∀ ev ∈ log, ev ∈ log') :
    Lost log' := by
  obtain ⟨k, t, h1, h2⟩ := h
  exact ⟨k, t, hsub _ h1, hsub _ h2⟩

/-- Request `r` is that of the call in which `t` is blocked. -/
def Sched.Asks (s : Sched) (t : Tid) (r : ReqId) : Prop :=
  ∃ f, s.place t = .blocked f ∧ f.pending = .getaddrinfo ∧ f.call = s.env.reqBy r

structure Lookups (m : Moment) : Prop where
  fresh : ∀ r ∈ m.sched.env.loop.activeReqs, r < m.sched.env.nextReq
  nodup : m.sched.env.loop.activeReqs.Nodup
  submitted : ∀ r ∈ m.sched.env.loop.activeReqs, .submitted (m.sched.env.reqBy r) r ∈ m.sched.env.log
  owner : ∀ r ∈ m.sched.env.loop.activeReqs, ∃ t, m.sched.env.reqData r = some t ∧
    (m.sched.Asks t r ∨ t = m.sched.main ∧ Lost m.sched.env.log)
  requester : ∀ t f, m.sched.place t = .blocked f → f.pending = .getaddrinfo →
    (∃ r ∈ m.sched.env.loop.activeReqs, m.sched.env.reqBy r = f.call ∧
      m.sched.env.reqData r = some t) ∨ ∃ x, m.waking = some (t, x)
  once : ∀ r ∈ m.sched.env.loop.activeReqs, ∀ r' ∈ m.sched.env.loop.activeReqs,
    m.sched.env.reqBy r = m.sched.env.reqBy r' → r = r'
  woken : ∀ u x f, m.waking = some (u, x) → m.sched.place u = .blocked f →
    f.pending = .getaddrinfo → ∀ r ∈ m.sched.env.loop.activeReqs,
    m.sched.env.reqData r = some u → u = m.sched.main ∧ Lost m.sched.env.log

namespace Lookups
variable {R : Rules} {s s' : Sched} {t u : Tid} {f : Frame} {k k' : Option (Tid × Leftover)} {r : ReqId}

theorem initial (h : s.Initial) : Lookups ⟨s, none⟩ where
  fresh r hr := by simp [h.activeReqs] at hr
  nodup := by simp [h.activeReqs]
  submitted r hr := by simp [h.activeReqs] at hr
  owner r hr := by simp [h.activeReqs] at hr
  requester t f ht := by
    rw [h.place] at ht
    by_cases he : t = s.main <;> simp [he] at ht
  once r hr := by simp [h.activeReqs] at hr
  woken u x f hw := by cases hw

/-- The parts of the environment that say which requests are under way. -/
structure SameRequests (e e' : Env) : Prop where
  active : e'.loop.activeReqs = e.loop.activeReqs
  data : e'.reqData = e.reqData
  by' : e'.reqBy = e.reqBy
  next : e.nextReq ≤ e'.nextReq
  log : ∀ ev ∈ e.log, ev ∈ e'.log

/-- Nothing happens to requests, and nobody enters or leaves `gevent_getaddrinfo`. -/
theorem congr (h : Lookups ⟨s, none⟩) (e : SameRequests s.env s'.env) (hm : s'.main = s.main)
    (hp : ∀ t f, f.pending = .getaddrinfo → (s'.place t = .blocked f ↔ s.place t = .blocked f))
    (hk : ∀ u x f, k' = some (u, x) → s'.place u = .blocked f → f.pending = .getaddrinfo →
      u = s.main ∧ Lost s'.env.log) : Lookups ⟨s', k'⟩ where
  fresh r hr := by
    rw [e.active] at hr
    exact Nat.lt_of_lt_of_le (h.fresh r hr) e.next
  nodup := by rw [e.active]; exact h.nodup
  submitted r hr := by
    rw [e.active] at hr
    rw [e.by']
    exact e.log _ (h.submitted r hr)
  owner r hr := by
    rw [e.active] at hr
    obtain ⟨t, hd, ho⟩ := h.owner r hr
    refine ⟨t, by rw [e.data]; exact hd, ho.imp ?_ ?_⟩
    · rintro ⟨f, hf, hg, hc⟩
      exact ⟨f, (hp t f hg).mpr hf, hg, by rw [e.by']; exact hc⟩
    · rintro ⟨rfl, hl⟩
      exact ⟨hm.symm, hl.mono e.log⟩
  requester t f ht hf := by
    rw [e.active, e.by', e.data]
    exact .inl ((h.requester t f ((hp t f hf).mp ht) hf).resolve_right fun ⟨x, hx⟩ => by cases hx)
  once := by rw [e.active, e.by']; exact h.once
  woken u x f hw hu hf r _ _ := by
    rw [hm]
    exact hk u x f hw hu hf

/-- The same while nobody is chosen to continue. -/
theorem still (h : Lookups ⟨s, none⟩) (e : SameRequests s.env s'.env) (hm : s'.main = s.main)
    (hp : ∀ t f, f.pending = .getaddrinfo → (s'.place t = .blocked f ↔ s.place t = .blocked f)) :
    Lookups ⟨s', none⟩ :=
  h.congr e hm hp fun _ _ _ hw => by cases hw

/-- A cothread in no lookup changes its place for another such place. -/
theorem place_iff {p : Place} (ht : ∀ f, s.place t = .blocked f → f.pending ≠ .getaddrinfo)
    (hp : ∀ f, p = .blocked f → f.pending ≠ .getaddrinfo)
    (hs : s'.place = Function.update s.place t p) (u : Tid) (f : Frame)
    (hf : f.pending = .getaddrinfo) : s'.place u = .blocked f ↔ s.place u = .blocked f := by
  rw [hs]
  by_cases hu : u = t
  · subst hu
    simp only [Function.update_self]
    exact ⟨fun h => absurd hf (hp f h), fun h => absurd hf (ht f h)⟩
  · simp [hu]

/-- The fields, read at a given state. -/
theorem owner_at (h : Lookups ⟨s, k⟩) (hr : r ∈ s.env.loop.activeReqs) :
    ∃ t, s.env.reqData r = some t ∧ (s.Asks t r ∨ t = s.main ∧ Lost s.env.log) := h.owner r hr

theorem requester_at (h : Lookups ⟨s, none⟩) (ht : s.place t = .blocked f)
    (hf : f.pending = .getaddrinfo) :
    ∃ r ∈ s.env.loop.activeReqs, s.env.reqBy r = f.call ∧ s.env.reqData r = some t :=
  (h.requester t f ht hf).resolve_right fun ⟨x, hx⟩ => by cases hx

/-- The running cothread blocks in a lookup of its own. -/
theorem submit (h : Lookups ⟨s, none⟩) (calls : Calls ⟨s, none⟩) (e : s.Entered R f)
    (hf : f.pending = .getaddrinfo) (hm : s'.main = s.main)
    (hp : s'.place = Function.update s.place f.self (.blocked f))
    (active : s'.env.loop.activeReqs = s.env.loop.activeReqs ++ [s.env.nextReq])
    (data : s'.env.reqData = Function.update s.env.reqData s.env.nextReq (some f.self))
    (by' : s'.env.reqBy = Function.update s.env.reqBy s.env.nextReq f.call)
    (next : s'.env.nextReq = s.env.nextReq + 1)
    (log : s'.env.log = .submitted f.call s.env.nextReq :: .malloc s.env.nextReq :: s.env.log) :
    Lookups ⟨s', none⟩ := by
  have hne : ∀ r ∈ s.env.loop.activeReqs, r ≠ s.env.nextReq := by
    rintro r hr rfl
    exact Nat.lt_irrefl _ (h.fresh _ hr)
  have hcall : ∀ r ∈ s.env.loop.activeReqs, s.env.reqBy r ≠ f.call := by
    intro r hr he
    obtain ⟨l, hl⟩ := e.log
    have hs := h.submitted r hr
    have ho : Hist Event.Fresh s.env.log := calls.ordered
    simp only [hl] at hs ho
    have hmem := (List.mem_cons.mp hs).resolve_left (by simp)
    exact Nat.lt_irrefl _ (ho.1 _ hmem f.call (by simp [Event.ids, he]))
  have hmem : ∀ r, r ∈ s'.env.loop.activeReqs ↔ r ∈ s.env.loop.activeReqs ∨ r = s.env.nextReq := by
    intro r
    simp [active]
  have hlog : ∀ ev ∈ s.env.log, ev ∈ s'.env.log := by
    intro ev hev
    simp [log, hev]
  have hby : ∀ r ∈ s.env.loop.activeReqs, s'.env.reqBy r = s.env.reqBy r := fun r hr => by
    rw [by', Function.update_of_ne (hne r hr)]
  have hdata : ∀ r ∈ s.env.loop.activeReqs, s'.env.reqData r = s.env.reqData r := fun r hr => by
    rw [data, Function.update_of_ne (hne r hr)]
  have hbyNew : s'.env.reqBy s.env.nextReq = f.call := by rw [by', Function.update_self]
  have hdataNew : s'.env.reqData s.env.nextReq = some f.self := by rw [data, Function.update_self]
  refine ⟨?_, ?_, ?_, ?_, ?_, ?_, fun _ _ _ hw => by cases hw⟩
  · intro r hr
    rw [next]
    rcases (hmem r).mp hr with hr | rfl
    · exact Nat.lt_succ_of_lt (h.fresh r hr)
    · exact Nat.lt_succ_self _
  · rw [active]
    refine List.nodup_append.mpr ⟨h.nodup, by simp, ?_⟩
    intro a ha b hb
    rw [List.mem_singleton.mp hb]
    exact hne a ha
  · intro r hr
    rcases (hmem r).mp hr with hr | rfl
    · rw [hby r hr]
      exact hlog _ (h.submitted r hr)
    · rw [hbyNew, log]
      exact List.mem_cons_self
  · intro r hr
    rcases (hmem r).mp hr with hr | rfl
    · obtain ⟨t, hd, ho⟩ := h.owner_at hr
      refine ⟨t, (hdata r hr).trans hd, ho.imp ?_ ?_⟩
      · rintro ⟨g, hg, hgp, hgc⟩
        have htf : t ≠ f.self := by
          rintro rfl
          rw [e.running] at hg
          cases hg
        exact ⟨g, by rw [hp, Function.update_of_ne htf]; exact hg, hgp, by rw [hby r hr]; exact hgc⟩
      · rintro ⟨rfl, hl⟩
        exact ⟨hm.symm, hl.mono hlog⟩
    · exact ⟨f.self, hdataNew, .inl ⟨f, by rw [hp, Function.update_self], hf, hbyNew.symm⟩⟩
  · intro t g ht hg
    left
    rw [hp] at ht
    by_cases htf : t = f.self
    · subst htf
      have hfg : f = g := by simpa using ht
      subst hfg
      exact ⟨s.env.nextReq, (hmem _).mpr (.inr rfl), hbyNew, hdataNew⟩
    · rw [Function.update_of_ne htf] at ht
      obtain ⟨r, hr, hb, hd⟩ := h.requester_at ht hg
      exact ⟨r, (hmem r).mpr (.inl hr), (hby r hr).trans hb, (hdata r hr).trans hd⟩
  · intro r hr r' hr' heq
    rcases (hmem r).mp hr with h1 | rfl <;> rcases (hmem r').mp hr' with h2 | rfl
    · rw [hby r h1, hby r' h2] at heq
      exact h.once r h1 r' h2 heq
    · rw [hby r h1, hbyNew] at heq
      exact absurd heq (hcall r h1)
    · rw [hby r' h2, hbyNew] at heq
      exact absurd heq.symm (hcall r' h2)
    · rfl

theorem answer (h : Lookups ⟨s, none⟩) (hr : r ∈ s.env.loop.activeReqs)
    (hd : s.env.reqData r = some t) (error : Int) (res : Word) (x : Leftover) (hub : HubPlace) :
    Lookups ⟨{ s.complete r error res with hub := hub }, some (t, x)⟩ := by
  have hmem : ∀ r', r' ∈ s.env.loop.activeReqs.erase r ↔ r' ≠ r ∧ r' ∈ s.env.loop.activeReqs :=
    fun r' => h.nodup.mem_erase_iff
  have hlog : ∀ ev ∈ s.env.log, ev ∈ (s.env.complete r error res).log := by
    intro ev hev
    simp [Env.complete, hev]
  refine ⟨?_, h.nodup.erase r, ?_, ?_, ?_, ?_, ?_⟩
  · intro r' hr'
    exact h.fresh r' ((hmem r').mp hr').2
  · intro r' hr'
    exact hlog _ (h.submitted r' ((hmem r').mp hr').2)
  · intro r' hr'
    obtain ⟨u, hu, ho⟩ := h.owner_at ((hmem r').mp hr').2
    exact ⟨u, hu, ho.imp id fun ⟨h1, h2⟩ => ⟨h1, h2.mono hlog⟩⟩
  · intro u f hu hf
    by_cases hut : u = t
    · exact .inr ⟨x, by rw [hut]⟩
    · obtain ⟨r', hr', hb, hd'⟩ := h.requester_at hu hf
      refine .inl ⟨r', (hmem r').mpr ⟨?_, hr'⟩, hb, hd'⟩
      rintro rfl
      rw [hd] at hd'
      exact hut (Option.some.inj hd').symm
  · intro r₁ h₁ r₂ h₂ heq
    exact h.once r₁ ((hmem r₁).mp h₁).2 r₂ ((hmem r₂).mp h₂).2 heq
  · rintro u y f ⟨⟩ hu hf r' hr' hd'
    obtain ⟨hne, hr'⟩ := (hmem r').mp hr'
    have hd' : s.env.reqData r' = some t := hd'
    obtain ⟨v, hv, ho⟩ := h.owner_at hr
    obtain ⟨v', hv', ho'⟩ := h.owner_at hr'
    rw [hd] at hv
    rw [hd'] at hv'
    cases hv
    cases hv'
    rcases ho with ⟨g, hg, -, hgc⟩ | ⟨hm, hl⟩
    · rcases ho' with ⟨g', hg', -, hgc'⟩ | ⟨hm, hl⟩
      · rw [hg] at hg'
        cases hg'
        exact absurd (h.once r' hr' r hr (hgc'.symm.trans hgc)) hne
      · exact ⟨hm, hl.mono hlog⟩
    · exact ⟨hm, hl.mono hlog⟩

theorem resume (h : Lookups ⟨s, some (u, y)⟩) (hu : s.place u = .blocked f) (x : Leftover)
    (died : Option Tid) : Lookups ⟨s.resume u x died, none⟩ := by
  obtain ⟨tm, hs, n, he⟩ := Sched.resume_shape hu x died
  have hlog : ∀ ev ∈ s.env.log, ev ∈ (s.resume u x died).env.log := by
    intro ev hev
    rw [he]
    exact List.mem_append_right _ (List.mem_append_right _ hev)
  have hmain := Sched.resume_main hu x died
  have hplace : ∀ t, t ≠ u → (s.resume u x died).place t = s.place t := fun t ht => by
    rw [Sched.resume_place hu, Function.update_of_ne ht]
  refine ⟨by rw [he]; exact h.fresh, by rw [he]; exact h.nodup, ?_, ?_, ?_, by rw [he]; exact h.once,
    fun _ _ _ hw => by cases hw⟩
  · intro r hr
    have hr' : r ∈ s.env.loop.activeReqs := by simpa [he] using hr
    have hb : (s.resume u x died).env.reqBy = s.env.reqBy := by rw [he]
    rw [hb]
    exact hlog _ (h.submitted r hr')
  · intro r hr
    have hr' : r ∈ s.env.loop.activeReqs := by simpa [he] using hr
    obtain ⟨t, hd, ho⟩ := h.owner_at hr'
    have hb : (s.resume u x died).env.reqBy = s.env.reqBy := by rw [he]
    refine ⟨t, by rw [he]; exact hd, ?_⟩
    rw [hmain]
    rcases ho with ⟨g, hg, hgp, hgc⟩ | ⟨hm, hl⟩
    · by_cases htu : t = u
      · subst htu
        rw [hu] at hg
        cases hg
        obtain ⟨hm, hl⟩ := h.woken t y f rfl hu hgp r hr' hd
        exact .inr ⟨hm, hl.mono hlog⟩
      · exact .inl ⟨g, by rw [hplace t htu]; exact hg, hgp, by rw [hb]; exact hgc⟩
    · exact .inr ⟨hm, hl.mono hlog⟩
  · intro t g ht hg
    have htu : t ≠ u := by
      rintro rfl
      rw [Sched.resume_place hu] at ht
      simp at ht
    rw [hplace t htu] at ht
    rw [he]
    refine (h.requester t g ht hg).imp id ?_
    rintro ⟨z, hz⟩
    exact absurd (congrArg Prod.fst (Option.some.inj hz)).symm htu

/-- A cothread found in a queue is in no lookup. -/
theorem queue_ne {p : Pending} {q : QueueId} (h : p.queue = some q) : p ≠ .getaddrinfo := by
  rintro rfl
  cases h

/-- The history grows and the rest stays. -/
theorem SameRequests.log_of {e e' : Env} (es : List Event) (hlog : e'.log = es ++ e.log)
    (active : e'.loop.activeReqs = e.loop.activeReqs) (data : e'.reqData = e.reqData)
    (by' : e'.reqBy = e.reqBy) (next : e.nextReq ≤ e'.nextReq) : SameRequests e e' :=
  ⟨active, data, by', next, fun ev hev => by rw [hlog]; exact List.mem_append_right _ hev⟩

/-- Nothing happens to requests, and the cothread that is chosen is in no lookup. -/
theorem choose {x : Leftover} (h : Lookups ⟨s, none⟩) (e : SameRequests s.env s'.env)
    (hm : s'.main = s.main)
    (hp : ∀ t f, f.pending = .getaddrinfo → (s'.place t = .blocked f ↔ s.place t = .blocked f))
    (hu : s'.place u = .blocked f) (hf : f.pending ≠ .getaddrinfo) :
    Lookups ⟨s', some (u, x)⟩ :=
  h.congr e hm hp fun u' x' f' hw hu' asks =>
    absurd asks (Sched.chosen (P := fun f => f.pending ≠ .getaddrinfo) hu hf u' x' f' hw hu')

/-- The running cothread blocks in another call. -/
theorem block {e : Env} (h : Lookups ⟨s, none⟩) (ht : s.place t = .running)
    (hf : f.pending ≠ .getaddrinfo) (same : SameRequests s.env e) :
    Lookups ⟨({ s with env := e } : Sched).block t f, none⟩ := by
  refine h.still (by simpa using same) (by simp) fun u g hg => ?_
  exact place_iff (by simp [ht]) (by simpa using hf) (Sched.block_place ..) u g hg

/-- The running cothread blocks, and passes the channel to its partner. -/
theorem meet {q : QueueId} {us : List Tid} {x : Leftover} (h : Lookups ⟨s, none⟩)
    (core : Core ⟨s, none⟩) (ht : s.place t = .running) (hf : f.pending ≠ .getaddrinfo)
    (first : s.queue q = u :: us) (ev : Event) :
    Lookups ⟨(s.block t f).emit ev, some (u, x)⟩ := by
  obtain ⟨g, hg, hq, hut⟩ := core.partner ht first
  have place : ((s.block t f).emit ev).place = Function.update s.place t (.blocked f) :=
    Sched.block_place s t f
  have partner : ((s.block t f).emit ev).place u = .blocked g := by
    rw [place, Function.update_of_ne hut, hg]
  have same : SameRequests s.env ((s.block t f).emit ev).env := by
    refine .log_of [ev] ?_ ?_ ?_ ?_ ?_ <;> simp [Sched.emit, Env.emit]
  refine h.choose same (by simp [Sched.emit]) (fun u g hg => ?_) partner (queue_ne hq)
  exact place_iff (by simp [ht]) (by simpa using hf) place u g hg

/-- The main cothread is resumed as a last resort: if it asks, its request is lost. -/
theorem fallback {x : Leftover} (h : Lookups ⟨s, none⟩) (core : Core ⟨s, none⟩)
    (calls : Calls ⟨s, none⟩) :
    Lookups ⟨s.emit (.fallback (s.env.inCall s.main)), some (s.main, x)⟩ := by
  refine h.congr (.log_of [_] rfl rfl rfl rfl (Nat.le_refl _)) rfl (fun _ _ _ => Iff.rfl) ?_
  rintro _ _ f ⟨⟩ hu hf
  have hself : f.self = s.main := core.queues.self _ f hu
  have o := calls.frame _ f hu
  have hop : f.op = .getaddrinfo .submitted := by
    have := o.fits.2
    rwa [hf] at this
  refine ⟨rfl, f.call, s.main, ?_, ?_⟩
  · rw [← o.inCall, hself]
    exact List.mem_cons_self
  · have hmade := o.made _ f.call_mem_made
    rw [hself, hop] at hmade
    exact List.mem_cons_of_mem _ hmade

theorem move {m m' : Moment} (h : Lookups m) (core : Core m) (calls : Calls m)
    (hm : Move R m m') : Lookups m' := by
  have same : ∀ (s : Sched) (t : Tid) (f : Frame), f.pending = .getaddrinfo →
      (s.place t = .blocked f ↔ s.place t = .blocked f) := fun _ _ _ _ => Iff.rfl
  cases hm with
  | enter | acquireWaits | releaseMeets | take | give | semInit | tick | poll | hubEnd =>
    exact h.still (.log_of [_] rfl rfl rfl rfl (Nat.le_refl _)) rfl (same _)
  | setExitFn | updateTime | others | turn =>
    exact h.still (.log_of [] rfl rfl rfl rfl (Nat.le_refl _)) rfl (same _)
  | @refuse s t k o called fails =>
    cases o with
    | noMemory => exact h.still (.log_of [_] rfl rfl rfl rfl (Nat.le_refl _)) rfl (same _)
    | failed => exact h.still (.log_of [_, _, _] rfl rfl rfl rfl (Nat.le_succ _)) rfl (same _)
    | submitted => exact absurd rfl fails
  | @pause s f entered kind =>
    refine h.block (e := s.env) entered.running ?_ (.log_of [] rfl rfl rfl rfl (Nat.le_refl _))
    rcases kind with hf | hf <;> simp [hf]
  | @sleep s f timeout ref entered pending nonneg kind =>
    rw [Sched.arm_eq]
    exact h.block entered.running (by simp [pending]) (.log_of [_] rfl rfl rfl rfl (Nat.le_refl _))
  | @lookup s f entered pending =>
    refine h.submit calls entered pending ?_ ?_ ?_ ?_ ?_ ?_ ?_ <;>
      simp [Sched.submit, Env.submit, Env.mallocReq]
  | queueReceive entered pending | queueSend entered pending =>
    exact h.block entered.running (by simp [pending]) (.log_of [_] rfl rfl rfl rfl (Nat.le_refl _))
  | meetSender entered op pending partner | meetReceiver entered op pending partner =>
    exact h.meet core entered.running (by simp [pending]) partner _
  | @die s t running main =>
    exact h.still (.log_of [.finish t] rfl rfl rfl rfl (Nat.le_refl _)) rfl
      (place_iff (p := .dead) (by simp [running]) (by simp) rfl)
  | @pick s u us x away first =>
    obtain ⟨g, hg, hgq⟩ := (core.queues.queued .ready u).mp (by simp [first])
    exact h.choose (.log_of [] rfl rfl rfl rfl (Nat.le_refl _)) rfl (same _) hg (queue_ne hgq)
  | fallback => exact h.fallback core calls
  | @fire s t ts x hub control first due active f place pending =>
    rw [Sched.fire_eq active]
    exact h.choose (.log_of [_] rfl rfl rfl rfl (Nat.le_refl _)) rfl (same _) place
      (by simp [pending])
  | @answer s r error res my x hub control active data f place pending =>
    exact h.answer active data error res _ _
  | resume away place dead => exact h.resume place _ _
  | @start s u away new =>
    exact h.still (.log_of [.start u, .switched (some u)] rfl rfl rfl rfl (Nat.le_refl _)) rfl
      (place_iff (p := .running) (by simp [new]) (by simp) rfl)
  | @enterHub s died away ready dead =>
    rw [Sched.enterHub_eq]
    exact h.still (.log_of _ (List.append_assoc ..).symm rfl rfl rfl (Nat.le_refl _)) rfl (same _)
  | @drop s r error res hub active data =>
    obtain ⟨t, hd, -⟩ := h.owner_at active
    rw [data] at hd
    cases hd
  | @init s t main free =>
    refine h.still (.log_of [.init t] rfl rfl rfl rfl (Nat.le_refl _)) rfl
      (place_iff (p := .new) ?_ (by simp) rfl)
    rcases free with hp | hp | hp <;> simp [hp]

end Lookups
end Gevent
