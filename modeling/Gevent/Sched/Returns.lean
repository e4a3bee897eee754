import Gevent.Sched.Path

/-!
# Why calls return

A call that gave up control returns because what it waited for has happened
(`Served`), or because `_get_next_stacklet` fell back on the main cothread; and
that only happens right after a cothread or the loop has ended.
-/

namespace Gevent

/-- What call `k` asked for has happened, and `r` is what it should return. -/
def Served (k : CallId) (r : Result) (log : List Event) : Call → Prop
  | .receive ch => ∃ k' v, .handover ch k' k v ∈ log ∧ r = .value v
  | .send ch v => ∃ k', .handover ch k k' v ∈ log
  | .sleep _ => .fired k ∈ log
  | .wait timeout => 0 < timeout ∧ .fired k ∈ log
  | .getaddrinfo .submitted => ∃ q error res, .submitted k q ∈ log ∧ .resolved q error res ∈ log ∧
      r = .addrinfo (.data error) (if error = 0 then some res else none)
  | _ => True

theorem Served.mono {k : CallId} {r : Result} {log log' : List Event} {c : Call}
    (h : Served k r log c) (sub : ∀ ev ∈ log, ev ∈ log') : Served k r log' c := by
  cases c with
  | receive ch =>
    obtain ⟨k', v, hh, hr⟩ := h
    exact ⟨k', v, sub _ hh, hr⟩
  | send ch v =>
    obtain ⟨k', hh⟩ := h
    exact ⟨k', sub _ hh⟩
  | sleep d => exact sub _ h
  | wait d => exact ⟨h.1, sub _ h.2⟩
  | getaddrinfo o =>
    cases o with
    | submitted =>
      obtain ⟨q, error, res, h1, h2, h3⟩ := h
      exact ⟨q, error, res, sub _ h1, sub _ h2, h3⟩
    | noMemory | failed => trivial
  | spawn | acquire | release => trivial

/-- Returns of calls and resorts to the main cothread are in order. -/
def Event.Returns (main : Tid) : Event → List Event → Prop
  | .ret k t c r, past => .call k t c ∈ past ∧
      (Served k r past c ∨ .fallback k ∈ past ∨
        c = .getaddrinfo .submitted ∧ t = main ∧ Lost past)
  | .fallback k, past => (∃ c, .call k main c ∈ past) ∧
      ((∃ t l, past = .finish t :: l) ∨ (∃ l, past = .runEnd :: l) ∧
        ∀ t c, .call k t c ∈ past → (∀ d, c ≠ .sleep d) ∧ c ≠ .getaddrinfo .submitted)
  | _, _ => True

/-- What the blocked call waits for has happened, and `x` is what it finds. -/
def Frame.Done (f : Frame) (x : Leftover) (log : List Event) : Prop :=
  match f.pending with
  | .spawn => True
  | .sleep => .fired f.call ∈ log
  | .wait => False
  | .receive ch => ∃ k, .handover ch k f.call x.third ∈ log
  | .received v => ∃ ch k, f.op = .receive ch ∧ .handover ch k f.call v ∈ log
  | .send ch v => ∃ k, .handover ch f.call k v ∈ log
  | .sent => ∃ ch v k, f.op = .send ch v ∧ .handover ch f.call k v ∈ log
  | .getaddrinfo => ∃ q error, .submitted f.call q ∈ log ∧ .resolved q error x.second ∈ log ∧
      x.third = .data error

namespace Frame
variable {f : Frame} {x : Leftover} {log log' : List Event}

theorem Done.mono (h : f.Done x log) (sub : ∀ ev ∈ log, ev ∈ log') : f.Done x log' := by
  obtain ⟨self, call, op, pending, caller⟩ := f
  cases pending with
  | spawn => trivial
  | sleep => exact sub _ h
  | wait => exact h
  | receive ch =>
    obtain ⟨k, hk⟩ := h
    exact ⟨k, sub _ hk⟩
  | received v =>
    obtain ⟨ch, k, hop, hk⟩ := h
    exact ⟨ch, k, hop, sub _ hk⟩
  | send ch v =>
    obtain ⟨k, hk⟩ := h
    exact ⟨k, sub _ hk⟩
  | sent =>
    obtain ⟨ch, v, k, hop, hk⟩ := h
    exact ⟨ch, v, k, hop, sub _ hk⟩
  | getaddrinfo =>
    obtain ⟨q, error, h1, h2, h3⟩ := h
    exact ⟨q, error, sub _ h1, sub _ h2, h3⟩

/-- The call then returns what it should. -/
theorem Done.served (h : f.Done x log) (fits : f.Fits) :
    Served f.call (f.pending.result x) log f.op := by
  obtain ⟨self, call, op, pending, caller⟩ := f
  have hop := fits.2
  cases pending with
  | spawn =>
    obtain ⟨u, rfl⟩ := hop
    trivial
  | sleep =>
    rcases hop with ⟨d, rfl⟩ | ⟨d, hd, rfl⟩
    · exact h
    · exact ⟨hd, h⟩
  | wait => exact h.elim
  | receive ch =>
    obtain ⟨k, hk⟩ := h
    cases hop
    exact ⟨k, _, hk, rfl⟩
  | received v =>
    obtain ⟨ch, k, hc, hk⟩ := h
    cases hc
    exact ⟨k, v, hk, rfl⟩
  | send ch v =>
    obtain ⟨k, hk⟩ := h
    cases hop
    exact ⟨k, hk⟩
  | sent =>
    obtain ⟨ch, v, k, hc, hk⟩ := h
    cases hc
    exact ⟨k, hk⟩
  | getaddrinfo =>
    obtain ⟨q, error, h1, h2, h3⟩ := h
    cases hop
    refine ⟨q, error, x.second, h1, h2, ?_⟩
    simp only [Pending.result, h3, Word.null, Word.data.injEq]

end Frame

structure Returns (m : Moment) : Prop where
  held : ∀ t f x, m.sched.place t = .blocked f → f.pending.queue = some .ready →
    f.Done x m.sched.env.log
  woken : ∀ u x f, m.waking = some (u, x) → m.sched.place u = .blocked f →
    f.Done x m.sched.env.log ∨ .fallback f.call ∈ m.sched.env.log ∨
      f.pending = .getaddrinfo ∧ u = m.sched.main ∧ Lost m.sched.env.log
  ordered : Hist (Event.Returns m.sched.main) m.sched.env.log

namespace Returns
variable {R : Rules} {s s' : Sched} {t u : Tid} {f : Frame} {k k' : Option (Tid × Leftover)}

theorem initial (h : s.Initial) : Returns ⟨s, none⟩ where
  held t f x ht := by
    rw [h.place] at ht
    by_cases he : t = s.main <;> simp [he] at ht
  woken u x f hw := by cases hw
  ordered := by rw [h.log]; exact ⟨trivial, trivial, trivial⟩

/-- The history grows by events in order, and who is newly blocked or chosen has a reason. -/
theorem extend (h : Returns ⟨s, none⟩) (es : List Event) (hm : s'.main = s.main)
    (hlog : s'.env.log = es ++ s.env.log)
    (hes : ∀ ev ∈ es, ∀ past, ev.Returns s.main past)
    (held : ∀ t f x, s'.place t = .blocked f → f.pending.queue = some .ready →
      s.place t = .blocked f ∨ f.Done x s'.env.log)
    (woken : ∀ u x f, k' = some (u, x) → s'.place u = .blocked f →
      f.Done x s'.env.log ∨ .fallback f.call ∈ s'.env.log ∨
        f.pending = .getaddrinfo ∧ u = s.main ∧ Lost s'.env.log) : Returns ⟨s', k'⟩ where
  held t f x ht hf := by
    rcases held t f x ht hf with hs | hd
    · refine (h.held t f x hs hf).mono fun ev hev => ?_
      rw [hlog]
      exact List.mem_append_right _ hev
    · exact hd
  woken u x f hw hu := by
    rw [hm]
    exact woken u x f hw hu
  ordered := by
    rw [hm, hlog]
    exact h.ordered.extend hes

/-- Nobody is newly blocked or chosen. -/
theorem quiet (h : Returns ⟨s, none⟩) (es : List Event) (hm : s'.main = s.main)
    (hlog : s'.env.log = es ++ s.env.log) (hes : ∀ ev ∈ es, ∀ past, ev.Returns s.main past)
    (hp : ∀ t f, s'.place t = .blocked f → s.place t = .blocked f) : Returns ⟨s', none⟩ :=
  h.extend es hm hlog hes (fun t f _ ht _ => .inl (hp t f ht)) fun _ _ _ hw => by cases hw

/-- The running cothread is blocked, and nobody is chosen yet. -/
theorem block (h : Returns ⟨s, none⟩) (es : List Event) (hm : s'.main = s.main)
    (hlog : s'.env.log = es ++ s.env.log) (hes : ∀ ev ∈ es, ∀ past, ev.Returns s.main past)
    (hf : ∀ x, f.pending.queue = some .ready → f.Done x s'.env.log)
    (hp : s'.place = Function.update s.place t (.blocked f)) : Returns ⟨s', none⟩ := by
  refine h.extend es hm hlog hes ?_ fun _ _ _ hw => by cases hw
  intro v g x hv hg
  rw [hp] at hv
  by_cases hvt : v = t
  · subst hvt
    have hfg : f = g := by simpa using hv
    subst hfg
    exact .inr (hf x hg)
  · exact .inl (by rwa [Function.update_of_ne hvt] at hv)

/-- A blocked cothread is chosen to continue. -/
theorem choose {x : Leftover} (h : Returns ⟨s, none⟩) (es : List Event) (hm : s'.main = s.main)
    (hlog : s'.env.log = es ++ s.env.log) (hes : ∀ ev ∈ es, ∀ past, ev.Returns s.main past)
    (hp : s'.place = s.place) (hu : s.place u = .blocked f)
    (why : f.Done x s'.env.log ∨ .fallback f.call ∈ s'.env.log ∨
      f.pending = .getaddrinfo ∧ u = s.main ∧ Lost s'.env.log) :
    Returns ⟨s', some (u, x)⟩ := by
  refine h.extend es hm hlog hes (fun t f _ ht _ => .inl (by rwa [hp] at ht)) ?_
  rintro _ _ g ⟨⟩ hg
  rw [hp, hu] at hg
  cases hg
  exact why

/-- The running cothread meets `u`, which is chosen to continue. -/
theorem meet (h : Returns ⟨s, none⟩) (ht : s.place f.self = .running)
    {g : Frame} (hu : s.place u = .blocked g) (ev : Event)
    (hev : ∀ past, ev.Returns s.main past) (hf : ∀ x, f.Done x (ev :: s.env.log)) {x : Leftover}
    (hg : g.Done x (ev :: s.env.log)) : Returns ⟨(s.block f.self f).emit ev, some (u, x)⟩ := by
  have hne : u ≠ f.self := by
    rintro rfl
    rw [ht] at hu
    cases hu
  refine h.extend [ev] (by simp [Sched.emit]) (by simp [Sched.emit, Env.emit])
    (by simpa using hev) ?_ ?_
  · intro v g' y hv _
    by_cases hvf : v = f.self
    · subst hvf
      have hfg : f = g' := by simpa [Sched.emit] using hv
      subst hfg
      exact .inr (by simpa [Sched.emit, Env.emit] using hf y)
    · exact .inl (by simpa [Sched.emit, hvf] using hv)
  · rintro _ _ g' ⟨⟩ hu'
    have hu' : s.place u = .blocked g' := by simpa [Sched.emit, hne] using hu'
    rw [hu] at hu'
    cases hu'
    exact .inl (by simpa [Sched.emit, Env.emit] using hg)

/-- A call of the running cothread that did not give up control returns. -/
theorem leave (h : Returns ⟨s, none⟩) {i : CallId} {c : Call} {r : Result}
    (called : s.Called t i c) (served : ∀ past, Served i r past c) (es : List Event)
    (hm : s'.main = s.main) (hlog : s'.env.log = .ret i t c r :: es ++ s.env.log)
    (hes : ∀ ev ∈ es, ∀ past, ev.Returns s.main past) (hp : s'.place = s.place) :
    Returns ⟨s', none⟩ where
  held t f x ht hf := by
    have ht : s'.place t = .blocked f := ht
    rw [hp] at ht
    refine (h.held t f x ht hf).mono fun ev hev => ?_
    rw [hlog]
    exact List.mem_append_right _ hev
  woken u x f hw := by cases hw
  ordered := by
    rw [hm, hlog]
    obtain ⟨l, hl⟩ := called.log
    refine ⟨⟨List.mem_append_right _ (by rw [hl]; exact List.mem_cons_self), .inl (served _)⟩, ?_⟩
    exact h.ordered.extend hes

/-- While the loop is alive for nobody, the main cothread is in no `gevent_sleep` and in no
`gevent_getaddrinfo`. -/
theorem not_alive (timers : Timers ⟨s, none⟩) (calls : Calls ⟨s, none⟩) (lookups : Lookups ⟨s, none⟩)
    (hf : s.place t = .blocked f) (dead : s.env.uvLoopAlive = false) : (∀ d, f.op ≠ .sleep d) ∧ f.op ≠ .getaddrinfo .submitted := by
  simp only [Env.uvLoopAlive, Bool.or_eq_false_iff, decide_eq_false_iff_not, Bool.not_eq_false',
    List.isEmpty_iff] at dead
  obtain ⟨⟨hhandles, hreqs⟩, -⟩ := dead
  have fits := (calls.frame t f hf).fits
  have sleeper := timers.sleeper t f hf
  have armed := timers.armed t
  have requester := fun hp => lookups.requester_at hf hp
  have count : s.env.loop.activeHandles =
      (s.env.loop.timerHandles.filter fun t => (s.env.timer t).ref).length := timers.count
  obtain ⟨self, call, op, pending, caller⟩ := f
  constructor
  · rintro d rfl
    have hpend : pending = .sleep := by
      have := fits.2
      cases pending <;> simp_all
    subst hpend
    have hin : t ∈ s.env.loop.timerHandles :=
      (sleeper rfl).2.2.resolve_right fun ⟨x, hx⟩ => by cases hx
    obtain ⟨-, -, -, g, hg, -, href⟩ := armed hin
    have hfg := hf.symm.trans hg
    cases hfg
    have hmem : t ∈ s.env.loop.timerHandles.filter fun t => (s.env.timer t).ref :=
      List.mem_filter.mpr ⟨hin, href.mpr ⟨d, rfl⟩⟩
    have := List.length_pos_of_mem hmem
    omega
  · rintro rfl
    have hpend : pending = .getaddrinfo := by
      have := fits.2
      cases pending <;> simp_all
    subst hpend
    obtain ⟨r, hr, -⟩ := requester rfl
    rw [hreqs] at hr
    cases hr

/-- The calls of a frame return in order when the one it is blocked in does. -/
theorem returns_ordered {log : List Event} {r : Result} (counter : Sem → Int) {main : Tid}
    (h : Hist (Event.Returns main) log) (fits : f.Fits) (made : ∀ ev ∈ f.made, ev ∈ log)
    (why : Served f.call r log f.op ∨ .fallback f.call ∈ log ∨
      f.op = .getaddrinfo .submitted ∧ f.self = main ∧ Lost log) :
    Hist (Event.Returns main) (f.returns r counter ++ log) := by
  have hcall := made _ f.call_mem_made
  have hfirst : Event.Returns main (.ret f.call f.self f.op r) log := ⟨hcall, why⟩
  obtain ⟨self, call, op, pending, caller⟩ := f
  cases caller with
  | program => exact ⟨hfirst, h⟩
  | acquire k m =>
    have houter : Event.call k self (.acquire m) ∈ log := made _ (by simp [Frame.made])
    exact ⟨⟨List.mem_cons_of_mem _ houter, .inl trivial⟩, hfirst, h⟩
  | release k m =>
    have houter : Event.call k self (.release m) ∈ log := made _ (by simp [Frame.made])
    exact ⟨⟨List.mem_cons_of_mem _ houter, .inl trivial⟩, hfirst, h⟩

theorem resume {x : Leftover} (h : Returns ⟨s, some (u, x)⟩) (queues : s.Queues)
    (calls : Calls ⟨s, some (u, x)⟩) (hu : s.place u = .blocked f) (died : Option Tid) :
    Returns ⟨s.resume u x died, none⟩ := by
  obtain ⟨tm, hs, n, he⟩ := Sched.resume_shape hu x died
  have hself := queues.self u f hu
  have o := calls.frame u f hu
  have hmain := Sched.resume_main hu x died
  have switching : ∀ ev ∈ s.env.switching (some u) died, ∀ past, ev.Returns s.main past := by
    intro ev hev past
    rcases Env.mem_switching.mp hev with rfl | ⟨t, -, -, rfl⟩ <;> trivial
  refine ⟨fun t g y ht hg => ?_, fun _ _ _ hw => (by cases hw), ?_⟩
  · have htu : t ≠ u := by
      rintro rfl
      rw [Sched.resume_place hu] at ht
      simp at ht
    rw [Sched.resume_place hu, Function.update_of_ne htu] at ht
    refine (h.held t g y ht hg).mono fun ev hev => ?_
    rw [he]
    exact List.mem_append_right _ (List.mem_append_right _ hev)
  · change Hist (Event.Returns (s.resume u x died).main) (s.resume u x died).env.log
    rw [hmain, he]
    refine returns_ordered _ (h.ordered.extend switching) o.fits
      (fun ev hev => List.mem_append_right _ (o.made ev hev)) ?_
    have sub : ∀ ev ∈ s.env.log, ev ∈ s.env.switching (some u) died ++ s.env.log :=
      fun ev hev => List.mem_append_right _ hev
    rcases h.woken u x f rfl hu with hd | hfall | ⟨hp, hm, hl⟩
    · exact .inl ((hd.served o.fits).mono sub)
    · exact .inr (.inl (sub _ hfall))
    · refine .inr (.inr ⟨?_, hself.trans hm, hl.mono sub⟩)
      have := o.fits.2
      rwa [hp] at this

/-- A receive call meets a blocked sender. -/
theorem meetSender {ch : Chan} {us : List Tid} {x : Leftover} (h : Returns ⟨s, none⟩)
    (queues : s.Queues) (calls : Calls ⟨s, none⟩) (running : s.place f.self = .running)
    (op : f.op = .receive ch) (pending : f.pending = .received (s.offer u))
    (partner : s.queue (.senders ch) = u :: us) :
    Returns ⟨(s.block f.self f).emit (.handover ch (s.env.inCall u) f.call (s.offer u)),
      some (u, x)⟩ := by
  obtain ⟨g, hg, hp, hcall, -⟩ := calls.sender queues partner
  refine h.meet running hg (.handover ch (s.env.inCall u) f.call (s.offer u)) (fun _ => trivial)
    (fun x => ?_) ?_
  · simp only [Frame.Done, pending]
    exact ⟨ch, _, op, List.mem_cons_self⟩
  · simp only [Frame.Done, hp, hcall]
    exact ⟨_, List.mem_cons_self⟩

/-- A send call meets a blocked receiver. -/
theorem meetReceiver {ch : Chan} {v : Word} {us : List Tid} {x : Leftover}
    (h : Returns ⟨s, none⟩) (queues : s.Queues) (calls : Calls ⟨s, none⟩)
    (running : s.place f.self = .running) (op : f.op = .send ch v) (pending : f.pending = .sent)
    (partner : s.queue (.receivers ch) = u :: us) :
    Returns ⟨(s.block f.self f).emit (.handover ch f.call (s.env.inCall u) v),
      some (u, { x with third := v })⟩ := by
  obtain ⟨g, hg, hp, hcall, -⟩ := calls.receiver queues partner
  refine h.meet running hg (.handover ch f.call (s.env.inCall u) v) (fun _ => trivial)
    (fun x => ?_) ?_
  · simp only [Frame.Done, pending]
    exact ⟨ch, v, _, op, List.mem_cons_self⟩
  · simp only [Frame.Done, hp, hcall]
    exact ⟨_, List.mem_cons_self⟩

/-- The main cothread is resumed as a last resort. -/
theorem fallback {x : Leftover} (h : Returns ⟨s, none⟩) (core : Core ⟨s, none⟩)
    (timers : Timers ⟨s, none⟩) (calls : Calls ⟨s, none⟩) (lookups : Lookups ⟨s, none⟩)
    (away : s.Away) (reason : (∃ t l, s.env.log = .finish t :: l) ∨
      (∃ l, s.env.log = .runEnd :: l) ∧ s.env.uvLoopAlive = false) :
    Returns ⟨s.emit (.fallback (s.env.inCall s.main)), some (s.main, x)⟩ := by
  obtain ⟨f, hf⟩ := Sched.main_blocked core away
  have hf : s.place s.main = .blocked f := hf
  have o := calls.frame s.main f hf
  have hself : f.self = s.main := core.queues.self s.main f hf
  have hcall : s.env.inCall s.main = f.call := hself ▸ o.inCall
  have hmade : Event.call f.call s.main f.op ∈ s.env.log := hself ▸ o.made _ f.call_mem_made
  have sub : ∀ ev ∈ s.env.log, ev ∈ Event.fallback (s.env.inCall s.main) :: s.env.log :=
    fun ev hev => List.mem_cons_of_mem _ hev
  refine ⟨fun t g y ht hg => (h.held t g y ht hg).mono sub, ?_, ⟨⟨f.op, hcall ▸ hmade⟩, ?_⟩,
    h.ordered⟩
  · rintro _ _ g ⟨⟩ hg
    have hg : s.place s.main = .blocked g := hg
    rw [hf] at hg
    cases hg
    exact .inr (.inl (hcall ▸ List.mem_cons_self))
  · refine reason.imp id ?_
    rintro ⟨hend, dead⟩
    refine ⟨hend, fun t c hc => ?_⟩
    obtain ⟨-, rfl⟩ := call_unique calls.ordered (hcall ▸ hc) hmade
    exact not_alive timers calls lookups hf dead

/-- The timer of a sleep fires. -/
theorem fire {x : Leftover} (h : Returns ⟨s, none⟩) (timers : Timers ⟨s, none⟩)
    (active : (s.env.timer t).active = true) (place : s.place t = .blocked f)
    (pending : f.pending = .sleep) : Returns ⟨s.fire t, some (t, x)⟩ := by
  have harm : s.env.armedBy t = f.call := (timers.sleeper t f place pending).1
  rw [Sched.fire_eq active]
  refine h.choose [.fired (s.env.armedBy t)] rfl rfl (by simp [Event.Returns]) rfl place (.inl ?_)
  simp only [Frame.Done, pending, ← harm]
  exact List.mem_cons_self

/-- The answer of a request comes: the cothread that asked is chosen, unless the request is a
lost one of the main cothread. -/
theorem answer {r : ReqId} {error : Int} {res : Word} {x : Leftover} (h : Returns ⟨s, none⟩)
    (lookups : Lookups ⟨s, none⟩) (active : r ∈ s.env.loop.activeReqs)
    (data : s.env.reqData r = some u) (place : s.place u = .blocked f)
    (pending : f.pending = .getaddrinfo) :
    Returns ⟨{ s.complete r error res with hub := .suspended .io },
      some (u, { x with third := .data error, second := res })⟩ := by
  refine h.choose [.free r, .resolved r error res] rfl rfl (by simp [Event.Returns]) rfl place ?_
  obtain ⟨t, hd, ho⟩ := lookups.owner_at active
  rw [data] at hd
  cases hd
  rcases ho with ⟨g, hg, hgp, hgc⟩ | ⟨hm, hl⟩
  · rw [place] at hg
    cases hg
    have hsub := lookups.submitted r active
    rw [show s.env.reqBy r = f.call from hgc.symm] at hsub
    left
    simp only [Frame.Done, pending]
    exact ⟨r, error, by simp [Sched.complete, Env.complete, hsub],
      by simp [Sched.complete, Env.complete], rfl⟩
  · exact .inr (.inr ⟨pending, hm, hl.mono fun ev hev => by simp [Sched.complete, Env.complete, hev]⟩)

theorem move {m m' : Moment} (h : Returns m) (core : Core m) (timers : Timers m) (calls : Calls m)
    (lookups : Lookups m) (hm : Move R m m') : Returns m' := by
  have queues := core.queues
  cases hm with
  | enter | acquireWaits | releaseMeets | semInit | tick | poll | hubEnd =>
    exact h.quiet [_] rfl rfl (by simp [Event.Returns]) fun _ _ ht => ht
  | setExitFn | updateTime | others | turn =>
    exact h.quiet [] rfl rfl (by simp) fun _ _ ht => ht
  | drop => exact h.quiet [_, _] rfl rfl (by simp [Event.Returns]) fun _ _ ht => ht
  | take called free => exact h.leave called (fun _ => trivial) [] rfl rfl (by simp) rfl
  | give called may alone => exact h.leave called (fun _ => trivial) [] rfl rfl (by simp) rfl
  | @refuse s t k o called fails =>
    cases o with
    | noMemory => exact h.leave called (fun _ => trivial) [] rfl rfl (by simp) rfl
    | failed =>
      exact h.leave called (fun _ => trivial) [.free s.env.nextReq, .malloc s.env.nextReq] rfl rfl
        (by simp [Event.Returns]) rfl
    | submitted => exact absurd rfl fails
  | @pause s f entered kind =>
    refine h.block (t := f.self) (f := f) [] (by simp) (by simp) (by simp) ?_ (by simp)
    intro x hq
    rcases kind with hf | hf
    · simp [Frame.Done, hf]
    · simp [hf, Pending.queue] at hq
  | @sleep s f timeout ref entered pending nonneg kind =>
    rw [Sched.arm_eq]
    exact h.block (t := f.self) (f := f) [_] (by simp) (by simp; rfl) (by simp [Event.Returns])
      (by simp [pending, Pending.queue]) (by simp)
  | @lookup s f entered pending =>
    exact h.block (t := f.self) (f := f) [.submitted f.call s.env.nextReq, .malloc s.env.nextReq]
      (by simp [Sched.submit]) (by simp [Sched.submit, Env.submit, Env.mallocReq])
      (by simp [Event.Returns]) (by simp [pending, Pending.queue]) (by simp [Sched.submit])
  | @queueReceive s f ch entered pending alone =>
    exact h.block (t := f.self) (f := f) [.blocked (.receivers ch) f.call] (by simp [Sched.emit])
      (by simp [Sched.emit, Env.emit]) (by simp [Event.Returns]) (by simp [pending, Pending.queue])
      (by simp [Sched.emit])
  | @queueSend s f ch v entered pending alone =>
    exact h.block (t := f.self) (f := f) [.blocked (.senders ch) f.call] (by simp [Sched.emit])
      (by simp [Sched.emit, Env.emit]) (by simp [Event.Returns]) (by simp [pending, Pending.queue])
      (by simp [Sched.emit])
  | meetSender entered op pending partner =>
    exact h.meetSender queues calls entered.running op pending partner
  | meetReceiver entered op pending partner =>
    exact h.meetReceiver queues calls entered.running op pending partner
  | die =>
    exact h.quiet [_] rfl rfl (by simp [Event.Returns]) fun _ _ =>
      Sched.blocked_of_update fun _ => Place.noConfusion
  | @pick s u us x away first =>
    obtain ⟨g, hg, hgq⟩ := (queues.queued .ready u).mp (by simp [first])
    exact h.choose [] rfl rfl (by simp) rfl hg (.inl (h.held u g x hg hgq))
  | fallback x away ready hub reason may =>
    exact h.fallback core timers calls lookups away reason
  | fire x hub control first due active place pending => exact h.fire timers active place pending
  | answer x hub control active data place pending =>
    exact h.answer (x := x) lookups active data place pending
  | resume away place dead => exact h.resume queues calls place _
  | start =>
    exact h.quiet [_, _] rfl rfl (by simp [Event.Returns]) fun _ _ =>
      Sched.blocked_of_update fun _ => Place.noConfusion
  | @enterHub s died away ready dead =>
    rw [Sched.enterHub_eq]
    refine h.quiet _ rfl (List.append_assoc ..).symm ?_ fun _ _ ht => ht
    intro ev hev past
    rcases Sched.mem_hubEvents hev with rfl | rfl | ⟨t, -, -, rfl⟩ <;> trivial
  | init =>
    exact h.quiet [_] rfl rfl (by simp [Event.Returns]) fun _ _ =>
      Sched.blocked_of_update fun _ => Place.noConfusion

end Returns
end Gevent
