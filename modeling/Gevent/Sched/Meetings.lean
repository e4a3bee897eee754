import Gevent.Sched.Path
import Gevent.Sched.Waiting

/-!
# Hand-overs

The channel lists hold the calls that wait according to the history, and every
hand-over is in turn (`Meetings.move`).
-/

namespace Gevent

structure Meetings (m : Moment) : Prop where
  waiting : ∀ q, q ≠ .ready →
    waiting q m.sched.env.log = (m.sched.queue q).map m.sched.env.inCall
  ordered : Hist Event.InTurn m.sched.env.log
  unwoken : ∀ t f, m.sched.place t = .blocked f → f.pending.queue ≠ some .ready →
    (∀ x, m.waking ≠ some (t, x)) → ¬ Woken f.call m.sched.env.log

/-- The calls of two blocked cothreads differ. -/
theorem Calls.apart {s : Sched} {k : Option (Tid × Leftover)} (calls : Calls ⟨s, k⟩)
    (queues : s.Queues) {t u : Tid} {f g : Frame} {i : CallId} (ht : s.place t = .blocked f)
    (hu : s.place u = .blocked g) (hne : t ≠ u) (hi : i ∈ f.ids) : s.env.inCall u ≠ i := by
  rintro rfl
  obtain ⟨c, hc⟩ := f.exists_made hi
  have hself := queues.self t f ht
  have hgself := queues.self u g hu
  have o := calls.frame u g hu
  have hin : s.env.inCall u = g.call := hgself ▸ o.inCall
  refine calls.ids_ne hu hgself ((calls.frame t f ht).made _ hc) (by rw [hself]; exact hne.symm) ?_
  rw [hin]
  exact g.call_mem_ids

/-- A call of the running cothread is nobody else's. -/
theorem Calls.called_apart {s : Sched} (calls : Calls ⟨s, none⟩) (queues : s.Queues) {t u : Tid}
    {k : CallId} {c : Call} {g : Frame} (called : s.Called t k c) (hu : s.place u = .blocked g) :
    s.env.inCall u ≠ k := by
  rintro rfl
  obtain ⟨l, hl⟩ := called.log
  have hgself := queues.self u g hu
  have hne : u ≠ t := by
    rintro rfl
    rw [called.running] at hu
    cases hu
  have hin : s.env.inCall u = g.call := hgself ▸ (calls.frame u g hu).inCall
  refine calls.ids_ne hu hgself (u := t) (c := c) (by rw [hl]; exact List.mem_cons_self) hne ?_
  rw [hin]
  exact g.call_mem_ids

/-- A call just made has met nobody. -/
theorem Calls.entered_unwoken {R : Rules} {s : Sched} {f : Frame} (calls : Calls ⟨s, none⟩)
    (e : s.Entered R f) : ¬ Woken f.call s.env.log := by
  obtain ⟨l, hl⟩ := e.log
  have ho : Hist Event.Fresh s.env.log := calls.ordered
  rw [hl] at ho ⊢
  rintro ⟨ev, hev, hk⟩
  rcases List.mem_cons.mp hev with rfl | hev
  · cases hk
  · exact Nat.lt_irrefl _ (ho.1 ev hev _ (Event.wakes_sub hk))

theorem erase_map {A B : Type} [DecidableEq A] [DecidableEq B] {g : A → B} {a : A} {l : List A}
    (h : ∀ b ∈ l, g b = g a → b = a) : (l.map g).erase (g a) = (l.erase a).map g := by
  induction l with
  | nil => rfl
  | cons b l ih =>
    have hl := ih fun c hc => h c (List.mem_cons_of_mem _ hc)
    by_cases hb : b = a
    · subst hb; simp
    · have hg : g b ≠ g a := fun he => hb (h b List.mem_cons_self he)
      simp [List.erase_cons_tail, hb, hg, hl]

namespace Meetings
variable {R : Rules} {s s' : Sched} {t u : Tid} {f : Frame} {k k' : Option (Tid × Leftover)}
  {i : CallId} {c : Call} {l : List CallId} {y : Leftover}

theorem initial (h : s.Initial) : Meetings ⟨s, none⟩ where
  waiting q _ := by simp [h.log, h.queue, Gevent.waiting]
  ordered := by rw [h.log]; exact ⟨trivial, trivial, trivial⟩
  unwoken t f ht := by
    rw [h.place] at ht
    by_cases he : t = s.main <;> simp [he] at ht

theorem waiting_at (h : Meetings ⟨s, k⟩) {q : QueueId} (hq : q ≠ .ready) :
    Gevent.waiting q s.env.log = (s.queue q).map s.env.inCall := h.waiting q hq

/-- Nobody comes to wait on a channel or leaves one, and nothing is handed over. -/
theorem still (h : Meetings ⟨s, none⟩) (queues : s.Queues) (es : List Event)
    (hlog : s'.env.log = es ++ s.env.log)
    (plain : ∀ q, q ≠ .ready → ∀ ev ∈ es, ev.Plain (Gevent.waiting q s.env.log))
    (hq : ∀ q, q ≠ .ready → s'.queue q = s.queue q)
    (hin : ∀ u f, s.place u = .blocked f → s'.env.inCall u = s.env.inCall u)
    (hp : ∀ u f, s'.place u = .blocked f → f.pending.queue ≠ some .ready →
      s.place u = .blocked f ∨ ¬ Woken f.call s.env.log) : Meetings ⟨s', k'⟩ where
  waiting q hne := by
    rw [hlog, waiting_append (plain q hne), hq q hne, h.waiting_at hne]
    refine List.map_congr_left fun u hu => ?_
    obtain ⟨f, hf, -⟩ := (queues.queued q u).mp hu
    exact (hin u f hf).symm
  ordered := by
    rw [hlog]
    exact h.ordered.extend fun ev hev l => (plain (.receivers (.plain 0)) (by simp) ev hev).inTurn l
  unwoken t f ht hf _ := by
    rw [hlog, woken_append (plain (.receivers (.plain 0)) (by simp))]
    exact (hp t f ht hf).elim (fun hs => h.unwoken t f hs hf (by simp)) id

/-- The same while everybody stays where he is. -/
theorem quiet (h : Meetings ⟨s, none⟩) (queues : s.Queues) (es : List Event)
    (hlog : s'.env.log = es ++ s.env.log)
    (plain : ∀ q, q ≠ .ready → ∀ ev ∈ es, ev.Plain (Gevent.waiting q s.env.log))
    (hq : s'.queue = s.queue) (hin : s'.env.inCall = s.env.inCall)
    (hp : ∀ u f, s'.place u = .blocked f → s.place u = .blocked f) : Meetings ⟨s', k'⟩ :=
  h.still queues es hlog plain (fun q _ => by rw [hq]) (fun _ _ _ => by rw [hin])
    fun u f hu _ => .inl (hp u f hu)

theorem enter (h : Meetings ⟨s, none⟩) (queues : s.Queues) (ht : s.place t = .running) (c : Call) :
    Meetings ⟨s.enter t c, none⟩ := by
  refine h.still queues [.call s.env.calls t c] rfl ?_ (fun _ _ => rfl) ?_ fun _ _ hu _ => .inl hu
  · rintro q - ev hev
    rw [List.mem_singleton.mp hev]
    trivial
  · intro u f hu
    have hne : u ≠ t := by
      rintro rfl
      rw [ht] at hu
      cases hu
    simp [Sched.enter, Env.enter, hne]

/-- A call of the running cothread returns. -/
theorem leave (h : Meetings ⟨s, none⟩) (queues : s.Queues) (calls : Calls ⟨s, none⟩)
    (called : s.Called t i c) (es : List Event) (hlog : s'.env.log = es ++ s.env.log)
    (hes : ∀ ev ∈ es, (∃ r, ev = .ret i t c r) ∨ ∃ r, ev = .free r ∨ ev = .malloc r)
    (hq : s'.queue = s.queue) (hin : s'.env.inCall = s.env.inCall) (hp : s'.place = s.place) :
    Meetings ⟨s', none⟩ := by
  refine h.quiet queues es hlog ?_ hq hin fun u f hu => by rwa [hp] at hu
  intro q hne ev hev
  rcases hes ev hev with ⟨r, rfl⟩ | ⟨r, rfl | rfl⟩
  · intro hi
    rw [h.waiting_at hne] at hi
    obtain ⟨u, hu, he⟩ := List.mem_map.mp hi
    obtain ⟨f, hf, -⟩ := (queues.queued q u).mp hu
    exact calls.called_apart queues called hf he
  · trivial
  · trivial

/-- The running cothread blocks in a call that no channel keeps. -/
theorem block (h : Meetings ⟨s, none⟩) (queues : s.Queues) (calls : Calls ⟨s, none⟩)
    (e : s.Entered R f) (hf : ∀ q, f.pending.queue = some q → q = .ready) (es : List Event)
    (hlog : s'.env.log = es ++ s.env.log) (plain : ∀ l, ∀ ev ∈ es, ev.Plain l)
    (hq : ∀ q, s'.queue q = if f.pending.queue = some q then s.queue q ++ [f.self] else s.queue q)
    (hin : s'.env.inCall = s.env.inCall)
    (hp : s'.place = Function.update s.place f.self (.blocked f)) : Meetings ⟨s', k'⟩ := by
  refine h.still queues es hlog (fun q _ => plain _) ?_ (fun _ _ _ => by rw [hin]) ?_
  · intro q hne
    rw [hq, if_neg fun he => hne (hf q he)]
  · intro u g hu _
    rw [hp] at hu
    by_cases hut : u = f.self
    · subst hut
      have hfg : f = g := by simpa using hu
      exact .inr (hfg ▸ calls.entered_unwoken e)
    · exact .inl (by rwa [Function.update_of_ne hut] at hu)

/-- The running cothread starts to wait on a channel. -/
theorem queueOn (h : Meetings ⟨s, none⟩) (calls : Calls ⟨s, none⟩)
    (e : s.Entered R f) {q : QueueId} (hf : f.pending.queue = some q) :
    Meetings ⟨(s.emit (.blocked q f.call)).block f.self f, none⟩ where
  waiting q' hne := by
    simp only [Sched.block_env, Sched.block_queue, Sched.emit, Env.emit, Gevent.waiting, hf,
      h.waiting_at hne]
    by_cases hq : q = q'
    · subst hq
      simp [e.inCall]
    · simp [hq]
  ordered := by
    simp only [Sched.block_env, Sched.emit, Env.emit]
    exact ⟨trivial, h.ordered⟩
  unwoken u g hu hg _ := by
    simp only [Sched.block_env, Sched.emit, Env.emit, woken_cons, Event.wakes, List.not_mem_nil,
      false_or]
    by_cases hut : u = f.self
    · subst hut
      have hfg : f = g := by simpa [Sched.emit] using hu
      exact hfg ▸ calls.entered_unwoken e
    · exact h.unwoken u g (by simpa [Sched.emit, hut] using hu) hg (by simp)

/-- The running cothread meets one that waits on the channel. -/
theorem meet (h : Meetings ⟨s, none⟩) (queues : s.Queues) (calls : Calls ⟨s, none⟩)
    (e : s.Entered R f) (hf : f.pending.queue = some .ready) {ev : Event} {q : QueueId}
    {us : List Tid} {x : Leftover} (partner : s.queue q = u :: us) (hq : q ≠ .ready)
    (pair : ev.wakes = [s.env.inCall u, f.call] ∨ ev.wakes = [f.call, s.env.inCall u])
    (blocked : ∀ q k, ev ≠ .blocked q k) (ends : ev.ends = none)
    (meets : ¬ Woken (s.env.inCall u) s.env.log → ¬ Woken f.call s.env.log →
      s.env.inCall u ≠ f.call →
      (∀ ev ∈ s.env.log, ev.ends ≠ some (s.env.inCall u) ∧ ev.ends ≠ some f.call) →
      (Gevent.waiting q s.env.log).head? = some (s.env.inCall u) →
      ev.InTurn s.env.log) :
    Meetings ⟨(s.block f.self f).emit ev, some (u, x)⟩ := by
  obtain ⟨g, hg, hgq⟩ := (queues.queued q u).mp (by simp [partner])
  have hgself := queues.self u g hg
  have hgcall : s.env.inCall u = g.call := hgself ▸ (calls.frame u g hg).inCall
  have hgunwoken : ¬ Woken g.call s.env.log :=
    h.unwoken u g hg (fun he => hq (Option.some.inj (hgq.symm.trans he))) (by simp)
  have hneq : s.env.inCall u ≠ f.call := calls.called_apart queues e.toCalled hg
  have hwait : ∀ q', Gevent.waiting q' (ev :: s.env.log) = Gevent.waiting q' s.env.log := by
    intro q'
    cases ev with
    | blocked q k => exact absurd rfl (blocked q k)
    | ret => cases ends
    | _ => rfl
  refine ⟨fun q' hne => ?_, ?_, fun t g' ht hg' hx => ?_⟩
  · have hready : f.pending.queue ≠ some q' := fun he => hne (Option.some.inj (he.symm.trans hf))
    simp only [Sched.emit, Env.emit, Sched.block_env, hwait, h.waiting_at hne, Sched.block_queue,
      if_neg hready]
  · simp only [Sched.emit, Env.emit, Sched.block_env]
    refine ⟨meets (hgcall ▸ hgunwoken) (calls.entered_unwoken e) hneq (fun ev hev => ?_) ?_,
      h.ordered⟩
    · rw [hgcall]
      exact ⟨(calls.frame u g hg).unreturned _ g.call_mem_ids ev hev,
        (calls.entered_open e).unreturned _ f.call_mem_ids ev hev⟩
    · rw [h.waiting_at hq, partner]
      rfl
  · have hut : t ≠ u := fun he => hx x (by rw [he])
    have htf : t ≠ f.self := by
      rintro rfl
      have hfg : f = g' := by simpa [Sched.emit] using ht
      exact hg' (hfg ▸ hf)
    have ht : s.place t = .blocked g' := by simpa [Sched.emit, htf] using ht
    have hcall : s.env.inCall t = g'.call := (queues.self t g' ht) ▸ (calls.frame t g' ht).inCall
    have h1 : g'.call ≠ s.env.inCall u := by
      rw [hgcall, ← hcall]
      exact calls.apart queues hg ht hut.symm g.call_mem_ids
    have h2 : g'.call ≠ f.call := hcall ▸ calls.called_apart queues e.toCalled ht
    have hold := h.unwoken t g' ht hg' (by simp)
    simp only [Sched.emit, Env.emit, Sched.block_env, woken_cons, not_or]
    refine ⟨?_, hold⟩
    rcases pair with hm | hm <;> simp [hm, h1, h2]

/-- The returning calls leave the lists. -/
theorem waiting_returns (r : Result) (counter : Sem → Int) {q : QueueId} {log : List Event}
    (inner : (Gevent.waiting q log).erase f.call = l)
    (outer : ∀ k ∈ f.ids, k ∉ l) :
    Gevent.waiting q (f.returns r counter ++ log) = l := by
  obtain ⟨self, call, op, pending, caller⟩ := f
  cases caller with
  | program => exact inner
  | acquire k m | release k m =>
    have hk : k ∉ l := outer k (by simp [Frame.ids])
    simp only [Frame.returns, List.cons_append, List.nil_append, Gevent.waiting, inner]
    exact List.erase_of_not_mem hk

theorem returns_wakes (r : Result) (counter : Sem → Int) :
    ∀ ev ∈ f.returns r counter, ev.wakes = [] ∧ ∀ l, ev.InTurn l := by
  obtain ⟨self, call, op, pending, caller⟩ := f
  cases caller <;> simp [Frame.returns, Event.wakes, Event.InTurn]

theorem resume (h : Meetings ⟨s, some (u, y)⟩) (queues : s.Queues)
    (calls : Calls ⟨s, some (u, y)⟩) (hu : s.place u = .blocked f) (x : Leftover)
    (died : Option Tid) : Meetings ⟨s.resume u x died, none⟩ := by
  obtain ⟨tm, hs, n, he⟩ := Sched.resume_shape hu x died
  have hself := queues.self u f hu
  have hcall : s.env.inCall u = f.call := hself ▸ (calls.frame u f hu).inCall
  have plain : ∀ l, ∀ ev ∈ s.env.switching (some u) died, ev.Plain l := by
    intro l ev hev
    rcases Env.mem_switching.mp hev with rfl | ⟨t, -, -, rfl⟩ <;> trivial
  have hqueue : ∀ q, (s.resume u x died).queue q = (s.queue q).erase u := by
    intro q
    rw [Sched.resume_queue hu]
    split
    · rfl
    · next hne =>
      refine (List.erase_of_not_mem fun hm => ?_).symm
      obtain ⟨g, hg, hgq⟩ := (queues.queued q u).mp hm
      rw [hu] at hg
      cases hg
      exact hne hgq
  have hmember : ∀ q, ∀ v ∈ s.queue q, v ≠ u → ∀ i ∈ f.ids, s.env.inCall v ≠ i := by
    intro q v hv hne i hi
    obtain ⟨g, hg, -⟩ := (queues.queued q v).mp hv
    exact calls.apart queues hu hg hne.symm hi
  refine ⟨fun q hne => ?_, ?_, fun t g ht hg _ => ?_⟩
  · have hlog : (s.resume u x died).env.log = f.returns (f.pending.result x) s.env.counter ++
        (s.env.switching (some u) died ++ s.env.log) := by rw [he]
    have hin : (s.resume u x died).env.inCall = s.env.inCall := by rw [he]
    change Gevent.waiting q (s.resume u x died).env.log =
      ((s.resume u x died).queue q).map (s.resume u x died).env.inCall
    rw [hlog, hin, hqueue]
    refine waiting_returns _ _ ?_ ?_
    · rw [waiting_append (plain _), h.waiting_at hne, ← hcall]
      exact erase_map fun v hv hve => by
        by_contra hvu
        exact hmember q v hv hvu _ f.call_mem_ids (hve.trans hcall)
    · intro i hi hm
      obtain ⟨v, hv, hve⟩ := List.mem_map.mp hm
      have hvu := ((queues.nodup q).mem_erase_iff.mp hv).1
      exact hmember q v ((queues.nodup q).mem_erase_iff.mp hv).2 hvu i hi hve
  · rw [he]
    refine (h.ordered.extend fun ev hev l => (plain [] ev hev).inTurn l).extend fun ev hev => ?_
    exact (returns_wakes _ _ ev hev).2
  · have htu : t ≠ u := by
      rintro rfl
      rw [Sched.resume_place hu] at ht
      simp at ht
    rw [Sched.resume_place hu, Function.update_of_ne htu] at ht
    have hold : ¬ Woken g.call s.env.log := h.unwoken t g ht hg fun z hz =>
      htu (congrArg Prod.fst (Option.some.inj hz)).symm
    rw [he]
    rintro ⟨ev, hev, hk⟩
    rcases List.mem_append.mp hev with hev | hev
    · rw [(returns_wakes _ _ ev hev).1] at hk
      cases hk
    · exact hold ((woken_append (plain [])).mp ⟨ev, hev, hk⟩)

/-- A receive call meets a blocked sender. -/
theorem meetSender {ch : Chan} {us : List Tid} {x : Leftover} (h : Meetings ⟨s, none⟩)
    (queues : s.Queues) (calls : Calls ⟨s, none⟩) (entered : s.Entered R f)
    (op : f.op = .receive ch) (pending : f.pending = .received (s.offer u))
    (partner : s.queue (.senders ch) = u :: us) :
    Meetings ⟨(s.block f.self f).emit (.handover ch (s.env.inCall u) f.call (s.offer u)),
      some (u, x)⟩ := by
  obtain ⟨g, -, -, -, sent⟩ := calls.sender queues partner
  obtain ⟨l, hl⟩ := entered.log
  have received : .call f.call f.self (.receive ch) ∈ s.env.log := by
    rw [hl, ← op]
    exact List.mem_cons_self
  exact h.meet queues calls entered (by simp [pending, Pending.queue]) partner (by simp)
    (.inl rfl) (by simp) rfl fun h1 h2 h3 h4 h5 =>
      ⟨h1, h2, h3, h4, ⟨u, sent⟩, ⟨f.self, received⟩, .inl h5⟩

/-- A send call meets a blocked receiver. -/
theorem meetReceiver {ch : Chan} {v : Word} {us : List Tid} {x : Leftover}
    (h : Meetings ⟨s, none⟩) (queues : s.Queues) (calls : Calls ⟨s, none⟩)
    (entered : s.Entered R f) (op : f.op = .send ch v) (pending : f.pending = .sent)
    (partner : s.queue (.receivers ch) = u :: us) :
    Meetings ⟨(s.block f.self f).emit (.handover ch f.call (s.env.inCall u) v), some (u, x)⟩ := by
  obtain ⟨g, -, -, -, received⟩ := calls.receiver queues partner
  obtain ⟨l, hl⟩ := entered.log
  have sent : .call f.call f.self (.send ch v) ∈ s.env.log := by
    rw [hl, ← op]
    exact List.mem_cons_self
  exact h.meet queues calls entered (by simp [pending, Pending.queue]) partner (by simp)
    (.inr rfl) (by simp) rfl fun h1 h2 h3 h4 h5 =>
      ⟨h2, h1, h3.symm, fun ev hev => (h4 ev hev).symm, ⟨f.self, sent⟩, ⟨u, received⟩, .inr h5⟩

/-- The main cothread is resumed as a last resort: it had met nobody. -/
theorem fallback {x : Leftover} (h : Meetings ⟨s, none⟩) (core : Core ⟨s, none⟩)
    (calls : Calls ⟨s, none⟩) (away : s.Away) (ready : s.queue .ready = []) :
    Meetings ⟨s.emit (.fallback (s.env.inCall s.main)), some (s.main, x)⟩ := by
  have queues := core.queues
  obtain ⟨f, hf⟩ := Sched.main_blocked core away
  have hcall : s.env.inCall s.main = f.call :=
    (queues.self s.main f hf) ▸ (calls.frame s.main f hf).inCall
  have hready : f.pending.queue ≠ some .ready := by
    intro hq
    have hm := (queues.queued .ready s.main).mpr ⟨f, hf, hq⟩
    simp only [ready] at hm
    cases hm
  refine ⟨fun q hne => h.waiting_at hne, ⟨?_, h.ordered⟩, fun t g ht hg hx => ?_⟩
  · rw [hcall]
    exact h.unwoken s.main f hf hready (by simp)
  · have htm : t ≠ s.main := fun he => hx x (by rw [he])
    have hne := calls.apart queues hf ht htm.symm f.call_mem_ids
    have hgcall : s.env.inCall t = g.call := (queues.self t g ht) ▸ (calls.frame t g ht).inCall
    have hold := h.unwoken t g ht hg (by simp)
    refine fun hw => (woken_cons.mp hw).elim (fun hk => ?_) hold
    rw [hgcall] at hne
    rw [Event.wakes, hcall] at hk
    exact hne (List.mem_singleton.mp hk)

theorem move {m m' : Moment} (h : Meetings m) (core : Core m) (calls : Calls m) (hm : Move R m m') :
    Meetings m' := by
  have queues := core.queues
  cases hm with
  | enter c running => exact h.enter queues running c
  | acquireWaits called => exact h.enter queues called.running _
  | releaseMeets called => exact h.enter queues called.running _
  | take called free => exact h.leave queues calls called [_] rfl (by simp) rfl rfl rfl
  | give called may alone => exact h.leave queues calls called [_] rfl (by simp) rfl rfl rfl
  | @refuse s t k o called fails =>
    cases o with
    | noMemory => exact h.leave queues calls called [_] rfl (by simp) rfl rfl rfl
    | failed => exact h.leave queues calls called [_, _, _] rfl (by simp) rfl rfl rfl
    | submitted => exact absurd rfl fails
  | @pause s f entered kind =>
    refine h.block queues calls entered ?_ [] (by simp) (by simp) (s.block_queue _ f) (by simp) (by simp)
    rcases kind with hf | hf <;> simp [hf, Pending.queue, eq_comm]
  | @sleep s f timeout ref entered pending nonneg kind =>
    rw [Sched.arm_eq]
    exact h.block (f := f) queues calls entered (by simp [pending, Pending.queue])
      [.armed f.call f.self ((s.env.loop.time + timeout.toNat) % 2 ^ 64)]
      (by rw [Sched.block_env]; rfl) (by simp [Event.Plain]) (Sched.block_queue _ _ f)
      (by rw [Sched.block_env]) (Sched.block_place ..)
  | @lookup s f entered pending =>
    refine h.block (f := f) queues calls entered (by simp [pending, Pending.queue])
      [.submitted f.call s.env.nextReq, .malloc s.env.nextReq] ?_ (by simp [Event.Plain])
      (Sched.block_queue _ _ f) ?_ (Sched.block_place ..) <;>
      simp [Sched.submit, Env.submit, Env.mallocReq]
  | @queueReceive s f ch entered pending alone =>
    exact h.queueOn calls entered (by simp [pending, Pending.queue])
  | @queueSend s f ch v entered pending alone =>
    exact h.queueOn calls entered (by simp [pending, Pending.queue])
  | meetSender entered op pending partner =>
    exact h.meetSender queues calls entered op pending partner
  | meetReceiver entered op pending partner =>
    exact h.meetReceiver queues calls entered op pending partner
  | die =>
    exact h.quiet queues [_] rfl (fun q _ => by simp [Event.Plain]) rfl rfl fun _ _ =>
      Sched.blocked_of_update fun _ => Place.noConfusion
  | pick | setExitFn | updateTime | others | turn =>
    exact h.quiet queues [] rfl (by simp) rfl rfl fun _ _ hu => hu
  | fallback x away ready => exact h.fallback core calls away ready
  | poll | hubEnd | semInit | tick =>
    exact h.quiet queues [_] rfl (fun q _ => by simp [Event.Plain]) rfl rfl fun _ _ hu => hu
  | fire x hub control first due active =>
    rw [Sched.fire_eq active]
    exact h.quiet queues [_] rfl (fun q _ => by simp [Event.Plain]) rfl rfl fun _ _ hu => hu
  | answer | drop =>
    exact h.quiet queues [_, _] rfl (fun q _ => by simp [Event.Plain]) rfl
      rfl fun _ _ hu => hu
  | resume away place dead => exact h.resume queues calls place _ _
  | start =>
    exact h.quiet queues [_, _] rfl (fun q _ => by simp [Event.Plain]) rfl rfl fun _ _ =>
      Sched.blocked_of_update fun _ => Place.noConfusion
  | @enterHub s died away ready dead =>
    rw [Sched.enterHub_eq]
    refine h.quiet queues _ (List.append_assoc ..).symm ?_ rfl rfl fun _ _ hu => hu
    intro q _ ev hev
    rcases Sched.mem_hubEvents hev with rfl | rfl | ⟨t, -, -, rfl⟩ <;> trivial
  | init =>
    exact h.quiet queues [_] rfl (fun q _ => by simp [Event.Plain]) rfl rfl fun _ _ =>
      Sched.blocked_of_update fun _ => Place.noConfusion

end Meetings
end Gevent
