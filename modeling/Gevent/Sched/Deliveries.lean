import Gevent.Sched.Path

/-!
# What receive calls deliver

Every call returns once. When receive calls on the channels of the program find
no blocked sender, and the main cothread is not resumed as a last resort in the
middle of one, a receive call returns while the send call whose value it
delivers is still under way (`Deliveries.move`).
-/

namespace Gevent

/-- The call is blocked in `gevent_channel_receive` on a channel of the program. -/
def Frame.Receives (f : Frame) : Prop :=
  match f.pending with
  | .receive (.plain _) => True
  | _ => False

instance : DecidablePred Frame.Receives
  | ⟨_, _, _, .receive (.plain _), _⟩ => isTrue trivial
  | ⟨_, _, _, .receive (.ofSem _), _⟩ | ⟨_, _, _, .send _ _, _⟩ | ⟨_, _, _, .spawn, _⟩
  | ⟨_, _, _, .sleep, _⟩ | ⟨_, _, _, .wait, _⟩ | ⟨_, _, _, .received _, _⟩ | ⟨_, _, _, .sent, _⟩
  | ⟨_, _, _, .getaddrinfo, _⟩ => isFalse id

/-- A send call that passes `v` is under way. -/
def Offered (n : Nat) (v : Word) (log : List Event) : Prop :=
  ∃ k t, .call k t (.send (.plain n) v) ∈ log ∧ ∀ ev ∈ log, ev.ends ≠ some k

/-- A call returns once, a receive call while its value is offered, and what is
sent is of the given kind. -/
structure Event.Delivers (Item : Word → Prop) (ev : Event) (past : List Event) : Prop where
  once : ∀ k, ev.ends = some k → ∀ e ∈ past, e.ends ≠ some k
  offered : ∀ k t n r, ev = .ret k t (.receive (.plain n)) r → ∃ v, r = .value v ∧ Offered n v past
  item : ∀ k t n v, ev = .call k t (.send (.plain n) v) → Item v

/-- The event returns from no call, and sends nothing for the program. -/
def Event.Silent : Event → Prop
  | .ret _ _ _ _ | .call _ _ (.send (.plain _) _) => False
  | _ => True

/-- The program sends values of the given kind, and its receive calls wait for
their senders, also those of the main cothread. -/
structure Rules.ReceiversFirst (R : Rules) (Item : Word → Prop) : Prop where
  item : ∀ s n v, R.call s (.send (.plain n) v) → Item v
  call : ∀ s n, R.call s (.receive (.plain n)) → s.queue (.senders (.plain n)) = []
  last : ∀ s f, s.place s.main = .blocked f → f.Receives →
    ((∃ t l, s.env.log = .finish t :: l) ∨ ∃ l, s.env.log = .runEnd :: l) → ¬ R.last s

structure Deliveries (Item : Word → Prop) (m : Moment) : Prop where
  waits : ∀ t f n, m.sched.place t = .blocked f → f.op = .receive (.plain n) →
    f.pending = .receive (.plain n)
  offered : ∀ u x f n, m.waking = some (u, x) → m.sched.place u = .blocked f →
    f.op = .receive (.plain n) → Offered n x.third m.sched.env.log
  ordered : Hist (Event.Delivers Item) m.sched.env.log

section
variable {Item : Word → Prop} {ev : Event}

theorem Event.Silent.ends (h : ev.Silent) : ev.ends = none := by
  cases ev with
  | ret => exact h.elim
  | _ => rfl

theorem Event.Silent.delivers (h : ev.Silent) (past : List Event) : ev.Delivers Item past := by
  refine ⟨fun k hk => ?_, ?_, ?_⟩
  · rw [h.ends] at hk
    cases hk
  · rintro k t n r rfl
    exact h.elim
  · rintro k t n v rfl
    exact h.elim

end

theorem Offered.mono {n : Nat} {v : Word} {es log : List Event} (h : Offered n v log)
    (silent : ∀ ev ∈ es, ev.Silent) : Offered n v (es ++ log) := by
  obtain ⟨k, t, hc, open'⟩ := h
  refine ⟨k, t, List.mem_append_right _ hc, fun ev hev => ?_⟩
  rcases List.mem_append.mp hev with hev | hev
  · simp [(silent ev hev).ends]
  · exact open' ev hev

namespace Deliveries
variable {Item : Word → Prop} {R : Rules} {s s' : Sched} {t u : Tid} {f g : Frame}
  {k k' : Option (Tid × Leftover)}

theorem initial (h : s.Initial) : Deliveries Item ⟨s, none⟩ where
  waits t f n ht := by
    rw [h.place] at ht
    by_cases he : t = s.main <;> simp [he] at ht
  offered u x f n hw := by cases hw
  ordered := by
    rw [h.log]
    have silent : ∀ ev ∈ [Event.start s.main, .init s.main], ev.Silent := by simp [Event.Silent]
    have none : Hist (Event.Delivers Item) [] := trivial
    exact none.extend fun ev hev past => (silent ev hev).delivers past

/-- The history grows by events in order, and who is newly blocked receives from no one yet. -/
theorem extend (h : Deliveries Item ⟨s, k⟩) (es : List Event) (hlog : s'.env.log = es ++ s.env.log)
    (ordered : Hist (Event.Delivers Item) (es ++ s.env.log))
    (place : ∀ t f, s'.place t = .blocked f → s.place t = .blocked f ∨
      ∀ n, f.op = .receive (.plain n) → f.pending = .receive (.plain n))
    (offered : ∀ u x f n, k' = some (u, x) → s'.place u = .blocked f →
      f.op = .receive (.plain n) → Offered n x.third s'.env.log) : Deliveries Item ⟨s', k'⟩ where
  waits t f n ht hop := (place t f ht).elim (fun hs => h.waits t f n hs hop) fun new => new n hop
  offered := offered
  ordered := by
    rw [hlog]
    exact ordered

/-- No call returns. -/
theorem choose (h : Deliveries Item ⟨s, k⟩) (es : List Event)
    (hlog : s'.env.log = es ++ s.env.log) (hes : ∀ ev ∈ es, ev.Silent)
    (place : ∀ t f, s'.place t = .blocked f → s.place t = .blocked f ∨
      ∀ n, f.op = .receive (.plain n) → f.pending = .receive (.plain n))
    (offered : ∀ u x f n, k' = some (u, x) → s'.place u = .blocked f →
      f.op = .receive (.plain n) → Offered n x.third s'.env.log) : Deliveries Item ⟨s', k'⟩ :=
  h.extend es hlog (h.ordered.extend fun ev hev past => (hes ev hev).delivers past) place offered

/-- A blocked cothread that does not receive is chosen to continue. -/
theorem chooseOther {x : Leftover} (h : Deliveries Item ⟨s, k⟩) (es : List Event)
    (hlog : s'.env.log = es ++ s.env.log) (hes : ∀ ev ∈ es, ev.Silent) (hp : s'.place = s.place)
    (hu : s.place u = .blocked f) (other : ¬ f.Receives) : Deliveries Item ⟨s', some (u, x)⟩ := by
  refine h.choose es hlog hes (fun t f ht => .inl (by rwa [hp] at ht)) ?_
  rintro _ _ g n ⟨⟩ hg hop
  rw [hp, hu] at hg
  cases hg
  rw [Frame.Receives, h.waits u f n hu hop] at other
  exact absurd trivial other

/-- No call returns, and nobody is chosen. -/
theorem quiet (h : Deliveries Item ⟨s, k⟩) (es : List Event) (hlog : s'.env.log = es ++ s.env.log)
    (hes : ∀ ev ∈ es, ev.Silent)
    (place : ∀ t f, s'.place t = .blocked f → s.place t = .blocked f ∨
      ∀ n, f.op = .receive (.plain n) → f.pending = .receive (.plain n)) : Deliveries Item ⟨s', none⟩ :=
  h.choose es hlog hes place fun _ _ _ _ hw => by cases hw

/-- The running cothread is blocked, and nobody is chosen yet. -/
theorem block (h : Deliveries Item ⟨s, none⟩) (es : List Event) (hlog : s'.env.log = es ++ s.env.log)
    (hes : ∀ ev ∈ es, ev.Silent)
    (hf : ∀ n, f.op = .receive (.plain n) → f.pending = .receive (.plain n))
    (hp : s'.place = Function.update s.place t (.blocked f)) : Deliveries Item ⟨s', none⟩ := by
  refine h.quiet es hlog hes fun u g hu => ?_
  rw [hp] at hu
  by_cases hut : u = t
  · subst hut
    rw [Function.update_self] at hu
    cases hu
    exact .inr hf
  · exact .inl (by rwa [Function.update_of_ne hut] at hu)

/-- The running cothread meets `u`, which is chosen to continue. -/
theorem meet (h : Deliveries Item ⟨s, none⟩) (ht : s.place f.self = .running)
    (hu : s.place u = .blocked g) {ev : Event} (hev : ev.Silent)
    (hf : ∀ n, f.op = .receive (.plain n) → f.pending = .receive (.plain n)) {x : Leftover}
    (hg : ∀ n, g.op = .receive (.plain n) → Offered n x.third (ev :: s.env.log)) :
    Deliveries Item ⟨(s.block f.self f).emit ev, some (u, x)⟩ := by
  have hne : u ≠ f.self := by
    rintro rfl
    rw [ht] at hu
    cases hu
  refine h.choose [ev] (by simp [Sched.emit, Env.emit]) (by simpa using hev) ?_ ?_
  · intro v f' hv
    by_cases hvf : v = f.self
    · subst hvf
      have hff : f = f' := by simpa [Sched.emit] using hv
      exact .inr (hff ▸ hf)
    · exact .inl (by simpa [Sched.emit, hvf] using hv)
  · rintro _ _ g' n ⟨⟩ hu' hop
    have hu' : s.place u = .blocked g' := by simpa [Sched.emit, hne] using hu'
    rw [hu] at hu'
    cases hu'
    simpa [Sched.emit, Env.emit] using hg n hop

/-- A call of the running cothread that did not give up control returns. -/
theorem leave (h : Deliveries Item ⟨s, none⟩) (calls : Calls ⟨s, none⟩) {i : CallId} {c : Call}
    {r : Result} (called : s.Called t i c) (hc : ∀ n, c ≠ .receive (.plain n)) (es : List Event)
    (hlog : s'.env.log = .ret i t c r :: es ++ s.env.log) (hes : ∀ ev ∈ es, ev.Silent)
    (hp : s'.place = s.place) : Deliveries Item ⟨s', none⟩ := by
  obtain ⟨l, hl⟩ := called.log
  have fresh : Hist Event.Fresh s.env.log := calls.ordered
  rw [hl] at fresh
  have before : Hist (Event.Delivers Item) (es ++ s.env.log) :=
    h.ordered.extend fun ev hev past => (hes ev hev).delivers past
  refine h.extend _ hlog ⟨⟨?_, ?_, by simp⟩, before⟩ (fun t f ht => .inl (hp ▸ ht))
    fun _ _ _ _ hw => by cases hw
  · rintro j ⟨⟩ ev hev hend
    rcases List.mem_append.mp hev with hev | hev
    · rw [(hes ev hev).ends] at hend
      cases hend
    · rw [hl] at hev
      rcases List.mem_cons.mp hev with rfl | hev
      · cases hend
      · have hids : i ∈ ev.ids := by
          cases ev <;> simp_all [Event.ends, Event.ids]
        exact absurd (fresh.1 ev hev i hids) (Nat.lt_irrefl i)
  · rintro k u n r' ⟨⟩
    exact absurd rfl (hc n)

/-- The calls of a frame return once, and a receive call returns what is offered. -/
theorem returns_ordered {log : List Event} {r : Result} (counter : Sem → Int)
    (h : Hist (Event.Delivers Item) log) (fits : f.Fits) (fresh : Hist Event.Fresh log)
    (made : ∀ ev ∈ f.made, ev ∈ log) (unreturned : ∀ i ∈ f.ids, ∀ ev ∈ log, ev.ends ≠ some i)
    (delivers : ∀ n, f.op = .receive (.plain n) → ∃ v, r = .value v ∧ Offered n v log) :
    Hist (Event.Delivers Item) (f.returns r counter ++ log) := by
  have inner : Event.Delivers Item (.ret f.call f.self f.op r) log := by
    refine ⟨?_, ?_, by simp⟩
    · rintro _ ⟨⟩
      exact unreturned _ f.call_mem_ids
    · intro k t n r' he
      obtain ⟨-, -, hop, rfl⟩ := Event.ret.inj he
      exact delivers n hop
  -- the semaphore function around a channel function
  have outer : ∀ i c r', i ∈ f.ids → .call i f.self c ∈ f.made → c ≠ f.op →
      (∀ n, c ≠ .receive (.plain n)) →
      Event.Delivers Item (.ret i f.self c r') (.ret f.call f.self f.op r :: log) := by
    intro i c r' hi hmade hne hc
    refine ⟨?_, ?_, by simp⟩
    · rintro _ ⟨⟩ ev hev
      rcases List.mem_cons.mp hev with rfl | hev
      · rintro ⟨⟩
        exact hne (call_unique fresh (made _ hmade) (made _ f.call_mem_made)).2
      · exact unreturned i hi ev hev
    · rintro k t n r'' ⟨⟩
      exact absurd rfl (hc n)
  obtain ⟨self, call, op, pending, caller⟩ := f
  cases caller with
  | program => exact ⟨inner, h⟩
  | acquire k m =>
    obtain rfl : op = .receive (.ofSem m) := fits.1
    exact ⟨outer k _ _ (by simp [Frame.ids]) (by simp [Frame.made]) (by simp) (by simp), inner, h⟩
  | release k m =>
    obtain rfl : op = .send (.ofSem m) .null := fits.1
    exact ⟨outer k _ _ (by simp [Frame.ids]) (by simp [Frame.made]) (by simp) (by simp), inner, h⟩

theorem resume {x : Leftover} (h : Deliveries Item ⟨s, some (u, x)⟩) (calls : Calls ⟨s, some (u, x)⟩)
    (hu : s.place u = .blocked f) (died : Option Tid) : Deliveries Item ⟨s.resume u x died, none⟩ := by
  obtain ⟨tm, hs, n, he⟩ := Sched.resume_shape hu x died
  have o := calls.frame u f hu
  have silent : ∀ ev ∈ s.env.switching (some u) died, ev.Silent := by
    intro ev hev
    rcases Env.mem_switching.mp hev with rfl | ⟨t, -, -, rfl⟩ <;> trivial
  have unmade : ∀ ev ∈ s.env.switching (some u) died, ∀ past, ev.Fresh past := by
    intro ev hev past
    rcases Env.mem_switching.mp hev with rfl | ⟨t, -, -, rfl⟩ <;> trivial
  refine h.extend (f.returns (f.pending.result x) s.env.counter ++ s.env.switching (some u) died)
    (by rw [he]; simp) ?_ ?_ fun _ _ _ _ hw => by cases hw
  · rw [List.append_assoc]
    refine returns_ordered _ (h.ordered.extend fun ev hev past => (silent ev hev).delivers past)
      o.fits (calls.ordered.extend unmade) (fun ev hev => List.mem_append_right _ (o.made ev hev)) ?_ ?_
    · intro i hi ev hev
      rcases List.mem_append.mp hev with hev | hev
      · simp [(silent ev hev).ends]
      · exact o.unreturned i hi ev hev
    · intro n hop
      refine ⟨x.third, ?_, (h.offered u x f n rfl hu hop).mono silent⟩
      rw [h.waits u f n hu hop]
      rfl
  · intro t g ht
    rw [Sched.resume_place hu] at ht
    by_cases htu : t = u
    · subst htu
      simp at ht
    · exact .inl (by rwa [Function.update_of_ne htu] at ht)

/-- The places of cothreads in no call change. -/
theorem place {p : Place} (h : Deliveries Item ⟨s, k⟩) (es : List Event)
    (hlog : s'.env.log = es ++ s.env.log) (hes : ∀ ev ∈ es, ev.Silent)
    (hp : s'.place = Function.update s.place t p) (free : ∀ g, p ≠ .blocked g) :
    Deliveries Item ⟨s', none⟩ := by
  refine h.quiet es hlog hes fun u g hu => ?_
  rw [hp] at hu
  by_cases hut : u = t
  · subst hut
    rw [Function.update_self] at hu
    exact absurd hu (free g)
  · exact .inl (by rwa [Function.update_of_ne hut] at hu)

/-- A receive call meets a blocked sender: under the rules it is that of an acquire call. -/
theorem meetSender {ch : Chan} {us : List Tid} {x : Leftover} (hR : R.ReceiversFirst Item)
    (h : Deliveries Item ⟨s, none⟩) (queues : s.Queues) (calls : Calls ⟨s, none⟩)
    (entered : s.Entered R f) (op : f.op = .receive ch)
    (partner : s.queue (.senders ch) = u :: us) :
    Deliveries Item ⟨(s.block f.self f).emit
      (.handover ch (s.env.inCall u) f.call (s.offer u)), some (u, x)⟩ := by
  obtain ⟨g, hg, hp, -, -⟩ := calls.sender queues partner
  refine h.meet entered.running hg (by trivial) (fun n hop => ?_) fun n hop => ?_
  · -- the rules have no receive call of the program find a sender
    rw [op] at hop
    cases hop
    obtain ⟨self, call, op', p, caller⟩ := f
    cases op
    have outer := entered.outer
    have fits := entered.fits.1
    cases caller with
    | program =>
      rw [hR.call _ n outer] at partner
      cases partner
    | acquire | release => cases fits
  · have fits := (calls.frame u g hg).fits.2
    simp [hp, hop] at fits

/-- A send call meets a blocked receiver, which will find the value. -/
theorem meetReceiver {ch : Chan} {v : Word} {us : List Tid} {x : Leftover}
    (h : Deliveries Item ⟨s, none⟩) (queues : s.Queues) (calls : Calls ⟨s, none⟩)
    (entered : s.Entered R f) (op : f.op = .send ch v)
    (partner : s.queue (.receivers ch) = u :: us) :
    Deliveries Item ⟨(s.block f.self f).emit (.handover ch f.call (s.env.inCall u) v),
      some (u, { x with third := v })⟩ := by
  obtain ⟨g, hg, hp, -, -⟩ := calls.receiver queues partner
  refine h.meet entered.running hg (by trivial) (by simp [op]) fun n hop => ?_
  obtain rfl : Chan.plain n = ch := by
    have hw := h.waits u g n hg hop
    rw [hp] at hw
    exact (Pending.receive.inj hw).symm
  have o := calls.entered_open entered
  refine ⟨f.call, f.self, List.mem_cons_of_mem _ (op ▸ o.made _ f.call_mem_made), ?_⟩
  intro ev hev
  rcases List.mem_cons.mp hev with rfl | hev
  · simp [Event.ends]
  · exact o.unreturned _ f.call_mem_ids ev hev

theorem move {m m' : Moment} (hR : R.ReceiversFirst Item) (h : Deliveries Item m) (core : Core m)
    (calls : Calls m) (hm : Move R m m') : Deliveries Item m' := by
  have queues := core.queues
  cases hm with
  | @enter s t c running may =>
    refine h.extend [_] rfl ⟨⟨by simp [Event.ends], by simp, ?_⟩, h.ordered⟩ (fun _ _ ht => .inl ht)
      fun _ _ _ _ hw => by cases hw
    rintro k u n v ⟨⟩
    exact hR.item _ n v may
  | acquireWaits | releaseMeets | semInit | tick | poll | hubEnd =>
    exact h.quiet [_] rfl (by simp [Event.Silent]) fun _ _ ht => .inl ht
  | setExitFn | updateTime | others | turn =>
    exact h.quiet [] rfl (by simp) fun _ _ ht => .inl ht
  | drop => exact h.quiet [_, _] rfl (by simp [Event.Silent]) fun _ _ ht => .inl ht
  | take called free => exact h.leave calls called (by simp) [] rfl (by simp) rfl
  | give called may alone => exact h.leave calls called (by simp) [] rfl (by simp) rfl
  | @refuse s t k o called fails =>
    cases o with
    | noMemory => exact h.leave calls called (by simp) [] rfl (by simp) rfl
    | failed =>
      exact h.leave calls called (by simp) [.free s.env.nextReq, .malloc s.env.nextReq] rfl
        (by simp [Event.Silent]) rfl
    | submitted => exact absurd rfl fails
  | @pause s f entered kind =>
    refine h.block (t := f.self) (f := f) [] (by simp) (by simp) ?_ (by simp)
    intro n hop
    have fits := entered.fits.2
    rcases kind with hf | hf <;> simp [hf, hop] at fits
  | @sleep s f timeout ref entered pending nonneg kind =>
    rw [Sched.arm_eq]
    refine h.block (t := f.self) (f := f) [_] (by simp; rfl) (by simp [Event.Silent]) ?_ (by simp)
    intro n hop
    rw [hop] at kind
    cases ref <;> cases kind
  | @lookup s f entered pending =>
    refine h.block (t := f.self) (f := f) [.submitted f.call s.env.nextReq, .malloc s.env.nextReq]
      (by simp [Sched.submit, Env.submit, Env.mallocReq]) (by simp [Event.Silent]) ?_
      (by simp [Sched.submit])
    intro n hop
    have fits := entered.fits.2
    simp [pending, hop] at fits
  | @queueReceive s f ch entered pending alone =>
    refine h.block (t := f.self) (f := f) [.blocked (.receivers ch) f.call]
      (by simp [Sched.emit, Env.emit]) (by simp [Event.Silent]) ?_ (by simp [Sched.emit])
    intro n hop
    have fits := entered.fits.2
    simp only [pending, hop, Call.receive.injEq] at fits
    rw [pending, fits]
  | @queueSend s f ch v entered pending alone =>
    refine h.block (t := f.self) (f := f) [.blocked (.senders ch) f.call]
      (by simp [Sched.emit, Env.emit]) (by simp [Event.Silent]) ?_ (by simp [Sched.emit])
    intro n hop
    have fits := entered.fits.2
    simp [pending, hop] at fits
  | meetSender entered op pending partner =>
    exact h.meetSender hR queues calls entered op partner
  | meetReceiver entered op pending partner =>
    exact h.meetReceiver queues calls entered op partner
  | die => exact h.place [_] rfl (by simp [Event.Silent]) rfl (by simp)
  | @pick s u us x away first =>
    obtain ⟨f, hf, hq⟩ := (queues.queued .ready u).mp (by simp [first])
    refine h.chooseOther [] rfl (by simp) rfl hf fun receives => ?_
    -- nobody who receives is ready
    simp only [Frame.Receives] at receives
    split at receives
    · next hp => simp [hp, Pending.queue] at hq
    · exact receives
  | @fallback s x away ready hub reason may =>
    obtain ⟨f, hf⟩ := Sched.main_blocked core away
    exact h.chooseOther [_] rfl (by simp [Event.Silent]) rfl hf fun receives =>
      absurd may (hR.last s f hf receives (reason.imp id And.left))
  | fire x hub control first due active place pending =>
    rw [Sched.fire_eq active]
    exact h.chooseOther [_] rfl (by simp [Event.Silent]) rfl place
      (by simp [Frame.Receives, pending])
  | answer x hub control active data place pending =>
    exact h.chooseOther [_, _] rfl (by simp [Event.Silent]) rfl place
      (by simp [Frame.Receives, pending])
  | resume away place dead => exact h.resume calls place _
  | start => exact h.place [_, _] rfl (by simp [Event.Silent]) rfl (by simp)
  | @enterHub s died away ready dead =>
    rw [Sched.enterHub_eq]
    refine h.quiet _ (List.append_assoc ..).symm ?_ fun _ _ ht => .inl ht
    intro ev hev
    rcases Sched.mem_hubEvents hev with rfl | rfl | ⟨t, -, -, rfl⟩ <;> trivial
  | init => exact h.place [_] rfl (by simp [Event.Silent]) rfl (by simp)

end Deliveries

theorem scheduler_deliveries {R : Rules} {Item : Word → Prop} (hR : R.ReceiversFirst Item) {s : Sched}
    (r : scheduler.Reach R.Admit s) : Deliveries Item ⟨s, none⟩ :=
  scheduler_invariant (fun _ h => .initial h) (fun _ _ b h hm => h.move hR b.core b.calls hm) r

end Gevent
