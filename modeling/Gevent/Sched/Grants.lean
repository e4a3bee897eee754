import Gevent.Sched.Permits
import Gevent.Sched.Path

/-!
# What one move does to a semaphore

On the channel inside a sealed semaphore nobody ever waits to send
(`Ledger.move`), and every move changes the semaphore in one of the ways that
`SemMove` lists (`Move.sem`).
-/

namespace Gevent

namespace Ledger
variable {R : Rules} {m : Sem} {s s' : Sched} {k k' : Option (Tid × Leftover)} {f : Frame} {u : Tid}

theorem initial (h : s.Initial) : Ledger m ⟨s, none⟩ where
  senders := h.queue _
  sending k t v l hl := by
    rw [h.log] at hl
    cases hl
  acquirers t f ht := by
    rw [h.place] at ht
    by_cases he : t = s.main <;> simp [he] at ht

/-- Nobody queues to send, and nobody blocks in an acquire call but to wait. -/
theorem keep (h : Ledger m ⟨s, k⟩)
    (senders : s.queue (.senders (.ofSem m)) = [] → s'.queue (.senders (.ofSem m)) = [])
    (sending : ∀ i t v l, s'.env.log = .call i t (.send (.ofSem m) v) :: l → s'.waiters m ≠ [])
    (place : ∀ t g, s'.place t = .blocked g → s.place t = .blocked g ∨
      (g.Acquires m → g.pending = .receive (.ofSem m))) : Ledger m ⟨s', k'⟩ where
  senders := senders h.senders
  sending := sending
  acquirers t g ht ha := (place t g ht).elim (fun hold => h.acquirers t g hold ha) fun new => new ha

/-- A cothread blocks that does not queue to send. -/
theorem block (h : Ledger m ⟨s, k⟩) (senders : f.pending.queue ≠ some (.senders (.ofSem m)))
    (acquires : f.Acquires m → f.pending = .receive (.ofSem m)) :
    Ledger m ⟨s.block u f, k'⟩ := by
  refine h.keep (fun hs => ?_) (fun i t v l hl => ?_) fun t g ht => ?_
  · rw [Sched.block_queue, if_neg senders, hs]
  · have hold := h.sending i t v l (Sched.block_env .. ▸ hl)
    rw [Sched.waiters, Sched.block_queue]
    split
    · simp
    · exact hold
  · rw [Sched.block_place] at ht
    by_cases htu : t = u
    · subst htu
      rw [Function.update_self] at ht
      cases ht
      exact .inr acquires
    · exact .inl (by rwa [Function.update_of_ne htu] at ht)

/-- The places of cothreads in no call change. -/
theorem place {t : Tid} {p : Place} (h : Ledger m ⟨s, k⟩) (log : ¬ CallLast s'.env.log)
    (queue : s'.queue = s.queue) (place : s'.place = Function.update s.place t p)
    (hp : ∀ g, p ≠ .blocked g) : Ledger m ⟨s', k'⟩ := by
  refine h.keep (fun hs => by rw [queue, hs]) (fun i u v l hl => absurd ⟨_, _, _, _, hl⟩ log) ?_
  intro u g hu
  rw [place] at hu
  by_cases hut : u = t
  · subst hut
    rw [Function.update_self] at hu
    exact absurd hu (hp g)
  · exact .inl (by rwa [Function.update_of_ne hut] at hu)

/-- Something else than a call happened. -/
theorem still (h : Ledger m ⟨s, k⟩) (log : ¬ CallLast s'.env.log) (queue : s'.queue = s.queue)
    (place : s'.place = s.place) : Ledger m ⟨s', k'⟩ :=
  h.keep (fun hs => by rw [queue, hs]) (fun _ _ _ _ hl => absurd ⟨_, _, _, _, hl⟩ log)
    fun t g ht => .inl (place ▸ ht)

/-- Nothing happened that the history tells. -/
theorem idle (h : Ledger m ⟨s, k⟩) (log : s'.env.log = s.env.log) (queue : s'.queue = s.queue)
    (place : s'.place = s.place) : Ledger m ⟨s', k'⟩ := by
  refine h.keep (fun hs => by rw [queue, hs]) (fun i t v l hl => ?_) fun t g ht => .inl (place ▸ ht)
  rw [Sched.waiters, queue]
  exact h.sending i t v l (log ▸ hl)

theorem move {o o' : Moment} (hR : R.Sealed m) (h : Ledger m o) (hm : Move R o o') : Ledger m o' := by
  cases hm with
  | @enter s t c running may =>
    refine h.keep (fun hs => hs) (fun i u v l hl => ?_) fun t g ht => .inl ht
    cases (List.cons.inj hl).1
    exact absurd may (hR _ v)
  | @acquireWaits s t k m' called taken =>
    refine h.keep (fun hs => hs) (fun i u v l hl => ?_) fun t g ht => .inl ht
    cases (List.cons.inj hl).1
  | @releaseMeets s t k m' called waiting =>
    refine h.keep (fun hs => hs) (fun i u v l hl => ?_) fun t g ht => .inl ht
    cases (List.cons.inj hl).1
    exact waiting
  | take | give | fallback | answer | poll | drop | hubEnd | semInit | tick =>
    exact h.still (not_callLast rfl) rfl rfl
  | pick | turn | setExitFn | updateTime | others => exact h.idle rfl rfl rfl
  | @refuse s t k o called fails =>
    have last : ∀ l, ¬ CallLast (.ret k t (.getaddrinfo o) (.addrinfo (.data (-1)) none) :: l) :=
      fun _ => not_callLast rfl
    exact h.still (last _) rfl rfl
  | @pause s f entered kind =>
    refine h.block ?_ fun ha => ?_
    · rcases kind with hf | hf <;> simp [hf, Pending.queue]
    · rcases ha.kind entered.fits with hp | ⟨v, hp⟩
      · exact hp
      · rcases kind with hf | hf <;> rw [hp] at hf <;> cases hf
  | @sleep s f timeout ref entered pending nonneg kind =>
    have h₁ : Ledger m ⟨s.arm f.self f.call timeout.toNat ref, none⟩ := by
      rw [Sched.arm_eq]
      exact h.still (not_callLast rfl) rfl rfl
    refine h₁.block (by simp [pending, Pending.queue]) fun ha => ?_
    rcases ha.kind entered.fits with hp | ⟨v, hp⟩ <;> rw [pending] at hp <;> cases hp
  | @lookup s f entered pending =>
    have h₁ : Ledger m ⟨s.submit f.self f.call, none⟩ := h.still (not_callLast rfl) rfl rfl
    refine h₁.block (by simp [pending, Pending.queue]) fun ha => ?_
    rcases ha.kind entered.fits with hp | ⟨v, hp⟩ <;> rw [pending] at hp <;> cases hp
  | @queueReceive s f ch entered pending alone =>
    have h₁ : Ledger m ⟨s.emit (.blocked (.receivers ch) f.call), none⟩ :=
      h.still (not_callLast rfl) rfl rfl
    refine h₁.block (by simp [pending, Pending.queue]) fun ha => ?_
    rcases ha.kind entered.fits with hp | ⟨v, hp⟩
    · exact hp
    · rw [pending] at hp
      cases hp
  | @queueSend s f ch v entered pending alone =>
    have hop : f.op = .send ch v := by
      have fits := entered.fits.2
      rwa [pending] at fits
    have h₁ : Ledger m ⟨s.emit (.blocked (.senders ch) f.call), none⟩ :=
      h.still (not_callLast rfl) rfl rfl
    refine h₁.block ?_ fun ha => ?_
    · simp only [pending, Pending.queue, ne_eq, Option.some.injEq, QueueId.senders.injEq]
      rintro rfl
      obtain ⟨l, hl⟩ := entered.log
      exact h.sending _ _ v l (hop ▸ hl) alone
    · rw [ha.op entered.fits] at hop
      cases hop
  | @meetSender s f ch u us x entered op pending partner =>
    have h₁ : Ledger m ⟨s.block f.self f, none⟩ := by
      refine h.block (by simp [pending, Pending.queue]) fun ha => ?_
      rw [ha.op entered.fits] at op
      cases op
      have hs : s.queue (.senders (.ofSem m)) = [] := h.senders
      rw [hs] at partner
      cases partner
    exact h₁.still (not_callLast rfl) rfl rfl
  | @meetReceiver s f ch v u us x entered op pending partner =>
    have h₁ : Ledger m ⟨s.block f.self f, none⟩ := by
      refine h.block (by simp [pending, Pending.queue]) fun ha => ?_
      rw [ha.op entered.fits] at op
      cases op
    exact h₁.still (not_callLast rfl) rfl rfl
  | @die s t running main =>
    exact h.place (t := t) (p := .dead) (not_callLast rfl) rfl rfl (by simp)
  | @fire s t ts x hub control first due active f place pending =>
    exact h.still (not_callLast rfl) rfl rfl
  | @resume s u x f died away place dead =>
    refine h.keep (fun hs => ?_) (fun i t v l hl => ?_) fun t g ht => ?_
    · rw [Sched.resume_queue place]
      split <;> simp [hs]
    · exact absurd ⟨_, _, _, _, hl⟩ (Sched.resume_last place x died)
    · rw [Sched.resume_place place] at ht
      by_cases htu : t = u
      · subst htu
        simp at ht
      · exact .inl (by rwa [Function.update_of_ne htu] at ht)
  | @start s u away new =>
    exact h.place (t := u) (p := .running) (not_callLast rfl) rfl rfl (by simp)
  | @enterHub s died away ready dead =>
    have hlast := s.enterHub_last died
    rw [Sched.enterHub_eq] at hlast ⊢
    exact h.still hlast rfl rfl
  | @init s t main free =>
    exact h.place (t := t) (p := .new) (not_callLast rfl) rfl rfl (by simp)

end Ledger

section
variable {R : Rules} {m : Sem} {s s' : Sched} {u : Tid} {f : Frame}

theorem waiters_block (h : f.pending ≠ .receive (.ofSem m)) :
    (s.block u f).waiters m = s.waiters m := by
  rw [Sched.waiters, Sched.block_queue, if_neg]
  · rfl
  · obtain ⟨self, call, op, pending, caller⟩ := f
    cases pending <;> simp_all [Pending.queue]

/-- What a frame that waits for no permit returns says nothing about permits. -/
theorem Frame.returns_neutral (fits : f.Fits) (h : ¬ f.Acquires m) (r : Result)
    (counter : Sem → Int) : ∀ ev ∈ f.returns r counter, ev.Neutral m := by
  have own : (Event.ret f.call f.self f.op r).Neutral m := by
    have hop := fits.2
    obtain ⟨self, call, op, pending, caller⟩ := f
    refine ⟨rfl, ?_, rfl⟩
    cases op with
    | acquire m' => cases pending <;> simp at hop
    | _ => rfl
  intro ev hev
  obtain ⟨self, call, op, pending, caller⟩ := f
  cases caller with
  | program =>
    rw [List.mem_singleton.mp hev]
    exact own
  | acquire k m' =>
    rcases List.mem_cons.mp hev with rfl | hev
    · refine ⟨rfl, ?_, rfl⟩
      simp only [Event.acquired, decide_eq_false_iff_not]
      rintro rfl
      exact h ⟨k, rfl⟩
    · rw [List.mem_singleton.mp hev]
      exact own
  | release k m' =>
    rcases List.mem_cons.mp hev with rfl | hev
    · exact ⟨rfl, rfl, rfl⟩
    · rw [List.mem_singleton.mp hev]
      exact own

theorem Env.switching_neutral (e : Env) (new died : Option Tid) :
    ∀ ev ∈ e.switching new died, ev.Neutral m := by
  intro ev hev
  rcases Env.mem_switching.mp hev with rfl | ⟨t, -, -, rfl⟩ <;> exact ⟨rfl, rfl, rfl⟩

/-- The call of a blocked cothread returns. -/
theorem Ledger.resume {x : Leftover} {died : Option Tid} (h : Ledger m ⟨s, some (u, x)⟩)
    (hself : f.self = u) (fits : f.Fits) (place : s.place u = .blocked f) :
    SemMove R m ⟨s, some (u, x)⟩ ⟨s.resume u x died, none⟩ := by
  have last := Sched.resume_last place x died
  obtain ⟨tm, hs, n, he⟩ := Sched.resume_shape place x died
  have counter : (s.resume u x died).env.counter m = s.env.counter m := by rw [he]
  have waiters : (s.resume u x died).waiters m =
      if f.pending = .receive (.ofSem m) then (s.waiters m).erase u else s.waiters m := by
    rw [Sched.waiters, Sched.resume_queue place]
    obtain ⟨self, call, op, pending, caller⟩ := f
    cases pending <;> simp [Pending.queue, Sched.waiters]
  by_cases ha : f.Acquires m
  · have hp := h.acquirers u f place ha
    rw [if_pos hp] at waiters
    obtain ⟨k, hk⟩ := ha
    refine .grant u (.ret f.call f.self f.op (f.pending.result x) :: s.env.switching (some u) died)
      k (.int (s.env.counter m)) (.inr (.inr ⟨u, x, f, rfl, place, k, hk⟩)) ?_ ?_ counter waiters rfl
    · rw [he]
      simp [Frame.returns, hk, hself]
    · intro ev hev
      rcases List.mem_cons.mp hev with rfl | hev
      · rw [Frame.Acquires.op ⟨k, hk⟩ fits]
        exact ⟨rfl, rfl, rfl⟩
      · exact Env.switching_neutral _ _ _ ev hev
  · have log : (s.resume u x died).env.log = (f.returns (f.pending.result x) s.env.counter ++
        s.env.switching (some u) died) ++ s.env.log := by rw [he]; simp
    have neutral : ∀ ev ∈ f.returns (f.pending.result x) s.env.counter ++
        s.env.switching (some u) died, ev.Neutral m := by
      intro ev hev
      rcases List.mem_append.mp hev with hev | hev
      · exact Frame.returns_neutral fits ha _ _ ev hev
      · exact Env.switching_neutral _ _ _ ev hev
    by_cases hp : f.pending = .receive (.ofSem m)
    · rw [if_pos hp] at waiters
      exact .leave u _ log last neutral counter waiters rfl
    · rw [if_neg hp] at waiters
      exact .choose _ log last neutral (by rw [he]) waiters (by simp)

/-- A call is entered. -/
theorem SemMove.enter {t : Tid} {c : Call} (hR : R.Sealed m) (may : R.call (s.enter t c) c) :
    SemMove R m ⟨s, none⟩ ⟨s.enter t c, none⟩ := by
  by_cases hc : c = .release m
  · subst hc
    exact .release _ _ rfl rfl rfl
  · refine .still [.call s.env.calls t c] rfl ?_ rfl rfl ?_ ?_
    · simp only [List.mem_singleton, forall_eq]
      cases c with
      | release m' => simpa using hc
      | _ => simp
    · refine fun hg => absurd hg (not_granting_call rfl rfl hc fun v => ?_)
      rintro rfl
      exact hR _ v may
    · rintro ⟨k, u, l, hl⟩
      cases (List.cons.inj hl).1
      exact .inr (.inr ⟨_, may⟩)

/-- `gevent_semaphore_acquire` finds no permit. -/
theorem SemMove.acquireWaits {t : Tid} {m' : Sem} (taken : s.env.counter m' ≤ 0) :
    SemMove R m ⟨s, none⟩ ⟨s.enter t (.receive (.ofSem m')), none⟩ := by
  refine .still [.call s.env.calls t (.receive (.ofSem m'))] rfl (by simp) rfl rfl
    (fun hg => absurd hg (not_granting_call rfl rfl (by simp) (by simp))) ?_
  rintro ⟨k, u, l, hl⟩
  cases (List.cons.inj hl).1
  exact .inr (.inl taken)

/-- `gevent_semaphore_release` finds a waiter. -/
theorem SemMove.releaseMeets {t : Tid} {k : CallId} {m' : Sem} (called : s.Called t k (.release m')) :
    SemMove R m ⟨s, none⟩ ⟨s.enter t (.send (.ofSem m') .null), none⟩ := by
  refine .still [.call s.env.calls t (.send (.ofSem m') .null)] rfl (by simp) rfl rfl ?_ ?_
  · rintro (⟨i, u, l, hl⟩ | ⟨i, u, v, l, hl⟩ | ⟨u, x, f, hw, -⟩)
    · cases (List.cons.inj hl).1
    · cases (List.cons.inj hl).1
      exact .inl ⟨_, _, called.log⟩
    · cases hw
  · rintro ⟨i, u, l, hl⟩
    cases (List.cons.inj hl).1

/-- Another semaphore's counter changes. -/
theorem SemMove.other {ev : Event} (log : s'.env.log = ev :: s.env.log) (call : ev.isCall = false)
    (neutral : ev.Neutral m) (counter : s'.env.counter m = s.env.counter m)
    (queue : s'.queue = s.queue) : SemMove R m ⟨s, none⟩ ⟨s', none⟩ := by
  have last : ¬ CallLast s'.env.log := by
    rw [log]
    exact not_callLast call
  exact .still [ev] log (by simpa using neutral) counter (by rw [Sched.waiters, queue]; rfl)
    (fun hg => absurd hg (not_granting last rfl)) fun he => absurd he (not_entering last)

theorem SemMove.takes {t : Tid} {k : CallId} {m' : Sem} (free : 0 < s.env.counter m') :
    SemMove R m ⟨s, none⟩ ⟨s.take t k m', none⟩ := by
  by_cases hmm : m' = m
  · subst hmm
    refine .take k t _ free rfl ?_ rfl rfl
    simp [Sched.take, Sched.leave, Sched.emit, Env.emit, Env.setCounter]
  · refine .other rfl rfl (by simpa using hmm) ?_ rfl
    simp [Sched.take, Sched.leave, Sched.emit, Env.emit, Env.setCounter, Ne.symm hmm]

theorem SemMove.gives {t : Tid} {k : CallId} {m' : Sem} (called : s.Called t k (.release m'))
    (may : R.call s (.release m')) (alone : s.queue (.receivers (.ofSem m')) = []) :
    SemMove R m ⟨s, none⟩ ⟨s.give t k m', none⟩ := by
  by_cases hmm : m' = m
  · subst hmm
    refine .give k t _ alone may (.inl ⟨_, _, called.log⟩) rfl ?_ rfl rfl
    simp [Sched.give, Sched.leave, Sched.emit, Env.emit, Env.setCounter]
  · refine .other rfl rfl (by simp) ?_ rfl
    simp [Sched.give, Sched.leave, Sched.emit, Env.emit, Env.setCounter, Ne.symm hmm]

theorem SemMove.inits {m' : Sem} {c : Int} (receivers : s.queue (.receivers (.ofSem m')) = [])
    (low : -2 ^ 31 ≤ c) (high : c < 2 ^ 31) :
    SemMove R m ⟨s, none⟩ ⟨{ s with env := (s.env.setCounter m' c).emit (.semInit m' c) }, none⟩ := by
  by_cases hmm : m' = m
  · subst hmm
    exact .init c low high rfl (by simp [Env.emit, Env.setCounter]) receivers rfl
  · exact .other rfl rfl (by simpa using hmm) (by simp [Env.emit, Env.setCounter, Ne.symm hmm]) rfl

/-- Something happens, and the caller blocks, in no acquire call. -/
theorem SemMove.blocks {e : Env} {es : List Event} (log : e.log = es ++ s.env.log)
    (last : ¬ CallLast e.log) (neutral : ∀ ev ∈ es, ev.Neutral m)
    (counter : e.counter = s.env.counter) (pending : f.pending ≠ .receive (.ofSem m)) :
    SemMove R m ⟨s, none⟩ ⟨({ s with env := e } : Sched).block u f, none⟩ :=
  .choose es (by simpa using log) (by simpa using last) neutral (by simpa using counter)
    (waiters_block pending) fun _ _ _ hw => by cases hw

/-- A receive call finds no sender. -/
theorem SemMove.receiver {ch : Chan} (entered : s.Entered R f) (pending : f.pending = .receive ch) :
    SemMove R m ⟨s, none⟩ ⟨(s.emit (.blocked (.receivers ch) f.call)).block f.self f, none⟩ := by
  by_cases hch : ch = .ofSem m
  · subst hch
    have hop := entered.fits.2
    rw [pending] at hop
    refine .wait f.self f.call ⟨f.call, f.self, ?_⟩ (by simp [Sched.emit, Env.emit])
      (by simp [Sched.emit, Env.emit]) ?_ rfl
    · exact hop ▸ entered.log
    · rw [Sched.waiters, Sched.block_queue, pending]
      exact if_pos rfl
  · have log : (s.env.emit (.blocked (.receivers ch) f.call)).log =
        [.blocked (.receivers ch) f.call] ++ s.env.log := rfl
    exact .blocks log (not_callLast rfl) (by simp) rfl (by simpa [pending] using hch)

/-- A receive call meets a blocked sender. -/
theorem Ledger.meetSender {ch : Chan} {us : List Tid} {x : Leftover} (h : Ledger m ⟨s, none⟩)
    (core : Core ⟨s, none⟩) (running : s.place f.self = .running)
    (pending : f.pending = .received (s.offer u)) (partner : s.queue (.senders ch) = u :: us) :
    SemMove R m ⟨s, none⟩ ⟨(s.block f.self f).emit
      (.handover ch (s.env.inCall u) f.call (s.offer u)), some (u, x)⟩ := by
  obtain ⟨g, hg, hq, hne⟩ := core.partner running partner
  have waits : g.pending ≠ .receive (.ofSem m) := by
    intro hp
    rw [hp] at hq
    cases hq
  exact .choose [.handover ch (s.env.inCall u) f.call (s.offer u)] (by simp [Sched.emit, Env.emit])
    (by simpa [Sched.emit, Env.emit] using not_callLast rfl) (by simp)
    (by simp [Sched.emit, Env.emit]) (waiters_block (by simp [pending]))
    (h.chosen hg waits (by simp [Sched.emit, hne]))

/-- A send call, perhaps that of a release call, meets a blocked receiver. -/
theorem Ledger.meetReceiver {ch : Chan} {v : Word} {us : List Tid} {x : Leftover}
    (h : Ledger m ⟨s, none⟩) (core : Core ⟨s, none⟩) (entered : s.Entered R f)
    (op : f.op = .send ch v) (pending : f.pending = .sent)
    (partner : s.queue (.receivers ch) = u :: us) :
    SemMove R m ⟨s, none⟩ ⟨(s.block f.self f).emit
      (.handover ch f.call (s.env.inCall u) v), some (u, x)⟩ := by
  obtain ⟨g, hg, hq, hne⟩ := core.partner entered.running partner
  have last : ¬ CallLast ((s.block f.self f).emit
      (.handover ch f.call (s.env.inCall u) v)).env.log := not_callLast rfl
  refine .still [.handover ch f.call (s.env.inCall u) v] (by simp [Sched.emit, Env.emit]) (by simp)
    (by simp [Sched.emit, Env.emit]) (waiters_block (by simp [pending])) ?_
    fun he => absurd he (not_entering last)
  rintro (⟨k, t, l, hl⟩ | ⟨k, t, w, l, hl⟩ | ⟨u', x', g', hw, hg', ha⟩)
  · exact absurd ⟨_, _, _, _, hl⟩ last
  · exact absurd ⟨_, _, _, _, hl⟩ last
  · cases hw
    have hg' : s.place u = .blocked g' := by simpa [Sched.emit, hne] using hg'
    rw [hg] at hg'
    cases hg'
    rw [h.acquirers u g hg ha] at hq
    cases hq
    obtain ⟨l, hl⟩ := entered.log
    exact .inr (.inl ⟨f.call, f.self, v, l, op ▸ hl⟩)

/-- The last resort of `_get_next_stacklet`. -/
theorem SemMove.fallback {x : Leftover} (b : Base ⟨s, none⟩) (away : s.Away) (may : R.last s)
    (reason : (∃ t l, s.env.log = .finish t :: l) ∨ ∃ l, s.env.log = .runEnd :: l) :
    SemMove R m ⟨s, none⟩ ⟨s.emit (.fallback (s.env.inCall s.main)), some (s.main, x)⟩ := by
  obtain ⟨f, hf⟩ := Sched.main_blocked b.core away
  by_cases ha : f.Acquires m
  · have hself := b.core.queues.self _ f hf
    have hcall := (b.calls.frame _ f hf).inCall
    rw [hself] at hcall
    have hcall : s.env.inCall s.main = f.call := hcall
    refine .resort f hf ha may reason ?_ rfl rfl
    simp [Sched.emit, Env.emit, hcall]
  · exact .choose [_] rfl (not_callLast rfl) (by simp) rfl rfl (Sched.chosen hf ha)

/-- The loop ends a sleep. -/
theorem Ledger.fire {t : Tid} {x : Leftover} (h : Ledger m ⟨s, none⟩)
    (active : (s.env.timer t).active = true) (place : s.place t = .blocked f)
    (pending : f.pending = .sleep) : SemMove R m ⟨s, none⟩ ⟨s.fire t, some (t, x)⟩ := by
  rw [Sched.fire_eq active]
  exact .choose [.fired (s.env.armedBy t)] rfl (not_callLast rfl) (by simp) rfl rfl
    (h.chosen place (by simp [pending]) rfl)

theorem SemMove.enterHub {died : Option Tid} :
    SemMove R m ⟨s, none⟩ ⟨s.enterHub died, none⟩ := by
  have hlast := s.enterHub_last died
  rw [Sched.enterHub_eq] at hlast ⊢
  refine .choose _ (List.append_assoc ..).symm hlast (fun ev hev => ?_) rfl rfl
    fun _ _ _ hw => by cases hw
  rcases Sched.mem_hubEvents hev with rfl | rfl | ⟨t, -, -, rfl⟩ <;> simp

theorem Move.sem {o o' : Moment} (hR : R.Sealed m) (h : Ledger m o) (b : Base o)
    (hm : Move R o o') : SemMove R m o o' := by
  have nobody : ∀ {s' : Sched} (u : Tid) (x : Leftover) (f : Frame),
      (none : Option (Tid × Leftover)) = some (u, x) → s'.place u = .blocked f → ¬ f.Acquires m := by
    intro _ _ _ _ hn
    cases hn
  cases hm with
  | enter c running may => exact .enter hR may
  | acquireWaits called taken => exact .acquireWaits taken
  | releaseMeets called waiting => exact .releaseMeets called
  | take called free => exact .takes free
  | give called may alone => exact .gives called may alone
  | semInit receivers senders low high => exact .inits receivers low high
  | die | poll | hubEnd | tick | init =>
    exact .choose [_] rfl (not_callLast rfl) (by simp) rfl rfl nobody
  | drop | start => exact .choose [_, _] rfl (not_callLast rfl) (by simp) rfl rfl nobody
  | turn | setExitFn | updateTime | others => exact .idle rfl rfl rfl nobody
  | @refuse s t k o called fails =>
    cases o with
    | noMemory => exact .choose [_] rfl (not_callLast rfl) (by simp) rfl rfl nobody
    | failed => exact .choose [_, _, _] rfl (not_callLast rfl) (by simp) rfl rfl nobody
    | submitted => exact absurd rfl fails
  | @pause s f entered kind =>
    refine .idle (by simp) (by simp) (waiters_block ?_) nobody
    rcases kind with hf | hf <;> simp [hf]
  | @sleep s f timeout ref entered pending nonneg kind =>
    rw [Sched.arm_eq]
    have log : ∀ ev, ev :: s.env.log = [ev] ++ s.env.log := fun _ => rfl
    exact .blocks (log _) (not_callLast rfl) (by simp) rfl (by simp [pending])
  | @lookup s f entered pending =>
    have log : (s.submit f.self f.call).env.log =
        [.submitted f.call s.env.nextReq, .malloc s.env.nextReq] ++ s.env.log := rfl
    exact .blocks log (not_callLast rfl) (by simp) rfl (by simp [pending])
  | queueReceive entered pending alone => exact .receiver entered pending
  | @queueSend s f ch v entered pending alone =>
    have log : (s.emit (.blocked (.senders ch) f.call)).env.log =
        [.blocked (.senders ch) f.call] ++ s.env.log := rfl
    exact .blocks log (not_callLast rfl) (by simp) rfl (by simp [pending])
  | meetSender entered op pending partner => exact h.meetSender b.core entered.running pending partner
  | meetReceiver entered op pending partner => exact h.meetReceiver b.core entered op pending partner
  | @pick s u us x away first =>
    obtain ⟨g, hg, hq⟩ := (b.core.queues.queued .ready u).mp (by simp [first])
    refine .idle rfl rfl rfl (h.chosen hg (fun waits => ?_) rfl)
    rw [waits] at hq
    cases hq
  | fallback x away ready hub reason may =>
    exact .fallback b away may (reason.imp id fun hr => hr.1)
  | fire x hub control first due active place pending => exact h.fire active place pending
  | @answer s r error res my x hub control active data f place pending =>
    exact .choose [_, _] rfl (not_callLast rfl) (by simp) rfl rfl
      (h.chosen place (by simp [pending]) rfl)
  | @resume s u x f died away place dead =>
    exact h.resume (b.core.queues.self u f place) (b.calls.frame u f place).fits place
  | enterHub away ready dead => exact .enterHub

end

end Gevent
