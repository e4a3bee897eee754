import Mathlib.Data.List.Dedup
import Mathlib.Data.List.Perm.Subperm
import Gevent.Refine.Views
import Gevent.Sched.Alarms

/-!
# Passes over the timers

Between two polls the loop resumes each sleeping cothread at most once, so that a
pass of `uv__run_timers` ends, as long as a cothread that was resumed in the pass
does not arm its timer for a time that has come (`passes_end`).
-/

namespace Gevent

/-- Whose timer call `k` armed. -/
def armer (k : CallId) : List Event → Option Tid
  | [] => none
  | .armed k' t _ :: l => if k' = k then some t else armer k l
  | _ :: l => armer k l

/-- The cothreads that `sleep_cb` has resumed since the loop last polled. -/
def resumed : List Event → List Tid
  | [] => []
  | .poll :: _ => []
  | .fired k :: l => (armer k l).toList ++ resumed l
  | _ :: l => resumed l

/-- A timer fires for a cothread that was not resumed before in the pass. -/
def Event.OncePerPass : Event → List Event → Prop
  | .fired k, past => ∃ t, armer k past = some t ∧ t ∉ resumed past
  | _, _ => True

/-- The timeout with which a call arms its timer. -/
def Call.timeout : Call → Option Int
  | .sleep d => some d
  | .wait d => if 0 < d then some d else none
  | _ => none

/-- Neither polls nor runs `sleep_cb`. -/
def Event.Aside : Event → Prop
  | .poll | .fired _ => False
  | _ => True

section
variable {es log : List Event} {k : CallId} {ev : Event}

theorem Event.Timeless.aside (h : ev.Timeless) : ev.Aside := by
  cases ev <;> simp_all [Timeless, Aside]

theorem resumed_append (h : ∀ ev ∈ es, ev.Aside) : resumed (es ++ log) = resumed log := by
  induction es with
  | nil => rfl
  | cons ev es ih =>
    have hes := ih fun e he => h e (List.mem_cons_of_mem _ he)
    have hev := h ev List.mem_cons_self
    cases ev with
    | poll | fired k => exact hev.elim
    | _ => exact hes

theorem armer_append (h : ∀ k t D, .armed k t D ∉ es) : armer k (es ++ log) = armer k log := by
  induction es with
  | nil => rfl
  | cons ev es ih =>
    have hes := ih fun k t D he => h k t D (List.mem_cons_of_mem _ he)
    cases ev with
    | armed k t D => exact absurd List.mem_cons_self (h k t D)
    | _ => exact hes

end

/-- A cothread that was resumed in the pass arms its timer for the future, and
`uv_update_time` leaves such timers in the future. -/
def Rules.ahead : Rules where
  call s c := ∀ k t l, s.env.log = .call k t c :: l → t ∈ resumed l → ∀ d ∈ c.timeout,
    s.env.loop.time < (s.env.loop.time + d.toNat) % 2 ^ 64
  last _ := True
  update s := ∀ t ∈ resumed s.env.log, t ∈ s.env.loop.timerHandles →
    s.env.clock < (s.env.timer t).timeout

/-- Cothreads are resumed by `sleep_cb` only in `uv__run_timers`. -/
def Moment.InPass (m : Moment) : Prop :=
  resumed m.sched.env.log ≠ [] → m.sched.hub = .suspended .timers ∨
    m.sched.hub = .running ∧ m.sched.control = .hub .timers

theorem Frame.returns_aside {f : Frame} {r : Result} {counter : Sem → Int} :
    ∀ ev ∈ f.returns r counter, ev.Aside := by
  intro ev hev
  obtain ⟨k, c, r', rfl, -⟩ := Frame.mem_returns hev
  trivial

theorem Move.inPass {R : Rules} {m m' : Moment} (h : m.InPass) (hm : Move R m m') : m'.InPass := by
  cases hm with
  | enter | acquireWaits | releaseMeets | take | give | drop | semInit | setExitFn | updateTime
  | others | tick | init | die | pick | fallback => exact h
  | refuse called fails =>
    rename_i o
    cases o with
    | submitted => exact absurd rfl fails
    | noMemory | failed => exact h
  | pause | lookup | queueReceive | queueSend | meetSender | meetReceiver =>
    intro hne
    simpa [Sched.emit, Sched.submit] using
      h (by simpa [Sched.emit, Env.emit, Sched.submit, Env.submit, Env.mallocReq, resumed] using hne)
  | sleep =>
    intro hne
    simp only [Sched.arm_eq, Sched.block_env, Sched.block_hub, Sched.block_control] at hne ⊢
    exact h hne
  | fire => exact fun _ => .inl rfl
  | poll => exact fun hne => absurd rfl hne
  | answer x hub control =>
    intro hne
    rcases h hne with h | ⟨-, h⟩
    · rw [hub] at h
      cases h
    · rw [control] at h
      cases h
  | turn hub control | hubEnd hub control =>
    intro hne
    rcases h hne with h | ⟨-, h⟩
    · rw [hub] at h
      cases h
    · exact absurd h control
  | @resume s u x f died away place dead =>
    intro hne
    obtain ⟨timer, handles, active, he⟩ := Sched.resume_shape place x died
    simp only [he, ← List.append_assoc] at hne
    rw [resumed_append] at hne
    · rw [Sched.resume_hub place]
      exact .inl ((h hne).resolve_right fun hr => away.hub hr.1)
    · intro ev hev
      rcases List.mem_append.mp hev with hev | hev
      · exact Frame.returns_aside ev hev
      · exact (Env.switching_timeless ev hev).aside
  | start away new =>
    intro hne
    exact .inl ((h hne).resolve_right fun hr => away.hub hr.1)
  | @enterHub s died away ready dead =>
    rw [Sched.enterHub_eq]
    intro hne
    simp only [← List.append_assoc] at hne
    rw [resumed_append] at hne
    · have hub := (h hne).resolve_right fun hr => away.hub hr.1
      exact .inr ⟨rfl, by simp [Sched.entryPhase, show s.hub = _ from hub]⟩
    · intro ev hev
      rcases List.mem_append.mp hev with hev | hev
      · rw [Sched.mem_entryEvents hev]
        trivial
      · exact (Env.switching_timeless ev hev).aside

theorem Move.known {R : Rules} {m m' : Moment} (hm : Move R m m') {t : Tid}
    (ht : t ∈ m.sched.env.known) : t ∈ m'.sched.env.known := by
  cases hm with
  | init => exact List.mem_cons_of_mem _ ht
  | sleep =>
    rw [Sched.arm_eq]
    simpa using ht
  | resume away place =>
    obtain ⟨timer, handles, active, he⟩ := Sched.resume_shape place _ _
    rw [he]
    exact ht
  | enterHub =>
    rw [Sched.enterHub_eq]
    exact ht
  | refuse called fails =>
    rename_i o
    cases o <;> exact ht
  | fire x hub control first due active =>
    simpa [Sched.fire, Sched.emit, Env.emit, Env.timerStop_eq _ active] using ht
  | pause | lookup | queueReceive | queueSend | meetSender | meetReceiver =>
    simpa [Sched.emit, Env.emit, Sched.submit, Env.submit, Env.mallocReq] using ht
  | _ => exact ht

/-- The timers of the cothreads resumed in the pass are not due. -/
structure Passes (m : Moment) : Prop where
  inPass : m.InPass
  ahead : ∀ t ∈ resumed m.sched.env.log, t ∈ m.sched.env.loop.timerHandles →
    m.sched.env.loop.time < (m.sched.env.timer t).timeout
  armer : ∀ t ∈ m.sched.env.loop.timerHandles, armer (m.sched.env.armedBy t) m.sched.env.log = some t
  known : ∀ t ∈ resumed m.sched.env.log, t ∈ m.sched.env.known
  nodup : (resumed m.sched.env.log).Nodup
  ordered : Hist Event.OncePerPass m.sched.env.log

namespace Passes
variable {m m' : Moment} {s : Sched} {t u : Tid} {f g : Frame} {l : List Event}

theorem initial (h : s.Initial) : Passes ⟨s, none⟩ where
  inPass := by simp [Moment.InPass, h.log, resumed]
  ahead := by simp [h.log, resumed]
  armer t ht := by simp [h.timers] at ht
  known := by simp [h.log, resumed]
  nodup := by simp [h.log, resumed]
  ordered := by simp [h.log, Hist, Event.OncePerPass]

/-- No timer is armed or fires. -/
theorem extend (h : Passes m) (inPass : m'.InPass)
    (known : ∀ t ∈ m.sched.env.known, t ∈ m'.sched.env.known)
    (log : m'.sched.env.log = l ++ m.sched.env.log) (aside : ∀ ev ∈ l, ev.Aside)
    (unarmed : ∀ k t D, .armed k t D ∉ l)
    (handles : ∀ t ∈ m'.sched.env.loop.timerHandles, t ∈ m.sched.env.loop.timerHandles ∧
      (m'.sched.env.timer t).timeout = (m.sched.env.timer t).timeout)
    (armedBy : m'.sched.env.armedBy = m.sched.env.armedBy)
    (time : ∀ t ∈ resumed m.sched.env.log, t ∈ m'.sched.env.loop.timerHandles →
      m'.sched.env.loop.time < (m'.sched.env.timer t).timeout) : Passes m' where
  inPass := inPass
  ahead t ht := by
    rw [log, resumed_append aside] at ht
    exact time t ht
  armer t ht := by
    rw [log, armer_append unarmed, armedBy]
    exact h.armer t (handles t ht).1
  known t ht := by
    rw [log, resumed_append aside] at ht
    exact known t (h.known t ht)
  nodup := by
    rw [log, resumed_append aside]
    exact h.nodup
  ordered := by
    rw [log]
    refine h.ordered.extend fun ev hev past => ?_
    have := aside ev hev
    cases ev with
    | fired k => exact this.elim
    | _ => trivial

theorem arm {timeout : Int} {ref : Bool} (h : Passes m) (b : Base m) (inPass : m'.InPass)
    (known : ∀ t ∈ m.sched.env.known, t ∈ m'.sched.env.known)
    (entered : m.sched.Entered .ahead f) (pending : f.pending = .sleep)
    (kind : f.op = (if ref then .sleep timeout else .wait timeout))
    (sched : m'.sched = (m.sched.arm f.self f.call timeout.toNat ref).block f.self f) :
    Passes m' := by
  obtain ⟨l, hlog⟩ := entered.log
  have hcmp : ∀ tm a b, uvTimerCmp tm a b = .eq → a = b := fun _ _ _ he => (uvTimerCmp_eq.mp he).2
  have log : m'.sched.env.log = [.armed f.call f.self
      ((m.sched.env.loop.time + timeout.toNat) % 2 ^ 64)] ++ m.sched.env.log := by
    rw [sched, Sched.block_env, Sched.arm_eq]
    rfl
  have same : resumed m'.sched.env.log = resumed m.sched.env.log := by
    rw [log]
    rfl
  refine ⟨inPass, ?_, ?_, ?_, ?_, ?_⟩
  · intro t ht hm
    rw [same] at ht
    simp only [sched, Sched.block_env, Sched.arm_eq, mem_rbInsert (hcmp _)] at hm ⊢
    by_cases hts : t = f.self
    · subst hts
      have outer := entered.outer
      rw [entered.fits.sleeps_program pending] at outer
      rw [hlog] at ht
      have hd : timeout ∈ f.op.timeout := by
        have fits := entered.fits.2
        rw [pending] at fits
        rcases fits with ⟨d, hop⟩ | ⟨d, hd, hop⟩ <;> rw [hop] at kind ⊢ <;>
          cases ref <;> simp at kind <;> simp [Call.timeout, kind]
        exact kind ▸ hd
      simpa using outer _ _ _ hlog ht timeout hd
    · simpa [hts] using h.ahead t ht (hm.resolve_left hts)
  · intro t hm
    rw [log]
    simp only [sched, Sched.block_env, Sched.arm_eq, mem_rbInsert (hcmp _)] at hm ⊢
    by_cases hts : t = f.self
    · subst hts
      simp [Gevent.armer]
    · have hm := hm.resolve_left hts
      obtain ⟨-, -, -, g, hg, hs, -⟩ := b.timers.armed t hm
      have hby := (b.timers.sleeper t g hg hs).1
      -- the timers in the tree belong to other calls
      have hne : f.call ≠ m.sched.env.armedBy t := by
        intro he
        have hmade := (b.calls.frame t g hg).made _ g.call_mem_made
        rw [← hby, ← he] at hmade
        have hown : .call f.call f.self f.op ∈ m.sched.env.log := by simp [hlog]
        have hself := (call_unique b.calls.ordered hmade hown).1
        exact hts ((b.core.queues.self t g hg).symm.trans hself)
      have old := h.armer t hm
      simpa [Gevent.armer, hts, hne] using old
  · rw [same]
    exact fun t ht => known t (h.known t ht)
  · rw [same]
    exact h.nodup
  · rw [log]
    exact ⟨trivial, h.ordered⟩

theorem fire {ts : List Tid} (h : Passes m) (b : Base m) (inPass : m'.InPass)
    (known : ∀ t ∈ m.sched.env.known, t ∈ m'.sched.env.known)
    (first : m.sched.env.loop.timerHandles = t :: ts)
    (due : (m.sched.env.timer t).timeout ≤ m.sched.env.loop.time)
    (active : (m.sched.env.timer t).active = true) (place : m.sched.place t = .blocked f)
    (sched : m'.sched = m.sched.fire t) : Passes m' := by
  have henv : m'.sched.env = (m.sched.env.timerStop t).emit (.fired (m.sched.env.armedBy t)) := by
    rw [sched]
    simp [Sched.fire, Sched.emit, Env.emit, Env.timerStop_eq _ active]
  rw [Env.timerStop_eq _ active] at henv
  have log : m'.sched.env.log = .fired (m.sched.env.armedBy t) :: m.sched.env.log := by
    rw [henv]
    rfl
  have hmem : t ∈ m.sched.env.loop.timerHandles := by simp [first]
  have hnew : t ∉ resumed m.sched.env.log := fun ht =>
    absurd (h.ahead t ht hmem) (Nat.not_lt.mpr due)
  have hres : resumed m'.sched.env.log = t :: resumed m.sched.env.log := by
    rw [log, resumed, h.armer t hmem]
    rfl
  refine ⟨inPass, ?_, ?_, ?_, ?_, ?_⟩
  · intro u hu hmu
    rw [hres] at hu
    have hmu : u ∈ m.sched.env.loop.timerHandles.erase t := by simpa [henv, Env.emit] using hmu
    obtain ⟨hut, hmu⟩ := b.timers.nodup.mem_erase_iff.mp hmu
    simpa [henv, Env.emit, hut] using h.ahead u ((List.mem_cons.mp hu).resolve_left hut) hmu
  · intro u hmu
    have hmu : u ∈ m.sched.env.loop.timerHandles.erase t := by simpa [henv, Env.emit] using hmu
    rw [log]
    simpa [henv, Env.emit, Gevent.armer] using h.armer u (List.mem_of_mem_erase hmu)
  · rw [hres]
    intro u hu
    rcases List.mem_cons.mp hu with rfl | hu
    · exact known u ((b.core.known u).mpr (by simp [place]))
    · exact known u (h.known u hu)
  · rw [hres]
    exact List.nodup_cons.mpr ⟨hnew, h.nodup⟩
  · rw [log]
    exact ⟨⟨t, h.armer t hmem, hnew⟩, h.ordered⟩

theorem step (h : Passes m) (b : Base m) (inPass : m'.InPass)
    (known : ∀ t ∈ m.sched.env.known, t ∈ m'.sched.env.known) (hm : TimerMove .ahead m m') :
    Passes m' := by
  have timers : ∀ {e : Env}, SameTimers m.sched.env e → ∀ t ∈ e.loop.timerHandles,
      t ∈ m.sched.env.loop.timerHandles ∧
      (e.timer t).timeout = (m.sched.env.timer t).timeout := by
    rintro e ⟨htm, hh, -⟩ t ht
    exact ⟨hh ▸ ht, by rw [htm]⟩
  cases hm with
  | still es log timeless same time clock main sleepers waking =>
    refine h.extend inPass known log (fun e he => (timeless e he).aside)
      (fun k t D ha => timeless _ ha) (timers same) same.armedBy fun t ht hm => ?_
    rw [time, same.timer]
    exact h.ahead t ht (same.handles ▸ hm)
  | arm f timeout ref entered pending nonneg kind sched waking =>
    exact h.arm b inPass known entered pending kind sched
  | fire t ts f x first due active place pending sched waking =>
    exact h.fire b inPass known first due active place sched
  | wake u f x es chosen place pending log timeless timer handles armedBy time clock main places waking =>
    have stays : ∀ t ∈ m'.sched.env.loop.timerHandles, t ∈ m.sched.env.loop.timerHandles ∧
        (m'.sched.env.timer t).timeout = (m.sched.env.timer t).timeout := by
      intro t ht
      rw [handles] at ht
      obtain ⟨htu, ht⟩ := b.timers.nodup.mem_erase_iff.mp ht
      exact ⟨ht, by rw [timer t htu]⟩
    refine h.extend inPass known log ?_ ?_ stays armedBy fun t ht hm => ?_
    · intro e he
      rcases List.mem_cons.mp he with rfl | he
      · trivial
      · exact (timeless e he).aside
    · intro k t D ha
      exact timeless _ ((List.mem_cons.mp ha).resolve_left (by simp))
    · rw [time, (stays t hm).2]
      exact h.ahead t ht (stays t hm).1
  | poll sched waking =>
    have log : m'.sched.env.log = .poll :: m.sched.env.log := by rw [sched]; rfl
    refine ⟨inPass, by simp [log, resumed], ?_, by simp [log, resumed], by simp [log, resumed], ?_⟩
    · intro t ht
      rw [sched] at ht ⊢
      exact h.armer t ht
    · rw [log]
      exact ⟨trivial, h.ordered⟩
  | tick n sched waking =>
    refine h.extend inPass known (l := [.tick n]) (by rw [sched]; rfl) (by simp [Event.Aside])
      (by simp) (timers (by rw [sched]; exact ⟨rfl, rfl, rfl⟩)) (by rw [sched]; rfl) ?_
    rw [sched]
    exact h.ahead
  | update may sched waking =>
    refine h.extend inPass known (l := []) (by rw [sched]; rfl) (by simp)
      (by simp) (timers (by rw [sched]; exact ⟨rfl, rfl, rfl⟩)) (by rw [sched]; rfl) ?_
    rw [sched]
    exact may
  | turn hub control sched waking =>
    have hnil : resumed m.sched.env.log = [] := by
      by_contra hne
      rcases h.inPass hne with h | ⟨-, h⟩
      · rw [hub] at h
        cases h
      · exact control h
    exact h.extend inPass known (l := []) (by rw [sched]; rfl) (by simp)
      (by simp) (timers (by rw [sched]; exact ⟨rfl, rfl, rfl⟩)) (by rw [sched]; rfl)
      (by simp [hnil])

end Passes

theorem scheduler_passes {s : Sched} (r : scheduler.Reach Rules.ahead.Admit s) :
    Passes ⟨s, none⟩ :=
  scheduler_invariant (fun _ h => .initial h) (fun _ _ b h hm =>
    h.step b (hm.inPass h.inPass) (fun _ ht => hm.known ht) (hm.timer b)) r

namespace World

/-- A cothread that was resumed in this pass arms its timer for the future, and
`uv_update_time` is not called when the timer of one has become due. -/
def Ahead (w : World) : Action → Prop
  | .call c => ∀ t ∈ w.control.owner, t ∈ resumed w.env.log → ∀ d ∈ c.timeout,
    w.env.loop.time < (w.env.loop.time + d.toNat) % 2 ^ 64
  | .updateTime => ∀ t ∈ resumed w.env.log, t ∈ w.env.loop.timerHandles →
    w.env.clock < (w.env.timer t).timeout
  | _ => True

instance decidableAhead (w : World) : (a : Action) → Decidable (w.Ahead a)
  | .call c => inferInstanceAs (Decidable (∀ t ∈ w.control.owner, t ∈ resumed w.env.log →
      ∀ d ∈ c.timeout, w.env.loop.time < (w.env.loop.time + d.toNat) % 2 ^ 64))
  | .updateTime => inferInstanceAs (Decidable (∀ t ∈ resumed w.env.log,
      t ∈ w.env.loop.timerHandles → w.env.clock < (w.env.timer t).timeout))
  | .cothreadInit _ _ | .setExitFn _ _ | .channelInit _ | .semaphoreInit _ _ | .timers
  | .resolve _ _ _ | .iterate | .others _ | .handleInit _ | .handleClose _ | .tick _
  | .finish => inferInstanceAs (Decidable True)

structure PassesEnd (w : World) : Prop where
  /-- The loop polls between two resumptions of a cothread by `sleep_cb`. -/
  once : ∀ l₁ k' l₂ k l₃ t, w.env.log = l₁ ++ .fired k' :: (l₂ ++ .fired k :: l₃) →
    armer k l₃ = some t → armer k' (l₂ ++ .fired k :: l₃) = some t → .poll ∈ l₂
  bounded : (resumed w.env.log).length ≤ w.env.known.dedup.length
  /-- When the loop goes on, the pass is over or another cothread is resumed in it. -/
  ends : w.Legal .timers → ∃ w', gevent.exec w .timers = .ok w' ∧
    (w'.env.log = .poll :: w.env.log ∧ w'.control = .hub .io ∨
      ∃ t ∉ resumed w.env.log, resumed w'.env.log = t :: resumed w.env.log ∧ w'.control = .user t)

end World

theorem Paired.ahead {w : World} {s : Sched} {a : World.Action} (p : Paired w s)
    (h : w.Ahead a) : Rules.ahead.Admit s a where
  call t c ha hc := by
    rintro k u l hlog hres d hd
    subst ha
    simp only [Sched.enter, Env.enter, List.cons.injEq, Event.call.injEq] at hlog
    obtain ⟨⟨-, rfl, -⟩, rfl⟩ := hlog
    have hown : w.control.owner = some t := by rw [p.control, hc]; rfl
    have := h t hown (by rw [p.env]; exact hres) d hd
    rw [p.env] at this
    exact this
  finish _ _ _ _ _ := trivial
  runEnd _ _ := trivial
  update ha := by
    subst ha
    have h : ∀ t ∈ resumed w.env.log, t ∈ w.env.loop.timerHandles →
      w.env.clock < (w.env.timer t).timeout := h
    rw [p.env] at h
    exact h

/-- What was resumed since the last poll includes what fired since. -/
theorem mem_resumed {l₂ l₃ : List Event} {k : CallId} {t : Tid} (hk : armer k l₃ = some t)
    (unpolled : .poll ∉ l₂) : t ∈ resumed (l₂ ++ .fired k :: l₃) := by
  induction l₂ with
  | nil => simp [resumed, hk]
  | cons ev l ih =>
    have hl := ih fun hm => unpolled (List.mem_cons_of_mem _ hm)
    cases ev with
    | poll => exact absurd List.mem_cons_self unpolled
    | fired k' => exact List.mem_append_right _ hl
    | _ => exact hl

theorem Sched.resumed_resume {s : Sched} {u : Tid} {f : Frame} (hp : s.place u = .blocked f)
    (x : Leftover) (died : Option Tid) :
    resumed (s.resume u x died).env.log = resumed s.env.log := by
  obtain ⟨timer, handles, active, he⟩ := resume_shape hp x died
  rw [he, ← List.append_assoc]
  refine resumed_append fun ev hev => ?_
  rcases List.mem_append.mp hev with hev | hev
  · exact Frame.returns_aside ev hev
  · exact (Env.switching_timeless ev hev).aside

/-- In a run where cothreads that the pass has resumed stay asleep until later,
`sleep_cb` resumes each cothread at most once a pass, and every pass ends. -/
theorem passes_end {w : World} (r : gevent.Reach World.Ahead w) : w.PassesEnd := by
  obtain ⟨s, hs, p⟩ := reach_rules (R := .ahead) (fun _ _ _ p _ h => p.ahead h) r
  have h := scheduler_passes hs
  refine ⟨?_, ?_, ?_⟩
  · intro l₁ k' l₂ k l₃ t hlog hk hk'
    have ordered := h.ordered
    rw [← p.env, hlog] at ordered
    obtain ⟨u, hu, hnew⟩ := ordered.at
    rw [hk'] at hu
    cases hu
    by_contra unpolled
    exact hnew (mem_resumed hk unpolled)
  · rw [p.env]
    refine (List.Nodup.subperm h.nodup fun t ht => ?_).length_le
    exact List.mem_dedup.mpr (h.known t ht)
  · intro legal
    obtain ⟨w', x, exec, c⟩ := p.exec_ok legal (a := .timers) rfl
    refine ⟨w', exec, ?_⟩
    rw [c.env, c.control, p.env]
    have hnext : s.next x .timers = s.timers x := rfl
    rw [hnext, Sched.timers]
    cases hl : s.env.loop.timerHandles with
    | nil => exact .inl ⟨rfl, rfl⟩
    | cons t ts =>
      simp only
      split
      · exact .inl ⟨rfl, rfl⟩
      · next due =>
        have hmem : t ∈ s.env.loop.timerHandles := by simp [hl]
        obtain ⟨active, -, -, f, hf, hs, -⟩ := p.base.timers.armed t hmem
        have hp : (s.fire t).place t = .blocked f := hf
        have hlog : (s.fire t).env.log = .fired (s.env.armedBy t) :: s.env.log := by
          rw [Sched.fire, Env.timerStop_eq _ active]
          rfl
        refine .inr ⟨t, fun ht => due (h.ahead t ht hmem), ?_, Sched.resume_control hp x none⟩
        rw [Sched.resumed_resume hp, hlog, resumed, h.armer t hmem]
        rfl

set_option maxRecDepth 100000 in
/-- Two sleepers are resumed in one pass and sleep on. -/
theorem passes_end_run : ∃ w, gevent.Reach World.Ahead w ∧ resumed w.env.log = [2, 1] ∧
    w.env.loop.timerHandles = [1, 2, 0] ∧ w.PassesEnd := by
  have h : (gevent.play World.Ahead zeroStart [.cothreadInit 1 1, .cothreadInit 2 1,
      .call (.spawn 1), .call (.sleep 0), .call (.spawn 2), .call (.wait 5), .call (.sleep 9),
      .tick 6, .iterate, .timers, .call (.sleep 1), .timers, .call (.sleep 2)]).any
      (fun w => decide (resumed w.env.log = [2, 1] ∧ w.env.loop.timerHandles = [1, 2, 0])) =
      true := by decide
  obtain ⟨w, r, hres, hh⟩ := Machine.Reach.of_play zeroStart_start h
  exact ⟨w, r, hres, hh, passes_end r⟩

set_option maxRecDepth 100000 in
/-- Cothread 1 calls `gevent_sleep(0)` in a loop, and the loop never polls. -/
theorem sleeper_resumed_twice : ¬ ∀ w, gevent.Reach anyStep w → w.PassesEnd := by
  have h : (gevent.play anyStep zeroStart [.cothreadInit 1 1, .call (.spawn 1), .call (.sleep 0),
      .call (.sleep 9), .iterate, .timers, .call (.sleep 0), .timers]).any (fun w => decide
        (w.env.log = w.env.log.take 2 ++ .fired 3 :: ((w.env.log.drop 3).take 5 ++
          .fired 1 :: w.env.log.drop 9) ∧ armer 1 (w.env.log.drop 9) = some 1 ∧
        armer 3 ((w.env.log.drop 3).take 5 ++ .fired 1 :: w.env.log.drop 9) = some 1 ∧
        .poll ∉ (w.env.log.drop 3).take 5)) = true := by
    decide
  obtain ⟨w, r, hlog, h1, h3, unpolled⟩ := Machine.Reach.of_play zeroStart_start h
  intro all
  exact unpolled ((all w r).once _ _ _ _ _ _ hlog h1 h3)

end Gevent
