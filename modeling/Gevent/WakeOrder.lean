import Gevent.Refine.Views
import Gevent.Sched.Alarms

/-!
# The order in which sleepers wake

Of two sleeps of spawned cothreads, the one that was called first and is due no
later returns first, as long as sleepers with equal deadlines lie in memory in
the order of their calls (`sleepers_wake_in_order`): `uv__timer_cmp` breaks ties
by address.
-/

namespace Gevent

/-- Calls are numbered in the order in which they are made, and the deadline
that a call armed is `loop->time` plus its timeout. -/
def Event.InWakeOrder (main : Tid) : Event → List Event → Prop
  | .ret kb b (.sleep _) _, past => b ≠ main → ∀ ka a da Da Db, a ≠ main → ka < kb →
      .call ka a (.sleep da) ∈ past → .armed ka a Da ∈ past → .armed kb b Db ∈ past → Da ≤ Db →
      ∃ r, .ret ka a (.sleep da) r ∈ past
  | _, _ => True

/-- A spawned cothread that sleeps finds nobody above it asleep until the same time. -/
def Rules.ascending : Rules where
  call s c := ∀ k t l d, s.env.log = .call k t c :: l → c = .sleep d → t ≠ s.main →
    ∀ u ∈ s.env.loop.timerHandles, u ≠ s.main → (s.env.timer u).ref = true →
      (s.env.timer u).timeout = (s.env.loop.time + d.toNat) % 2 ^ 64 → u < t
  last _ := True

/-- A spawned cothread is in `gevent_sleep`. -/
structure Sched.Sleeper (s : Sched) (t : Tid) (f : Frame) : Prop where
  spawned : t ≠ s.main
  place : s.place t = .blocked f
  op : ∃ d, f.op = .sleep d

/-- Sleepers with equal deadlines lie in the order of their calls. -/
structure Timetable (m : Moment) : Prop where
  sorted : m.sched.env.loop.timerHandles.Pairwise fun a b => uvTimerCmp m.sched.env.timer a b = .lt
  armed : ∀ k t D, .armed k t D ∈ m.sched.env.log → ∃ c, .call k t c ∈ m.sched.env.log ∧
    ((∃ r, .ret k t c r ∈ m.sched.env.log) ∨ ∃ f, m.sched.place t = .blocked f ∧
      f.pending = .sleep ∧ f.call = k ∧ (m.sched.env.timer t).timeout = D)
  placed : ∀ a b f g, m.sched.Sleeper a f → m.sched.Sleeper b g →
    a ∈ m.sched.env.loop.timerHandles → b ∈ m.sched.env.loop.timerHandles → f.call < g.call →
    (m.sched.env.timer a).timeout = (m.sched.env.timer b).timeout → a < b
  next : ∀ b x a f g, m.waking = some (b, x) → m.sched.Sleeper b g → m.sched.Sleeper a f →
    a ∈ m.sched.env.loop.timerHandles → f.call < g.call →
    (m.sched.env.timer b).timeout < (m.sched.env.timer a).timeout
  ordered : Hist (Event.InWakeOrder m.sched.main) m.sched.env.log

theorem Event.Timeless.inWakeOrder {ev : Event} (h : ev.Timeless) (main : Tid) (past : List Event) :
    ev.InWakeOrder main past := by
  cases ev with
  | ret k t c r =>
    cases c with
    | sleep d => exact h.elim
    | _ => trivial
  | _ => trivial

namespace Timetable
variable {m m' : Moment} {s : Sched} {t u : Tid} {f g : Frame} {l : List Event}

theorem initial (h : s.Initial) : Timetable ⟨s, none⟩ where
  sorted := by simp [h.timers]
  armed k t D ha := by simp [h.log] at ha
  placed a b f g _ _ ha := by simp [h.timers] at ha
  next b x a f g hw := by cases hw
  ordered := by simp [h.log, Hist, Event.InWakeOrder]

/-- Nobody falls asleep or wakes up, and no timer changes. -/
theorem still (h : Timetable m) (b' : Base m')
    (log : m'.sched.env.log = l ++ m.sched.env.log) (unarmed : ∀ k t D, .armed k t D ∉ l)
    (quiet : ∀ ev ∈ l, ∀ past, ev.InWakeOrder m.sched.main past)
    (timers : SameTimers m.sched.env m'.sched.env) (main : m'.sched.main = m.sched.main)
    (sleepers : ∀ t f, f.pending = .sleep →
      (m'.sched.place t = .blocked f ↔ m.sched.place t = .blocked f))
    (waking : ∀ t x f, m'.waking = some (t, x) → m'.sched.place t = .blocked f →
      f.pending = .sleep → t = m.sched.main) : Timetable m' := by
  have asleep : ∀ {t f}, m'.sched.Sleeper t f → f.pending = .sleep ∧ m.sched.Sleeper t f := by
    rintro t f ⟨spawned, place, d, op⟩
    have pending := (b'.calls.frame t f place).fits.sleep op
    exact ⟨pending, main ▸ spawned, (sleepers t f pending).mp place, d, op⟩
  refine ⟨?_, ?_, ?_, ?_, ?_⟩
  · rw [timers.handles, timers.timer]
    exact h.sorted
  · intro k t D ha
    rw [log] at ha
    obtain ⟨c, hc, hr⟩ := h.armed k t D ((List.mem_append.mp ha).resolve_left (unarmed k t D))
    rw [log, timers.timer]
    refine ⟨c, List.mem_append_right _ hc, ?_⟩
    rcases hr with ⟨r, hr⟩ | ⟨f, place, pending, hk⟩
    · exact .inl ⟨r, List.mem_append_right _ hr⟩
    · exact .inr ⟨f, (sleepers t f pending).mpr place, pending, hk⟩
  · intro a b f g ha hb
    rw [timers.handles, timers.timer]
    exact h.placed a b f g (asleep ha).2 (asleep hb).2
  · intro b x a f g hw hb
    exact absurd (waking b x g hw hb.place (asleep hb).1) (asleep hb).2.spawned
  · rw [log, main]
    exact h.ordered.extend quiet

theorem arm {timeout : Int} {ref : Bool} (h : Timetable m) (b : Base m)
    (entered : m.sched.Entered .ascending f) (pending : f.pending = .sleep)
    (kind : f.op = (if ref then .sleep timeout else .wait timeout))
    (sched : m'.sched = (m.sched.arm f.self f.call timeout.toNat ref).block f.self f)
    (waking : m'.waking = none) : Timetable m' := by
  obtain ⟨l, hlog⟩ := entered.log
  have hcmp : ∀ tm a b, uvTimerCmp tm a b = .eq → a = b := fun _ _ _ he => (uvTimerCmp_eq.mp he).2
  have hself : f.self ∉ m.sched.env.loop.timerHandles :=
    b.timers.not_armed (by simp [entered.running])
  have log : m'.sched.env.log = .armed f.call f.self
      ((m.sched.env.loop.time + timeout.toNat) % 2 ^ 64) :: m.sched.env.log := by
    rw [sched, Sched.block_env, Sched.arm_eq]
  have main : m'.sched.main = m.sched.main := by rw [sched, Sched.block_main, Sched.arm_eq]
  have place : m'.sched.place = Function.update m.sched.place f.self (.blocked f) := by
    rw [sched, Sched.block_place, Sched.arm_eq]
  have timer : m'.sched.env.timer = Function.update m.sched.env.timer f.self
      ⟨true, ref, true, (m.sched.env.loop.time + timeout.toNat) % 2 ^ 64, 0⟩ := by
    rw [sched, Sched.block_env, Sched.arm_eq]
  have handles : m'.sched.env.loop.timerHandles =
      rbInsert (uvTimerCmp m'.sched.env.timer) f.self m.sched.env.loop.timerHandles := by
    rw [timer, sched, Sched.block_env, Sched.arm_eq]
  -- whoever slept before made an older call
  have older : ∀ {t g}, t ≠ f.self → m'.sched.Sleeper t g →
      m.sched.Sleeper t g ∧ g.call < f.call := by
    rintro t g hne ⟨spawned, hp, op⟩
    rw [place, Function.update_of_ne hne] at hp
    have hcall := (b.calls.frame t g hp).made _ g.call_mem_made
    have fresh := b.calls.ordered
    rw [hlog] at hcall fresh
    refine ⟨⟨main ▸ spawned, hp, op⟩, ?_⟩
    rcases List.mem_cons.mp hcall with he | hcall
    · have hg := b.core.queues.self t g hp
      exact absurd (hg ▸ (Event.call.inj he).2.1) hne
    · exact fresh.1 _ hcall g.call (by simp [Event.ids])
  refine ⟨?_, ?_, ?_, fun b x a f g hw => by simp [waking] at hw, ?_⟩
  · rw [handles]
    refine pairwise_rbInsert (h.sorted.imp_of_mem fun {a c} ha hc hac => ?_)
    have ha' : a ≠ f.self := fun he => hself (he ▸ ha)
    have hc' : c ≠ f.self := fun he => hself (he ▸ hc)
    simpa [uvTimerCmp_lt, timer, ha', hc'] using uvTimerCmp_lt.mp hac
  · intro k t D ha
    rw [log] at ha ⊢
    rcases List.mem_cons.mp ha with he | ha
    · cases he
      refine ⟨f.op, by simp [hlog], .inr ⟨f, by simp [place], pending, rfl, by simp [timer]⟩⟩
    · obtain ⟨c, hc, hr⟩ := h.armed k t D ha
      refine ⟨c, List.mem_cons_of_mem _ hc, ?_⟩
      rcases hr with ⟨r, hr⟩ | ⟨g, hp, hg⟩
      · exact .inl ⟨r, List.mem_cons_of_mem _ hr⟩
      · have hne : t ≠ f.self := by
          rintro rfl
          rw [entered.running] at hp
          cases hp
        exact .inr ⟨g, by simpa [place, hne] using hp, by simpa [timer, hne] using hg⟩
  · intro a c g g' ha hc hma hmc hlt heq
    rw [handles, mem_rbInsert (hcmp _)] at hma hmc
    have hca : a ≠ f.self := by
      rintro rfl
      have hg : f = g := by simpa [place] using ha.place
      subst hg
      by_cases hcs : c = f.self
      · subst hcs
        have hg : f = g' := by simpa [place] using hc.place
        subst hg
        exact Nat.lt_irrefl _ hlt
      · exact Nat.lt_asymm hlt (older hcs hc).2
    obtain ⟨oa, -⟩ := older hca ha
    have hma := hma.resolve_left hca
    by_cases hcs : c = f.self
    · subst hcs
      have hg : f = g' := by simpa [place] using hc.place
      subst hg
      obtain ⟨d, op⟩ := hc.op
      have hd : timeout = d := by
        rw [op] at kind
        cases ref <;> simp at kind
        exact kind.symm
      have outer := entered.outer
      rw [entered.fits.sleeps_program pending] at outer
      have href : (m.sched.env.timer a).ref = true := by
        obtain ⟨-, -, -, g₁, hp, -, hr⟩ := b.timers.armed a hma
        rw [oa.place] at hp
        cases hp
        exact hr.mpr oa.op
      refine outer _ _ _ _ hlog op (main ▸ hc.spawned) a hma oa.spawned href ?_
      simpa [timer, hca, hd] using heq
    · obtain ⟨oc, -⟩ := older hcs hc
      refine h.placed a c g g' oa oc hma (hmc.resolve_left hcs) hlt ?_
      simpa [timer, hca, hcs] using heq
  · rw [log, main]
    exact ⟨trivial, h.ordered⟩

theorem fire {ts : List Tid} {x : Leftover} (h : Timetable m) (b : Base m)
    (first : m.sched.env.loop.timerHandles = t :: ts)
    (active : (m.sched.env.timer t).active = true) (sched : m'.sched = m.sched.fire t)
    (waking : m'.waking = some (t, x)) : Timetable m' := by
  have henv : m'.sched.env = (m.sched.env.timerStop t).emit (.fired (m.sched.env.armedBy t)) := by
    rw [sched]
    simp [Sched.fire, Sched.emit, Env.emit, Env.timerStop_eq _ active]
  rw [Env.timerStop_eq _ active] at henv
  have log : m'.sched.env.log = .fired (m.sched.env.armedBy t) :: m.sched.env.log := by
    rw [henv]
    rfl
  have handles : m'.sched.env.loop.timerHandles = m.sched.env.loop.timerHandles.erase t := by
    rw [henv]
    rfl
  have timeout : ∀ u, (m'.sched.env.timer u).timeout = (m.sched.env.timer u).timeout := by
    intro u
    by_cases hu : u = t <;> simp [henv, Env.emit, hu]
  have hcmp : uvTimerCmp m'.sched.env.timer = uvTimerCmp m.sched.env.timer :=
    uvTimerCmp_congr timeout
  have place : m'.sched.place = m.sched.place := by rw [sched]; rfl
  have main : m'.sched.main = m.sched.main := by rw [sched]; rfl
  have same : ∀ {u g}, m'.sched.Sleeper u g → m.sched.Sleeper u g := by
    rintro u g ⟨spawned, hp, op⟩
    exact ⟨main ▸ spawned, place ▸ hp, op⟩
  refine ⟨?_, ?_, ?_, ?_, ?_⟩
  · rw [handles, hcmp]
    exact h.sorted.sublist List.erase_sublist
  · intro k u D ha
    rw [log] at ha ⊢
    obtain ⟨c, hc, hr⟩ := h.armed k u D (by simpa using ha)
    rw [place, timeout]
    refine ⟨c, List.mem_cons_of_mem _ hc, hr.imp ?_ id⟩
    rintro ⟨r, hr⟩
    exact ⟨r, List.mem_cons_of_mem _ hr⟩
  · intro a c f g ha hc hma hmc
    rw [handles] at hma hmc
    rw [timeout, timeout]
    exact h.placed a c f g (same ha) (same hc) (List.mem_of_mem_erase hma) (List.mem_of_mem_erase hmc)
  · rintro c y a f g hw hc ha hma hlt
    rw [waking] at hw
    cases hw
    rw [handles] at hma
    obtain ⟨hat, hma⟩ := b.timers.nodup.mem_erase_iff.mp hma
    rw [timeout, timeout]
    -- the timer that fires is the first one in the tree
    have hts : a ∈ ts := by
      rw [first] at hma
      exact (List.mem_cons.mp hma).resolve_left hat
    have hfirst := h.sorted
    rw [first] at hfirst
    rcases uvTimerCmp_lt.mp ((List.pairwise_cons.mp hfirst).1 a hts) with hlt' | ⟨heq, hta⟩
    · exact hlt'
    · have := h.placed a t f g (same ha) (same hc) hma (by simp [first]) hlt heq.symm
      exact absurd hta (Nat.lt_asymm this)
  · rw [log, main]
    exact ⟨trivial, h.ordered⟩

/-- Whoever should have woken before has. -/
theorem wake {x : Leftover} (h : Timetable m) (b : Base m) (b' : Base m')
    (chosen : m.waking = some (u, x)) (place : m.sched.place u = .blocked f)
    (log : m'.sched.env.log = .ret f.call u f.op (.int 0) :: es ++ m.sched.env.log)
    (timeless : ∀ ev ∈ es, ev.Timeless)
    (timer : ∀ t, t ≠ u → m'.sched.env.timer t = m.sched.env.timer t)
    (handles : m'.sched.env.loop.timerHandles = m.sched.env.loop.timerHandles.erase u)
    (main : m'.sched.main = m.sched.main)
    (places : m'.sched.place = Function.update m.sched.place u .running)
    (waking : m'.waking = none) : Timetable m' := by
  have hself : f.self = u := b.core.queues.self u f place
  have unarmed : ∀ {k t D}, .armed k t D ∈ es ++ m.sched.env.log → .armed k t D ∈ m.sched.env.log :=
    fun ha => (List.mem_append.mp ha).resolve_left fun he => timeless _ he
  have same : ∀ {t g}, m'.sched.Sleeper t g → t ≠ u ∧ m.sched.Sleeper t g := by
    rintro t g ⟨spawned, hp, op⟩
    by_cases htu : t = u
    · simp [places, htu] at hp
    · exact ⟨htu, main ▸ spawned, by simpa [places, htu] using hp, op⟩
  refine ⟨?_, ?_, ?_, fun b x a f g hw => by simp [waking] at hw, ?_⟩
  · rw [handles]
    refine (h.sorted.sublist List.erase_sublist).imp_of_mem fun {a c} ha hc hac => ?_
    have ha' := (b.timers.nodup.mem_erase_iff.mp ha).1
    have hc' := (b.timers.nodup.mem_erase_iff.mp hc).1
    simpa [uvTimerCmp_lt, timer, ha', hc'] using uvTimerCmp_lt.mp hac
  · intro k t D ha
    rw [log] at ha ⊢
    have ha := unarmed ((List.mem_cons.mp ha).resolve_left (by simp))
    obtain ⟨c, hc, hr⟩ := h.armed k t D ha
    refine ⟨c, List.mem_append_right _ hc, ?_⟩
    rcases hr with ⟨r, hr⟩ | ⟨g, hp, pending, rfl, hD⟩
    · exact .inl ⟨r, List.mem_append_right _ hr⟩
    · by_cases htu : t = u
      · subst htu
        rw [place] at hp
        cases hp
        have hop := (call_unique b.calls.ordered hc
          ((b.calls.frame _ _ place).made _ f.call_mem_made)).2
        exact .inl ⟨.int 0, by simp [hop]⟩
      · exact .inr ⟨g, by simpa [places, htu] using hp, pending, rfl, by rw [timer t htu, hD]⟩
  · intro a c g g' ha hc hma hmc
    rw [handles] at hma hmc
    rw [timer a (same ha).1, timer c (same hc).1]
    exact h.placed a c g g' (same ha).2 (same hc).2 (List.mem_of_mem_erase hma)
      (List.mem_of_mem_erase hmc)
  · rw [log, main]
    refine ⟨?_, h.ordered.extend fun e he => (timeless e he).inWakeOrder _⟩
    cases hop : f.op with
    | sleep d =>
      intro hne ka a da Da Db ha hlt hcall harmed hdue hle
      have fresh : Hist Event.Fresh (es ++ m.sched.env.log) := by
        have ho := b'.calls.ordered
        rw [log] at ho
        exact ho.2
      -- `u` is asleep until `Db`
      have hDb : (m.sched.env.timer u).timeout = Db := by
        obtain ⟨c, hc, ⟨r, hr⟩ | ⟨g, hp, -, -, hD⟩⟩ := h.armed _ _ _ (unarmed hdue)
        · exact absurd rfl ((b.calls.frame u f place).unreturned f.call f.call_mem_ids _ hr)
        · exact hD
      obtain ⟨c, hc, hr⟩ := h.armed _ _ _ (unarmed harmed)
      obtain ⟨-, rfl⟩ := call_unique fresh hcall (List.mem_append_right _ hc)
      rcases hr with ⟨r, hr⟩ | ⟨g, hp, pending, rfl, hDa⟩
      · exact ⟨r, List.mem_append_right _ hr⟩
      · exfalso
        have hau : a ≠ u := by
          rintro rfl
          rw [place] at hp
          cases hp
          exact Nat.lt_irrefl _ hlt
        have gop := (call_unique b.calls.ordered hc
          ((b.calls.frame _ _ hp).made _ g.call_mem_made)).2
        have hma : a ∈ m.sched.env.loop.timerHandles := by
          refine ((b.timers.sleeper a g hp pending).2.2).resolve_right ?_
          rintro ⟨y, hy⟩
          rw [chosen] at hy
          cases hy
          exact hau rfl
        have := h.next u x a g f chosen ⟨hne, place, d, hop⟩ ⟨ha, hp, da, gop.symm⟩ hma hlt
        omega
    | _ => trivial

theorem step (h : Timetable m) (b : Base m) (b' : Base m') (hm : TimerMove .ascending m m') :
    Timetable m' := by
  cases hm with
  | still es log timeless timers time clock main sleepers waking =>
    exact h.still b' log (fun k t D ha => timeless _ ha)
      (fun e he => (timeless e he).inWakeOrder _) timers main sleepers waking
  | arm f timeout ref entered pending nonneg kind sched waking =>
    exact h.arm b entered pending kind sched waking
  | fire t ts f x first due active place pending sched waking =>
    exact h.fire b first active sched waking
  | wake u f x es chosen place pending log timeless timer handles armedBy time clock main places waking =>
    exact h.wake b b' chosen place log timeless timer handles main places waking
  | poll sched waking =>
    exact h.still b' (l := [.poll]) (by rw [sched]; rfl) (by simp)
      (by simp [Event.InWakeOrder]) (by rw [sched]; exact ⟨rfl, rfl, rfl⟩) (by rw [sched]; rfl)
      (fun t f _ => by rw [sched]; rfl) (fun t x f hw => by simp [waking] at hw)
  | tick n sched waking =>
    exact h.still b' (l := [.tick n]) (by rw [sched]; rfl) (by simp)
      (by simp [Event.InWakeOrder]) (by rw [sched]; exact ⟨rfl, rfl, rfl⟩) (by rw [sched])
      (fun t f _ => by rw [sched]) (fun t x f hw => by simp [waking] at hw)
  | update _ sched waking | turn _ _ sched waking =>
    exact h.still b' (l := []) (by rw [sched]; rfl) (by simp) (by simp)
      (by rw [sched]; exact ⟨rfl, rfl, rfl⟩) (by rw [sched])
      (fun t f _ => by rw [sched]) (fun t x f hw => by simp [waking] at hw)

end Timetable

theorem scheduler_timetable {s : Sched} (r : scheduler.Reach Rules.ascending.Admit s) :
    Timetable ⟨s, none⟩ :=
  scheduler_invariant (fun _ h => .initial h) (fun _ _ b h hm => h.step b (b.move hm) (hm.timer b)) r

namespace World

/-- A spawned cothread that calls `gevent_sleep` lies above every spawned
cothread that sleeps until the same time. -/
def Ascending (w : World) : Action → Prop
  | .call (.sleep d) => ∀ t ∈ w.control.owner, t ≠ w.hub.main →
    ∀ u ∈ w.env.loop.timerHandles, u ≠ w.hub.main → (w.env.timer u).ref = true →
      (w.env.timer u).timeout = (w.env.loop.time + d.toNat) % 2 ^ 64 → u < t
  | _ => True

instance decidableAscending (w : World) : (a : Action) → Decidable (w.Ascending a)
  | .call (.sleep d) => inferInstanceAs (Decidable (∀ t ∈ w.control.owner, t ≠ w.hub.main →
      ∀ u ∈ w.env.loop.timerHandles, u ≠ w.hub.main → (w.env.timer u).ref = true →
        (w.env.timer u).timeout = (w.env.loop.time + d.toNat) % 2 ^ 64 → u < t))
  | .call (.spawn _) | .call (.wait _) | .call (.receive _) | .call (.send _ _)
  | .call (.acquire _) | .call (.release _) | .call (.getaddrinfo _)
  | .cothreadInit _ _ | .setExitFn _ _ | .channelInit _ | .semaphoreInit _ _ | .timers
  | .resolve _ _ _ | .iterate | .updateTime | .others _ | .handleInit _ | .handleClose _ | .tick _
  | .finish => inferInstanceAs (Decidable True)

end World

theorem Paired.ascending {w : World} {s : Sched} {a : World.Action} (p : Paired w s)
    (h : w.Ascending a) : Rules.ascending.Admit s a where
  call t c ha hc := by
    rintro k u l d hlog rfl hne
    subst ha
    simp only [Sched.enter, Env.enter, List.cons.injEq, Event.call.injEq] at hlog
    obtain ⟨⟨-, rfl, -⟩, -⟩ := hlog
    have hown : w.control.owner = some t := by rw [p.control, hc]; rfl
    have := h t hown (by rw [p.main]; exact hne)
    rw [p.env, p.main] at this
    exact this
  finish _ _ _ _ _ := trivial
  runEnd _ _ := trivial

/-- In a run whose sleepers lie in the order of their calls when their deadlines
are equal, spawned cothreads wake by deadline, and by call when deadlines are equal. -/
theorem sleepers_wake_in_order {w : World} (r : gevent.Reach World.Ascending w) :
    Hist (Event.InWakeOrder w.hub.main) w.env.log := by
  obtain ⟨s, hs, p⟩ := reach_rules (R := .ascending) (fun _ _ _ p _ h => p.ascending h) r
  rw [p.env, p.main]
  exact (scheduler_timetable hs).ordered

set_option maxRecDepth 100000 in
/-- Cothreads 1, 2 and 3 sleep, 1 and 2 until the same time. -/
theorem sleepers_wake_in_order_run : ∃ w, gevent.Reach World.Ascending w ∧
    .ret 3 2 (.sleep 5) (.int 0) ∈ w.env.log ∧ .ret 5 3 (.sleep 2) (.int 0) ∈ w.env.log ∧
    Hist (Event.InWakeOrder w.hub.main) w.env.log := by
  have h : (gevent.play World.Ascending zeroStart [.cothreadInit 1 1, .cothreadInit 2 1,
      .cothreadInit 3 1, .call (.spawn 1), .call (.sleep 5), .call (.spawn 2), .call (.sleep 5),
      .call (.spawn 3), .call (.sleep 2), .tick 6, .call (.sleep 9), .iterate, .timers, .finish,
      .timers, .finish, .timers]).any (fun w => decide (.ret 3 2 (.sleep 5) (.int 0) ∈ w.env.log ∧
        .ret 5 3 (.sleep 2) (.int 0) ∈ w.env.log)) = true := by decide
  obtain ⟨w, r, h2, h3⟩ := Machine.Reach.of_play zeroStart_start h
  exact ⟨w, r, h2, h3, sleepers_wake_in_order r⟩

set_option maxRecDepth 100000 in
/-- Cothread 2 calls `gevent_sleep(5)`, then cothread 1 does: 1 wakes first. -/
theorem later_sleeper_wakes_first : ¬ ∀ w, gevent.Reach anyStep w →
    Hist (Event.InWakeOrder w.hub.main) w.env.log := by
  have h : (gevent.play anyStep zeroStart [.cothreadInit 1 1, .cothreadInit 2 1, .call (.spawn 2),
      .call (.sleep 5), .call (.spawn 1), .call (.sleep 5), .call (.sleep 9), .tick 5, .iterate,
      .timers]).any (fun w => decide (w.hub.main = 0 ∧
        w.env.log = .ret 3 1 (.sleep 5) (.int 0) :: w.env.log.drop 1 ∧
        .call 1 2 (.sleep 5) ∈ w.env.log.drop 1 ∧ .armed 1 2 5 ∈ w.env.log.drop 1 ∧
        .armed 3 1 5 ∈ w.env.log.drop 1 ∧ ∀ e ∈ w.env.log.drop 1, e.ends ≠ some 1)) = true := by
    decide
  obtain ⟨w, r, hmain, hlog, hcall, ha, hb, hno⟩ := Machine.Reach.of_play zeroStart_start h
  intro all
  have order := all w r
  rw [hlog] at order
  obtain ⟨q, hq⟩ := order.1 (by simp [hmain]) 1 2 5 5 5 (by simp [hmain]) (by decide) hcall ha hb
    (Nat.le_refl _)
  exact hno _ hq rfl

end Gevent
