import Gevent.Sched.Moves

/-!
# Timers

The timer tree holds exactly the timers of the sleepers, except while the one
that fired is being resumed; `loop->active_handles` counts those of
`gevent_sleep`.
-/

namespace Gevent

structure Timers (m : Moment) : Prop where
  nodup : m.sched.env.loop.timerHandles.Nodup
  armed : ∀ t ∈ m.sched.env.loop.timerHandles, (m.sched.env.timer t).active = true ∧
    (m.sched.env.timer t).timerCb = true ∧ (m.sched.env.timer t).rpt = 0 ∧
    ∃ f, m.sched.place t = .blocked f ∧ f.pending = .sleep ∧
      ((m.sched.env.timer t).ref = true ↔ ∃ d, f.op = .sleep d)
  sleeper : ∀ t f, m.sched.place t = .blocked f → f.pending = .sleep →
    m.sched.env.armedBy t = f.call ∧
    ((m.sched.env.timer t).active = true → t ∈ m.sched.env.loop.timerHandles) ∧
    (t ∈ m.sched.env.loop.timerHandles ∨ ∃ x, m.waking = some (t, x))
  count : m.sched.env.loop.activeHandles =
    (m.sched.env.loop.timerHandles.filter fun t => (m.sched.env.timer t).ref).length

namespace Timers
variable {R : Rules} {s s' : Sched} {t u : Tid} {f : Frame} {k k' : Option (Tid × Leftover)}

theorem initial (h : s.Initial) : Timers ⟨s, none⟩ where
  nodup := by simp [h.timers]
  armed t ht := by simp [h.timers] at ht
  sleeper t f ht := by
    rw [h.place] at ht
    by_cases he : t = s.main <;> simp [he] at ht
  count := by simp [h.timers, h.activeHandles]

theorem congr (h : Timers ⟨s, k⟩) (hp : s'.place = s.place) (htm : s'.env.timer = s.env.timer)
    (hl : s'.env.loop.timerHandles = s.env.loop.timerHandles)
    (ha : s'.env.loop.activeHandles = s.env.loop.activeHandles)
    (hb : s'.env.armedBy = s.env.armedBy)
    (hk : ∀ t x, k = some (t, x) → ∃ y, k' = some (t, y)) : Timers ⟨s', k'⟩ where
  nodup := by rw [hl]; exact h.nodup
  armed := by rw [hl, htm, hp]; exact h.armed
  sleeper t f ht hf := by
    rw [hp] at ht
    obtain ⟨h1, h2, h3⟩ := h.sleeper t f ht hf
    rw [hl, htm, hb]
    refine ⟨h1, h2, h3.imp id ?_⟩
    rintro ⟨x, hx⟩
    exact hk t x hx
  count := by rw [ha, hl, htm]; exact h.count

/-- The loop and the timers stay as they are. -/
theorem env (h : Timers ⟨s, none⟩) (e : Env) (htm : e.timer = s.env.timer)
    (hl : e.loop.timerHandles = s.env.loop.timerHandles)
    (ha : e.loop.activeHandles = s.env.loop.activeHandles) (hb : e.armedBy = s.env.armedBy) :
    Timers ⟨{ s with env := e }, k'⟩ :=
  h.congr rfl htm hl ha hb fun _ _ hk => by cases hk

/-- A cothread that does not sleep is in no timer. -/
theorem not_armed (h : Timers ⟨s, k⟩) (ht : ∀ f, s.place t = .blocked f → f.pending ≠ .sleep) :
    t ∉ s.env.loop.timerHandles := by
  intro hm
  obtain ⟨-, -, -, f, hf, hs, -⟩ := h.armed t hm
  exact ht f hf hs

theorem place (h : Timers ⟨s, k⟩) (hs : ∀ u, u ≠ t → s'.place u = s.place u) (he : s'.env = s.env)
    (ht : ∀ f, s.place t = .blocked f → f.pending ≠ .sleep)
    (ht' : ∀ f, s'.place t = .blocked f → f.pending ≠ .sleep) : Timers ⟨s', k⟩ where
  nodup := by rw [he]; exact h.nodup
  armed u hu := by
    rw [he] at hu ⊢
    have hne : u ≠ t := by rintro rfl; exact h.not_armed ht hu
    rw [hs u hne]
    exact h.armed u hu
  sleeper u f hu hf := by
    have hne : u ≠ t := by rintro rfl; exact ht' f hu hf
    rw [he]
    rw [hs u hne] at hu
    exact h.sleeper u f hu hf
  count := by rw [he]; exact h.count

theorem block (h : Timers ⟨s, none⟩) (ht : s.place t = .running) (hf : f.pending ≠ .sleep) :
    Timers ⟨s.block t f, k⟩ := by
  have hb : Timers ⟨s.block t f, none⟩ := by
    refine h.place (t := t) (fun u hu => by simp [hu]) (by simp) (by simp [ht]) ?_
    intro g hg
    have : f = g := by simpa using hg
    exact this ▸ hf
  exact hb.congr rfl rfl rfl rfl rfl fun _ _ hk => by cases hk

/-- A running cothread arms its timer and sleeps. -/
theorem sleep (h : Timers ⟨s, none⟩) (ht : s.place t = .running) (hf : f.pending = .sleep)
    (timeout : Nat) (ref : Bool) (kind : ref = true ↔ ∃ d, f.op = .sleep d) :
    Timers ⟨(s.arm t f.call timeout ref).block t f, none⟩ := by
  have hno : t ∉ s.env.loop.timerHandles := h.not_armed (by simp [ht])
  have hcmp : ∀ tm a b, uvTimerCmp tm a b = .eq → a = b := fun _ _ _ he => (uvTimerCmp_eq.mp he).2
  rw [Sched.arm_eq]
  refine ⟨?_, ?_, ?_, ?_⟩
  · simp only [Sched.block_env]
    exact (perm_rbInsert (hcmp _) hno).nodup_iff.mpr (List.nodup_cons.mpr ⟨hno, h.nodup⟩)
  · intro u hu
    simp only [Sched.block_env, mem_rbInsert (hcmp _)] at hu ⊢
    by_cases hut : u = t
    · subst hut
      refine ⟨by simp, by simp, by simp, f, by simp, hf, by simpa using kind⟩
    · simpa [hut] using h.armed u (hu.resolve_left hut)
  · intro u g hu hg
    simp only [Sched.block_env, mem_rbInsert (hcmp _)]
    by_cases hut : u = t
    · subst hut
      have hfg : f = g := by simpa using hu
      subst hfg
      simp
    · obtain ⟨h1, h2, h3⟩ := h.sleeper u g (by simpa [hut] using hu) hg
      refine ⟨by simpa [hut] using h1, by simpa [hut] using h2, ?_⟩
      exact .inl (.inr (h3.resolve_right fun ⟨x, hx⟩ => by cases hx))
  · simp only [Sched.block_env]
    rw [((perm_rbInsert (hcmp _) hno).filter _).length_eq, h.count, List.filter_cons]
    have hold : (s.env.loop.timerHandles.filter fun u =>
        (Function.update s.env.timer t ⟨true, ref, true, (s.env.loop.time + timeout) % 2 ^ 64, 0⟩ u).ref) =
        s.env.loop.timerHandles.filter fun u => (s.env.timer u).ref := by
      refine List.filter_congr fun u hu => ?_
      have hut : u ≠ t := by rintro rfl; exact hno hu
      simp [hut]
    rw [hold]
    cases ref <;> simp

/-- The timer tree without `t`: how both the loop and a resumed sleeper take a timer out. -/
theorem erase (h : Timers ⟨s, k⟩) (hm : t ∈ s.env.loop.timerHandles) (x : Leftover)
    (hk : ∀ u y, k = some (u, y) → u = t) :
    Timers ⟨{ s with env := s.env.timerStop t }, some (t, x)⟩ := by
  obtain ⟨active, -, -, f, hf, hs, -⟩ := h.armed t hm
  rw [Env.timerStop_eq _ active]
  refine ⟨h.nodup.erase t, ?_, ?_, ?_⟩
  · intro u hu
    obtain ⟨hne, hu⟩ := (h.nodup.mem_erase_iff).mp hu
    simpa [hne] using h.armed u hu
  · intro u g hu hg
    obtain ⟨h1, h2, h3⟩ := h.sleeper u g hu hg
    refine ⟨h1, ?_, ?_⟩
    · intro ha
      by_cases hut : u = t
      · subst hut; simp at ha
      · exact (h.nodup.mem_erase_iff).mpr ⟨hut, h2 (by simpa [hut] using ha)⟩
    · by_cases hut : u = t
      · subst hut; exact .inr ⟨x, rfl⟩
      · rcases h3 with h3 | ⟨y, hy⟩
        · exact .inl ((h.nodup.mem_erase_iff).mpr ⟨hut, h3⟩)
        · exact absurd (hk u y hy) hut
  · have hold : ((s.env.loop.timerHandles.erase t).filter fun u =>
        (Function.update s.env.timer t { s.env.timer t with active := false } u).ref) =
        (s.env.loop.timerHandles.erase t).filter fun u => (s.env.timer u).ref := by
      refine List.filter_congr fun u hu => ?_
      have hut : u ≠ t := ((h.nodup.mem_erase_iff).mp hu).1
      simp [hut]
    have hcount : s.env.loop.activeHandles =
      (s.env.loop.timerHandles.filter fun t => (s.env.timer t).ref).length := h.count
    simp only [hold, hcount]
    rw [((List.perm_cons_erase hm).filter _).length_eq, List.filter_cons]
    cases (s.env.timer t).ref <;> simp

theorem resume (h : Timers ⟨s, some (u, y)⟩) (hu : s.place u = .blocked f) (x : Leftover)
    (died : Option Tid) : Timers ⟨s.resume u x died, none⟩ := by
  have key : ∀ s₁ : Sched, s₁.place = s.place → Timers ⟨s₁, some (u, y)⟩ →
      u ∉ s₁.env.loop.timerHandles → (s.resume u x died).env.timer = s₁.env.timer →
      (s.resume u x died).env.loop.timerHandles = s₁.env.loop.timerHandles →
      (s.resume u x died).env.loop.activeHandles = s₁.env.loop.activeHandles →
      (s.resume u x died).env.armedBy = s₁.env.armedBy → Timers ⟨s.resume u x died, none⟩ := by
    intro s₁ hp h₁ hno htm hl ha hb
    refine ⟨by rw [hl]; exact h₁.nodup, ?_, ?_, by rw [ha, hl, htm]; exact h₁.count⟩
    · intro t ht
      rw [hl] at ht
      have htu : t ≠ u := by rintro rfl; exact hno ht
      rw [htm, Sched.resume_place hu, Function.update_of_ne htu, ← hp]
      exact h₁.armed t ht
    · intro t g ht hg
      rw [Sched.resume_place hu] at ht
      have htu : t ≠ u := by rintro rfl; simp at ht
      rw [Function.update_of_ne htu, ← hp] at ht
      obtain ⟨h1, h2, h3⟩ := h₁.sleeper t g ht hg
      rw [htm, hl, hb]
      refine ⟨h1, h2, h3.imp id ?_⟩
      rintro ⟨z, hz⟩
      exact absurd (congrArg Prod.fst (Option.some.inj hz)).symm htu
  by_cases hm : u ∈ s.env.loop.timerHandles
  · obtain ⟨active, -, -, g, hg, hs, -⟩ := h.armed u hm
    rw [hu] at hg
    cases hg
    have hd : (((s.env.emit (.switched (some u))).callExitFn died).disarm u f.pending) =
        (((s.env.emit (.switched (some u))).callExitFn died).timerStop u) := by
      simp only [Env.disarm, hs, true_and]
      exact if_pos active
    have active : (s.env.timer u).active = true := active
    refine key { s with env := s.env.timerStop u } rfl
      (h.erase hm y fun _ _ hk => (congrArg Prod.fst (Option.some.inj hk)).symm) ?_ ?_ ?_ ?_ ?_
    · rw [Env.timerStop_eq _ active]
      exact fun hm' => absurd rfl (h.nodup.mem_erase_iff.mp hm').1
    all_goals
      rw [Sched.resume_env hu, hd, Env.timerStop_eq _ (by exact active), Env.timerStop_eq _ active]
      rfl
  · have hd : (((s.env.emit (.switched (some u))).callExitFn died).disarm u f.pending) =
        ((s.env.emit (.switched (some u))).callExitFn died) := by
      refine if_neg ?_
      rintro ⟨hs, ha⟩
      exact hm ((h.sleeper u f hu hs).2.1 ha)
    refine key s rfl h hm ?_ ?_ ?_ ?_
    all_goals
      rw [Sched.resume_env hu, hd]
      rfl

theorem emit (h : Timers ⟨s, k⟩) (e : Event) : Timers ⟨s.emit e, k⟩ :=
  h.congr rfl rfl rfl rfl rfl fun _ x hx => ⟨x, hx⟩

theorem move {m m' : Moment} (h : Timers m) (hm : Move R m m') : Timers m' := by
  cases hm with
  | enter | acquireWaits | releaseMeets | take | give | semInit | setExitFn | updateTime | others
  | tick | drop | poll | hubEnd | turn => exact h.congr rfl rfl rfl rfl rfl fun _ _ hk => by cases hk
  | @refuse s t k o =>
    refine h.env _ ?_ ?_ ?_ ?_ <;>
    · simp only [Env.emit]
      split <;> rfl
  | pause entered kind =>
    refine h.block entered.running ?_
    rcases kind with hf | hf <;> simp [hf]
  | @sleep s f timeout ref entered pending nonneg kind =>
    refine h.sleep entered.running pending _ ref ?_
    rw [kind]
    cases ref <;> simp
  | @lookup s f entered pending =>
    exact (h.env (s.submit f.self f.call).env rfl rfl rfl rfl).block entered.running (by simp [pending])
  | @queueReceive s f ch entered pending alone =>
    exact (h.emit (.blocked (.receivers ch) f.call)).block entered.running (by simp [pending])
  | @queueSend s f ch v entered pending alone =>
    exact (h.emit (.blocked (.senders ch) f.call)).block entered.running (by simp [pending])
  | meetSender entered op pending partner =>
    exact (h.block entered.running (by simp [pending])).emit _
  | meetReceiver entered op pending partner =>
    exact (h.block entered.running (by simp [pending])).emit _
  | @die s t running main =>
    exact (h.emit (.finish t)).place (t := t) (fun u hu => by simp [Sched.setPlace, hu, Sched.emit])
      rfl (by simp [Sched.emit, running]) (by simp [Sched.setPlace])
  | pick | fallback => exact h.congr rfl rfl rfl rfl rfl fun _ _ hk => by cases hk
  | @fire s t ts x hub control first due active f place pending =>
    have ht : t ∈ s.env.loop.timerHandles := by simp [first]
    exact (h.erase ht x fun _ _ hk => by cases hk).congr rfl rfl rfl rfl rfl fun _ y hy => ⟨y, hy⟩
  | answer => exact h.congr rfl rfl rfl rfl rfl fun _ _ hk => by cases hk
  | resume away place dead => exact h.resume place _ _
  | @start s u away new =>
    have hp : Timers ⟨s.setPlace u .running, none⟩ :=
      h.place (t := u) (fun t ht => by simp [Sched.setPlace, ht]) rfl (by simp [new])
        (by simp [Sched.setPlace])
    exact hp.congr rfl rfl rfl rfl rfl fun _ x hx => ⟨x, hx⟩
  | @enterHub s died away ready dead =>
    rw [Sched.enterHub_eq]
    exact h.congr rfl rfl rfl rfl rfl fun _ x hx => ⟨x, hx⟩
  | @init s t main free =>
    have ht : ∀ f, s.place t = .blocked f → f.pending ≠ .sleep := by
      rcases free with hp | hp | hp <;> simp [hp]
    have hp : Timers ⟨s.setPlace t .new, none⟩ :=
      h.place (t := t) (fun u hu => by simp [Sched.setPlace, hu]) rfl ht (by simp [Sched.setPlace])
    exact hp.env _ rfl rfl rfl rfl

end Timers
end Gevent
