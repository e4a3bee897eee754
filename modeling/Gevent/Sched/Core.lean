import Gevent.Sched.Moves

/-!
# Places, queues and control

The invariant that ties the queues to the places, and the places to who has
control. It holds at every moment of every run (`Core.move`).
-/

namespace Gevent

/-- The queues hold the cothreads whose calls wait in them, each once. -/
structure Sched.Queues (s : Sched) : Prop where
  self : ∀ t f, s.place t = .blocked f → f.self = t
  queued : ∀ q t, t ∈ s.queue q ↔ ∃ f, s.place t = .blocked f ∧ f.pending.queue = some q
  nodup : ∀ q, (s.queue q).Nodup

namespace Sched.Queues
variable {s s' : Sched} {t u : Tid} {f : Frame} {q : QueueId}

theorem congr (h : s.Queues) (hp : s'.place = s.place) (hq : s'.queue = s.queue) : s'.Queues where
  self := by rw [hp]; exact h.self
  queued := by rw [hp, hq]; exact h.queued
  nodup := by rw [hq]; exact h.nodup

theorem not_queued (h : s.Queues) (ht : ∀ f, s.place t ≠ .blocked f) (q : QueueId) :
    t ∉ s.queue q := by
  intro hm
  obtain ⟨f, hf, -⟩ := (h.queued q t).mp hm
  exact ht f hf

/-- A cothread that is in no call changes its place. -/
theorem setPlace (h : s.Queues) (ht : ∀ f, s.place t ≠ .blocked f) {p : Place}
    (hp : ∀ f, p ≠ .blocked f) : (s.setPlace t p).Queues where
  self u f hu := by
    by_cases hut : u = t
    · subst hut; exact absurd (by simpa [Sched.setPlace] using hu) (hp f)
    · exact h.self u f (by simpa [Sched.setPlace, hut] using hu)
  queued q u := by
    by_cases hut : u = t
    · subst hut
      simp only [Sched.setPlace, Function.update_self]
      refine iff_of_false (h.not_queued ht q) ?_
      rintro ⟨f, hf, -⟩
      exact hp f hf
    · simpa [Sched.setPlace, hut] using h.queued q u
  nodup := h.nodup

theorem block (h : s.Queues) (ht : ∀ f, s.place t ≠ .blocked f) (hf : f.self = t) :
    (s.block t f).Queues where
  self u g hu := by
    by_cases hut : u = t
    · subst hut
      have hg : f = g := by simpa using hu
      exact hg ▸ hf
    · exact h.self u g (by simpa [hut] using hu)
  queued q u := by
    have hno := h.not_queued ht
    have hold := h.queued q u
    rw [block_queue, block_place]
    by_cases hut : u = t
    · subst hut
      split <;> simp_all
    · split <;> simp_all
  nodup q := by
    rw [block_queue]
    split
    · exact List.nodup_append.mpr ⟨h.nodup q, by simp, by
        rintro a ha b hb rfl
        rw [List.mem_singleton.mp hb] at ha
        exact h.not_queued ht q ha⟩
    · exact h.nodup q

theorem resume (h : s.Queues) (hp : s.place u = .blocked f) (x : Leftover) (died : Option Tid) :
    (s.resume u x died).Queues where
  self t g ht := by
    rw [resume_place hp] at ht
    by_cases htu : t = u
    · subst htu; simp at ht
    · exact h.self t g (by simpa [htu] using ht)
  queued q t := by
    rw [resume_place hp, resume_queue hp]
    have hold := h.queued q t
    by_cases htu : t = u
    · subst htu
      have hnd := h.nodup q
      split
      · simp [hnd.mem_erase_iff]
      · simp_all
    · split
      · simp [(h.nodup q).mem_erase_iff, htu, hold]
      · simp [htu, hold]
  nodup q := by
    rw [resume_queue hp]
    split
    · exact (h.nodup q).erase u
    · exact h.nodup q

end Sched.Queues

/-- What holds at every moment of a run, apart from timers, requests and history. -/
structure Core (m : Moment) : Prop where
  queues : m.sched.Queues
  running : ∀ t, m.sched.place t = .running → m.sched.control = .user t ∧ m.sched.hub ≠ .running
  hub : m.sched.hub = .running → m.sched.control.owner = none ∧ m.sched.queue .ready = []
  main : m.sched.place m.sched.main = .running ∨ ∃ f, m.sched.place m.sched.main = .blocked f
  known : ∀ t, t ∈ m.sched.env.known ↔ m.sched.place t ≠ .unborn
  oneSided : ∀ ch, m.sched.queue (.receivers ch) = [] ∨ m.sched.queue (.senders ch) = []
  waking : ∀ u x, m.waking = some (u, x) → m.sched.Away ∧ ∃ f, m.sched.place u = .blocked f

/-- Either a cothread runs its own code, or the loop runs. -/
def Sched.Settled (s : Sched) : Prop :=
  (∃ t, s.control = .user t ∧ s.place t = .running) ∨ (∃ ph, s.control = .hub ph ∧ s.hub = .running)

namespace Core
variable {R : Rules} {s s' : Sched} {t u : Tid} {f : Frame} {k : Option (Tid × Leftover)}

theorem initial (h : s.Initial) : Core ⟨s, none⟩ where
  queues :=
    { self := fun t f ht => by
        rw [h.place] at ht
        by_cases he : t = s.main <;> simp [he] at ht
      queued := fun q t => by
        rw [h.queue, h.place]
        by_cases he : t = s.main <;> simp [he]
      nodup := fun q => by rw [h.queue]; exact List.nodup_nil }
  running t ht := by
    rw [h.place] at ht
    by_cases he : t = s.main
    · subst he; simp [h.control, h.hub]
    · simp [he] at ht
  hub hh := by rw [h.hub] at hh; cases hh
  main := .inl (by simp [h.place])
  known t := by
    rw [h.known, h.place]
    by_cases he : t = s.main <;> simp [he]
  oneSided ch := .inl (h.queue _)
  waking u x hx := by cases hx

/-- Only one cothread runs, and not while the loop does. -/
theorem running_unique (c : Core ⟨s, k⟩) (ht : s.place t = .running) (hu : s.place u = .running) :
    u = t := by
  have h1 := (c.running t ht).1
  rw [(c.running u hu).1] at h1
  exact Control.user.inj h1

/-- Who is first in a queue is blocked in a call that waits there, and is not the caller. -/
theorem partner (c : Core ⟨s, k⟩) (ht : s.place t = .running) {q : QueueId} {us : List Tid}
    (first : s.queue q = u :: us) :
    ∃ g, s.place u = .blocked g ∧ g.pending.queue = some q ∧ u ≠ t := by
  obtain ⟨g, hg, hq⟩ := (c.queues.queued q u).mp (by simp [first])
  refine ⟨g, hg, hq, ?_⟩
  rintro rfl
  have hg : s.place u = .blocked g := hg
  rw [ht] at hg
  cases hg

theorem away_of_block (c : Core ⟨s, k⟩) (ht : s.place t = .running) : (s.block t f).Away where
  nobody u hu := by
    by_cases hut : u = t
    · subst hut; simp at hu
    · exact hut (c.running_unique ht (by simpa [hut] using hu))
  hub := by simpa using (c.running t ht).2

/-- The run function of the running cothread returns. -/
theorem away_of_die (c : Core ⟨s, k⟩) (ht : s.place t = .running) :
    ((s.emit (.finish t)).setPlace t .dead).Away where
  nobody u hu := by
    have hu : Function.update s.place t .dead u = .running := hu
    by_cases hut : u = t
    · subst hut; simp at hu
    · exact hut (c.running_unique ht (by simpa [hut] using hu))
  hub := (c.running t ht).2

/-- The environment alone changes, and not who is known. -/
theorem env (c : Core ⟨s, k⟩) (e : Env) (he : e.known = s.env.known) :
    Core ⟨{ s with env := e }, k⟩ where
  queues := c.queues.congr rfl rfl
  running := c.running
  hub := c.hub
  main := c.main
  known t := by rw [← c.known t, ← he]
  oneSided := c.oneSided
  waking := fun u x hx => ⟨⟨(c.waking u x hx).1.nobody, (c.waking u x hx).1.hub⟩, (c.waking u x hx).2⟩

theorem block (c : Core ⟨s, none⟩) (ht : s.place t = .running) (hf : f.self = t)
    (hq : ∀ ch, (f.pending.queue = some (.receivers ch) → s.queue (.senders ch) = []) ∧
      (f.pending.queue = some (.senders ch) → s.queue (.receivers ch) = [])) :
    Core ⟨s.block t f, none⟩ where
  queues := c.queues.block (by simp [ht]) hf
  running u hu := absurd hu ((c.away_of_block ht).nobody u)
  hub hh := absurd hh (c.away_of_block ht).hub
  main := by
    by_cases hm : s.main = t
    · exact .inr ⟨f, by simp [hm]⟩
    · simpa [hm] using c.main
  known u := by
    have := c.known u
    by_cases hu : u = t
    · subst hu; simpa [ht] using this
    · simpa [hu] using this
  oneSided ch := by
    have hold := c.oneSided ch
    obtain ⟨hr, hs⟩ := hq ch
    rw [Sched.block_queue, Sched.block_queue]
    by_cases h1 : f.pending.queue = some (.receivers ch)
    · right; simp [h1, hr h1]
    · by_cases h2 : f.pending.queue = some (.senders ch)
      · left; simp [h2, hs h2]
      · simpa [h1, h2] using hold
  waking u x hx := by cases hx

theorem wake (c : Core ⟨s, none⟩) (a : s.Away) (hu : s.place u = .blocked f) (x : Leftover) :
    Core ⟨s, some (u, x)⟩ :=
  { c with waking := by rintro _ _ ⟨⟩; exact ⟨a, f, hu⟩ }

theorem resume (c : Core ⟨s, k⟩) (a : s.Away) (hu : s.place u = .blocked f) (x : Leftover)
    (died : Option Tid) : Core ⟨s.resume u x died, none⟩ where
  queues := c.queues.resume hu x died
  running t ht := by
    rw [Sched.resume_place hu] at ht
    rw [Sched.resume_control hu, Sched.resume_hub hu]
    by_cases htu : t = u
    · exact ⟨by rw [htu], a.hub⟩
    · exact absurd (by simpa [htu] using ht) (a.nobody t)
  hub hh := by
    rw [Sched.resume_hub hu] at hh
    exact absurd hh a.hub
  main := by
    rw [Sched.resume_main hu, Sched.resume_place hu]
    by_cases hm : s.main = u
    · left; simp [hm]
    · simpa [hm] using c.main
  known t := by
    have := c.known t
    obtain ⟨tm, hs, n, he⟩ := Sched.resume_shape hu x died
    rw [Sched.resume_place hu, he]
    by_cases htu : t = u
    · subst htu; simpa [hu] using this
    · simpa [htu] using this
  oneSided ch := by
    rw [Sched.resume_queue hu, Sched.resume_queue hu]
    have hold : s.queue (.receivers ch) = [] ∨ s.queue (.senders ch) = [] := c.oneSided ch
    rcases hold with h | h
    · left; split <;> simp [h]
    · right; split <;> simp [h]
  waking u x hx := by cases hx

/-- The places of cothreads in no call change; the main one stays in its call. -/
theorem place (c : Core ⟨s, none⟩) {p : Place} (ht : ∀ f, s.place t ≠ .blocked f)
    (hp : ∀ f, p ≠ .blocked f) (main : t ≠ s.main) (e : Env)
    (hrun : p = .running → s.control = .user t ∧ s.hub ≠ .running)
    (known : ∀ u, u ∈ e.known ↔ (s.setPlace t p).place u ≠ .unborn) :
    Core ⟨{ s.setPlace t p with env := e }, none⟩ where
  queues := (c.queues.setPlace ht hp).congr rfl rfl
  running u hu := by
    by_cases hut : u = t
    · subst hut; exact hrun (by simpa [Sched.setPlace] using hu)
    · exact c.running u (by simpa [Sched.setPlace, hut] using hu)
  hub := c.hub
  main := by simpa [Sched.setPlace, Ne.symm main] using c.main
  known := known
  oneSided := c.oneSided
  waking u x hx := by cases hx

theorem start (c : Core ⟨s, none⟩) (a : s.Away) (hu : s.place u = .new) :
    Core ⟨s.startCothread u, none⟩ where
  queues := (c.queues.setPlace (by simp [hu]) (by simp)).congr rfl rfl
  running t ht := by
    by_cases htu : t = u
    · subst htu; exact ⟨rfl, a.hub⟩
    · have : (s.setPlace u .running).place t = .running := ht
      exact absurd (by simpa [Sched.setPlace, htu] using this) (a.nobody t)
  hub hh := absurd hh a.hub
  main := by
    have hm : s.main ≠ u := by
      intro he
      have hold : s.place s.main = .running ∨ ∃ f, s.place s.main = .blocked f := c.main
      rw [he, hu] at hold
      simp at hold
    have hold := c.main
    change (s.setPlace u .running).place s.main = .running ∨
      ∃ f, (s.setPlace u .running).place s.main = .blocked f
    simpa [Sched.setPlace, hm] using hold
  known t := by
    have hold := c.known t
    change t ∈ s.env.known ↔ (s.setPlace u .running).place t ≠ .unborn
    by_cases htu : t = u
    · subst htu; simpa [Sched.setPlace, hu] using hold
    · simpa [Sched.setPlace, htu] using hold
  oneSided := c.oneSided
  waking u x hx := by cases hx

/-- The loop gets control, or passes it on to nobody. -/
theorem withHub (c : Core ⟨s, k⟩) (hub : HubPlace) (control : Control) (e : Env)
    (nobody : ∀ t, s.place t ≠ .running) (known : e.known = s.env.known)
    (hrun : hub = .running → control.owner = none ∧ s.queue .ready = [] ∧ k = none) :
    Core ⟨{ s with hub := hub, control := control, env := e }, k⟩ where
  queues := c.queues.congr rfl rfl
  running t ht := absurd ht (nobody t)
  hub hh := ⟨(hrun hh).1, (hrun hh).2.1⟩
  main := c.main
  known t := by rw [← c.known t]; exact Iff.of_eq (congrArg (t ∈ ·) known)
  oneSided := c.oneSided
  waking u x hx := by
    refine ⟨⟨nobody, fun hh => ?_⟩, (c.waking u x hx).2⟩
    have hk := (hrun hh).2.2
    rw [show k = some (u, x) from hx] at hk
    cases hk

theorem nobody (c : Core ⟨s, k⟩) (hub : s.hub = .running) (t : Tid) : s.place t ≠ .running :=
  fun ht => (c.running t ht).2 hub

theorem move {m m' : Moment} (c : Core m) (h : Move R m m') : Core m' := by
  cases h with
  | enter | acquireWaits | releaseMeets | take | give | semInit | setExitFn | updateTime | others
  | tick | drop => exact c.env _ rfl
  | refuse =>
    refine c.env _ ?_
    simp only [Env.emit]
    split <;> rfl
  | pause entered kind =>
    refine c.block entered.running rfl ?_
    rcases kind with h | h <;> simp [h, Pending.queue]
  | @sleep s f timeout ref entered pending nonneg kind =>
    have he : (s.arm f.self f.call timeout.toNat ref).env.known = s.env.known := by
      rw [Sched.arm_eq]
    exact (c.env _ he).block entered.running rfl (by simp [pending, Pending.queue])
  | @lookup s f entered pending =>
    exact (c.env (s.submit f.self f.call).env rfl).block entered.running rfl (by simp [pending, Pending.queue])
  | @queueReceive s f ch entered pending alone =>
    refine (c.env (s.env.emit (.blocked (.receivers ch) f.call)) rfl).block entered.running rfl fun ch' => ?_
    rw [pending]
    refine ⟨fun h => ?_, fun h => by cases h⟩
    cases h
    exact alone
  | @queueSend s f ch v entered pending alone =>
    refine (c.env (s.env.emit (.blocked (.senders ch) f.call)) rfl).block entered.running rfl fun ch' => ?_
    rw [pending]
    refine ⟨(fun h => by cases h), fun h => ?_⟩
    cases h
    exact alone
  | @meetSender s f ch u us x entered op pending partner =>
    obtain ⟨g, hg, -, hne⟩ := c.partner entered.running partner
    have hb := c.block entered.running (f := f) rfl (by simp [pending, Pending.queue])
    exact ((hb.wake (c.away_of_block entered.running) (by simpa [hne] using hg) x).env _ rfl)
  | @meetReceiver s f ch v u us x entered op pending partner =>
    obtain ⟨g, hg, -, hne⟩ := c.partner entered.running partner
    have hb := c.block entered.running (f := f) rfl (by simp [pending, Pending.queue])
    exact ((hb.wake (c.away_of_block entered.running) (by simpa [hne] using hg) _).env _ rfl)
  | @die s t running main =>
    refine c.place (p := .dead) (by simp [running]) (by simp) main _ (by simp) fun u => ?_
    change u ∈ s.env.known ↔ _
    have := c.known u
    by_cases hu : u = t
    · subst hu; simpa [Sched.setPlace, running] using this
    · simpa [Sched.setPlace, hu] using this
  | @pick s u us x away first =>
    have hu : u ∈ s.queue .ready := by simp [first]
    obtain ⟨g, hg, -⟩ := (c.queues.queued _ _).mp hu
    exact c.wake away hg x
  | @fallback s x away ready hub reason =>
    rcases c.main with h | ⟨f, hf⟩
    · exact absurd h (away.nobody _)
    · exact (c.wake away hf x).env _ rfl
  | @fire s t ts x hub control first due active f place pending =>
    have hk : (s.env.timerStop t).known = s.env.known := by rw [Env.timerStop_eq _ active]
    have h := c.withHub (.suspended .timers) s.control
      ((s.env.timerStop t).emit (.fired (s.env.armedBy t))) (c.nobody hub) hk (by simp)
    exact h.wake (f := f) ⟨c.nobody hub, by simp⟩ place x
  | @answer s r error res my x hub control active data f place pending =>
    have h := c.withHub (.suspended .io) s.control (s.env.complete r error res) (c.nobody hub) rfl
      (by simp)
    exact h.wake (f := f) ⟨c.nobody hub, by simp⟩ place _
  | resume away place dead => exact c.resume away place _ _
  | start away new => exact c.start away new
  | @enterHub s died away ready dead =>
    rw [Sched.enterHub_eq]
    exact c.withHub _ _ _ away.nobody rfl fun _ => ⟨rfl, ready, rfl⟩
  | @poll s hub => exact c.withHub s.hub _ _ (c.nobody hub) rfl fun _ => ⟨rfl, (c.hub hub).2, rfl⟩
  | @turn s hub alive =>
    exact c.withHub s.hub _ _ (c.nobody hub) rfl fun _ => ⟨rfl, (c.hub hub).2, rfl⟩
  | @hubEnd s hub dead =>
    exact c.withHub _ s.control _ (c.nobody hub) rfl (by simp)
  | @init s t main free =>
    have ht : ∀ f, s.place t ≠ .blocked f := by rcases free with h | h | h <;> simp [h]
    refine c.place (p := .new) ht (by simp) main _ (by simp) fun u => ?_
    have := c.known u
    by_cases hu : u = t
    · subst hu; simp [Sched.setPlace, Env.initCothread]
    · simpa [Sched.setPlace, Env.initCothread, hu] using this

end Core
end Gevent
