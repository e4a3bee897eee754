import Mathlib.Data.Finset.Card
import Mathlib.Data.Finset.Dedup
import Gevent.Sched.Path

/-!
# Turns of the ready queue

While somebody is ready, `hub->current` changes in two ways: a call switches
directly to a cothread that is new or blocked on a channel, and queues its
caller; or the first ready cothread continues (`Sched.Turn`). Direct switches use
up the cothreads they can go to, so everybody in the queue comes nearer to its
head (`Sched.Turns.nearer`).
-/

namespace Gevent

/-- How often `hub->current` changes. -/
def switches : List Event → Nat
  | [] => 0
  | .switched _ :: l => switches l + 1
  | _ :: l => switches l

def Event.Unswitched : Event → Prop
  | .switched _ => False
  | _ => True

/-- `spawn`, `send` and `receive` can switch to such a cothread. -/
def Place.direct : Place → Bool
  | .new => true
  | .blocked f =>
    match f.pending with
    | .receive _ | .send _ _ => true
    | _ => false
  | _ => false

def Place.unfinished : Place → Bool
  | .unborn | .dead => false
  | _ => true

theorem Place.unfinished_of_direct {p : Place} (h : p.direct = true) : p.unfinished = true := by
  cases p <;> first | rfl | cases h

/-- A call that waits in the ready queue is not reached directly. -/
theorem Place.not_direct {f : Frame} (h : f.pending.queue = some .ready) :
    (Place.blocked f).direct = false := by
  obtain ⟨self, call, op, pending, caller⟩ := f
  cases pending <;> first | rfl | cases h

theorem Place.direct_channel {f : Frame} {ch : Chan}
    (h : f.pending.queue = some (.receivers ch) ∨ f.pending.queue = some (.senders ch)) :
    (Place.blocked f).direct = true := by
  obtain ⟨self, call, op, pending, caller⟩ := f
  cases pending <;> simp [Pending.queue] at h <;> rfl

section
variable {es log : List Event}

theorem switches_append : switches (es ++ log) = switches es + switches log := by
  induction es with
  | nil => simp [switches]
  | cons ev es ih => cases ev <;> simp [switches, ih, Nat.add_right_comm]

theorem switches_unswitched (h : ∀ ev ∈ es, ev.Unswitched) : switches es = 0 := by
  induction es with
  | nil => rfl
  | cons ev es ih =>
    have hev := h ev List.mem_cons_self
    have hes := ih fun e he => h e (List.mem_cons_of_mem _ he)
    cases ev with
    | switched u => exact hev.elim
    | _ => exact hes

theorem Frame.returns_unswitched {f : Frame} {r : Result} {counter : Sem → Int} :
    ∀ ev ∈ f.returns r counter, ev.Unswitched := by
  intro ev hev
  obtain ⟨k, c, r', rfl, -⟩ := Frame.mem_returns hev
  trivial

theorem Env.switches_switching {e : Env} {new died : Option Tid} : switches (e.switching new died) = 1 := by
  cases died with
  | none => rfl
  | some t => cases h : e.exitFn t <;> simp [switching, h, Option.filter, switches]

end

namespace Sched

inductive Turn (s s' : Sched) (es : List Event) : Prop
  | stay (quiet : ∀ ev ∈ es, ev.Unswitched) (ready : s'.queue .ready = s.queue .ready)
      (place : s'.place = s.place)
  | handoff (t u : Tid) (f : Frame) (running : s.place t = .running)
      (direct : (s.place u).direct = true) (blocked : f.pending.queue = some .ready)
      (place : s'.place = Function.update (Function.update s.place t (.blocked f)) u .running)
      (ready : s'.queue .ready = s.queue .ready ++ [t]) (once : switches es = 1)
      (hub : .switched none ∉ es)
  | pick (u : Tid) (us : List Tid) (first : s.queue .ready = u :: us)
      (ready : s'.queue .ready = us)
      (ended : ∀ v, (s'.place v).unfinished = true → (s.place v).unfinished = true)
      (once : switches es = 1) (chosen : .switched (some u) ∈ es) (hub : .switched none ∉ es)

/-- `s'` is one turn after `s`. -/
def Turns (s s' : Sched) : Prop := s'.env.known = s.env.known ∧
  ∃ es, s'.env.log = es ++ s.env.log ∧ s.Turn s' es

variable {s s₁ s' : Sched} {t u : Tid} {f g : Frame} {l : List Event} {x : Leftover}
  {died : Option Tid} {k : CallId} {ch : Chan} {v : Word} {caller : Caller}

/-- What happens before the turn is only entered in the history. -/
theorem Turns.prepend (h : s₁.Turns s') (known : s₁.env.known = s.env.known)
    (log : s₁.env.log = l ++ s.env.log) (quiet : ∀ ev ∈ l, ev.Unswitched)
    (ready : s₁.queue .ready = s.queue .ready) (place : s₁.place = s.place) : s.Turns s' := by
  obtain ⟨hk, l', hlog, turn⟩ := h
  refine ⟨hk.trans known, l' ++ l, by rw [hlog, log, List.append_assoc], ?_⟩
  have count : switches (l' ++ l) = switches l' := by
    rw [switches_append, switches_unswitched quiet, Nat.add_zero]
  have hub : .switched none ∉ l' → .switched none ∉ l' ++ l := fun h hm =>
    (List.mem_append.mp hm).elim h fun hm => quiet _ hm
  cases turn with
  | stay quiet' ready' place' =>
    refine .stay (fun ev hev => ?_) (ready'.trans ready) (place'.trans place)
    exact (List.mem_append.mp hev).elim (quiet' ev) (quiet ev)
  | handoff t u f running direct blocked place' ready' once hub' =>
    rw [place] at running direct place'
    rw [ready] at ready'
    exact .handoff t u f running direct blocked place' ready' (count.trans once) (hub hub')
  | pick u us first ready' ended once chosen hub' =>
    rw [place] at ended
    rw [ready] at first
    exact .pick u us first ready' ended (count.trans once) (List.mem_append_left _ chosen) (hub hub')

theorem Turns.enter {c : Call} (h : (s.enter t c).Turns s') : s.Turns s' :=
  h.prepend (l := [.call s.env.calls t c]) rfl rfl (by simp [Event.Unswitched]) rfl rfl

/-- The events of a resumption that follows unremarkable ones. -/
theorem resume_events (x : Leftover) (died : Option Tid) (hu : s₁.place u = .blocked g) (known : s₁.env.known = s.env.known)
    (log : s₁.env.log = l ++ s.env.log) (quiet : ∀ ev ∈ l, ev.Unswitched) :
    (s₁.resume u x died).env.known = s.env.known ∧
    ∃ l', (s₁.resume u x died).env.log = l' ++ s.env.log ∧ switches l' = 1 ∧
      .switched (some u) ∈ l' ∧ .switched none ∉ l' := by
  obtain ⟨timer, handles, active, he⟩ := resume_shape hu x died
  refine ⟨by rw [he]; exact known, g.returns (g.pending.result x) s₁.env.counter ++
    (s₁.env.switching (some u) died ++ l), by rw [he]; simp [log], ?_, ?_, ?_⟩
  · rw [switches_append, switches_append, switches_unswitched Frame.returns_unswitched,
      Env.switches_switching, switches_unswitched quiet]
  · simp [Env.mem_switching]
  · intro hm
    rcases List.mem_append.mp hm with hm | hm
    · exact Frame.returns_unswitched _ hm
    · rcases List.mem_append.mp hm with hm | hm
      · rcases Env.mem_switching.mp hm with he | ⟨t, -, -, he⟩ <;> cases he
      · exact quiet _ hm

/-- The first ready cothread continues. -/
theorem turns_pick {us : List Tid} (first : s.queue .ready = u :: us)
    (same : s₁.queue .ready = s.queue .ready) (hu : s₁.place u = .blocked g)
    (hg : g.pending.queue = some .ready) (known : s₁.env.known = s.env.known)
    (log : s₁.env.log = l ++ s.env.log) (quiet : ∀ ev ∈ l, ev.Unswitched)
    (ended : ∀ v, (s₁.place v).unfinished = true → (s.place v).unfinished = true) :
    s.Turns (s₁.resume u x died) := by
  obtain ⟨hk, l', hlog, once, chosen, hub⟩ := resume_events x died hu known log quiet
  refine ⟨hk, l', hlog, .pick u us first ?_ (fun w hw => ?_) once chosen hub⟩
  · rw [resume_queue hu, if_pos hg, same, first, List.erase_cons_head]
  · rw [resume_place hu] at hw
    by_cases hwu : w = u
    · subst hwu
      exact ended w (by rw [hu]; rfl)
    · rw [Function.update_of_ne hwu] at hw
      exact ended w hw

/-- A call blocks its caller outside the ready queue and yields. -/
theorem turns_block (c : Core ⟨s₁, none⟩) (running : s₁.place t = .running)
    (hne : s.queue .ready ≠ []) (hf : f.pending.queue ≠ some .ready)
    (same : s₁.queue .ready = s.queue .ready) (place : s₁.place = s.place)
    (known : s₁.env.known = s.env.known) (log : s₁.env.log = l ++ s.env.log)
    (quiet : ∀ ev ∈ l, ev.Unswitched) : s.Turns ((s₁.block t f).yield x) := by
  obtain ⟨u, us, first⟩ := List.exists_cons_of_ne_nil hne
  have hq : (s₁.block t f).queue .ready = s.queue .ready := by rw [block_queue, if_neg hf, same]
  obtain ⟨g, hu, hg⟩ := (c.queues.queued .ready u).mp (by simp [same, first])
  have hu : s₁.place u = .blocked g := hu
  have hut : u ≠ t := by
    rintro rfl
    rw [running] at hu
    cases hu
  rw [show (s₁.block t f).yield x = (s₁.block t f).resume u x none by simp [yield, hq, first]]
  refine turns_pick first hq (by simpa [hut] using hu) hg (by simpa using known)
    (by simpa using log) quiet fun w hw => ?_
  by_cases hwt : w = t
  · subst hwt
    rw [← place, running]
    rfl
  · simpa [hwt, place] using hw

/-- A call switches to its partner. -/
theorem turns_handoff {e : Event} (running : s.place t = .running) (hu : s.place u = .blocked g)
    (hg : g.pending.queue = some (.receivers ch) ∨ g.pending.queue = some (.senders ch))
    (hf : f.pending.queue = some .ready) (quiet : e.Unswitched) :
    s.Turns (((s.block t f).emit e).resume u x none) := by
  have hut : u ≠ t := by
    rintro rfl
    rw [running] at hu
    cases hu
  have hu' : ((s.block t f).emit e).place u = .blocked g := by simpa [emit, hut] using hu
  obtain ⟨hk, l, hlog, once, -, hub⟩ := resume_events x none (s := s) (l := [e]) hu'
    (by simp [emit, Env.emit]) (by simp [emit, Env.emit]) (by simpa using quiet)
  refine ⟨hk, l, hlog, .handoff t u f running ?_ hf ?_ ?_ once hub⟩
  · rw [hu]
    exact Place.direct_channel hg
  · rw [resume_place hu']
    simp [emit]
  · rw [resume_queue hu', if_neg (by rcases hg with h | h <;> simp [h])]
    simp only [emit]
    rw [block_queue, if_pos hf]

theorem turns_stay (log : s'.env.log = l ++ s.env.log) (quiet : ∀ ev ∈ l, ev.Unswitched)
    (known : s'.env.known = s.env.known) (ready : s'.queue .ready = s.queue .ready)
    (place : s'.place = s.place) : s.Turns s' :=
  ⟨known, l, log, .stay quiet ready place⟩

theorem turns_receive (c : Core ⟨s, none⟩) (running : s.place t = .running)
    (hne : s.queue .ready ≠ []) : s.Turns (s.receive x t k ch caller) := by
  cases hq : s.queue (.senders ch) with
  | nil =>
    simp only [receive, hq]
    exact turns_block (l := [.blocked (.receivers ch) k]) (c.env _ rfl) running hne
      (by simp [Pending.queue]) rfl rfl rfl rfl (by simp [Event.Unswitched])
  | cons u us =>
    simp only [receive, hq]
    obtain ⟨g, hu, hg⟩ := (c.queues.queued (.senders ch) u).mp (by simp [hq])
    exact turns_handoff running hu (.inr hg) rfl trivial

theorem turns_send (c : Core ⟨s, none⟩) (running : s.place t = .running)
    (hne : s.queue .ready ≠ []) : s.Turns (s.send x t k ch v caller) := by
  cases hq : s.queue (.receivers ch) with
  | nil =>
    simp only [send, hq]
    exact turns_block (l := [.blocked (.senders ch) k]) (c.env _ rfl) running hne
      (by simp [Pending.queue]) rfl rfl rfl rfl (by simp [Event.Unswitched])
  | cons u us =>
    simp only [send, hq]
    obtain ⟨g, hu, hg⟩ := (c.queues.queued (.receivers ch) u).mp (by simp [hq])
    exact turns_handoff running hu (.inl hg) rfl trivial

theorem turns_sleep (c : Core ⟨s, none⟩) (running : s.place t = .running)
    (hne : s.queue .ready ≠ []) {op : Call} {timeout : Int} {ref : Bool} :
    s.Turns (s.sleepInternal x t k op timeout ref) := by
  rw [sleepInternal, arm_eq]
  exact turns_block (l := [.armed k t ((s.env.loop.time + timeout.toNat) % 2 ^ 64)]) (c.env _ rfl)
    running hne (by simp [Pending.queue]) rfl rfl rfl rfl (by simp [Event.Unswitched])

theorem turns_spawn (running : s.place t = .running) (new : s.place u = .new) {c : Call} :
    s.Turns ((s.block t ⟨t, k, c, .spawn, .program⟩).startCothread u) := by
  refine ⟨rfl, [.start u, .switched (some u)], rfl,
    .handoff t u ⟨t, k, c, .spawn, .program⟩ running (by rw [new]; rfl) rfl ?_ ?_ rfl (by simp)⟩
  · simp [startCothread, setPlace, switched, emit]
  · change (s.block t ⟨t, k, c, .spawn, .program⟩).queue .ready = _
    simp [block_queue, Pending.queue]

/-- A call of the running cothread. -/
theorem turns_perform (core : Core ⟨s, none⟩) (running : s.place t = .running)
    (hne : s.queue .ready ≠ []) {c : Call} (valid : ∀ u, c = .spawn u → s.place u = .new) :
    s.Turns (s.perform x t k c) := by
  cases c with
  | spawn u => exact turns_spawn running (valid u rfl)
  | sleep d => exact turns_sleep core running hne
  | wait d =>
    simp only [perform]
    split
    · exact turns_sleep core running hne
    · exact turns_block (l := []) core running hne (by simp [Pending.queue]) rfl rfl rfl rfl (by simp)
  | receive ch => exact turns_receive core running hne
  | send ch v => exact turns_send core running hne
  | acquire m =>
    simp only [perform, acquire]
    split
    · exact turns_stay (l := [.ret k t (.acquire m) (.int (s.env.counter m - 1))])
        (by simp [take, leave, emit, Env.emit, Env.setCounter]) (by simp [Event.Unswitched]) rfl rfl rfl
    · exact (turns_receive (s := s.enter t (.receive (.ofSem m))) (core.env _ rfl) running hne).enter
  | release m =>
    simp only [perform, release]
    split
    · exact (turns_send (s := s.enter t (.send (.ofSem m) .null)) (core.env _ rfl) running hne).enter
    · exact turns_stay (l := [.ret k t (.release m) (.int (World.int32 (s.env.counter m + 1)))])
        (by simp [give, leave, emit, Env.emit, Env.setCounter]) (by simp [Event.Unswitched]) rfl rfl rfl
  | getaddrinfo o =>
    simp only [perform, getaddrinfo]
    split
    · exact turns_block (l := [.submitted k s.env.nextReq, .malloc s.env.nextReq]) (core.env _ rfl)
        running hne (by simp [Pending.queue]) rfl rfl rfl rfl (by simp [Event.Unswitched])
    · cases o with
      | noMemory =>
        exact turns_stay (l := [.ret k t (.getaddrinfo .noMemory) (.addrinfo (.data (-1)) none)]) rfl
          (by simp [Event.Unswitched]) rfl rfl rfl
      | failed =>
        exact turns_stay (l := [.ret k t (.getaddrinfo .failed) (.addrinfo (.data (-1)) none),
          .free s.env.nextReq, .malloc s.env.nextReq]) rfl (by simp [Event.Unswitched]) rfl rfl rfl
      | submitted => contradiction

theorem turns_finish (core : Core ⟨s, none⟩) (running : s.place t = .running)
    (hne : s.queue .ready ≠ []) : s.Turns (s.finish x t) := by
  obtain ⟨u, us, first⟩ := List.exists_cons_of_ne_nil hne
  obtain ⟨g, hu, hg⟩ := (core.queues.queued .ready u).mp (by simp [first])
  have hu : s.place u = .blocked g := hu
  have hut : u ≠ t := by
    rintro rfl
    rw [running] at hu
    cases hu
  have hq : ((s.emit (.finish t)).setPlace t .dead).queue .ready = s.queue .ready := rfl
  rw [show s.finish x t = ((s.emit (.finish t)).setPlace t .dead).resume u x (some t) by
    simp [finish, handOn, hq, first]]
  refine turns_pick (l := [.finish t]) first hq ?_ hg rfl rfl (by simp [Event.Unswitched])
    fun w hw => ?_
  · simpa [setPlace, emit, hut] using hu
  · by_cases hwt : w = t
    · subst hwt
      rw [running]
      rfl
    · simpa [setPlace, emit, hwt] using hw

/-- Every step while somebody is ready, but for the initialisation of a cothread. -/
theorem turns_next (core : Core ⟨s, none⟩) (st : s.Settled) (hne : s.queue .ready ≠ [])
    {a : World.Action} (allowed : s.Allowed a) (valid : s.fault a = none)
    (noInit : ∀ t run, a ≠ .cothreadInit t run) (x : Leftover) : s.Turns (s.next x a) := by
  have user : ∃ t, s.control = .user t ∧ s.place t = .running :=
    st.resolve_right fun ⟨_, _, hub⟩ => hne (core.hub hub).2
  obtain ⟨t, hc, running⟩ := user
  cases a with
  | call c =>
    simp only [next, hc]
    refine (turns_perform (s := s.enter t c) (core.env _ rfl) running hne ?_).enter
    rintro u rfl
    simpa [fault, enter] using valid
  | finish =>
    simp only [next, hc]
    exact turns_finish core running hne
  | cothreadInit u run => exact absurd rfl (noInit u run)
  | timers => simp [Allowed, hc] at allowed
  | resolve r error res => simp [Allowed, hc] at allowed
  | iterate => simp [Allowed, hc] at allowed
  | semaphoreInit m c =>
    exact turns_stay (l := [.semInit m c]) rfl (by simp [Event.Unswitched]) rfl rfl rfl
  | tick d => exact turns_stay (l := [.tick d]) rfl (by simp [Event.Unswitched]) rfl rfl rfl
  | setExitFn | channelInit | updateTime | others | handleInit | handleClose =>
    exact turns_stay (l := []) rfl (by simp) rfl rfl rfl

/-! ## What is left of the wait -/

/-- The cothreads that can be reached directly, and all that have not finished. -/
def directs (s : Sched) : Finset Tid := s.env.known.toFinset.filter fun u => (s.place u).direct

def unfinished (s : Sched) : Finset Tid := s.env.known.toFinset.filter fun u => (s.place u).unfinished

@[simp] theorem mem_directs : u ∈ s.directs ↔ u ∈ s.env.known ∧ (s.place u).direct = true := by
  simp [directs]

@[simp] theorem mem_unfinished :
    u ∈ s.unfinished ↔ u ∈ s.env.known ∧ (s.place u).unfinished = true := by
  simp [unfinished]

/-- Neither who runs nor who is ready can be reached directly. -/
theorem directs_card (c : Core ⟨s, none⟩) (running : s.place t = .running)
    (ready : u ∈ s.queue .ready) : s.directs.card + 2 ≤ s.unfinished.card := by
  obtain ⟨f, hu, hf⟩ := (c.queues.queued .ready u).mp ready
  have hu : s.place u = .blocked f := hu
  have hut : u ≠ t := by
    rintro rfl
    rw [running] at hu
    cases hu
  have known : ∀ v, s.place v ≠ .unborn → v ∈ s.env.known := fun v => (c.known v).mpr
  have ht : t ∈ s.unfinished := by
    rw [mem_unfinished, running]
    exact ⟨known t (by simp [running]), rfl⟩
  have hu' : u ∈ s.unfinished.erase t := by
    rw [Finset.mem_erase, mem_unfinished, hu]
    exact ⟨hut, known u (by simp [hu]), rfl⟩
  have sub : s.directs ⊆ (s.unfinished.erase t).erase u := by
    intro v hv
    obtain ⟨hk, hd⟩ := mem_directs.mp hv
    have hvt : v ≠ t := by
      rintro rfl
      rw [running] at hd
      cases hd
    have hvu : v ≠ u := by
      rintro rfl
      rw [hu, Place.not_direct hf] at hd
      cases hd
    simpa [hvt, hvu, Place.unfinished_of_direct hd] using hk
  have hcard := Finset.card_le_card sub
  have h1 := Finset.card_erase_add_one ht
  have h2 := Finset.card_erase_add_one hu'
  omega

/-- `t` is in the ready queue, and what it still has to wait for fits the bound:
for each cothread before it one removal from the queue and the direct switches
until the next. -/
structure Nearer (s : Sched) (t : Tid) (n bound : Nat) (new : List Event) : Prop where
  position : ∃ pre post, s.queue .ready = pre ++ t :: post ∧
    switches new + pre.length * (n - 1) + s.directs.card + 1 ≤ bound
  unfinished : s.unfinished.card ≤ n
  hub : .switched none ∉ new

theorem Turns.nearer {n bound : Nat} {new : List Event} (c : Core ⟨s, none⟩) (c' : Core ⟨s', none⟩)
    (st : s'.Settled) (h : s.Turns s') (near : s.Nearer t n bound new) :
    ∃ es, s'.env.log = es ++ s.env.log ∧
      (.switched (some t) ∈ es ++ new ∨ s'.Nearer t n bound (es ++ new)) := by
  obtain ⟨hk, es, log, turn⟩ := h
  obtain ⟨⟨pre, post, ready, wait⟩, unf, hub⟩ := near
  refine ⟨es, log, ?_⟩
  have hub' : .switched none ∉ es → .switched none ∉ es ++ new := fun h hm =>
    (List.mem_append.mp hm).elim h hub
  cases turn with
  | stay quiet ready' place =>
    refine .inr ⟨⟨pre, post, ready'.trans ready, ?_⟩, ?_, hub' fun hm => quiet _ hm⟩
    · rw [switches_append, switches_unswitched quiet, directs, hk, place]
      simpa [directs] using wait
    · rw [Sched.unfinished, hk, place]
      exact unf
  | handoff r u f running direct blocked place ready' once notHub =>
    have hur : u ≠ r := by
      rintro rfl
      rw [running] at direct
      cases direct
    have hmem : u ∈ s.directs := by
      refine mem_directs.mpr ⟨(c.known u).mpr fun hp => ?_, direct⟩
      have hp : s.place u = .unborn := hp
      rw [hp] at direct
      cases direct
    -- one cothread less that can be reached directly
    have hdirects : s'.directs = s.directs.erase u := by
      ext v
      rw [Finset.mem_erase, mem_directs, mem_directs, hk, place]
      by_cases hvu : v = u
      · simp [hvu, Place.direct]
      · by_cases hvr : v = r
        · subst hvr
          rw [Function.update_of_ne hvu, Function.update_self, Place.not_direct blocked, running]
          simp [Place.direct]
        · simp [hvu, hvr]
    have hunf : s'.unfinished ⊆ s.unfinished := by
      intro v hv
      rw [mem_unfinished, hk, place] at hv
      refine mem_unfinished.mpr ⟨hv.1, ?_⟩
      by_cases hvu : v = u
      · exact hvu ▸ Place.unfinished_of_direct direct
      · by_cases hvr : v = r
        · rw [hvr, running]
          rfl
        · simpa [hvu, hvr] using hv.2
    refine .inr ⟨⟨pre, post ++ [r], by rw [ready', ready]; simp, ?_⟩,
      (Finset.card_le_card hunf).trans unf, hub' notHub⟩
    have := Finset.card_erase_add_one hmem
    rw [switches_append, once, hdirects]
    omega
  | pick u us first ready' ended once chosen notHub =>
    rw [ready] at first
    cases pre with
    | nil =>
      cases first
      exact .inl (List.mem_append_left _ chosen)
    | cons p pre =>
      have hus : us = pre ++ t :: post := (List.cons.inj first).2.symm
      have hunf : s'.unfinished.card ≤ s.unfinished.card := by
        refine Finset.card_le_card fun v hv => ?_
        obtain ⟨hv, hu⟩ := mem_unfinished.mp hv
        exact mem_unfinished.mpr ⟨hk ▸ hv, ended v hu⟩
      have ready' : s'.queue .ready = pre ++ t :: post := ready'.trans hus
      have hne : s'.queue .ready ≠ [] := by simp [ready']
      obtain ⟨r, -, running⟩ := st.resolve_right fun ⟨_, _, hub⟩ => hne (c'.hub hub).2
      have room := directs_card c' running (u := t) (by simp [ready'])
      refine .inr ⟨⟨pre, post, ready', ?_⟩, hunf.trans unf, hub' notHub⟩
      rw [switches_append, once]
      rw [List.length_cons, Nat.succ_mul] at wait
      omega

end Sched
end Gevent
