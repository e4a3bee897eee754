import Gevent.Permits
import Gevent.QueueLists

/-!
# Nobody barges past a semaphore's waiters

While somebody waits for a permit the counter is zero and nobody is queued to
send, so an acquire call joins the waiters and a release call resumes the first
of them (`semaphores_orderly`).
-/

namespace Gevent
open Intrusive

/-- The counter is positive only while nobody waits. -/
def Gate (m : Sem) (o : Moment) : Prop :=
  ∀ c, initialCounter m o.sched.env.log = some c → 0 ≤ c →
    0 ≤ o.sched.env.counter m ∧ (o.sched.waiters m ≠ [] → o.sched.env.counter m = 0) ∧
      (Entering m o → o.sched.env.counter m ≤ 0)

/-- Only acquire calls receive from the channel, and a release call that meets
nobody finds the counter below `INT_MAX`. -/
structure Rules.Private (R : Rules) (m : Sem) : Prop where
  sealed : R.Sealed m
  receive : ∀ s, ¬ R.call s (.receive (.ofSem m))
  release : ∀ s, R.call s (.release m) → s.waiters m = [] → s.env.counter m < 2 ^ 31 - 1

section
variable {R : Rules} {m : Sem} {o o' : Moment}

theorem Gate.initial {s : Sched} (h : s.Initial) : Gate m ⟨s, none⟩ := by
  intro c hc
  rw [h.log] at hc
  cases hc

theorem Gate.step (hR : R.Private m) (h : Gate m o) (hm : SemMove R m o o') : Gate m o' := by
  intro c hc nonneg
  cases hm with
  | still es log neutral counter waiters granting entering =>
    rw [log, initialCounter_append fun ev hev => (neutral ev hev).1] at hc
    obtain ⟨low, zero, enter⟩ := h c hc nonneg
    rw [counter, waiters]
    refine ⟨low, zero, fun he => ?_⟩
    rcases entering he with he | hle | ⟨s, hs⟩
    · exact enter he
    · exact hle
    · exact absurd hs (hR.receive s)
  | take k t r free log counter waiters waking =>
    rw [log] at hc
    obtain ⟨low, zero, -⟩ := h c hc nonneg
    rw [counter, waiters]
    refine ⟨by omega, fun hw => ?_, fun he => absurd he (not_entering (log ▸ not_callLast rfl))⟩
    have := zero hw
    omega
  | give k t r alone may granting log counter waiters waking =>
    rw [log] at hc
    obtain ⟨low, -, -⟩ := h c hc nonneg
    have high := hR.release _ may alone
    rw [counter, waiters, alone, int32_of_range (by omega) (by omega)]
    exact ⟨by omega, fun hw => absurd rfl hw, fun he => absurd he (not_entering (log ▸ not_callLast rfl))⟩
  | release k t log counter waiters =>
    rw [log] at hc
    obtain ⟨low, zero, -⟩ := h c hc nonneg
    rw [counter, waiters]
    refine ⟨low, zero, ?_⟩
    rintro ⟨i, u, l, hl⟩
    rw [log] at hl
    cases (List.cons.inj hl).1
  | init c' lo hi log counter waiters waking =>
    have hcc : c' = c := by
      rw [log] at hc
      simpa [initialCounter, latest] using hc
    rw [counter, waiters, hcc]
    exact ⟨nonneg, fun hw => absurd rfl hw, fun he => absurd he (not_entering (log ▸ not_callLast rfl))⟩
  | wait t k entering log counter waiters waking =>
    rw [log] at hc
    obtain ⟨low, -, enter⟩ := h c hc nonneg
    have hle := enter entering
    rw [counter]
    exact ⟨low, fun _ => by omega, fun _ => hle⟩
  | grant u es k r granting log neutral counter waiters waking =>
    rw [log, List.cons_append] at hc
    obtain ⟨low, zero, -⟩ := h c
      ((initialCounter_append fun ev hev => (neutral ev hev).1).symm.trans hc) nonneg
    rw [counter, waiters]
    refine ⟨low, fun hw => zero ?_, fun he => absurd he (not_entering (log ▸ not_callLast rfl))⟩
    rintro hnil
    simp [hnil] at hw
  | leave u es log last neutral counter waiters waking =>
    rw [log, initialCounter_append fun ev hev => (neutral ev hev).1] at hc
    obtain ⟨low, zero, -⟩ := h c hc nonneg
    rw [counter, waiters]
    refine ⟨low, fun hw => zero ?_, fun he => absurd he (not_entering last)⟩
    rintro hnil
    simp [hnil] at hw
  | resort f place acquires may reason log counter waiters =>
    rw [log] at hc
    obtain ⟨low, zero, -⟩ := h c hc nonneg
    rw [counter, waiters]
    exact ⟨low, zero, fun he => absurd he (not_entering (log ▸ not_callLast rfl))⟩

theorem scheduler_gate (hR : R.Private m) {s : Sched} (r : scheduler.Reach R.Admit s) :
    Ledger m ⟨s, none⟩ ∧ Gate m ⟨s, none⟩ :=
  scheduler_invariant (P := fun o => Ledger m o ∧ Gate m o) (fun _ h => ⟨.initial h, .initial h⟩)
    (fun _ _ b h hm => ⟨h.1.move hR.sealed hm, h.2.step hR (hm.sem hR.sealed h.1 b)⟩) r

/-- Who waits on the channel of the semaphore is in an acquire call. -/
theorem Rules.Private.acquires (hR : R.Private m) {s : Sched} {f : Frame} (e : s.Entered R f)
    (pending : f.pending = .receive (.ofSem m)) : f.Acquires m := by
  have outer := e.outer
  obtain ⟨fits, hop⟩ := e.fits
  obtain ⟨self, call, op, p, caller⟩ := f
  cases pending
  cases hop
  cases caller with
  | program => exact absurd outer (hR.receive s)
  | acquire k m' =>
    cases fits
    exact ⟨k, rfl⟩
  | release k m' => cases fits

end

/-! ## Steps of a semaphore with waiters -/

namespace Sched
variable {s : Sched} {t u : Tid} {us : List Tid} {m : Sem} {q : QueueId}

/-- Handing control to the first ready cothread or to the loop leaves the other queues alone. -/
theorem yield_queue (h : s.Queues) (x : Leftover) (hq : q ≠ .ready) :
    (s.yield x).queue q = s.queue q := by
  cases hr : s.queue .ready with
  | nil =>
    simp only [yield, hr, enterHub_eq]
  | cons u us =>
    obtain ⟨f, hf, hp⟩ := (h.queued .ready u).mp (by simp [hr])
    simp only [yield, hr]
    rw [resume_queue hf, hp, if_neg]
    simpa using hq.symm

theorem acquire_joins (b : Base ⟨s, none⟩) (hc : s.control = .user t) (ht : s.place t = .running)
    (senders : s.queue (.senders (.ofSem m)) = []) (zero : s.env.counter m ≤ 0) (x : Leftover) :
    (s.next x (.call (.acquire m))).queue (.receivers (.ofSem m)) = s.waiters m ++ [t] := by
  let f : Frame := ⟨t, s.env.calls + 1, .receive (.ofSem m), .receive (.ofSem m), .acquire s.env.calls m⟩
  let s₁ := ((s.enter t (.acquire m)).enter t (.receive (.ofSem m))).emit
    (.blocked (.receivers (.ofSem m)) (s.env.calls + 1))
  have hnext : s.next x (.call (.acquire m)) = (s₁.block t f).yield x := by
    simp only [next, hc, perform, acquire]
    rw [if_neg (by simpa [enter, Env.enter] using zero)]
    simp only [receive, enter, senders]
    rfl
  have hq : (s₁.block t f).Queues :=
    (show s₁.Queues from b.core.queues.congr rfl rfl).block (by simp [s₁, emit, enter, ht]) rfl
  rw [hnext, yield_queue hq x (by simp), block_queue]
  exact if_pos rfl

/-- What a release call with waiters does: the first one continues. -/
theorem release_resumes (hc : s.control = .user t) (ht : s.place t = .running)
    (first : s.waiters m = u :: us) {f : Frame}
    (place : s.place u = .blocked f) {k : CallId} (acq : f.caller = .acquire k m)
    (pending : f.pending = .receive (.ofSem m)) (hself : f.self = u) (x : Leftover) :
    ∃ g : Frame, g.pending = .sent ∧
    (s.next x (.call (.release m))).place t = .blocked g ∧
    (s.next x (.call (.release m))).queue (.receivers (.ofSem m)) = us ∧
    (s.next x (.call (.release m))).control = .user u ∧
    ∃ l, (s.next x (.call (.release m))).env.log =
      .ret k u (.acquire m) (.int (s.env.counter m)) :: l := by
  have hq : s.queue (.receivers (.ofSem m)) = u :: us := first
  have hut : u ≠ t := by
    rintro rfl
    rw [ht] at place
    cases place
  let g : Frame := ⟨t, s.env.calls + 1, .send (.ofSem m) .null, .sent, .release s.env.calls m⟩
  let s₁ := (s.enter t (.release m)).enter t (.send (.ofSem m) .null)
  let s₂ := (s₁.block t g).emit
    (.handover (.ofSem m) (s.env.calls + 1) ((s₁.block t g).env.inCall u) .null)
  have hnext : s.next x (.call (.release m)) = s₂.resume u { x with third := .null } none := by
    have h₁ : (s.enter t (.release m)).queue (.receivers (.ofSem m)) = u :: us := hq
    have h₂ : s₁.queue (.receivers (.ofSem m)) = u :: us := hq
    simp only [next, hc, perform, release, h₁, send]
    simp only [s₁] at h₂
    simp only [h₂]
    rfl
  have hp : s₂.place u = .blocked f := by simp [s₂, s₁, emit, enter, hut, place]
  rw [hnext]
  refine ⟨g, rfl, ?_, ?_, resume_control hp _ _, ?_⟩
  · rw [resume_place hp, Function.update_of_ne hut.symm]
    simp [s₂, s₁, emit, enter]
  · have hs : s₂.queue (.receivers (.ofSem m)) = u :: us := by
      simp only [s₂, emit, block_queue]
      exact (if_neg (by simp [g, Pending.queue])).trans hq
    rw [resume_queue hp, pending, hs]
    simp [Pending.queue]
  · obtain ⟨tm, hs, n, he⟩ := resume_shape hp { x with third := .null } none
    rw [he]
    simp only [Frame.returns, acq, hself]
    exact ⟨_, rfl⟩

end Sched

/-! ## Runs -/

structure World.Orderly (w : World) (m : Sem) : Prop where
  counter : 0 ≤ w.env.counter m
  senders : w.enqueued (.senders (.ofSem m)) = []
  waiting : ∀ t f, w.frame t = some f → f.Acquires m →
    w.env.counter m = 0 ∧ .op t ∈ w.enqueued (.receivers (.ofSem m))
  /-- An acquire call that finds waiters joins them. -/
  acquire : ∀ t, w.control = .user t → w.enqueued (.receivers (.ofSem m)) ≠ [] →
    ∃ w', gevent.exec w (.call (.acquire m)) = .ok w' ∧ w'.enqueued (.receivers (.ofSem m)) =
      w.enqueued (.receivers (.ofSem m)) ++ [.op t]
  /-- A release call that finds nobody returns. -/
  release : ∀ t, w.control = .user t → w.enqueued (.receivers (.ofSem m)) = [] →
    ∃ w', gevent.exec w (.call (.release m)) = .ok w' ∧ w'.control = .user t
  /-- A release call resumes the one who has waited longest, whose acquire call
  returns 0, and is itself ready to go on. -/
  handoff : ∀ t u us, w.control = .user t → w.enqueued (.receivers (.ofSem m)) = .op u :: us →
    ∃ w', gevent.exec w (.call (.release m)) = .ok w' ∧ w'.control = .user u ∧
      w'.enqueued (.receivers (.ofSem m)) = us ∧ (w'.co t).state = .ready ∧
      ∃ f k l, w.frame u = some f ∧ f.caller = .acquire k m ∧
        w'.env.log = .ret k u (.acquire m) (.int 0) :: l

/-- The internal channel of the semaphore is used by the semaphore functions alone. -/
def keepsPrivate (m : Sem) (_ : World) : World.Action → Prop
  | .call (.receive ch) | .call (.send ch _) => ch ≠ .ofSem m
  | _ => True

/-- A release call that finds nobody waiting finds the counter below `INT_MAX`. -/
def keepsBelowMax (m : Sem) (w : World) : World.Action → Prop
  | .call (.release m') => m' = m → w.queueEmpty (.receivers (.ofSem m)) = true →
    w.env.counter m < 2 ^ 31 - 1
  | _ => True

def keepsOrder (m : Sem) (w : World) (a : World.Action) : Prop :=
  keepsPrivate m w a ∧ keepsBelowMax m w a

instance (m : Sem) (w : World) : (a : World.Action) → Decidable (keepsPrivate m w a)
  | .call (.receive ch) | .call (.send ch _) =>
    if h : ch = .ofSem m then isFalse fun hne => hne h else isTrue h
  | .call (.spawn _) | .call (.sleep _) | .call (.wait _) | .call (.acquire _)
  | .call (.release _) | .call (.getaddrinfo _)
  | .cothreadInit _ _ | .setExitFn _ _ | .channelInit _ | .semaphoreInit _ _ | .timers
  | .resolve _ _ _ | .iterate | .updateTime | .others _ | .handleInit _ | .handleClose _ | .tick _
  | .finish => isTrue trivial

instance (m : Sem) (w : World) : (a : World.Action) → Decidable (keepsBelowMax m w a)
  | .call (.release m') => inferInstanceAs (Decidable (m' = m →
      w.queueEmpty (.receivers (.ofSem m)) = true → w.env.counter m < 2 ^ 31 - 1))
  | .call (.spawn _) | .call (.sleep _) | .call (.wait _) | .call (.receive _)
  | .call (.send _ _) | .call (.acquire _) | .call (.getaddrinfo _)
  | .cothreadInit _ _ | .setExitFn _ _ | .channelInit _ | .semaphoreInit _ _ | .timers
  | .resolve _ _ _ | .iterate | .updateTime | .others _ | .handleInit _ | .handleClose _ | .tick _
  | .finish => isTrue trivial

instance (m : Sem) (w : World) (a : World.Action) : Decidable (keepsOrder m w a) :=
  inferInstanceAs (Decidable (_ ∧ _))

/-- The rules that `keepsOrder` implies. -/
def Rules.ordered (m : Sem) : Rules where
  call s c := c ≠ .receive (.ofSem m) ∧ (∀ v, c ≠ .send (.ofSem m) v) ∧
    (c = .release m → s.waiters m = [] → s.env.counter m < 2 ^ 31 - 1)
  last _ := True

theorem Rules.ordered_private (m : Sem) : (Rules.ordered m).Private m where
  sealed _ v h := h.2.1 v rfl
  receive _ h := h.1 rfl
  release _ h := h.2.2 rfl

namespace Paired
variable {w : World} {s : Sched} {m : Sem}

theorem ordered_admits (p : Paired w s) {a : World.Action} (h : keepsOrder m w a) :
    (Rules.ordered m).Admit s a where
  call t c ha hc := by
    subst ha
    obtain ⟨priv, below⟩ := h
    refine ⟨?_, ?_, ?_⟩
    · rintro rfl
      exact priv rfl
    · rintro v rfl
      exact priv rfl
    · rintro rfl alone
      have := below rfl ((p.queueEmpty _).mpr alone)
      rwa [p.env] at this
  finish _ _ _ _ _ := trivial
  runEnd _ _ := trivial

theorem orderly (p : Paired w s) (ledger : Ledger m ⟨s, none⟩) (gate : Gate m ⟨s, none⟩)
    (acquires : ∀ u f, s.place u = .blocked f → f.pending = .receive (.ofSem m) → f.Acquires m)
    {c : Int} (init : initialCounter m w.env.log = some c) (nonneg : 0 ≤ c) : w.Orderly m := by
  rw [p.env] at init
  obtain ⟨low, zero, -⟩ := gate c init nonneg
  have low : 0 ≤ s.env.counter m := low
  have zero : s.waiters m ≠ [] → s.env.counter m = 0 := zero
  have senders : s.queue (.senders (.ofSem m)) = [] := ledger.senders
  have receivers : w.enqueued (.receivers (.ofSem m)) = (s.waiters m).map .op := p.contents _
  have user : ∀ {t}, w.control = .user t → s.control = .user t ∧ s.place t = .running := by
    intro t ht
    exact ⟨p.control ▸ ht, p.running_iff.mpr ht⟩
  have legal : ∀ {t c}, w.control = .user t → (∀ u, c ≠ .spawn u) → w.Legal (.call c) := by
    intro t c ht hc
    have howner : w.control.owner.isSome := by simp [ht, Control.owner]
    cases c with
    | spawn u => exact absurd rfl (hc u)
    | _ => exact howner
  constructor
  · rw [p.env]
    exact low
  · rw [World.enqueued, p.contents, senders]
    rfl
  · intro t f hf ha
    have hp := (p.frame_eq t).mp hf
    have hw : t ∈ s.waiters m :=
      (p.base.core.queues.queued _ t).mpr ⟨f, hp, by rw [ledger.acquirers t f hp ha]; rfl⟩
    rw [p.env, receivers]
    exact ⟨zero (List.ne_nil_of_mem hw), List.mem_map_of_mem hw⟩
  · intro t ht hne
    have hne : s.waiters m ≠ [] := fun h => hne (by rw [receivers, h]; rfl)
    obtain ⟨w', x, exec, c'⟩ := p.exec_ok (legal ht (by simp)) (a := .call (.acquire m)) rfl
    refine ⟨w', exec, ?_⟩
    rw [receivers, World.enqueued, c'.contents,
      Sched.acquire_joins p.base (user ht).1 (user ht).2 senders (zero hne).le x, List.map_append]
    rfl
  · intro t ht hnil
    have hnil : s.waiters m = [] := by simpa [receivers] using hnil
    obtain ⟨w', x, exec, c'⟩ := p.exec_ok (legal ht (by simp)) (a := .call (.release m)) rfl
    refine ⟨w', exec, ?_⟩
    have hq : (s.enter t (.release m)).queue (.receivers (.ofSem m)) = [] := hnil
    have hc : (s.next x (.call (.release m))).control = s.control := by
      simp only [Sched.next, (user ht).1, Sched.perform, Sched.release, hq]
      exact (user ht).1
    rw [c'.control, hc]
    exact (user ht).1
  · intro t u us ht hfirst
    rw [receivers] at hfirst
    obtain ⟨u', us', hq, hu, rfl⟩ := List.map_eq_cons_iff.mp hfirst
    cases hu
    obtain ⟨f, hf, hp⟩ := (p.base.core.queues.queued (.receivers (.ofSem m)) u).mp
      (by rw [show s.queue _ = s.waiters m from rfl, hq]; simp)
    have pending : f.pending = .receive (.ofSem m) := by
      obtain ⟨self, call, op, pending, caller⟩ := f
      cases pending <;> simp_all [Pending.queue]
    obtain ⟨k, hk⟩ := acquires u f hf pending
    obtain ⟨w', x, exec, c'⟩ := p.exec_ok (legal ht (by simp)) (a := .call (.release m)) rfl
    obtain ⟨g, hg, place, queue, control, l, hl⟩ := Sched.release_resumes (user ht).1 (user ht).2 hq
      hf hk pending (p.base.core.queues.self u f hf) x
    refine ⟨w', exec, c'.control.trans control, ?_, ?_, f, k, l, (p.frame_eq u).mpr hf, hk, ?_⟩
    · rw [World.enqueued, c'.contents, queue]
    · have hcell := c'.cell t
      rw [place] at hcell
      rw [hcell.1, hg]
      rfl
    · rw [c'.env, hl, zero (by simp [hq])]

end Paired

/-- A semaphore that is used through its functions alone, without overflow of its
counter, has no lost wake-up and no barging. -/
theorem semaphores_orderly {m : Sem} {w : World} (r : gevent.Reach (keepsOrder m) w) {c : Int}
    (init : initialCounter m w.env.log = some c) (nonneg : 0 ≤ c) : w.Orderly m := by
  obtain ⟨s, rs, p⟩ := reach_rules (fun w s a p _ h => p.ordered_admits h) r
  have priv := Rules.ordered_private m
  obtain ⟨ledger, gate⟩ := scheduler_gate priv rs
  refine p.orderly ledger gate (fun u f hf hp => ?_) init nonneg
  obtain ⟨s', e⟩ := blocked_entered rs hf
  exact priv.acquires e hp

set_option maxRecDepth 100000 in
/-- Two acquire calls wait for one permit, in the order in which they were made. -/
theorem semaphores_orderly_run : ∃ w, gevent.Reach (keepsOrder 0) w ∧
    w.enqueued (.receivers (.ofSem 0)) = [.op 1, .op 2] ∧ w.Orderly 0 := by
  have h : (gevent.play (keepsOrder 0) zeroStart [.semaphoreInit 0 1, .call (.acquire 0),
      .cothreadInit 1 1, .cothreadInit 2 1, .call (.spawn 1), .call (.acquire 0), .call (.spawn 2),
      .call (.acquire 0)]).any (fun w => decide (initialCounter 0 w.env.log = some 1 ∧
        w.enqueued (.receivers (.ofSem 0)) = [.op 1, .op 2])) = true := by decide
  obtain ⟨w, r, init, hq⟩ := Machine.Reach.of_play zeroStart_start h
  exact ⟨w, r, hq, semaphores_orderly r init (by decide)⟩

set_option maxRecDepth 100000 in
/-- A release call beyond `INT_MAX` makes the counter negative. -/
theorem counter_overflows : ¬ ∀ m w c, gevent.Reach (keepsPrivate m) w →
    initialCounter m w.env.log = some c → 0 ≤ c → w.Orderly m := by
  intro all
  have h : (gevent.play (keepsPrivate 0) zeroStart [.semaphoreInit 0 (2 ^ 31 - 1),
      .call (.release 0)]).any (fun w => decide (initialCounter 0 w.env.log = some (2 ^ 31 - 1) ∧
        w.env.counter 0 = - 2 ^ 31)) = true := by decide
  obtain ⟨w, r, init, hc⟩ := Machine.Reach.of_play zeroStart_start h
  have low := (all 0 w _ r init (by decide)).counter
  rw [hc] at low
  exact absurd low (by decide)

end Gevent
