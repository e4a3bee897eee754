import Gevent.QueueLists

/-!
# What the states say

One cothread is `GEVENT_COTHREAD_CURRENT`, and every other one that is under way
is registered somewhere according to its state (`World.StatesTrue`); all that can
break this is `gevent_wait` without a timeout, which registers nowhere
(`states_tell_the_truth`).
-/

namespace Gevent
open Intrusive

/-- `t` is linked in `q` and in no other list. -/
def World.QueuedOnly (w : World) (t : Tid) (q : QueueId) : Prop :=
  w.links.links.Visits (.head q) (.op t) ∧
    ∀ q', w.links.links.Visits (.head q') (.op t) → q' = q

/-- Something will resume `t`, and it is what its state says. -/
def World.Resumable (w : World) (t : Tid) : Prop :=
  match (w.co t).state with
  | .ready => w.QueuedOnly t .ready
  | .channelR => ∃ ch, w.QueuedOnly t (.receivers ch)
  | .channelS => ∃ ch, w.QueuedOnly t (.senders ch)
  | .waitingTimer => t ∈ w.env.loop.timerHandles ∧ (w.env.timer t).active = true
  | .waitingGetaddrinfo => ∃ r ∈ w.env.loop.activeReqs, w.env.reqData r = some t
  | .current | .new | .dead => False

structure World.StatesTrue (w : World) : Prop where
  current : ∀ t ∈ w.env.known, (w.co t).state = .current ↔ w.hub.current = some t
  someone : ∃ t ∈ w.env.known, w.hub.current = some t
  resumable : ∀ t, alive t w.env.log = true → t ≠ w.hub.main → w.hub.current ≠ some t →
    w.Resumable t

/-- `gevent_wait` is only called with a timeout. -/
def noBareWait (_ : World) : World.Action → Prop
  | .call (.wait timeout) => 0 < timeout
  | _ => True

instance (w : World) (a : World.Action) : Decidable (noBareWait w a) := by
  unfold noBareWait
  split <;> infer_instance

namespace Paired
variable {w : World} {s : Sched} {t : Tid} {f : Frame}

theorem queuedOnly (p : Paired w s) {q : QueueId} (hf : s.place t = .blocked f)
    (hq : f.pending.queue = some q) : w.QueuedOnly t q := by
  have visits : ∀ q', w.links.links.Visits (.head q') (.op t) ↔ t ∈ s.queue q' := by
    intro q'
    rw [p.visits_iff]
    simp
  have queued : ∀ q', t ∈ s.queue q' ↔ ∃ g, s.place t = .blocked g ∧ g.pending.queue = some q' :=
    fun q' => p.base.core.queues.queued q' t
  refine ⟨(visits q).mpr ((queued q).mpr ⟨f, hf, hq⟩), fun q' h => ?_⟩
  obtain ⟨g, hg, hgq⟩ := (queued q').mp ((visits q').mp h)
  rw [hf] at hg
  cases hg
  rw [hq] at hgq
  exact (Option.some.inj hgq).symm

/-- A suspended call has registered its cothread, unless it is `gevent_wait`
without a timeout. -/
theorem resumable (p : Paired w s) (hf : s.place t = .blocked f) (hwait : f.pending ≠ .wait) :
    w.Resumable t := by
  have hs := p.state_eq (t := t)
  rw [hf] at hs
  have hq : ∀ q, f.pending.queue = some q → w.QueuedOnly t q := fun q => p.queuedOnly hf
  have sleeper := p.base.timers.sleeper t f hf
  have requester := fun hp => p.base.lookups.requester_at hf hp
  have armed := p.base.timers.armed t
  simp only [World.Resumable, hs]
  obtain ⟨self, call, op, pending, caller⟩ := f
  cases pending with
  | spawn | received | sent => exact hq .ready rfl
  | receive ch => exact ⟨ch, hq _ rfl⟩
  | send ch v => exact ⟨ch, hq _ rfl⟩
  | wait => exact absurd rfl hwait
  | sleep =>
    have hin := (sleeper rfl).2.2.resolve_right fun ⟨x, hx⟩ => by cases hx
    rw [p.env]
    exact ⟨hin, (armed hin).1⟩
  | getaddrinfo =>
    obtain ⟨r, hr, -, hd⟩ := requester rfl
    rw [p.env]
    exact ⟨r, hr, hd⟩

theorem state_current (p : Paired w s) (known : t ∈ w.env.known) : (w.co t).state = .current ↔
    s.place t = .running ∨ ∃ f, s.place t = .blocked f ∧ f.pending = .wait := by
  have hs := p.state_eq (t := t)
  cases hp : s.place t with
  | unborn => exact absurd hp (p.known_iff.mp known)
  | new | running | dead => simp [hs, hp]
  | blocked f =>
    obtain ⟨self, call, op, pending, caller⟩ := f
    rw [hp] at hs
    rw [hs]
    cases pending <;> simp [Pending.state]

theorem current_iff (p : Paired w s) : w.hub.current = some t ↔ s.place t = .running := by
  rw [p.running_iff, p.current, p.control]
  cases s.control <;> simp [Control.owner]

theorem statesTrue_iff (p : Paired w s) (own : w.control.owner.isSome = true) :
    w.StatesTrue ↔ ∀ t f, w.frame t = some f → f.pending ≠ .wait := by
  constructor
  · intro h t f hf hwait
    rw [p.frame_eq] at hf
    have known : t ∈ w.env.known := by rw [p.known_iff, hf]; simp
    have hcur := (h.current t known).mp ((p.state_current known).mpr (.inr ⟨f, hf, hwait⟩))
    rw [p.current_iff, hf] at hcur
    cases hcur
  · intro h
    refine ⟨fun t known => ?_, ?_, fun t ht hm hc => ?_⟩
    · rw [p.state_current known, p.current_iff, or_iff_left]
      rintro ⟨f, hf, hwait⟩
      exact h t f ((p.frame_eq t).mpr hf) hwait
    · obtain ⟨t, ht⟩ := Option.isSome_iff_exists.mp own
      have hcur : w.hub.current = some t := by rw [p.current, ← p.control, ht]
      refine ⟨t, ?_, hcur⟩
      rw [p.known_iff, p.current_iff.mp hcur]
      simp
    · rcases p.alive_iff.mp ht with hr | ⟨f, hf⟩
      · exact absurd (p.current_iff.mpr hr) hc
      · exact p.resumable hf (h t f ((p.frame_eq t).mpr hf))

end Paired

/-- The rules behind `noBareWait`. -/
def Rules.timed : Rules where
  call _ c := ∀ timeout, c = .wait timeout → 0 < timeout
  last _ := True

theorem timed_waits {s : Sched} (r : scheduler.Reach Rules.timed.Admit s) {t : Tid} {f : Frame}
    (hf : s.place t = .blocked f) : f.pending ≠ .wait := by
  intro hwait
  obtain ⟨s₁, e⟩ := blocked_entered r hf
  obtain ⟨self, call, op, pending, caller⟩ := f
  have hpending : pending = .wait := hwait
  subst hpending
  obtain ⟨d, hd, hop⟩ := e.fits.2
  have hop : op = .wait d := hop
  subst hop
  cases caller with
  | program =>
    have may : Rules.timed.call s₁ (.wait d) := e.outer
    have := may d rfl
    omega
  | acquire k m =>
    have := e.fits.1
    cases this
  | release k m =>
    have := e.fits.1
    cases this

/-- In a run that never calls `gevent_wait` without a timeout, the states tell the
truth whenever a cothread runs its own code; and in any run they do exactly when
no cothread is suspended in such a call. -/
theorem states_tell_the_truth {w : World} (own : w.control.owner.isSome = true) :
    (gevent.Reach noBareWait w → w.StatesTrue) ∧
    (gevent.Reach anyStep w → (w.StatesTrue ↔ ∀ t f, w.frame t = some f → f.pending ≠ .wait)) := by
  constructor
  · intro r
    obtain ⟨s, rs, p⟩ := reach_rules (R := Rules.timed) (fun w s a p _ (h : noBareWait w a) =>
      { call := fun t c ha _ timeout hc => by subst ha; subst hc; exact h
        finish := fun _ _ _ _ _ => trivial
        runEnd := fun _ _ => trivial }) r
    exact (p.statesTrue_iff own).mpr fun t f hf => timed_waits rs ((p.frame_eq t).mp hf)
  · intro r
    obtain ⟨s, p⟩ := reach_paired r
    exact p.statesTrue_iff own

set_option maxRecDepth 100000 in
/-- Two cothreads and a sleep: the condition is met, and everybody is registered. -/
theorem states_tell_the_truth_run : ∃ w, (gevent.Reach noBareWait w ∧ gevent.Reach anyStep w) ∧
    alive 1 w.env.log = true ∧ w.StatesTrue ∧ ∀ t f, w.frame t = some f → f.pending ≠ .wait := by
  have h : (gevent.play noBareWait zeroStart [.cothreadInit 1 1, .call (.spawn 1),
      .call (.sleep 5)]).any (fun w => decide (w.control.owner.isSome = true ∧
        alive 1 w.env.log = true)) = true := by decide
  obtain ⟨w, r, own, ha⟩ := Machine.Reach.of_play zeroStart_start h
  obtain ⟨timed, exact'⟩ := states_tell_the_truth own
  exact ⟨w, ⟨r, r.any⟩, ha, timed r, (exact' r.any).mp (timed r)⟩

set_option maxRecDepth 100000 in
/-- Cothread 1 calls `gevent_wait` without a timeout while the main one is ready:
then two cothreads are `GEVENT_COTHREAD_CURRENT`. -/
theorem bare_wait_strands : ¬ ∀ w, gevent.Reach anyStep w → w.control.owner.isSome = true →
    w.StatesTrue := by
  intro all
  have h : (gevent.play anyStep zeroStart [.cothreadInit 1 1, .call (.spawn 1),
      .call (.wait 0)]).any (fun w => decide (w.control.owner.isSome = true ∧
        1 ∈ w.env.known ∧ (w.co 1).state = .current ∧ w.hub.current = some 0)) = true := by decide
  obtain ⟨w, r, own, known, hs, hc⟩ := Machine.Reach.of_play zeroStart_start h
  have hone := ((all w r own).current 1 known).mp hs
  rw [hc] at hone
  cases hone

end Gevent
