import Gevent.ArmedTimers
import Gevent.HubRuns
import Gevent.Resolver

/-!
# The loop ends when nobody needs it

`uv_run` goes on as long as a cothread is in `gevent_sleep` or
`gevent_getaddrinfo`, and no longer on their account. When it returns nobody is
ready, and who is left waits for a partner, or is in `gevent_wait`, for whose
timer the loop does not run (`loop_ends_in_time`).
-/

namespace Gevent

/-- `t` is blocked in `gevent_getaddrinfo`. -/
def World.InLookup (w : World) (t : Tid) : Prop :=
  ∃ f, w.frame t = some f ∧ f.op = .getaddrinfo .submitted

/-- A cothread, or another user of the loop, waits for a callback. -/
def World.NeedsLoop (w : World) : Prop :=
  0 < w.env.loop.others ∨ ∃ t, w.InSleep t ∨ w.InLookup t

theorem Env.uvLoopAlive_iff {e : Env} : e.uvLoopAlive = true ↔
    0 < e.loop.activeHandles ∨ e.loop.activeReqs ≠ [] ∨ 0 < e.loop.others := by
  simp [uvLoopAlive, or_assoc]

namespace Paired
variable {w : World} {s : Sched} {t : Tid} {f : Frame}

theorem inLookup_iff (p : Paired w s) :
    w.InLookup t ↔ ∃ f, s.place t = .blocked f ∧ f.pending = .getaddrinfo := by
  constructor
  · rintro ⟨f, hf, op⟩
    have hp := (p.frame_eq t).mp hf
    exact ⟨f, hp, (p.base.calls.frame t f hp).fits.getaddrinfo.mpr op⟩
  · rintro ⟨f, hp, pending⟩
    exact ⟨f, (p.frame_eq t).mpr hp, (p.base.calls.frame t f hp).fits.getaddrinfo.mp pending⟩

/-- The active handles are the timers of the cothreads in `gevent_sleep`. -/
theorem activeHandles_pos (p : Paired w s) : 0 < w.env.loop.activeHandles ↔ ∃ t, w.InSleep t := by
  rw [p.env, p.base.timers.count, List.length_pos_iff_exists_mem]
  apply exists_congr
  intro t
  rw [p.inSleep_iff, List.mem_filter]

theorem needed (p : Paired w s) (needs : w.NeedsLoop) : w.env.uvLoopAlive = true := by
  apply Env.uvLoopAlive_iff.mpr
  obtain others | ⟨t, sleeps | asks⟩ := needs
  · exact .inr (.inr others)
  · exact .inl (p.activeHandles_pos.mpr ⟨t, sleeps⟩)
  · obtain ⟨f, hf, pending⟩ := p.inLookup_iff.mp asks
    obtain ⟨r, active, -⟩ := p.base.lookups.requester_at hf pending
    rw [p.env]
    exact .inr (.inl (List.ne_nil_of_mem active))

/-- Who is in no queue waits for the loop, or has called `gevent_wait`. -/
theorem unqueued_waits (p : Paired w s) (hf : s.place t = .blocked f)
    (unqueued : f.pending.queue = none) :
    w.InSleep t ∨ w.InLookup t ∨ ∃ d, f.op = .wait d := by
  have fits := (p.base.calls.frame t f hf).fits.2
  cases pending : f.pending with
  | sleep =>
    simp only [pending] at fits
    obtain ⟨d, op⟩ | ⟨d, -, op⟩ := fits
    · exact .inl ⟨f, d, (p.frame_eq t).mpr hf, op⟩
    · exact .inr (.inr ⟨d, op⟩)
  | wait =>
    simp only [pending] at fits
    obtain ⟨d, -, op⟩ := fits
    exact .inr (.inr ⟨d, op⟩)
  | getaddrinfo => exact .inr (.inl (p.inLookup_iff.mpr ⟨f, hf, pending⟩))
  | spawn | received | sent | receive | send =>
    rw [pending] at unqueued
    cases unqueued

theorem left (p : Paired w s) (hub : w.hub.current = none) (dead : w.env.uvLoopAlive = false)
    (hf : w.frame t = some f) :
    (∃ d, f.op = .wait d) ∨
    ∃ q, q ≠ .ready ∧ f.pending.queue = some q ∧ .op t ∈ w.enqueued q := by
  have hp := (p.frame_eq t).mp hf
  have unneeded : ¬ w.NeedsLoop := by
    intro needs
    rw [p.needed needs] at dead
    cases dead
  cases hq : f.pending.queue with
  | none =>
    obtain sleeps | asks | waits := p.unqueued_waits hp hq
    · exact absurd (.inr ⟨t, .inl sleeps⟩) unneeded
    · exact absurd (.inr ⟨t, .inr asks⟩) unneeded
    · exact .inl waits
  | some q =>
    have queued : t ∈ s.queue q := (p.base.core.queues.queued q t).mpr ⟨f, hp, hq⟩
    refine .inr ⟨q, ?_, rfl, ?_⟩
    · intro ready
      rw [ready, p.ready_nil hub] at queued
      cases queued
    · rw [World.enqueued, p.contents]
      exact List.mem_map_of_mem queued

end Paired

end Gevent
