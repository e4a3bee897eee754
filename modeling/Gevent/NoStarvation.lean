import Gevent.QueueLists
import Gevent.Sched.Alarms
import Gevent.Sched.Turns

/-!
# Ready cothreads are not starved

A cothread with `k` others before it in `hub->ready` is resumed within
`(k + 1) * n` changes of `hub->current`, where `n` counts the cothreads that have
not finished, and the loop does not run before (`ready_not_starved`).
-/

namespace Gevent

namespace Sched
variable {s s' : Sched} {t : Tid}

/-- In a continuation without new cothreads, `t` has been resumed or comes nearer. -/
theorem nearer_after {ok : Sched → World.Action → Prop} {n bound : Nat} (r : scheduler.Reach ok s)
    (near : s.Nearer t n bound [])
    (c : (scheduler.after s).Reach (fun _ a => ∀ u run, a ≠ .cothreadInit u run) s') :
    ∃ new, s'.env.log = new ++ s.env.log ∧
      (.switched (some t) ∈ new ∨ s'.Nearer t n bound new) := by
  refine c.invariant (P := fun s' => ∃ new, s'.env.log = new ++ s.env.log ∧
    (.switched (some t) ∈ new ∨ s'.Nearer t n bound new)) ?_ ?_
  · rintro _ rfl
    exact ⟨[], rfl, .inr near⟩
  · rintro s₁ a s₂ c₁ ⟨new, log, h⟩ noInit step
    have r₁ : scheduler.Reach anyStep s₁ := r.any.append c₁.any
    have log₂ : ∀ {es}, s₂.env.log = es ++ s₁.env.log → s₂.env.log = (es ++ new) ++ s.env.log := by
      intro es hes
      rw [hes, log, List.append_assoc]
    rcases h with h | h
    · obtain ⟨es, hes⟩ := step_log r₁ step
      exact ⟨es ++ new, log₂ hes, .inl (List.mem_append_right _ h)⟩
    · obtain ⟨b, st⟩ := scheduler_settled r₁
      obtain ⟨b', st'⟩ := scheduler_settled (r₁.step trivial step)
      obtain ⟨pre, post, ready, -⟩ := h.position
      obtain ⟨allowed, valid, x, rfl⟩ := step
      have turns := turns_next b.core st (by simp [ready]) allowed valid noInit x
      obtain ⟨es, hes, h'⟩ := turns.nearer b.core b'.core st' h
      exact ⟨es ++ new, log₂ hes, h'⟩

end Sched

namespace World

/-- The cothreads that are initialised and have not finished. -/
def unfinished (w : World) : Finset Tid :=
  w.env.known.toFinset.filter fun t => (w.co t).state ≠ .dead

def NoInit (_ : World) : Action → Prop
  | .cothreadInit _ _ => False
  | _ => True

instance decidableNoInit (w : World) : (a : Action) → Decidable (w.NoInit a)
  | .cothreadInit _ _ => inferInstanceAs (Decidable False)
  | .call _ | .setExitFn _ _ | .channelInit _ | .semaphoreInit _ _ | .timers
  | .resolve _ _ _ | .iterate | .updateTime | .others _ | .handleInit _ | .handleClose _ | .tick _
  | .finish => inferInstanceAs (Decidable True)

end World

theorem Paired.unfinished {w : World} {s : Sched} (p : Paired w s) : w.unfinished = s.unfinished := by
  ext t
  rw [Sched.mem_unfinished, World.unfinished, Finset.mem_filter, List.mem_toFinset, ← p.env]
  refine and_congr_right fun known => ?_
  have hs := p.state_eq (t := t)
  cases hp : s.place t with
  | unborn => exact absurd hp (p.known_iff.mp known)
  | new | running | dead => simp [hs, hp, Place.unfinished]
  | blocked f =>
    obtain ⟨self, call, op, pending, caller⟩ := f
    rw [hp] at hs
    rw [hs]
    cases pending <;> simp [Pending.state, Place.unfinished]

/-- In every continuation of a run in which no further cothread is initialised, a
cothread with `k` others before it in the ready queue is resumed after at most
`(k + 1) * n` changes of `hub->current`, and the hub is not entered before. -/
theorem ready_not_starved {w w' : World} {t : Tid} {pre post : List Word}
    (r : gevent.Reach anyStep w) (ready : w.enqueued .ready = pre ++ .op t :: post)
    (cont : (gevent.after w).Reach World.NoInit w') :
    ∃ new, w'.env.log = new ++ w.env.log ∧ (.switched (some t) ∈ new ∨
      switches new < (pre.length + 1) * w.unfinished.card ∧ .switched none ∉ new) := by
  obtain ⟨s, p⟩ := reach_paired r
  have meets : ∀ (w : World) (s' : Sched) (a : World.Action), (scheduler.after s).Reach anyStep s' →
      Corr w s' → w.Legal a → w.NoInit a → ∀ u run, a ≠ .cothreadInit u run := by
    rintro w s' a - - - h u run rfl
    exact h
  obtain ⟨s', c, p'⟩ := (gevent_refines.after p.reach p.toCorr).reach meets cont
  have hq : (s.queue .ready).map Word.op = pre ++ .op t :: post := (p.contents .ready).symm.trans ready
  obtain ⟨pre', rest, hqueue, rfl, hrest⟩ := List.map_eq_append_iff.mp hq
  obtain ⟨u, post', rfl, hu, rfl⟩ := List.map_eq_cons_iff.mp hrest
  cases hu
  have hne : s.queue .ready ≠ [] := by simp [hqueue]
  obtain ⟨v, -, running⟩ := p.settled.resolve_right fun ⟨_, _, hub⟩ => hne (p.base.core.hub hub).2
  have room := Sched.directs_card p.base.core running (u := t) (by simp [hqueue])
  have near : s.Nearer t s.unfinished.card ((pre'.length + 1) * (s.unfinished.card - 1)) [] := by
    refine ⟨⟨pre', post', hqueue, ?_⟩, Nat.le_refl _, by simp⟩
    rw [Nat.succ_mul]
    simp only [switches]
    omega
  obtain ⟨new, log, h⟩ := Sched.nearer_after p.reach near c
  refine ⟨new, by rw [p'.env, p.env, log], h.imp id ?_⟩
  rintro ⟨⟨pre₂, -, -, wait⟩, -, hub⟩
  refine ⟨?_, hub⟩
  rw [p.unfinished, List.length_map]
  have := Nat.mul_le_mul_left (pre'.length + 1) (Nat.sub_le s.unfinished.card 1)
  omega

instance (w₀ w : World) (a : World.Action) : Decidable ((gevent.after w₀).legal w a) :=
  inferInstanceAs (Decidable (w.Legal a))

set_option maxRecDepth 100000 in
/-- Cothread 1 is ready behind main while 2 runs, spawns 3 and lets the others run. -/
theorem ready_not_starved_run : ∃ w w', gevent.Reach anyStep w ∧
    w.enqueued .ready = [.op 0, .op 1] ∧ (gevent.after w).Reach World.NoInit w' ∧
    ∃ new, w'.env.log = new ++ w.env.log ∧ (.switched (some 1) ∈ new ∨
      switches new < 2 * w.unfinished.card ∧ .switched none ∉ new) := by
  have h : (gevent.play anyStep zeroStart [.cothreadInit 1 1, .cothreadInit 2 1, .cothreadInit 3 1,
      .call (.spawn 1), .call (.spawn 2)]).any (fun w => decide (
        w.enqueued .ready = [.op 0, .op 1] ∧ ((gevent.after w).play World.NoInit w
          [.call (.spawn 3), .call (.wait 0), .call (.receive (.plain 0))]).any
          (fun w' => decide (w'.control = .user 1)) = true)) = true := by
    decide
  obtain ⟨w, r, ready, hw⟩ := Machine.Reach.of_play zeroStart_start h
  obtain ⟨w', cont, -⟩ := Machine.Reach.of_play rfl hw
  exact ⟨w, w', r, ready, cont,
    ready_not_starved r (show w.enqueued .ready = [.op 0] ++ .op 1 :: [] from ready) cont⟩

end Gevent
