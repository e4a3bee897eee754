import Gevent.Refine.Aside
import Gevent.Refine.Views
import Gevent.Sched.Stages

/-!
# What happens to the list of handles

The history says who has exited (`World.Exited`) and whose timer has been armed.
The loop's list of handles is changed by the initialisation of a timer and by
the program's own handles, and nothing else reads it: an action does the same
whatever the list looks like (`Paired.exec_withHandles`).
-/

namespace Gevent
open Intrusive

/-- The exit function of `t` has been called in its present life. -/
def World.Exited (w : World) (t : Tid) : Prop := stage t w.env.log = .exited

instance (w : World) (t : Tid) : Decidable (w.Exited t) :=
  inferInstanceAs (Decidable (stage t w.env.log = .exited))

/-- `uv_timer_init` appends the timer of `t`. -/
def Handles.linkTimer (x : Handles) (t : Tid) : Handles :=
  { x with links := x.links.insertTail .head (.timer t) }

namespace World

def withHandles (w : World) (x : Handles) : World := { w with handles := x }

/-- `x`, after the caller of a sleeping call has initialised its timer. -/
def linkCaller (w : World) (x : Handles) : Handles :=
  match w.control with
  | .user t => x.linkTimer t
  | .hub _ => x

/-- What an action makes of the list `x`. -/
def handlesAfter (w : World) (x : Handles) : Action → Handles
  | .call (.sleep _) => w.linkCaller x
  | .call (.wait timeout) => if 0 < timeout then w.linkCaller x else x
  | .handleInit h => { links := x.links.insertTail .head (.other h), others := h :: x.others }
  | .handleClose h => { links := x.links.remove (.other h), others := x.others.erase h }
  | _ => x

theorem handlesAfter_sleeps {w : World} {x : Handles} {a : Action} {t : Tid} (hc : w.control = .user t)
    (sleeps : a.Sleeps) : w.handlesAfter x a = x.linkTimer t := by
  rcases sleeps with ⟨d, rfl⟩ | ⟨d, hd, rfl⟩
  · simp [handlesAfter, linkCaller, hc]
  · simp [handlesAfter, linkCaller, hc, hd]

theorem sleeps_caller {w : World} {a : Action} (legal : w.Legal a) (sleeps : a.Sleeps) :
    ∃ t, w.control = .user t := by
  have owner : w.control.owner.isSome := by
    rcases sleeps with ⟨d, rfl⟩ | ⟨d, -, rfl⟩ <;> exact legal
  cases hc : w.control with
  | user t => exact ⟨t, rfl⟩
  | hub ph => simp [hc, Control.owner] at owner

/-- Other actions leave the list alone. -/
theorem handlesAfter_eq {w : World} {x : Handles} {a : Action} (awake : ¬ a.Sleeps)
    (init : ∀ h, a ≠ .handleInit h) (close : ∀ h, a ≠ .handleClose h) : w.handlesAfter x a = x := by
  cases a with
  | call c =>
    cases c with
    | sleep d => exact absurd (.inl ⟨d, rfl⟩) awake
    | wait d => exact if_neg fun pos => awake (.inr ⟨d, pos, rfl⟩)
    | _ => rfl
  | handleInit h => exact absurd rfl (init h)
  | handleClose h => exact absurd rfl (close h)
  | _ => rfl

end World

/-- Another list of handles. -/
def Scribble.overHandles (x : Handles) : Scribble where
  prev _ := none
  next _ := none
  co _ := none
  timer _ := none
  exitFn _ := none
  nodes := ⟨fun n => some (x.links.prev n), fun n => some (x.links.next n)⟩
  others := some x.others

namespace Scribble
variable {w : World} {s : Sched} {x : Handles} {t : Tid}

theorem words_none {j : Scribble} (hp : ∀ t, j.prev t = none) (hn : ∀ t, j.next t = none) :
    j.words = .none := by
  simp only [words, LinkPatch.none, LinkPatch.mk.injEq]
  constructor <;> funext y <;> cases y <;> simp [hp, hn]

theorem scribble_overHandles : w.scribble (.overHandles x) = w.withHandles x := by
  have hwords : (overHandles x).words = .none := words_none (fun _ => rfl) fun _ => rfl
  simp only [World.scribble, hwords]
  rfl

theorem overHandles_spares (t : Tid) : (overHandles x).Spares t := ⟨rfl, rfl, rfl⟩

theorem overHandles_sparesLinks (t : Tid) : (overHandles x).SparesLinks t := ⟨rfl, rfl⟩

theorem overHandles_clear : (overHandles x).Clear s :=
  ⟨fun t _ _ => overHandles_spares t, fun t _ => overHandles_sparesLinks t,
    fun _ t _ => overHandles_sparesLinks t⟩

end Scribble

namespace Paired
variable {w w' : World} {s : Sched} {a : World.Action} {x : Handles} {t : Tid}

theorem stages (p : Paired w s) : Stages s := scheduler_stages p.reach

theorem exited_dead (p : Paired w s) (h : w.Exited t) : s.place t = .dead := by
  have placed := p.stages.placed t
  rw [← p.env, show stage t w.env.log = .exited from h] at placed
  exact placed

/-- The rest of a sleeping call does not look at the list. -/
theorem sleep_withHandles (p : Paired w s) (c : Call) (hc : s.control = .user t) (op : Call)
    (timeout : Int) (ref : Bool) :
    (({ w with env := w.env.enter t c } : World).withHandles x).sleepInternal w.env.calls op timeout ref =
      (·.withHandles (x.linkTimer t)) <$>
        ({ w with env := w.env.enter t c } : World).sleepInternal w.env.calls op timeout ref := by
  have call : Calling { w with env := w.env.enter t c } { s with env := s.env.enter t c } t :=
    (p.toCorr.calling p.base p.settled hc).mapEnv fun e => e.enter t c
  have hrest := call.scribble_startTimer (k := w.env.calls) (j := .overHandles (x.linkTimer t))
    Scribble.overHandles_clear (fun u _ => Scribble.overHandles_spares u) op timeout ref
  have hcur : (({ w with env := w.env.enter t c } : World).withHandles x).getCurrent = .ok t :=
    call.getCurrent
  simp only [World.sleepInternal_eq, call.getCurrent, hcur, ok_bind]
  simp only [Scribble.scribble_overHandles] at hrest
  exact hrest

/-- Nothing but the list itself depends on the list. -/
theorem exec_withHandles (p : Paired w s) (legal : w.Legal a) (x : Handles) :
    gevent.exec (w.withHandles x) a = (·.withHandles (w.handlesAfter x a)) <$> gevent.exec w a := by
  have allowed := p.toCorr.allowed p.base legal
  have quiet : (Scribble.overHandles x).Aside w a → w.handlesAfter x a = x →
      gevent.exec (w.withHandles x) a = (·.withHandles (w.handlesAfter x a)) <$> gevent.exec w a := by
    intro aside same
    have h := p.toCorr.scribble_exec p.base p.settled allowed Scribble.overHandles_clear aside
    simp only [Scribble.scribble_overHandles] at h
    rw [same]
    exact h
  have other : (∀ c, a ≠ .call c) → (∀ h, a ≠ .handleInit h) → (∀ h, a ≠ .handleClose h) →
      (Scribble.overHandles x).Aside w a := fun hcall hinit hclose =>
    { call := fun _ c ha => absurd ha (hcall c)
      init := fun _ _ _ => ⟨Scribble.overHandles_spares _, Scribble.overHandles_sparesLinks _⟩
      exitFn := fun _ _ _ => Scribble.overHandles_spares _
      handleInit := fun h ha => absurd ha (hinit h)
      handleClose := fun h ha => absurd ha (hclose h) }
  cases a with
  | call c =>
    cases hc : s.control with
    | hub ph =>
      have : s.control.owner.isSome := by cases c <;> first | exact allowed | exact allowed.1
      simp [hc, Control.owner] at this
    | user t =>
      have hwc : w.control = .user t := p.control.trans hc
      by_cases sleeps : World.Action.Sleeps (.call c)
      · have hexec : ∀ w' : World, w'.control = .user t → gevent.exec w' (.call c) =
            (w'.enter t c).1.perform w'.env.calls t c := by
          intro w' hw'
          change w'.call c = _
          simp only [World.call, hw']
          rfl
        rw [World.handlesAfter_sleeps hwc sleeps, hexec (w.withHandles x) hwc,
          hexec w hwc]
        rcases sleeps with ⟨d, hd⟩ | ⟨d, pos, hd⟩
        · cases hd
          exact p.sleep_withHandles (.sleep d) hc (.sleep d) d true
        · cases hd
          simp only [World.perform, World.wait, if_pos pos]
          exact p.sleep_withHandles (.wait d) hc (.wait d) d false
      · refine quiet ⟨?_, by simp, by simp, by simp, by simp⟩ ?_
        · rintro u c' ⟨⟩ -
          refine ⟨fun _ _ => Scribble.overHandles_sparesLinks u, fun h => ?_,
            fun v _ => Scribble.overHandles_spares v⟩
          refine absurd ?_ sleeps
          rcases h with ⟨d, rfl⟩ | ⟨d, pos, rfl⟩
          · exact .inl ⟨d, rfl⟩
          · exact .inr ⟨d, pos, rfl⟩
        · exact World.handlesAfter_eq sleeps (by simp) (by simp)
  | handleInit h | handleClose h => rfl
  | _ => exact quiet (other (by simp) (by simp) (by simp)) rfl

theorem exec_handles (p : Paired w s) (legal : w.Legal a) (exec : gevent.exec w a = .ok w') :
    w'.handles = w.handlesAfter w.handles a := by
  have h := p.exec_withHandles legal w.handles
  rw [show w.withHandles w.handles = w from rfl, exec] at h
  exact congrArg World.handles (Except.ok.inj h)

end Paired
end Gevent
