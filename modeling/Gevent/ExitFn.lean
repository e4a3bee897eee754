import Gevent.QueueLists
import Gevent.Refine.Handles

/-!
# Exit functions

A cothread is started once and finishes once, and its exit function is called
once, after that. Nothing refers to it from then on but the loop's list of
handles, where its timer stays: the steps that link or unlink next to it write
into it, and no other step reads or writes any of it (`exit_contract`).
-/

namespace Gevent
open Intrusive

/-- What the memory of a cothread may hold. -/
structure Contents where
  prev : Word
  next : Word
  co : Cothread
  timer : Timer
  exitFn : Bool
  nodePrev : HandleNode
  nodeNext : HandleNode

/-- All of `t` is overwritten. -/
def Scribble.single (t : Tid) (m : Contents) : Scribble where
  prev u := if u = t then some m.prev else none
  next u := if u = t then some m.next else none
  co u := if u = t then some m.co else none
  timer u := if u = t then some m.timer else none
  exitFn u := if u = t then some m.exitFn else none
  nodes := ⟨fun n => if n = .timer t then some m.nodePrev else none,
    fun n => if n = .timer t then some m.nodeNext else none⟩
  others := none

/-- The program itself gives `t` to gevent. -/
def World.Action.Names (a : World.Action) (t : Tid) : Prop :=
  (∃ run, a = .cothreadInit t run) ∨ (∃ b, a = .setExitFn t b) ∨ a = .call (.spawn t)

namespace World

/-- The action neither reads nor writes any field of `t`. -/
def Untouched (w : World) (t : Tid) (a : Action) : Prop :=
  ∀ m, gevent.exec (w.scribble (.single t m)) a = (·.scribble (.single t m)) <$> gevent.exec w a

structure Unreferenced (w : World) (t : Tid) : Prop where
  queue : ∀ q, ¬ w.links.links.Visits (.head q) (.op t)
  current : w.hub.current ≠ some t
  timer : t ∉ w.env.loop.timerHandles
  request : ∀ r ∈ w.env.loop.activeReqs, w.env.reqData r ≠ some t

/-- The exit function of `t` has just returned, and stack `st` continues. -/
structure ExitReturns (w : World) (t : Tid) (st : Stack) : Prop where
  log : ∃ l, w.env.log = .exitFn t :: .switched w.hub.current :: l
  successor : w.hub.current = st.owner
  dead : (w.co t).state = .dead
  unreferenced : w.Unreferenced t
  untouched : ∀ m, (w.scribble (.single t m)).proceed st = (·.scribble (.single t m)) <$> w.proceed st

/-- The node lies in a cothread that has exited. -/
def InExited (w : World) : HandleNode → Prop
  | .timer t => w.Exited t
  | .head | .other _ => False

instance (w : World) : (n : HandleNode) → Decidable (w.InExited n)
  | .timer t => inferInstanceAs (Decidable (w.Exited t))
  | .head | .other _ => inferInstanceAs (Decidable False)

/-- No handle is linked behind the timer of an exited cothread, and none is
unlinked next to one. A negative timeout of `gevent_sleep` fails an assertion of
`uv_timer_start`, and the step with it: `uv_timer_init` has linked the timer by
then, but a run that has failed does not go on. -/
def LeavesExited (w : World) : Action → Prop
  | .call (.sleep timeout) => 0 ≤ timeout → ¬ w.InExited (w.handles.links.prev .head)
  | .call (.wait timeout) => 0 < timeout → ¬ w.InExited (w.handles.links.prev .head)
  | .handleInit _ => ¬ w.InExited (w.handles.links.prev .head)
  | .handleClose h => ¬ w.InExited (w.handles.links.prev (.other h)) ∧
      ¬ w.InExited (w.handles.links.next (.other h))
  | _ => True

instance (w : World) : (a : Action) → Decidable (w.LeavesExited a)
  | .call (.sleep timeout) =>
    inferInstanceAs (Decidable (0 ≤ timeout → ¬ w.InExited (w.handles.links.prev .head)))
  | .call (.wait timeout) =>
    inferInstanceAs (Decidable (0 < timeout → ¬ w.InExited (w.handles.links.prev .head)))
  | .handleInit _ => inferInstanceAs (Decidable (¬ w.InExited (w.handles.links.prev .head)))
  | .handleClose h => inferInstanceAs (Decidable (¬ w.InExited (w.handles.links.prev (.other h)) ∧
      ¬ w.InExited (w.handles.links.next (.other h))))
  | .call (.spawn _) | .call (.receive _) | .call (.send _ _) | .call (.acquire _)
  | .call (.release _) | .call (.getaddrinfo _) | .finish | .cothreadInit _ _ | .setExitFn _ _
  | .channelInit _ | .semaphoreInit _ _ | .timers | .resolve _ _ _ | .iterate | .updateTime
  | .others _ | .tick _ => inferInstanceAs (Decidable True)

/-- The lives of cothreads in runs whose steps meet `ok`. -/
structure ExitContract (ok : World → Action → Prop) (w : World) : Prop where
  /-- Starts, ends and exits come in this order, once in a life, and an exit when
  `hub->current` has just become somebody else. -/
  ordered : Hist Event.InOrder w.env.log
  starts : ∀ t w', w.Legal (.call (.spawn t)) → gevent.exec w (.call (.spawn t)) = .ok w' →
    w'.control = .user t ∧
      ∃ k u, w'.env.log = .start t :: .switched (some t) :: .call k u (.spawn t) :: w.env.log
  finishes : ∀ t, w.Legal .finish → w.control = .user t → ∃ w', gevent.exec w .finish = .ok w' ∧
    (w'.co t).state = .dead ∧
      stage t w'.env.log = if w.env.exitFn t = true then .exited else .finished
  exits : ∀ t, w.Legal .finish → w.control = .user t → w.env.exitFn t = true →
    ∃ (w₁ : World) (st : Stack), gevent.exec w .finish = w₁.proceed st ∧ w₁.ExitReturns t st
  unreferenced : ∀ t, w.Exited t → w.Unreferenced t
  untouched : ∀ t a, w.Exited t → w.Legal a → ok w a → ¬ a.Names t → w.Untouched t a

end World

/-- The node of `t` in the list of handles is overwritten. -/
def Handles.setNode (x : Handles) (t : Tid) (y z : HandleNode) : Handles :=
  { x with links := x.links.patch ⟨fun n => if n = .timer t then some y else none,
      fun n => if n = .timer t then some z else none⟩ }

namespace Scribble
variable {s : Sched} {t u : Tid} {m : Contents} {n : HandleNode}

theorem single_spares (h : u ≠ t) : (single t m).Spares u := by
  constructor <;> simp [single, h]

theorem single_sparesLinks (h : u ≠ t) : (single t m).SparesLinks u := by
  constructor <;> simp [single, words, h]

theorem single_sparesNode (h : n ≠ .timer t) : (single t m).nodes.Spares n := by
  constructor <;> simp [single, h]

/-- Only the node in the list of handles is overwritten. -/
theorem scribble_single_node (w : World) (t : Tid) (y z : HandleNode) :
    w.scribble (.single t ⟨w.links.links.prev (.op t), w.links.links.next (.op t), w.co t,
      w.env.timer t, w.env.exitFn t, y, z⟩) = w.withHandles (w.handles.setNode t y z) := by
  have same : ∀ {B : Type} (f : Tid → B),
      patched (fun u => if u = t then some (f t) else none) f = f := by
    refine fun f => patched_self fun u b h => ?_
    split at h
    · next hu =>
      rw [hu]
      exact Option.some.inj h
    · cases h
  have hlinks : ∀ m : Contents, m.prev = w.links.links.prev (.op t) →
      m.next = w.links.links.next (.op t) → w.links.patch (single t m).words = w.links := by
    intro m hprev hnext
    have hp : patched (single t m).words.prev w.links.links.prev = w.links.links.prev := by
      refine patched_self fun x b h => ?_
      cases x <;> simp [single, words] at h
      rw [h.1, ← h.2, hprev]
    have hn : patched (single t m).words.next w.links.links.next = w.links.links.next := by
      refine patched_self fun x b h => ?_
      cases x <;> simp [single, words] at h
      rw [h.1, ← h.2, hnext]
    simp only [Traced.patch, Links.patch, hp, hn]
  simp only [World.scribble, hlinks, World.withHandles, Env.scribble]
  simp only [single, same]
  rfl

theorem single_clear (dead : s.place t = .dead) (queues : s.Queues) : (single t m).Clear s where
  structs u _ hd := single_spares (by rintro rfl; exact hd dead)
  links u hu := single_sparesLinks (by rintro rfl; simp [dead, Place.UsesLinks] at hu)
  queued q u hu := by
    refine single_sparesLinks ?_
    rintro rfl
    obtain ⟨f, hf, -⟩ := (queues.queued q u).mp hu
    rw [dead] at hf
    cases hf

end Scribble

theorem Couple.unreferenced {w : World} {s : Sched} {h : Option Tid → Handle} {t : Tid}
    (c : Couple w s h) (queue : ∀ q, t ∉ s.queue q) (current : w.hub.current ≠ some t)
    (timer : t ∉ s.env.loop.timerHandles)
    (request : ∀ r ∈ s.env.loop.activeReqs, s.env.reqData r ≠ some t) : w.Unreferenced t := by
  refine ⟨fun q => ?_, current, by rwa [c.env], by rwa [c.env]⟩
  rw [(c.good.ring (.head q) ⟨q, rfl⟩).visits_iff, c.contents]
  simpa using queue q

/-- What an exit function finds when `_after_switch` calls it. -/
theorem Arrived.exits {w w₁ : World} {s : Sched} {t : Tid} {new : Option Tid}
    (a : Arrived w w₁ s new (some t)) (hne : new ≠ some t) (exitFn : s.env.exitFn t = true)
    (dead : s.place t = .dead) (queue : ∀ q, t ∉ s.queue q) (timer : t ∉ s.env.loop.timerHandles)
    (request : ∀ r ∈ s.env.loop.activeReqs, s.env.reqData r ≠ some t) :
    (∃ l, w₁.env.log = .exitFn t :: .switched w₁.hub.current :: l) ∧ (w₁.co t).state = .dead ∧
      w₁.Unreferenced t := by
  have hcur : w₁.hub.current ≠ some t := a.current ▸ hne
  have hcell : Cell w₁ t .dead := dead ▸ a.toCouple.cell t
  refine ⟨⟨s.env.log, ?_⟩, hcell.resolve_right hcur, a.toCouple.unreferenced queue hcur timer request⟩
  rw [a.toCouple.env, a.current]
  simp [Sched.switched, Sched.emit, Env.emit, Env.callExitFn, Option.filter, exitFn]

namespace Paired
variable {w w' : World} {s : Sched} {t u : Tid} {a : World.Action}

/-- Armed timers and requests belong to cothreads that wait for them. -/
theorem idle (p : Paired w s) (h : s.place t = .dead ∨ s.place t = .running ∧ t ≠ s.main) :
    (∀ q, t ∉ s.queue q) ∧ t ∉ s.env.loop.timerHandles ∧
      ∀ r ∈ s.env.loop.activeReqs, s.env.reqData r ≠ some t := by
  have hblocked : ∀ f, s.place t ≠ .blocked f := by
    rintro f hf
    rcases h with h | ⟨h, -⟩ <;> rw [hf] at h <;> cases h
  refine ⟨p.base.core.queues.not_queued hblocked, fun ht => ?_, fun r hr data => ?_⟩
  · obtain ⟨-, -, -, f, hf, -⟩ := p.base.timers.armed t ht
    exact hblocked f hf
  · obtain ⟨u, hu, ho⟩ := p.base.lookups.owner_at hr
    obtain rfl : t = u := by simpa [data] using hu
    rcases ho with ⟨f, hf, -⟩ | ⟨rfl, -⟩
    · exact hblocked f hf
    · rcases h with h | ⟨-, h⟩
      · rcases p.base.core.main with hm | ⟨f, hm⟩ <;>
          rw [show s.place s.main = .dead from h] at hm <;> cases hm
      · exact h rfl

theorem unreferenced (p : Paired w s) (h : w.Exited t) : w.Unreferenced t := by
  have dead := p.exited_dead h
  obtain ⟨queue, timer, request⟩ := p.idle (.inl dead)
  refine p.toCouple.unreferenced queue (fun hc => ?_) timer request
  rw [p.current] at hc
  have hs : s.control = .user t := by
    cases hs : s.control with
    | user u =>
      rw [hs] at hc
      cases hc
      rfl
    | hub ph =>
      rw [hs] at hc
      cases hc
  rw [p.settled.user hs] at dead
  cases dead

theorem exits (p : Paired w s) (legal : w.Legal .finish) (hc : w.control = .user t)
    (exitFn : w.env.exitFn t = true) : ∃ (w₁ : World) (st : Stack),
    gevent.exec w .finish = w₁.proceed st ∧ w₁.ExitReturns t st := by
  have hs : s.control = .user t := p.control.symm.trans hc
  have main : t ≠ s.main := by
    rintro rfl
    exact legal.2 (by rw [hc, p.main]; rfl)
  have running := p.settled.user hs
  have d := p.toCorr.dying p.base p.settled hs main
  have hexec : gevent.exec w .finish = w.cothreadReturn t := by
    change w.exec .finish = _
    simp only [World.exec, hc]
  obtain ⟨queue, timer, request⟩ := p.idle (.inr ⟨running, main⟩)
  have hexitFn : s.env.exitFn t = true := p.env ▸ exitFn
  have dead : ((s.emit (.finish t)).setPlace t .dead).place t = .dead := Function.update_self ..
  rw [hexec, d.cothreadReturn]
  rcases d.getNextStacklet d.queues d.mainBlocked fun _ => by rw [d.currentDied]; simp with
    ⟨w₂, s₂, u, f, get, k⟩ | ⟨ph, get, -, hub⟩
  · have hut : u ≠ t := by
      rintro rfl
      have hu := k.blocked
      rw [k.place, dead] at hu
      cases hu
    obtain ⟨n, w₁, hn, hst, h₁, arrived⟩ := k.toLeaving.arrive k.blocked (k.current_ne k.blocked)
    obtain ⟨es, hes⟩ := k.onlyLog
    have hdead : (s₂.setPlace u .running).place t = .dead := by
      rw [← dead, ← k.place]
      exact Function.update_of_ne (Ne.symm hut) _ _
    obtain ⟨log, state, unref⟩ := arrived.exits (by simpa using hut)
      (show s₂.env.exitFn t = true by rw [hes]; exact hexitFn) hdead
      (fun q hq => queue q (k.queued q t hq))
      (show t ∉ s₂.env.loop.timerHandles by rw [hes]; exact timer)
      (show ∀ r ∈ s₂.env.loop.activeReqs, s₂.env.reqData r ≠ some t by rw [hes]; exact request)
    refine ⟨w₁, ⟨some u, some u, .api f⟩, ?_, ⟨log, arrived.current, state, unref, fun m => ?_⟩⟩
    · rw [get]
      change w₂.restore (w₂.co u).stacklet .empty = _
      rw [hn, World.restore_stack .empty hst, World.resume_eq, h₁]
      rfl
    · refine k.toLeaving.scribble_proceed (k.clear (Scribble.single_clear dead d.queues)) k.blocked
        k.self k.waits arrived.same.links
  · obtain ⟨n, w₁, hn, hst, h₁, arrived⟩ := d.arriveHub hub (by rw [d.currentDied]; simp)
    obtain ⟨log, state, unref⟩ := arrived.exits (by simp) hexitFn dead queue timer request
    refine ⟨w₁, ⟨none, none, .callback ph⟩, ?_, ⟨log, arrived.current, state, unref, fun m => rfl⟩⟩
    rw [get]
    change (w.emit (.finish t)).restore (w.emit (.finish t)).hub.stacklet .empty = _
    rw [hn, World.restore_stack .empty hst, World.resume_eq, h₁]
    rfl

theorem starts (p : Paired w s) (legal : w.Legal (.call (.spawn t)))
    (exec : gevent.exec w (.call (.spawn t)) = .ok w') : w'.control = .user t ∧
      ∃ k u, w'.env.log = .start t :: .switched (some t) :: .call k u (.spawn t) :: w.env.log := by
  have allowed := p.toCorr.allowed p.base legal
  obtain ⟨u, hc⟩ : ∃ u, s.control = .user u := by
    cases hc : s.control with
    | user u => exact ⟨u, rfl⟩
    | hub ph => simp [Sched.Allowed, hc, Control.owner] at allowed
  obtain ⟨-, x, p'⟩ := p.exec_next legal exec
  have hnext : s.next x (.call (.spawn t)) =
      ((s.enter u (.spawn t)).block u ⟨u, s.env.calls, .spawn t, .spawn, .program⟩).startCothread t := by
    simp only [Sched.next, hc]
    rfl
  rw [p'.control, p'.env, hnext]
  exact ⟨rfl, s.env.calls, u, by rw [p.env]; rfl⟩

theorem finishes (p : Paired w s) (legal : w.Legal .finish) (hc : w.control = .user t) :
    ∃ w', gevent.exec w .finish = .ok w' ∧ (w'.co t).state = .dead ∧
      stage t w'.env.log = if w.env.exitFn t = true then .exited else .finished := by
  obtain ⟨w', x, exec, -⟩ := p.exec_ok legal (a := .finish) rfl
  obtain ⟨-, x, p'⟩ := p.exec_next legal exec
  have hs : s.control = .user t := p.control.symm.trans hc
  have progress := Sched.progress_next p.base.core p.settled (p.toCorr.allowed p.base legal)
    (a := .finish) rfl x
  have hstage : stage t (s.next x .finish).env.log =
      if s.env.exitFn t = true then .exited else .finished := by
    cases progress with
    | plain plain => exact plain.elim
    | sleep _ sleeps => rcases sleeps with ⟨d, hd⟩ | ⟨d, -, hd⟩ <;> cases hd
    | @finish u control _ ends =>
      obtain rfl : t = u := Control.user.inj (hs.symm.trans control)
      rw [ends.stage_eq, if_pos rfl]
  refine ⟨w', exec, ?_, ?_⟩
  · have placed := p'.stages.placed t
    have dead : (s.next x .finish).place t = .dead := by
      rw [hstage] at placed
      split at placed <;> exact placed
    rw [p'.state_eq, dead]
  · rw [p'.env, hstage, p.env]

/-- The action has no business with an exited cothread. -/
theorem single_aside (dead : s.place t = .dead) (p : Paired w s) (legal : w.Legal a)
    (leaves : w.LeavesExited a) (exited : w.Exited t) (foreign : ¬ a.Names t)
    (nonneg : ∀ d, a = .call (.sleep d) → 0 ≤ d) (m : Contents) : (Scribble.single t m).Aside w a := by
  have spares : ∀ n : HandleNode, ¬ w.InExited n → (Scribble.single t m).nodes.Spares n := by
    rintro n hn
    refine Scribble.single_sparesNode ?_
    rintro rfl
    exact hn exited
  refine ⟨?_, ?_, ?_, ?_, ?_⟩
  · rintro u c rfl hc
    have hut : u ≠ t := by
      rintro rfl
      rw [p.running_iff.mpr hc] at dead
      cases dead
    refine ⟨fun _ _ => Scribble.single_sparesLinks hut, fun hs => ⟨spares _ id,
      Scribble.single_sparesNode (by simpa using hut), spares _ ?_⟩, ?_⟩
    · rcases hs with ⟨d, rfl⟩ | ⟨d, hd, rfl⟩
      · exact leaves (nonneg d rfl)
      · exact leaves hd
    · rintro v rfl
      refine Scribble.single_spares ?_
      rintro rfl
      exact foreign (.inr (.inr rfl))
  · rintro u run rfl
    have hut : u ≠ t := by
      rintro rfl
      exact foreign (.inl ⟨run, rfl⟩)
    exact ⟨Scribble.single_spares hut, Scribble.single_sparesLinks hut⟩
  · rintro u b rfl
    refine Scribble.single_spares ?_
    rintro rfl
    exact foreign (.inr (.inl ⟨b, rfl⟩))
  · rintro h rfl
    exact ⟨rfl, spares _ id, spares _ id, spares _ leaves⟩
  · rintro h rfl
    exact ⟨rfl, spares _ id, spares _ leaves.1, spares _ leaves.2⟩

theorem untouched (p : Paired w s) (exited : w.Exited t) (legal : w.Legal a)
    (leaves : w.LeavesExited a) (foreign : ¬ a.Names t) : w.Untouched t a := by
  intro m
  have dead := p.exited_dead exited
  have clear : (Scribble.single t m).Clear s := Scribble.single_clear dead p.base.core.queues
  by_cases nonneg : ∀ d, a = .call (.sleep d) → 0 ≤ d
  · exact p.toCorr.scribble_exec p.base p.settled (p.toCorr.allowed p.base legal) clear
      (single_aside dead p legal leaves exited foreign nonneg m)
  · -- an assertion of `uv_timer_start` fails
    push Not at nonneg
    obtain ⟨d, rfl, negative⟩ := nonneg
    cases hc : s.control with
    | hub ph =>
      have allowed := p.toCorr.allowed p.base legal
      simp [Sched.Allowed, hc, Control.owner] at allowed
    | user u =>
      have hwc : w.control = .user u := p.control.trans hc
      have call : Calling { w with env := w.env.enter u (.sleep d) }
          { s with env := s.env.enter u (.sleep d) } u :=
        (p.toCorr.calling p.base p.settled hc).mapEnv fun e => e.enter u (.sleep d)
      have hfault : ∀ w' : World, w'.control = .user u → (w'.enter u (.sleep d)).1.getCurrent = .ok u →
          gevent.exec w' (.call (.sleep d)) = .error (.assertion .uvTimerStart) := by
        intro w' hw' hcur
        change w'.call _ = _
        simp only [World.call, hw']
        exact Calling.sleep_fault hcur (by omega) _ _ _
      rw [hfault w hwc call.getCurrent, hfault (w.scribble (.single t m)) hwc
        (call.scribble_getCurrent (clear.congr rfl rfl))]
      rfl

/-- What an untouched cothread says about the list of handles. -/
theorem node_kept (p : Paired w s) (legal : w.Legal a) (exec : gevent.exec w a = .ok w')
    (h : w.Untouched t a) (y z : HandleNode) :
    w.handlesAfter (w.handles.setNode t y z) a = w'.handles.setNode t y z := by
  have hx := p.exec_withHandles legal (w.handles.setNode t y z)
  rw [← Scribble.scribble_single_node, h, exec] at hx
  exact (congrArg World.handles (Except.ok.inj hx)).symm

/-- Linking a node writes into the last one of the list. -/
theorem not_linked (p : Paired w s) (legal : w.Legal a) (valid : s.fault a = none)
    (foreign : ∀ t, ¬ a.Names t) (h : ∀ t, w.Exited t → ¬ a.Names t → w.Untouched t a)
    {n : HandleNode} (hn : ¬ w.InExited n)
    (links : ∀ x : Handles, (w.handlesAfter x a).links = x.links.insertTail .head n) :
    ¬ w.InExited (w.handles.links.prev .head) := by
  intro hin
  cases last : w.handles.links.prev .head with
  | head | other => rw [last] at hin; exact hin
  | timer t =>
    rw [last] at hin
    obtain ⟨w', x, exec, -⟩ := p.exec_ok legal valid
    have hnt : HandleNode.timer t ≠ n := by
      rintro rfl
      exact hn hin
    have hz : ∀ z, z = n := by
      intro z
      have hkept := p.node_kept legal exec (h t hin (foreign t)) .head z
      have hlast : (w.handles.setNode t .head z).links.prev .head = .timer t := by
        simpa [Handles.setNode, Links.patch, patched] using last
      have hnext : (w.handlesAfter (w.handles.setNode t .head z) a).links.next (.timer t) = n := by
        rw [links, Links.insertTail_next, if_neg hnt, hlast, if_pos rfl]
      rw [← hnext, hkept]
      simp [Handles.setNode, Links.patch, patched]
    cases (hz .head).trans (hz (.other 0)).symm

/-- Unlinking a node writes into its neighbours. -/
theorem not_unlinked (p : Paired w s) {n : Nat} (legal : w.Legal (.handleClose n))
    (h : ∀ t, w.Exited t → w.Untouched t (.handleClose n)) :
    ¬ w.InExited (w.handles.links.prev (.other n)) ∧
      ¬ w.InExited (w.handles.links.next (.other n)) := by
  obtain ⟨w', x, exec, -⟩ := p.exec_ok legal rfl
  have hkept := fun t ht => p.node_kept legal exec (h t ht)
  have hprev : ∀ t y z, (w.handles.setNode t y z).links.prev (.other n) =
      w.handles.links.prev (.other n) := fun t y z => by
    simp [Handles.setNode, Links.patch, patched]
  have hnext : ∀ t y z, (w.handles.setNode t y z).links.next (.other n) =
      w.handles.links.next (.other n) := fun t y z => by
    simp [Handles.setNode, Links.patch, patched]
  have hafter : ∀ x : Handles, (w.handlesAfter x (.handleClose n)).links = x.links.remove (.other n) :=
    fun x => rfl
  constructor
  · intro hin
    cases near : w.handles.links.prev (.other n) with
    | head | other => rw [near] at hin; exact hin
    | timer t =>
      rw [near] at hin
      have hz : ∀ z, z = w.handles.links.next (.other n) := by
        intro z
        have hnode := congrArg (fun x : Handles => x.links.next (.timer t)) (hkept t hin .head z)
        simp only [hafter, Links.remove_next, hprev, hnext, near, if_true] at hnode
        rw [hnode]
        simp [Handles.setNode, Links.patch, patched]
      cases (hz .head).trans (hz (.other 0)).symm
  · intro hin
    cases near : w.handles.links.next (.other n) with
    | head | other => rw [near] at hin; exact hin
    | timer t =>
      rw [near] at hin
      have hy : ∀ y, y = w.handles.links.prev (.other n) := by
        intro y
        have hnode := congrArg (fun x : Handles => x.links.prev (.timer t)) (hkept t hin y .head)
        simp only [hafter, Links.remove_prev, hprev, hnext, near, if_true] at hnode
        rw [hnode]
        simp [Handles.setNode, Links.patch, patched]
      cases (hy .head).trans (hy (.other 0)).symm

/-- A step that leaves exited cothreads alone links and unlinks next to none. -/
theorem leaves (p : Paired w s) (legal : w.Legal a)
    (h : ∀ t, w.Exited t → ¬ a.Names t → w.Untouched t a) : w.LeavesExited a := by
  have hsleeps : a.Sleeps → s.fault a = none → ¬ w.InExited (w.handles.links.prev .head) := by
    intro sleeps valid
    have foreign : ∀ t, ¬ a.Names t := by
      rcases sleeps with ⟨d, rfl⟩ | ⟨d, -, rfl⟩ <;> simp [World.Action.Names]
    obtain ⟨u, hc⟩ := World.sleeps_caller legal sleeps
    refine p.not_linked legal valid foreign h (n := .timer u) (fun hu => ?_) fun x => ?_
    · have dead := p.exited_dead hu
      rw [p.running_iff.mpr hc] at dead
      cases dead
    · rw [World.handlesAfter_sleeps hc sleeps]
      rfl
  cases a with
  | call c =>
    cases c with
    | sleep d => exact fun nonneg => hsleeps (.inl ⟨d, rfl⟩) (by simp [Sched.fault, nonneg])
    | wait d => exact fun hd => hsleeps (.inr ⟨d, hd, rfl⟩) rfl
    | _ => trivial
  | handleInit n =>
    exact p.not_linked legal rfl (by simp [World.Action.Names]) h (n := .other n) id fun x => rfl
  | handleClose n => exact p.not_unlinked legal fun t ht => h t ht (by simp [World.Action.Names])
  | _ => trivial

theorem leavesExited_iff (p : Paired w s) (legal : w.Legal a) :
    w.LeavesExited a ↔ ∀ t, w.Exited t → ¬ a.Names t → w.Untouched t a :=
  ⟨fun leaves _ exited foreign => p.untouched exited legal leaves foreign, p.leaves legal⟩

end Paired

/-- While no handle is linked or unlinked next to the timer of an exited
cothread, `exit_fn` keeps its contract; and that condition is the exact one. -/
theorem exit_contract {w : World} (r : gevent.Reach World.LeavesExited w) :
    w.ExitContract World.LeavesExited ∧ ∀ a, w.Legal a →
      (w.LeavesExited a ↔ ∀ t, w.Exited t → ¬ a.Names t → w.Untouched t a) := by
  obtain ⟨s, p⟩ := reach_paired r
  refine ⟨⟨?_, fun t w' => p.starts, fun t => p.finishes, fun t => p.exits, fun t => p.unreferenced,
    fun t a exited legal leaves foreign => p.untouched exited legal leaves foreign⟩,
    fun a => p.leavesExited_iff⟩
  rw [p.env]
  exact p.stages.ordered

set_option maxRecDepth 100000 in
/-- 1 finishes after a sleep, its timer being the last handle of the loop. -/
theorem exit_contract_run : ∃ w, gevent.Reach World.LeavesExited w ∧ w.Exited 1 ∧
    w.handles.links.prev .head = .timer 1 ∧ w.ExitContract World.LeavesExited := by
  have h : (gevent.play World.LeavesExited zeroStart [.cothreadInit 1 1, .setExitFn 1 true,
      .call (.spawn 1), .call (.sleep 0), .call (.getaddrinfo .submitted), .iterate, .timers, .finish,
      .timers, .resolve 0 0 .null]).any (fun w => decide
        (w.Exited 1 ∧ w.handles.links.prev .head = .timer 1)) = true := by decide
  obtain ⟨w, r, exited, last⟩ := Machine.Reach.of_play zeroStart_start h
  exact ⟨w, r, exited, last, (exit_contract r).1⟩

set_option maxRecDepth 100000 in
/-- After that, a sleep of the main cothread writes into 1. -/
theorem exited_cothread_written : ¬ ∀ w, gevent.Reach anyStep w → w.ExitContract anyStep := by
  intro all
  let m : Contents := ⟨.null, .null, ⟨.dead, .null, .null⟩, ⟨false, false, false, 0, 0⟩, false, .head, .head⟩
  have h : (gevent.play anyStep zeroStart [.cothreadInit 1 1, .setExitFn 1 true,
      .call (.spawn 1), .call (.sleep 0), .call (.getaddrinfo .submitted), .iterate, .timers, .finish,
      .timers, .resolve 0 0 .null]).any (fun w => decide (w.Exited 1 ∧ w.Legal (.call (.sleep 1)) ∧
        (gevent.exec (w.scribble (.single 1 m)) (.call (.sleep 1))).toOption.any
          (fun w' => w'.handles.links.next (.timer 1) = .timer 0) = true)) = true := by decide
  obtain ⟨w, r, exited, legal, hnext⟩ := Machine.Reach.of_play zeroStart_start h
  have hsame := (all w r).untouched 1 _ exited legal trivial (by simp [World.Action.Names]) m
  rw [hsame] at hnext
  cases hexec : gevent.exec w (.call (.sleep 1)) with
  | error e => simp [hexec, Except.toOption] at hnext
  | ok w' => simp [hexec, Except.toOption, World.scribble, Scribble.single, Links.patch, patched, m] at hnext

end Gevent
