import Gevent.Lib.Patch
import Gevent.Sched

/-!
# Scribbling over cothreads

A scribble puts other contents into parts of cothreads: link words, the timer's
node in the list of handles, the rest. The functions of gevent.c up to
`_after_switch` commute with a scribble that spares what they use; that they do
is how it is said that they neither read nor write the rest.
-/

namespace Gevent
open Intrusive

/-- Other contents for parts of cothreads, and for the list of handles. -/
structure Scribble where
  prev : Tid → Option Word
  next : Tid → Option Word
  co : Tid → Option Cothread
  timer : Tid → Option Timer
  exitFn : Tid → Option Bool
  nodes : LinkPatch HandleNode
  others : Option (List Nat)

namespace Scribble

/-- Link words 0 and 1 of the unions. -/
def words (j : Scribble) : LinkPatch Word where
  prev x := match x with
    | .op t => j.prev t
    | _ => none
  next x := match x with
    | .op t => j.next t
    | _ => none

structure Spares (j : Scribble) (t : Tid) : Prop where
  co : j.co t = none
  timer : j.timer t = none
  exitFn : j.exitFn t = none

/-- The link words of `t` are spared. -/
def SparesLinks (j : Scribble) (t : Tid) : Prop := j.words.Spares (.op t)

theorem spares_head (j : Scribble) (q : QueueId) : j.words.Spares (.head q) := ⟨rfl, rfl⟩

end Scribble

def Env.scribble (e : Env) (j : Scribble) : Env :=
  { e with timer := patched j.timer e.timer, exitFn := patched j.exitFn e.exitFn }

namespace World

def scribble (w : World) (j : Scribble) : World :=
  { w with
    co := patched j.co w.co
    links := w.links.patch j.words
    handles := ⟨w.handles.links.patch j.nodes, j.others.getD w.handles.others⟩
    env := w.env.scribble j }

variable {w : World} {j : Scribble} {t u : Tid} {q : QueueId} {f : Frame}

@[simp] theorem scribble_hub : (w.scribble j).hub = w.hub := by rfl
@[simp] theorem scribble_thread : (w.scribble j).thread = w.thread := by rfl
@[simp] theorem scribble_control : (w.scribble j).control = w.control := by rfl
@[simp] theorem scribble_env : (w.scribble j).env = w.env.scribble j := by rfl
@[simp] theorem scribble_links : (w.scribble j).links = w.links.patch j.words := by rfl

theorem scribble_co (ht : j.Spares t) : (w.scribble j).co t = w.co t := patched_of_none ht.co

end World

/-! ## The environment -/

namespace Env
variable {e : Env} {j : Scribble} {t : Tid}

@[simp] theorem scribble_loop : (e.scribble j).loop = e.loop := by rfl
@[simp] theorem scribble_counter : (e.scribble j).counter = e.counter := by rfl
@[simp] theorem scribble_reqData : (e.scribble j).reqData = e.reqData := by rfl
@[simp] theorem scribble_inCall : (e.scribble j).inCall = e.inCall := by rfl
@[simp] theorem scribble_armedBy : (e.scribble j).armedBy = e.armedBy := by rfl
@[simp] theorem scribble_calls : (e.scribble j).calls = e.calls := by rfl
@[simp] theorem scribble_nextReq : (e.scribble j).nextReq = e.nextReq := by rfl
@[simp] theorem scribble_uvLoopAlive : (e.scribble j).uvLoopAlive = e.uvLoopAlive := by rfl

theorem scribble_timer (ht : j.Spares t) : (e.scribble j).timer t = e.timer t :=
  patched_of_none ht.timer

theorem scribble_exitFn (ht : j.Spares t) : (e.scribble j).exitFn t = e.exitFn t :=
  patched_of_none ht.exitFn

theorem scribble_setTimer (ht : j.Spares t) (tm : Timer) :
    (e.scribble j).setTimer t tm = (e.setTimer t tm).scribble j := by
  simp only [setTimer, scribble, patched_update ht.timer]

theorem scribble_callExitFn {died : Option Tid} (hd : ∀ t, died = some t → j.Spares t) :
    (e.scribble j).callExitFn died = (e.callExitFn died).scribble j := by
  cases died with
  | none => rfl
  | some t =>
    have := scribble_exitFn (e := e) (hd t rfl)
    simp only [callExitFn, Option.filter, this]
    rfl

theorem scribble_uvHandleStart (ht : j.Spares t) :
    (e.scribble j).uvHandleStart t = (e.uvHandleStart t).scribble j := by
  simp only [uvHandleStart, scribble_timer ht, scribble_setTimer ht]
  split
  · rfl
  · split <;> rfl

theorem scribble_uvHandleStop (ht : j.Spares t) :
    (e.scribble j).uvHandleStop t = (e.uvHandleStop t).scribble j := by
  simp only [uvHandleStop, scribble_timer ht, scribble_setTimer ht]
  split
  · rfl
  · split <;> rfl

theorem scribble_uvHandleUnref (ht : j.Spares t) :
    (e.scribble j).uvHandleUnref t = (e.uvHandleUnref t).scribble j := by
  simp only [uvHandleUnref, scribble_timer ht, scribble_setTimer ht]
  split
  · rfl
  · split <;> rfl

theorem scribble_timerStop (ht : j.Spares t) :
    (e.scribble j).timerStop t = (e.timerStop t).scribble j :=
  scribble_uvHandleStop (e := { e with loop := { e.loop with
    timerHandles := e.loop.timerHandles.erase t } }) ht

theorem scribble_timerInit (ht : j.Spares t) :
    (e.scribble j).timerInit t = (e.timerInit t).scribble j := by
  simp only [timerInit, scribble_timer ht, scribble_setTimer ht]

/-- The tree only looks at the timers in it and at the new one. -/
theorem rbInsert_congr {cmp cmp' : Tid → Tid → Ordering} {x : Tid} {l : List Tid}
    (h : ∀ y ∈ l, cmp x y = cmp' x y) : rbInsert cmp x l = rbInsert cmp' x l := by
  induction l with
  | nil => rfl
  | cons y l ih =>
    simp only [rbInsert, h y List.mem_cons_self, ih fun z hz => h z (List.mem_cons_of_mem _ hz)]

theorem scribble_timerStart (ht : j.Spares t) (hl : ∀ u ∈ e.loop.timerHandles, j.Spares u)
    (timeout rpt : Nat) :
    (e.scribble j).timerStart t timeout rpt = (e.timerStart t timeout rpt).scribble j := by
  have hcmp : ∀ e' : Env, rbInsert (uvTimerCmp (e'.scribble j).timer) t e.loop.timerHandles =
      rbInsert (uvTimerCmp e'.timer) t e.loop.timerHandles := by
    intro e'
    refine rbInsert_congr fun u hu => ?_
    simp only [uvTimerCmp, scribble_timer ht, scribble_timer (hl u hu)]
  simp only [timerStart, scribble_timer ht, scribble_loop, scribble_setTimer ht]
  rw [show ∀ tm, (e.setTimer t tm).loop = e.loop from fun _ => rfl, hcmp]
  exact scribble_uvHandleStart (e := { e.setTimer t _ with loop := _ }) ht

theorem scribble_arm (ht : j.Spares t) (k : CallId) :
    (e.scribble j).arm t k = (e.arm t k).scribble j := by
  simp only [arm, scribble_timer ht]
  rfl

theorem scribble_setExitFn (ht : j.Spares t) (b : Bool) :
    (e.scribble j).setExitFn t b = (e.setExitFn t b).scribble j := by
  simp only [setExitFn, scribble, patched_update ht.exitFn]

theorem scribble_initCothread (ht : j.Spares t) :
    (e.scribble j).initCothread t = (e.initCothread t).scribble j := by
  simp only [initCothread, scribble, patched_update ht.exitFn]

end Env

/-! ## Structs and links -/

namespace World
variable {w : World} {j : Scribble} {t u : Tid} {q : QueueId} {f : Frame}

theorem scribble_modify (ht : j.Spares t) (g : Cothread → Cothread) :
    (w.scribble j).modify t g = (w.modify t g).scribble j := by
  simp only [modify, scribble_co ht]
  simp only [scribble, patched_update ht.co]

theorem scribble_setState (ht : j.Spares t) (st : CothreadState) :
    (w.scribble j).setState t st = (w.setState t st).scribble j := scribble_modify ht _

theorem scribble_setThird (ht : j.Spares t) (v : Word) :
    (w.scribble j).setThird t v = (w.setThird t v).scribble j := scribble_modify ht _

theorem scribble_setStacklet (ht : j.Spares t) (h : Handle) :
    (w.scribble j).setStacklet t h = (w.setStacklet t h).scribble j := scribble_modify ht _

theorem scribble_insertTail (ht : j.SparesLinks t)
    (hlast : j.words.Spares (w.links.links.prev (.head q))) :
    (w.scribble j).insertTail q t = (w.insertTail q t).scribble j := by
  simp only [insertTail, scribble_links, Traced.patch_insertTail (j.spares_head q) ht hlast]
  rfl

theorem scribble_queueRemove (ht : j.SparesLinks t)
    (hprev : j.words.Spares (w.links.links.prev (.op t)))
    (hnext : j.words.Spares (w.links.links.next (.op t))) :
    (w.scribble j).queueRemove t = (w.queueRemove t).scribble j := by
  simp only [queueRemove, scribble_links, Traced.patch_remove ht hprev hnext]
  rfl

@[simp] theorem scribble_queueEmpty : (w.scribble j).queueEmpty q = w.queueEmpty q :=
  Links.patch_isEmpty (j.spares_head q)

@[simp] theorem scribble_queueHead : (w.scribble j).queueHead q = w.queueHead q :=
  Links.patch_head (j.spares_head q)

theorem scribble_op_prev (ht : j.SparesLinks t) :
    (w.scribble j).links.links.prev (.op t) = w.links.links.prev (.op t) := Links.patch_prev ht

theorem scribble_op_next (ht : j.SparesLinks t) :
    (w.scribble j).links.links.next (.op t) = w.links.links.next (.op t) := Links.patch_next ht

theorem scribble_getCurrent (left : ∀ t, w.hub.current = some t → j.Spares t) :
    (w.scribble j).getCurrent = w.getCurrent := by
  cases h : w.hub.current with
  | none => simp [getCurrent, h]
  | some t => simp [getCurrent, h, scribble_co (left t h)]

theorem scribble_activate (ht : j.Spares t) (hl : j.SparesLinks t)
    (hlast : j.words.Spares (w.links.links.prev (.head .ready))) :
    (w.scribble j).activate t = (·.scribble j) <$> w.activate t := by
  have hins : ((w.setState t .ready).scribble j).insertTail .ready t =
      ((w.setState t .ready).insertTail .ready t).scribble j := scribble_insertTail hl hlast
  simp only [activate, scribble_co ht, scribble_setState ht, hins, map_bind]
  rfl

/-! ## `_after_switch` -/

theorem scribble_storeSource (left : ∀ t, w.hub.current = some t → j.Spares t) (source : Handle) :
    (w.scribble j).storeSource source = (fun p => (p.1.scribble j, p.2)) <$> w.storeSource source := by
  cases h : w.hub.current with
  | none => by_cases hs : source = .empty <;> simp [storeSource, h, hs] <;> rfl
  | some t =>
    have ht := left t h
    by_cases hs : source = .empty
    · simp only [storeSource, scribble_hub, h, hs, if_true, scribble_co ht, scribble_setState ht,
        scribble_setStacklet ht, map_bind]
      rfl
    · simp only [storeSource, scribble_hub, h, hs, if_false, scribble_setStacklet ht]
      rfl

theorem scribble_setCurrent {new : Option Tid} (hn : ∀ t, new = some t → j.Spares t) :
    (w.scribble j).setCurrent new = (w.setCurrent new).scribble j := by
  cases new with
  | none => rfl
  | some t =>
    let w₁ : World := World.emit { w with hub := { w.hub with current := some t } } (.switched (some t))
    change ((w₁.scribble j).setState t .current).setStacklet t .null =
      ((w₁.setState t .current).setStacklet t .null).scribble j
    rw [scribble_setState (hn t rfl), scribble_setStacklet (hn t rfl)]

theorem scribble_callExitFn {died : Option Tid} (hd : ∀ t, died = some t → j.Spares t) :
    (w.scribble j).callExitFn died = (w.callExitFn died).scribble j := by
  simp only [callExitFn, scribble_env, Env.scribble_callExitFn hd]
  rfl

theorem storeSource_died {source : Handle} {w' : World} {died : Option Tid}
    (h : w.storeSource source = .ok (w', died)) (hd : died = some t) : w.hub.current = some t := by
  subst hd
  simp only [storeSource] at h
  split at h
  · next hc =>
    split at h
    · simp only [check] at h
      split at h
      · split at h <;> cases h
        exact hc
      · cases h
    · cases h
  · split at h <;> cases h

theorem scribble_afterSwitch {n : Option Tid} (left : ∀ t, w.hub.current = some t → j.Spares t)
    (hn : ∀ t, n = some t → j.Spares t) (source : Handle) :
    (w.scribble j).afterSwitch n source = (·.scribble j) <$> w.afterSwitch n source := by
  simp only [afterSwitch, scribble_storeSource left, map_bind, bind_map_left]
  congr 1
  funext
  cases h : w.storeSource source with
  | error e => rfl
  | ok p =>
    have hd : ∀ t, p.2 = some t → j.Spares t := fun t ht => left t (storeSource_died h ht)
    simp only [ok_bind, scribble_hub, scribble_setCurrent hn, scribble_callExitFn hd]
    rfl

/-! ## The rest of a call -/

theorem scribble_uvTimerStop (ht : j.Spares t) :
    (w.scribble j).uvTimerStop t = (·.scribble j) <$> w.uvTimerStop t := by
  simp only [uvTimerStop, scribble_env, Env.scribble_timer ht, scribble_co ht,
    Env.scribble_timerStop ht]
  split
  · rfl
  · simp only [map_bind]
    rfl

theorem scribble_uvTimerInit (ht : j.Spares t) (head : j.nodes.Spares .head)
    (node : j.nodes.Spares (.timer t)) (last : j.nodes.Spares (w.handles.links.prev .head)) :
    (w.scribble j).uvTimerInit t = (w.uvTimerInit t).scribble j := by
  simp only [uvTimerInit, scribble_setThird ht, scribble_env, Env.scribble_timerInit ht]
  simp only [scribble, setThird, modify, Links.patch_insertTail head node last]

theorem scribble_uvTimerStart (ht : j.Spares t) (tree : ∀ u ∈ w.env.loop.timerHandles, j.Spares u)
    (idle : (w.env.timer t).active = false) (timeout : Int) (rpt : Nat) :
    (w.scribble j).uvTimerStart t timeout rpt = (·.scribble j) <$> w.uvTimerStart t timeout rpt := by
  simp only [uvTimerStart, scribble_env, Env.scribble_timer ht, idle, Bool.false_eq_true, if_false,
    ok_bind, scribble_co ht, Env.scribble_timerStart ht tree, map_bind]
  rfl

theorem scribble_uvTimerAgain (ht : j.Spares t) (once : (w.env.timer t).rpt = 0) :
    (w.scribble j).uvTimerAgain t = (·.scribble j) <$> w.uvTimerAgain t := by
  simp only [uvTimerAgain, scribble_env, Env.scribble_timer ht, once, if_true]
  split <;> rfl

theorem scribble_uvUnref (ht : j.Spares t) :
    (w.scribble j).uvUnref t = (w.uvUnref t).scribble j := by
  simp only [uvUnref, scribble_env, Env.scribble_uvHandleUnref ht]
  rfl

/-- `_sleep_internal` from `uv_timer_start` on. -/
def startTimer (w : World) (k : CallId) (op : Call) (timeout : Int) (ref : Bool) (current : Tid) :
    Except Fault World := do
  let w ← w.uvTimerStart current timeout 0
  let w := { w with env := w.env.arm current k }
  let w := if ref then w else w.uvUnref current
  let w := w.setState current .waitingTimer
  w.yield (.api ⟨current, k, op, .sleep, .program⟩)

theorem sleepInternal_eq (w : World) (k : CallId) (op : Call) (timeout : Int) (ref : Bool) :
    w.sleepInternal k op timeout ref =
      w.getCurrent >>= fun t => (w.uvTimerInit t).startTimer k op timeout ref t := rfl

/-- The rest of the call uses the links of its cothread. -/
theorem scribble_afterYield (ht : j.Spares f.self)
    (own : f.pending ≠ .sleep → f.pending ≠ .wait → j.SparesLinks f.self)
    (near : ∀ q, f.pending.queue = some q → q ≠ .ready →
      j.words.Spares (w.links.links.prev (.op f.self)) ∧
        j.words.Spares (w.links.links.next (.op f.self))) :
    (w.scribble j).afterYield f = (fun p => (p.1.scribble j, p.2)) <$> w.afterYield f := by
  obtain ⟨self, call, op, pending, caller⟩ := f
  cases pending with
  | spawn | wait | received v | sent => rfl
  | sleep =>
    simp only [afterYield, scribble_uvTimerStop ht, map_bind, bind_map_left]
    rfl
  | receive ch =>
    obtain ⟨hprev, hnext⟩ := near _ rfl (by simp)
    have hl : j.SparesLinks self := own (by simp) (by simp)
    simp only [afterYield, scribble_queueRemove hl hprev hnext, scribble_co ht]
    rfl
  | send ch v =>
    obtain ⟨hprev, hnext⟩ := near _ rfl (by simp)
    have hl : j.SparesLinks self := own (by simp) (by simp)
    simp only [afterYield, scribble_queueRemove hl hprev hnext]
    rfl
  | getaddrinfo =>
    have hl : j.SparesLinks self := own (by simp) (by simp)
    simp only [afterYield, scribble_co ht, scribble_op_next hl]
    rfl

end World
end Gevent
