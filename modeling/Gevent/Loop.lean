import Gevent.Types

/-!
# The part of libuv that gevent.c uses

Timers, the handle list and the liveness test of the loop (src/unix/timer.c,
uv-common.h, src/unix/core.c). The timer tree is kept as its in-order list:
`RB_INSERT` places a timer by `uv__timer_cmp`, `RB_MIN` is the head.
-/

namespace Gevent
open Intrusive

def uvTimerCmp (timer : Tid → Timer) (a b : Tid) : Ordering :=
  if (timer a).timeout < (timer b).timeout then .lt
  else if (timer a).timeout > (timer b).timeout then .gt
  else if a < b then .lt
  else if a > b then .gt
  else .eq

theorem uvTimerCmp_congr {tm tm' : Tid → Timer} (h : ∀ t, (tm t).timeout = (tm' t).timeout) :
    uvTimerCmp tm = uvTimerCmp tm' := by
  funext a b
  simp [uvTimerCmp, h]

/-- `RB_INSERT`: an equal element is kept and the new one dropped. -/
def rbInsert (cmp : Tid → Tid → Ordering) (x : Tid) : List Tid → List Tid
  | [] => [x]
  | y :: ys =>
    match cmp x y with
    | .lt => x :: y :: ys
    | .gt => y :: rbInsert cmp x ys
    | .eq => y :: ys

theorem uvTimerCmp_eq {tm : Tid → Timer} {a b : Tid} : uvTimerCmp tm a b = .eq ↔
    (tm a).timeout = (tm b).timeout ∧ a = b := by
  simp only [uvTimerCmp]
  grind

theorem mem_rbInsert {cmp : Tid → Tid → Ordering} (hcmp : ∀ a b, cmp a b = .eq → a = b)
    {x y : Tid} {l : List Tid} : y ∈ rbInsert cmp x l ↔ y = x ∨ y ∈ l := by
  induction l with
  | nil => simp [rbInsert]
  | cons z l ih =>
    simp only [rbInsert]
    cases h : cmp x z with
    | lt => simp
    | gt => simp only [List.mem_cons, ih]; grind
    | eq => simp [hcmp _ _ h]

theorem perm_rbInsert {cmp : Tid → Tid → Ordering} (hcmp : ∀ a b, cmp a b = .eq → a = b)
    {x : Tid} {l : List Tid} (hx : x ∉ l) : (rbInsert cmp x l).Perm (x :: l) := by
  induction l with
  | nil => exact .refl _
  | cons z l ih =>
    simp only [rbInsert]
    cases h : cmp x z with
    | lt => exact .refl _
    | gt => exact ((ih fun hm => hx (List.mem_cons_of_mem _ hm)).cons z).trans (.swap x z l)
    | eq => exact absurd (hcmp _ _ h ▸ List.mem_cons_self) hx

theorem uvTimerCmp_lt {tm : Tid → Timer} {a b : Tid} : uvTimerCmp tm a b = .lt ↔
    (tm a).timeout < (tm b).timeout ∨ (tm a).timeout = (tm b).timeout ∧ a < b := by
  simp only [uvTimerCmp]
  grind

theorem uvTimerCmp_gt {tm : Tid → Timer} {a b : Tid} :
    uvTimerCmp tm a b = .gt ↔ uvTimerCmp tm b a = .lt := by
  simp only [uvTimerCmp]
  grind

/-- The tree stays in order. -/
theorem pairwise_rbInsert {tm : Tid → Timer} {x : Tid} {l : List Tid}
    (h : l.Pairwise fun a b => uvTimerCmp tm a b = .lt) :
    (rbInsert (uvTimerCmp tm) x l).Pairwise fun a b => uvTimerCmp tm a b = .lt := by
  have hcmp : ∀ a b, uvTimerCmp tm a b = .eq → a = b := fun _ _ he => (uvTimerCmp_eq.mp he).2
  induction l with
  | nil => simp [rbInsert]
  | cons y l ih =>
    obtain ⟨hy, hl⟩ := List.pairwise_cons.mp h
    simp only [rbInsert]
    cases hxy : uvTimerCmp tm x y with
    | lt =>
      refine List.pairwise_cons.mpr ⟨fun z hz => ?_, h⟩
      rcases List.mem_cons.mp hz with rfl | hz
      · exact hxy
      · have hyz := hy z hz
        simp only [uvTimerCmp_lt] at hxy hyz ⊢
        grind
    | gt =>
      refine List.pairwise_cons.mpr ⟨fun z hz => ?_, ih hl⟩
      rcases (mem_rbInsert hcmp).mp hz with rfl | hz
      · exact uvTimerCmp_gt.mp hxy
      · exact hy z hz
    | eq => exact h

namespace Env

def setTimer (e : Env) (t : Tid) (tm : Timer) : Env :=
  { e with timer := Function.update e.timer t tm }

def uvHandleStart (e : Env) (t : Tid) : Env :=
  if (e.timer t).active then e
  else
    let e := e.setTimer t { e.timer t with active := true }
    if (e.timer t).ref then
      { e with loop := { e.loop with activeHandles := e.loop.activeHandles + 1 } }
    else e

def uvHandleStop (e : Env) (t : Tid) : Env :=
  if !(e.timer t).active then e
  else
    let e := e.setTimer t { e.timer t with active := false }
    if (e.timer t).ref then
      { e with loop := { e.loop with activeHandles := e.loop.activeHandles - 1 } }
    else e

def uvHandleUnref (e : Env) (t : Tid) : Env :=
  if !(e.timer t).ref then e
  else
    let e := e.setTimer t { e.timer t with ref := false }
    if (e.timer t).active then
      { e with loop := { e.loop with activeHandles := e.loop.activeHandles - 1 } }
    else e

/-- The writes of `uv_timer_init` to the timer, its `loop` and `handle_queue` apart. -/
def timerInit (e : Env) (t : Tid) : Env :=
  e.setTimer t { e.timer t with active := false, ref := true, timerCb := false }

/-- `uv_timer_start` past its assertions, on an inactive timer. The deadline is
the sum of two `uint64_t`. -/
def timerStart (e : Env) (t : Tid) (timeout rpt : Nat) : Env :=
  let e := e.setTimer t
    { e.timer t with timerCb := true, timeout := (e.loop.time + timeout) % 2 ^ 64, rpt := rpt }
  let e := { e with loop := { e.loop with
    timerHandles := rbInsert (uvTimerCmp e.timer) t e.loop.timerHandles } }
  e.uvHandleStart t

/-- `uv_timer_stop` on an active timer. -/
def timerStop (e : Env) (t : Tid) : Env :=
  let e := { e with loop := { e.loop with timerHandles := e.loop.timerHandles.erase t } }
  e.uvHandleStop t

theorem timerStop_eq (e : Env) {t : Tid} (h : (e.timer t).active = true) :
    e.timerStop t = { e with
      timer := Function.update e.timer t { e.timer t with active := false }
      loop := { e.loop with
        timerHandles := e.loop.timerHandles.erase t
        activeHandles := e.loop.activeHandles - if (e.timer t).ref then 1 else 0 } } := by
  cases hr : (e.timer t).ref <;> simp [timerStop, uvHandleStop, setTimer, h, hr]

/-- Starting a timer just initialised. -/
theorem timerStart_eq (e : Env) (t : Tid) (timeout : Nat) :
    (e.timerInit t).timerStart t timeout 0 = { e with
      timer := Function.update e.timer t ⟨true, true, true, (e.loop.time + timeout) % 2 ^ 64, 0⟩
      loop := { e.loop with
        timerHandles := rbInsert (uvTimerCmp (Function.update e.timer t
          ⟨true, true, true, (e.loop.time + timeout) % 2 ^ 64, 0⟩)) t e.loop.timerHandles
        activeHandles := e.loop.activeHandles + 1 } } := by
  have hcmp : ∀ d, uvTimerCmp (Function.update e.timer t ⟨false, true, true, d, 0⟩) =
      uvTimerCmp (Function.update e.timer t ⟨true, true, true, d, 0⟩) := by
    intro d
    apply uvTimerCmp_congr
    intro x
    by_cases hx : x = t <;> simp [hx]
  simp [timerStart, timerInit, uvHandleStart, setTimer, hcmp]

theorem uvHandleUnref_eq (e : Env) {t : Tid} (hr : (e.timer t).ref = true)
    (ha : (e.timer t).active = true) : e.uvHandleUnref t = { e with
      timer := Function.update e.timer t { e.timer t with ref := false }
      loop := { e.loop with activeHandles := e.loop.activeHandles - 1 } } := by
  simp [uvHandleUnref, setTimer, hr, ha]

def uvLoopAlive (e : Env) : Bool :=
  decide (0 < e.loop.activeHandles) || !e.loop.activeReqs.isEmpty || decide (0 < e.loop.others)

def uvUpdateTime (e : Env) : Env := { e with loop := { e.loop with time := e.clock } }

end Env

namespace World

/-- `uv_timer_init` on `t->op.timer`: `uv__handle_init` also appends the timer
to `loop->handle_queue`, whatever list it is in. -/
def uvTimerInit (w : World) (t : Tid) : World :=
  let w := w.setThird t .loop
  { w with
    env := w.env.timerInit t
    handles := { w.handles with links := w.handles.links.insertTail .head (.timer t) } }

/-- `uv_timer_stop`; the loop is reached through the timer's `loop` member. -/
def uvTimerStop (w : World) (t : Tid) : Except Fault World :=
  if !(w.env.timer t).active then .ok w
  else do
    check ((w.co t).third = .loop) .wildPointer
    .ok { w with env := w.env.timerStop t }

def uvTimerStart (w : World) (t : Tid) (timeout : Int) (rpt : Nat) : Except Fault World := do
  check (0 ≤ timeout) (.assertion .uvTimerStart)
  let w ← if (w.env.timer t).active then w.uvTimerStop t else .ok w
  check ((w.co t).third = .loop) .wildPointer
  .ok { w with env := w.env.timerStart t timeout.toNat rpt }

def uvTimerAgain (w : World) (t : Tid) : Except Fault World :=
  let tm := w.env.timer t
  if !tm.timerCb then .ok w
  else if tm.rpt = 0 then .ok w
  else do
    let w ← w.uvTimerStop t
    w.uvTimerStart t tm.rpt tm.rpt

def uvUnref (w : World) (t : Tid) : World := { w with env := w.env.uvHandleUnref t }

end World
end Gevent
