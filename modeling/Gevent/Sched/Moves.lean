import Gevent.Sched
import Mathlib.Logic.Relation

/-!
# The moves that scheduler steps are made of

A step of the scheduler enters calls, blocks the caller, picks who continues
and resumes it. `Move` lists these one at a time, each with what holds when it
happens, so that an invariant is proved move by move. Between the choice of a
cothread and its resumption a `Moment` names it, with what it will find in its
union. `Rules` restrict a run: the calls of its program, the states in which the
main cothread is resumed as a last resort, and those in which the program calls
`uv_update_time`.
-/

namespace Gevent

structure Moment where
  sched : Sched
  waking : Option (Tid × Leftover)

structure Rules where
  /-- the call has just been entered -/
  call : Sched → Call → Prop
  /-- the stack that ended is gone -/
  last : Sched → Prop
  update : Sched → Prop := fun _ => True

/-- No restriction. -/
def Rules.any : Rules where
  call _ _ := True
  last _ := True

/-- The main cothread is blocked in a call of the given kind. -/
def Sched.MainIn (s : Sched) (B : Frame → Prop) : Prop := ∃ f, s.place s.main = .blocked f ∧ B f

/-- The main cothread is not resumed as a last resort in the given kinds of
calls, when a cothread has finished and when the loop has. -/
def Rules.sparing (call : Sched → Call → Prop) (onFinish onRunEnd : Frame → Prop) : Rules where
  call := call
  last s := ((∃ t l, s.env.log = .finish t :: l) → ¬ s.MainIn onFinish) ∧
    ((∃ l, s.env.log = .runEnd :: l) → ¬ s.MainIn onRunEnd)

/-- The rules allow what action `a` does in `s`. -/
structure Rules.Admit (R : Rules) (s : Sched) (a : World.Action) : Prop where
  call : ∀ t c, a = .call c → s.control = .user t → R.call (s.enter t c) c
  finish : ∀ t, a = .finish → s.control = .user t → s.queue .ready = [] → s.hub = .idle →
    R.last ((s.emit (.finish t)).setPlace t .dead)
  runEnd : a = .iterate → s.env.uvLoopAlive = false → R.last { s.emit .runEnd with hub := .idle }
  update : a = .updateTime → R.update s := by exact fun _ => trivial

theorem Rules.any_admits (s : Sched) (a : World.Action) : Rules.any.Admit s a :=
  ⟨fun _ _ _ _ => trivial, fun _ _ _ _ _ => trivial, fun _ _ => trivial, fun _ => trivial⟩

/-- What a frame says about its call fits what is pending. -/
def Frame.Fits (f : Frame) : Prop :=
  (match f.caller with
    | .program => True
    | .acquire _ m => f.op = .receive (.ofSem m)
    | .release _ m => f.op = .send (.ofSem m) .null) ∧
  (match f.pending with
    | .spawn => ∃ u, f.op = .spawn u
    | .sleep => (∃ d, f.op = .sleep d) ∨ ∃ d, 0 < d ∧ f.op = .wait d
    | .wait => ∃ d, d ≤ 0 ∧ f.op = .wait d
    | .receive ch => f.op = .receive ch
    | .received _ => ∃ ch, f.op = .receive ch
    | .send ch v => f.op = .send ch v
    | .sent => ∃ ch v, f.op = .send ch v
    | .getaddrinfo => f.op = .getaddrinfo .submitted)

namespace Sched

/-- No stack is executing. -/
structure Away (s : Sched) : Prop where
  nobody : ∀ t, s.place t ≠ .running
  hub : s.hub ≠ .running

/-- `t` has just made call `k`. -/
structure Called (s : Sched) (t : Tid) (k : CallId) (c : Call) : Prop where
  running : s.place t = .running
  inCall : s.env.inCall t = k
  log : ∃ l, s.env.log = .call k t c :: l

/-- `f.self` has just made the call of `f`, and before it the call it is made for. -/
structure Entered (R : Rules) (s : Sched) (f : Frame) : Prop extends
    Called s f.self f.call f.op where
  fits : f.Fits
  outer : match f.caller with
    | .program => R.call s f.op
    | .acquire k m => ∃ l, s.env.log = .call f.call f.self f.op :: .call k f.self (.acquire m) :: l
    | .release k m => ∃ l, s.env.log = .call f.call f.self f.op :: .call k f.self (.release m) :: l

end Sched

open Sched in
inductive Move (R : Rules) : Moment → Moment → Prop
  | enter {s : Sched} {t : Tid} (c : Call) (running : s.place t = .running)
      (may : R.call (s.enter t c) c) : Move R ⟨s, none⟩ ⟨s.enter t c, none⟩
  /-- `gevent_semaphore_acquire` finds no permit. -/
  | acquireWaits {s : Sched} {t : Tid} {k : CallId} {m : Sem} (called : s.Called t k (.acquire m))
      (taken : s.env.counter m ≤ 0) : Move R ⟨s, none⟩ ⟨s.enter t (.receive (.ofSem m)), none⟩
  /-- `gevent_semaphore_release` finds a waiter. -/
  | releaseMeets {s : Sched} {t : Tid} {k : CallId} {m : Sem} (called : s.Called t k (.release m))
      (waiting : s.queue (.receivers (.ofSem m)) ≠ []) :
      Move R ⟨s, none⟩ ⟨s.enter t (.send (.ofSem m) .null), none⟩
  | take {s : Sched} {t : Tid} {k : CallId} {m : Sem} (called : s.Called t k (.acquire m))
      (free : 0 < s.env.counter m) : Move R ⟨s, none⟩ ⟨s.take t k m, none⟩
  | give {s : Sched} {t : Tid} {k : CallId} {m : Sem} (called : s.Called t k (.release m))
      (may : R.call s (.release m)) (alone : s.queue (.receivers (.ofSem m)) = []) :
      Move R ⟨s, none⟩ ⟨s.give t k m, none⟩
  | refuse {s : Sched} {t : Tid} {k : CallId} {o : Submit} (called : s.Called t k (.getaddrinfo o))
      (fails : o ≠ .submitted) : Move R ⟨s, none⟩ ⟨s.refuse t k o, none⟩
  /-- `gevent_cothread_spawn`, and `gevent_wait` without a timeout -/
  | pause {s : Sched} {f : Frame} (entered : s.Entered R f)
      (kind : f.pending = .spawn ∨ f.pending = .wait) :
      Move R ⟨s, none⟩ ⟨s.block f.self f, none⟩
  | sleep {s : Sched} {f : Frame} {timeout : Int} {ref : Bool} (entered : s.Entered R f)
      (pending : f.pending = .sleep) (nonneg : 0 ≤ timeout)
      (kind : f.op = (if ref then .sleep timeout else .wait timeout)) :
      Move R ⟨s, none⟩ ⟨(s.arm f.self f.call timeout.toNat ref).block f.self f, none⟩
  | lookup {s : Sched} {f : Frame} (entered : s.Entered R f) (pending : f.pending = .getaddrinfo) :
      Move R ⟨s, none⟩ ⟨(s.submit f.self f.call).block f.self f, none⟩
  | queueReceive {s : Sched} {f : Frame} {ch : Chan} (entered : s.Entered R f)
      (pending : f.pending = .receive ch) (alone : s.queue (.senders ch) = []) :
      Move R ⟨s, none⟩ ⟨(s.emit (.blocked (.receivers ch) f.call)).block f.self f, none⟩
  | queueSend {s : Sched} {f : Frame} {ch : Chan} {v : Word} (entered : s.Entered R f)
      (pending : f.pending = .send ch v) (alone : s.queue (.receivers ch) = []) :
      Move R ⟨s, none⟩ ⟨(s.emit (.blocked (.senders ch) f.call)).block f.self f, none⟩
  /-- A receive call finds a blocked sender. -/
  | meetSender {s : Sched} {f : Frame} {ch : Chan} {u : Tid} {us : List Tid} {x : Leftover}
      (entered : s.Entered R f) (op : f.op = .receive ch) (pending : f.pending = .received (s.offer u))
      (partner : s.queue (.senders ch) = u :: us) :
      Move R ⟨s, none⟩ ⟨(s.block f.self f).emit
        (.handover ch (s.env.inCall u) f.call (s.offer u)), some (u, x)⟩
  /-- A send call finds a blocked receiver. -/
  | meetReceiver {s : Sched} {f : Frame} {ch : Chan} {v : Word} {u : Tid} {us : List Tid}
      {x : Leftover} (entered : s.Entered R f) (op : f.op = .send ch v) (pending : f.pending = .sent)
      (partner : s.queue (.receivers ch) = u :: us) :
      Move R ⟨s, none⟩ ⟨(s.block f.self f).emit
        (.handover ch f.call (s.env.inCall u) v), some (u, { x with third := v })⟩
  | die {s : Sched} {t : Tid} (running : s.place t = .running) (main : t ≠ s.main) :
      Move R ⟨s, none⟩ ⟨(s.emit (.finish t)).setPlace t .dead, none⟩
  | pick {s : Sched} {u : Tid} {us : List Tid} (x : Leftover) (away : s.Away)
      (first : s.queue .ready = u :: us) : Move R ⟨s, none⟩ ⟨s, some (u, x)⟩
  | fallback {s : Sched} (x : Leftover) (away : s.Away) (ready : s.queue .ready = [])
      (hub : s.hub = .idle)
      (reason : (∃ t l, s.env.log = .finish t :: l) ∨
        (∃ l, s.env.log = .runEnd :: l) ∧ s.env.uvLoopAlive = false) (may : R.last s) :
      Move R ⟨s, none⟩ ⟨s.emit (.fallback (s.env.inCall s.main)), some (s.main, x)⟩
  | fire {s : Sched} {t : Tid} {ts : List Tid} (x : Leftover) (hub : s.hub = .running)
      (control : s.control = .hub .timers) (first : s.env.loop.timerHandles = t :: ts)
      (due : (s.env.timer t).timeout ≤ s.env.loop.time) (active : (s.env.timer t).active = true)
      {f : Frame} (place : s.place t = .blocked f) (pending : f.pending = .sleep) :
      Move R ⟨s, none⟩ ⟨s.fire t, some (t, x)⟩
  | answer {s : Sched} {r : ReqId} {error : Int} {res : Word} {my : Tid} (x : Leftover)
      (hub : s.hub = .running) (control : s.control = .hub .io) (active : r ∈ s.env.loop.activeReqs)
      (data : s.env.reqData r = some my) {f : Frame} (place : s.place my = .blocked f)
      (pending : f.pending = .getaddrinfo) :
      Move R ⟨s, none⟩ ⟨{ s.complete r error res with hub := .suspended .io },
        some (my, { x with third := .data error, second := res })⟩
  | resume {s : Sched} {u : Tid} {x : Leftover} {f : Frame} {died : Option Tid} (away : s.Away)
      (place : s.place u = .blocked f) (dead : ∀ t, died = some t → s.place t = .dead) :
      Move R ⟨s, some (u, x)⟩ ⟨s.resume u x died, none⟩
  | start {s : Sched} {u : Tid} (away : s.Away) (new : s.place u = .new) :
      Move R ⟨s, none⟩ ⟨s.startCothread u, none⟩
  | enterHub {s : Sched} {died : Option Tid} (away : s.Away) (ready : s.queue .ready = [])
      (dead : ∀ t, died = some t → s.place t = .dead) :
      Move R ⟨s, none⟩ ⟨s.enterHub died, none⟩
  | poll {s : Sched} (hub : s.hub = .running) : Move R ⟨s, none⟩ ⟨s.poll, none⟩
  | turn {s : Sched} (hub : s.hub = .running) (control : s.control ≠ .hub .timers)
      (alive : s.env.uvLoopAlive = true) :
      Move R ⟨s, none⟩ ⟨{ s with env := s.env.uvUpdateTime, control := .hub .timers }, none⟩
  | drop {s : Sched} {r : ReqId} {error : Int} {res : Word} (hub : s.hub = .running)
      (active : r ∈ s.env.loop.activeReqs) (data : s.env.reqData r = none) :
      Move R ⟨s, none⟩ ⟨s.complete r error res, none⟩
  | hubEnd {s : Sched} (hub : s.hub = .running) (control : s.control ≠ .hub .timers)
      (dead : s.env.uvLoopAlive = false) :
      Move R ⟨s, none⟩ ⟨{ s.emit .runEnd with hub := .idle }, none⟩
  | init {s : Sched} {t : Tid} (main : t ≠ s.main)
      (free : s.place t = .unborn ∨ s.place t = .new ∨ s.place t = .dead) :
      Move R ⟨s, none⟩ ⟨{ s.setPlace t .new with env := s.env.initCothread t }, none⟩
  | semInit {s : Sched} {m : Sem} {c : Int} (receivers : s.queue (.receivers (.ofSem m)) = [])
      (senders : s.queue (.senders (.ofSem m)) = []) (low : -2 ^ 31 ≤ c) (high : c < 2 ^ 31) :
      Move R ⟨s, none⟩ ⟨{ s with env := (s.env.setCounter m c).emit (.semInit m c) }, none⟩
  | setExitFn {s : Sched} (t : Tid) (b : Bool) :
      Move R ⟨s, none⟩ ⟨{ s with env := s.env.setExitFn t b }, none⟩
  | updateTime {s : Sched} (may : R.update s) :
      Move R ⟨s, none⟩ ⟨{ s with env := s.env.uvUpdateTime }, none⟩
  | others {s : Sched} (n : Nat) : Move R ⟨s, none⟩ ⟨{ s with env := s.env.setOthers n }, none⟩
  | tick {s : Sched} (d : Nat) : Move R ⟨s, none⟩ ⟨{ s with env := s.env.tick d }, none⟩

abbrev Moves (R : Rules) : Moment → Moment → Prop := Relation.ReflTransGen (Move R)

end Gevent
