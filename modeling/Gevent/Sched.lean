import Gevent.Api

/-!
# The scheduler, abstractly

What gevent.c is for, without stacks, handles, state words or links: every
cothread has a place, every queue is a list, and the loop is idle, suspended in
a callback, or running. A call blocks its cothread and lets the next one run: a
direct partner, else the first ready one, else the loop. The contents that a
resumed call finds in its union without a partner having written them are a
parameter, `Leftover`.
-/

namespace Gevent

inductive Place where
  /-- `gevent_cothread_init` has not been called -/
  | unborn
  | new
  | running
  | blocked (f : Frame)
  | dead
  deriving DecidableEq

/-- Where the stack of `uv_run` is. -/
inductive HubPlace where
  | idle
  | suspended (phase : Phase)
  | running
  deriving DecidableEq

/-- Words 2 and 1 of the union of the resumed cothread. -/
structure Leftover where
  third : Word
  second : Word

/-- The queue a blocked call waits in. -/
def Pending.queue : Pending → Option QueueId
  | .spawn | .received _ | .sent => some .ready
  | .receive ch => some (.receivers ch)
  | .send ch _ => some (.senders ch)
  | .sleep | .wait | .getaddrinfo => none

/-- What `state` says while the call is blocked. -/
def Pending.state : Pending → CothreadState
  | .spawn | .received _ | .sent => .ready
  | .receive _ => .channelR
  | .send _ _ => .channelS
  | .sleep => .waitingTimer
  | .wait => .current
  | .getaddrinfo => .waitingGetaddrinfo

/-- What the call returns when its cothread is resumed. -/
def Pending.result (p : Pending) (x : Leftover) : Result :=
  match p with
  | .spawn | .send _ _ | .sent => .unit
  | .sleep | .wait => .int 0
  | .receive _ => .value x.third
  | .received v => .value v
  | .getaddrinfo => .addrinfo x.third (if x.third = .null then some x.second else none)

/-- What the history keeps of a switch; the latest event is first. -/
def Env.switching (e : Env) (new died : Option Tid) : List Event :=
  ((died.filter e.exitFn).map .exitFn).toList ++ [.switched new]

theorem Env.mem_switching {e : Env} {new died : Option Tid} {ev : Event} :
    ev ∈ e.switching new died ↔
      ev = .switched new ∨ ∃ t, died = some t ∧ e.exitFn t = true ∧ ev = .exitFn t := by
  cases died with
  | none => simp [switching]
  | some t => cases h : e.exitFn t <;> simp [switching, h, Option.filter, or_comm]

theorem Frame.mem_returns {f : Frame} {r : Result} {counter : Sem → Int} {ev : Event}
    (h : ev ∈ f.returns r counter) : ∃ k c r', ev = .ret k f.self c r' ∧
      (c = f.op ∨ (∃ m, c = .acquire m) ∨ ∃ m, c = .release m) := by
  obtain ⟨self, call, op, pending, caller⟩ := f
  cases caller <;> simp only [returns, List.mem_cons, List.not_mem_nil, or_false] at h
  case program =>
    subst h
    exact ⟨_, _, _, rfl, .inl rfl⟩
  all_goals
    rcases h with rfl | rfl
    · exact ⟨_, _, _, rfl, by simp⟩
    · exact ⟨_, _, _, rfl, .inl rfl⟩

def Env.disarm (e : Env) (t : Tid) (p : Pending) : Env :=
  if p = .sleep ∧ (e.timer t).active then e.timerStop t else e

structure Sched where
  main : Tid
  place : Tid → Place
  queue : QueueId → List Tid
  hub : HubPlace
  control : Control
  env : Env

namespace Sched

def emit (s : Sched) (e : Event) : Sched := { s with env := s.env.emit e }

def setPlace (s : Sched) (t : Tid) (p : Place) : Sched :=
  { s with place := Function.update s.place t p }

def push (s : Sched) (q : QueueId) (t : Tid) : Sched :=
  { s with queue := Function.update s.queue q (s.queue q ++ [t]) }

def unlink (s : Sched) (q : QueueId) (t : Tid) : Sched :=
  { s with queue := Function.update s.queue q ((s.queue q).erase t) }

def pushFor (s : Sched) (p : Pending) (t : Tid) : Sched :=
  match p.queue with
  | some q => s.push q t
  | none => s

def unlinkFor (s : Sched) (p : Pending) (t : Tid) : Sched :=
  match p.queue with
  | some q => s.unlink q t
  | none => s

/-- The running cothread is blocked in a call. -/
def block (s : Sched) (t : Tid) (f : Frame) : Sched :=
  (s.pushFor f.pending t).setPlace t (.blocked f)

/-- A timer that is still armed when its sleeper resumes is disarmed. -/
def disarm (s : Sched) (t : Tid) (p : Pending) : Sched := { s with env := s.env.disarm t p }

@[simp] theorem unlinkFor_place (s : Sched) (p : Pending) (t : Tid) :
    (s.unlinkFor p t).place = s.place := by cases p <;> rfl

@[simp] theorem unlinkFor_hub (s : Sched) (p : Pending) (t : Tid) :
    (s.unlinkFor p t).hub = s.hub := by cases p <;> rfl

@[simp] theorem unlinkFor_main (s : Sched) (p : Pending) (t : Tid) :
    (s.unlinkFor p t).main = s.main := by cases p <;> rfl

@[simp] theorem unlinkFor_env (s : Sched) (p : Pending) (t : Tid) :
    (s.unlinkFor p t).env = s.env := by cases p <;> rfl

theorem unlinkFor_queue (s : Sched) (p : Pending) (t : Tid) (q : QueueId) :
    (s.unlinkFor p t).queue q =
      if p.queue = some q then (s.queue q).erase t else s.queue q := by
  cases hp : p.queue with
  | none => simp [unlinkFor, hp]
  | some q' =>
    by_cases hq : q' = q
    · subst hq; simp [unlinkFor, hp, unlink]
    · simp [unlinkFor, hp, unlink, hq, Ne.symm hq]

theorem pushFor_queue (s : Sched) (p : Pending) (t : Tid) (q : QueueId) :
    (s.pushFor p t).queue q = if p.queue = some q then s.queue q ++ [t] else s.queue q := by
  cases hp : p.queue with
  | none => simp [pushFor, hp]
  | some q' =>
    by_cases hq : q' = q
    · subst hq; simp [pushFor, hp, push]
    · simp [pushFor, hp, push, hq, Ne.symm hq]

section
variable (s : Sched) (t : Tid) (f : Frame)

@[simp] theorem block_main : (s.block t f).main = s.main := by
  obtain ⟨self, call, op, p, caller⟩ := f; cases p <;> rfl

@[simp] theorem block_hub : (s.block t f).hub = s.hub := by
  obtain ⟨self, call, op, p, caller⟩ := f; cases p <;> rfl

@[simp] theorem block_control : (s.block t f).control = s.control := by
  obtain ⟨self, call, op, p, caller⟩ := f; cases p <;> rfl

@[simp] theorem block_env : (s.block t f).env = s.env := by
  obtain ⟨self, call, op, p, caller⟩ := f; cases p <;> rfl

@[simp] theorem block_place : (s.block t f).place = Function.update s.place t (.blocked f) := by
  obtain ⟨self, call, op, p, caller⟩ := f; cases p <;> rfl

theorem block_queue (q : QueueId) : (s.block t f).queue q =
    if f.pending.queue = some q then s.queue q ++ [t] else s.queue q :=
  s.pushFor_queue f.pending t q

end

/-- A cothread that is given another place is not blocked there. -/
theorem blocked_of_update {place : Tid → Place} {t u : Tid} {p : Place} {f : Frame}
    (free : ∀ g, p ≠ .blocked g) (h : Function.update place t p u = .blocked f) :
    place u = .blocked f := by
  by_cases hut : u = t
  · subst hut
    rw [Function.update_self] at h
    exact absurd h (free f)
  · rwa [Function.update_of_ne hut] at h

/-- What holds of the call of the cothread that is chosen to continue. -/
theorem chosen {α : Type} {place : Tid → Place} {u : Tid} {x : α} {f : Frame} {P : Frame → Prop}
    (hu : place u = .blocked f) (h : P f) :
    ∀ u' x' f', some (u, x) = some (u', x') → place u' = .blocked f' → P f' := by
  rintro u' x' f' ⟨⟩ hu'
  rw [hu] at hu'
  cases hu'
  exact h

/-- A stack continues: after the assignment of `hub->current`, the exit function
of a cothread that died runs. -/
def switched (s : Sched) (new died : Option Tid) : Sched :=
  { s.emit (.switched new) with env := (s.emit (.switched new)).env.callExitFn died }

def returnCall (s : Sched) (u : Tid) (f : Frame) (r : Result) : Sched :=
  { s with env := s.env.returnCall f r, control := .user u }

/-- The call of `u` returns. -/
def resume (s : Sched) (u : Tid) (x : Leftover) (died : Option Tid) : Sched :=
  match s.place u with
  | .blocked f =>
    let s := (s.setPlace u .running).switched (some u) died
    let s := (s.unlinkFor f.pending u).disarm u f.pending
    s.returnCall u f (f.pending.result x)
  | _ => s

section
variable {s : Sched} {u : Tid} {f : Frame} (hp : s.place u = .blocked f) (x : Leftover)
  (died : Option Tid)
include hp

theorem resume_main : (s.resume u x died).main = s.main := by
  simp [resume, hp, returnCall, disarm, switched, setPlace, emit]

theorem resume_hub : (s.resume u x died).hub = s.hub := by
  simp [resume, hp, returnCall, disarm, switched, setPlace, emit]

theorem resume_control : (s.resume u x died).control = .user u := by
  simp [resume, hp, returnCall]

theorem resume_place : (s.resume u x died).place = Function.update s.place u .running := by
  simp [resume, hp, returnCall, disarm, switched, setPlace, emit]

theorem resume_queue (q : QueueId) : (s.resume u x died).queue q =
    if f.pending.queue = some q then (s.queue q).erase u else s.queue q := by
  simp only [resume, hp, returnCall, disarm]
  exact unlinkFor_queue _ f.pending u q

theorem resume_env : (s.resume u x died).env =
    (((s.env.emit (.switched (some u))).callExitFn died).disarm u f.pending).returnCall f
      (f.pending.result x) := by
  simp [resume, hp, returnCall, disarm, switched, setPlace, emit]

/-- The environment after a resumption: perhaps a timer less, and a longer history. -/
theorem resume_shape : ∃ timer handles active, (s.resume u x died).env = { s.env with
    timer := timer
    loop := { s.env.loop with timerHandles := handles, activeHandles := active }
    log := f.returns (f.pending.result x) s.env.counter ++
      (s.env.switching (some u) died ++ s.env.log) } := by
  have hlog : ((s.env.emit (.switched (some u))).callExitFn died) =
      { s.env with log := s.env.switching (some u) died ++ s.env.log } := by
    simp [Env.callExitFn, Env.emit, Env.switching]
  rw [resume_env hp, hlog, Env.disarm]
  split
  · next h =>
    rw [Env.timerStop_eq _ h.2]
    exact ⟨_, _, _, rfl⟩
  · exact ⟨_, _, _, rfl⟩

end

def startCothread (s : Sched) (u : Tid) : Sched :=
  { ((s.setPlace u .running).switched (some u) none).emit (.start u) with control := .user u }

/-- Control goes to the loop, which is started when it is idle. -/
def enterHub (s : Sched) (died : Option Tid) : Sched :=
  let s' := Sched.switched { s with hub := .running } none died
  match s.hub with
  | .suspended phase => { s' with control := .hub phase }
  | _ => { s'.emit .runStart with control := .hub .start }

/-- The phase in which the loop continues. -/
def entryPhase (s : Sched) : Phase :=
  match s.hub with
  | .suspended phase => phase
  | _ => .start

/-- The loop is started unless it is suspended. -/
def entryEvents (s : Sched) : List Event :=
  match s.hub with
  | .suspended _ => []
  | _ => [.runStart]

theorem mem_entryEvents {s : Sched} {ev : Event} (h : ev ∈ s.entryEvents) : ev = .runStart := by
  simp only [entryEvents] at h
  split at h <;> simp_all

/-- What happens when control goes to the loop. -/
theorem mem_hubEvents {s : Sched} {died : Option Tid} {ev : Event}
    (h : ev ∈ s.entryEvents ++ s.env.switching none died) :
    ev = .runStart ∨ ev = .switched none ∨ ∃ t, died = some t ∧ s.env.exitFn t = true ∧
      ev = .exitFn t := by
  rcases List.mem_append.mp h with h | h
  · exact .inl (mem_entryEvents h)
  · exact .inr (Env.mem_switching.mp h)

theorem enterHub_eq (s : Sched) (died : Option Tid) : s.enterHub died =
    { s with
      hub := .running
      control := .hub s.entryPhase
      env := { s.env with log := s.entryEvents ++ (s.env.switching none died ++ s.env.log) } } := by
  cases h : s.hub <;>
    simp [enterHub, entryPhase, entryEvents, h, switched, emit, Env.emit, Env.callExitFn,
      Env.switching]

/-- Nobody runs: the first ready cothread does next, else the loop. -/
def yield (s : Sched) (x : Leftover) : Sched :=
  match s.queue .ready with
  | u :: _ => s.resume u x none
  | [] => s.enterHub none

/-- The last resort of `_get_next_stacklet`. -/
def fallback (s : Sched) (x : Leftover) (died : Option Tid) : Sched :=
  (s.emit (.fallback (s.env.inCall s.main))).resume s.main x died

def enter (s : Sched) (t : Tid) (c : Call) : Sched := { s with env := s.env.enter t c }

def leave (s : Sched) (k : CallId) (t : Tid) (c : Call) (r : Result) : Sched :=
  s.emit (.ret k t c r)

/-- The timer of `t` is armed by call `k`. -/
def arm (s : Sched) (t : Tid) (k : CallId) (timeout : Nat) (ref : Bool) : Sched :=
  let e := ((s.env.timerInit t).timerStart t timeout 0).arm t k
  { s with env := if ref then e else e.uvHandleUnref t }

theorem arm_eq (s : Sched) (t : Tid) (k : CallId) (timeout : Nat) (ref : Bool) :
    s.arm t k timeout ref = { s with env := { s.env with
      timer := Function.update s.env.timer t
        ⟨true, ref, true, (s.env.loop.time + timeout) % 2 ^ 64, 0⟩
      loop := { s.env.loop with
        timerHandles := rbInsert (uvTimerCmp (Function.update s.env.timer t
          ⟨true, ref, true, (s.env.loop.time + timeout) % 2 ^ 64, 0⟩)) t s.env.loop.timerHandles
        activeHandles := s.env.loop.activeHandles + if ref then 1 else 0 }
      armedBy := Function.update s.env.armedBy t k
      log := .armed k t ((s.env.loop.time + timeout) % 2 ^ 64) :: s.env.log } } := by
  cases ref with
  | true => simp [arm, Env.timerStart_eq, Env.arm]
  | false =>
    have hcmp : ∀ d, uvTimerCmp (Function.update s.env.timer t ⟨true, true, true, d, 0⟩) =
        uvTimerCmp (Function.update s.env.timer t ⟨true, false, true, d, 0⟩) := by
      intro d
      apply uvTimerCmp_congr
      intro x
      by_cases hx : x = t <;> simp [hx]
    simp [arm, Env.timerStart_eq, Env.arm, Env.uvHandleUnref_eq, hcmp]

def sleepInternal (s : Sched) (x : Leftover) (t : Tid) (k : CallId) (op : Call) (timeout : Int)
    (ref : Bool) : Sched :=
  ((s.arm t k timeout.toNat ref).block t ⟨t, k, op, .sleep, .program⟩).yield x

/-- The value a blocked sender offers. -/
def offer (s : Sched) (u : Tid) : Word :=
  match s.place u with
  | .blocked ⟨_, _, _, .send _ v, _⟩ => v
  | _ => .null

def receive (s : Sched) (x : Leftover) (t : Tid) (k : CallId) (ch : Chan) (caller : Caller) : Sched :=
  match s.queue (.senders ch) with
  | [] =>
    ((s.emit (.blocked (.receivers ch) k)).block t
      ⟨t, k, .receive ch, .receive ch, caller⟩).yield x
  | u :: _ =>
    let v := s.offer u
    let s := s.block t ⟨t, k, .receive ch, .received v, caller⟩
    (s.emit (.handover ch (s.env.inCall u) k v)).resume u x none

def send (s : Sched) (x : Leftover) (t : Tid) (k : CallId) (ch : Chan) (v : Word)
    (caller : Caller) : Sched :=
  match s.queue (.receivers ch) with
  | [] =>
    ((s.emit (.blocked (.senders ch) k)).block t
      ⟨t, k, .send ch v, .send ch v, caller⟩).yield x
  | u :: _ =>
    let s := s.block t ⟨t, k, .send ch v, .sent, caller⟩
    (s.emit (.handover ch k (s.env.inCall u) v)).resume u { x with third := v } none

/-- `gevent_semaphore_acquire` finds a permit in the counter. -/
def take (s : Sched) (t : Tid) (k : CallId) (m : Sem) : Sched :=
  let s := { s with env := s.env.setCounter m (s.env.counter m - 1) }
  s.leave k t (.acquire m) (.int (s.env.counter m))

/-- `gevent_semaphore_release` puts a permit into the counter. -/
def give (s : Sched) (t : Tid) (k : CallId) (m : Sem) : Sched :=
  let s := { s with env := s.env.setCounter m (World.int32 (s.env.counter m + 1)) }
  s.leave k t (.release m) (.int (s.env.counter m))

def acquire (s : Sched) (x : Leftover) (t : Tid) (k : CallId) (m : Sem) : Sched :=
  if 0 < s.env.counter m then s.take t k m
  else (s.enter t (.receive (.ofSem m))).receive x t s.env.calls (.ofSem m) (.acquire k m)

def release (s : Sched) (x : Leftover) (t : Tid) (k : CallId) (m : Sem) : Sched :=
  match s.queue (.receivers (.ofSem m)) with
  | _ :: _ =>
    (s.enter t (.send (.ofSem m) .null)).send x t s.env.calls (.ofSem m) .null (.release k m)
  | [] => s.give t k m

/-- `gevent_getaddrinfo` fails, with or without memory for the request. -/
def refuse (s : Sched) (t : Tid) (k : CallId) (outcome : Submit) : Sched :=
  let e := if outcome = .noMemory then s.env else s.env.mallocReq.emit (.free s.env.nextReq)
  { s with env := e.emit (.ret k t (.getaddrinfo outcome) (.addrinfo (.data (-1)) none)) }

/-- The request of call `k` is under way. -/
def submit (s : Sched) (t : Tid) (k : CallId) : Sched :=
  { s with env := s.env.mallocReq.submit t k s.env.nextReq }

def getaddrinfo (s : Sched) (x : Leftover) (t : Tid) (k : CallId) (outcome : Submit) : Sched :=
  if outcome = .submitted then
    ((s.submit t k).block t ⟨t, k, .getaddrinfo outcome, .getaddrinfo, .program⟩).yield x
  else s.refuse t k outcome

def perform (s : Sched) (x : Leftover) (t : Tid) (k : CallId) : Call → Sched
  | .spawn u => (s.block t ⟨t, k, .spawn u, .spawn, .program⟩).startCothread u
  | .sleep timeout => s.sleepInternal x t k (.sleep timeout) timeout true
  | .wait timeout =>
    if 0 < timeout then s.sleepInternal x t k (.wait timeout) timeout false
    else (s.block t ⟨t, k, .wait timeout, .wait, .program⟩).yield x
  | .receive ch => s.receive x t k ch .program
  | .send ch v => s.send x t k ch v .program
  | .acquire m => s.acquire x t k m
  | .release m => s.release x t k m
  | .getaddrinfo outcome => s.getaddrinfo x t k outcome

/-- A stack has ended, and `_get_next_stacklet` chooses the one that continues. -/
def handOn (s : Sched) (x : Leftover) (died : Option Tid) : Sched :=
  match s.queue .ready, s.hub with
  | u :: _, _ => s.resume u x died
  | [], .suspended _ => s.enterHub died
  | [], _ => s.fallback x died

/-- The run function of `t` returns. -/
def finish (s : Sched) (x : Leftover) (t : Tid) : Sched :=
  ((s.emit (.finish t)).setPlace t .dead).handOn x (some t)

/-- `uv_run` returns. -/
def hubReturn (s : Sched) (x : Leftover) : Sched :=
  Sched.handOn { s.emit .runEnd with hub := .idle } x none

/-- The loop takes the timer of `t` out and calls `sleep_cb`. -/
def fire (s : Sched) (t : Tid) : Sched :=
  { Sched.emit { s with env := s.env.timerStop t } (.fired (s.env.armedBy t)) with
    hub := .suspended .timers }

theorem fire_eq {s : Sched} {t : Tid} (active : (s.env.timer t).active = true) : s.fire t = { s with
    env := { s.env with
      timer := Function.update s.env.timer t { s.env.timer t with active := false }
      loop := { s.env.loop with
        timerHandles := s.env.loop.timerHandles.erase t
        activeHandles := s.env.loop.activeHandles - if (s.env.timer t).ref then 1 else 0 }
      log := .fired (s.env.armedBy t) :: s.env.log }
    hub := .suspended .timers } := by
  rw [fire, Env.timerStop_eq _ active]
  rfl

def poll (s : Sched) : Sched := { s.emit .poll with control := .hub .io }

def timers (s : Sched) (x : Leftover) : Sched :=
  match s.env.loop.timerHandles with
  | [] => s.poll
  | t :: _ => if (s.env.timer t).timeout > s.env.loop.time then s.poll else (s.fire t).resume t x none

/-- The loop is done with request `r`. -/
def complete (s : Sched) (r : ReqId) (error : Int) (res : Word) : Sched :=
  { s with env := s.env.complete r error res }

def resolve (s : Sched) (x : Leftover) (r : ReqId) (error : Int) (res : Word) : Sched :=
  match s.env.reqData r with
  | none => s.complete r error res
  | some my =>
    Sched.resume { s.complete r error res with hub := .suspended .io } my
      { x with third := .data error, second := res } none

def iterate (s : Sched) (x : Leftover) : Sched :=
  if s.env.uvLoopAlive then { s with env := s.env.uvUpdateTime, control := .hub .timers }
  else s.hubReturn x

def next (s : Sched) (x : Leftover) : World.Action → Sched
  | .call c =>
    match s.control with
    | .user t => (s.enter t c).perform x t s.env.calls c
    | .hub _ => s
  | .finish =>
    match s.control with
    | .user t => s.finish x t
    | .hub _ => s
  | .cothreadInit t _ => { s.setPlace t .new with env := s.env.initCothread t }
  | .setExitFn t b => { s with env := s.env.setExitFn t b }
  | .channelInit _ => s
  | .semaphoreInit m c => { s with env := (s.env.setCounter m c).emit (.semInit m c) }
  | .timers => s.timers x
  | .resolve r error res => s.resolve x r error res
  | .iterate => s.iterate x
  | .updateTime => { s with env := s.env.uvUpdateTime }
  | .others n => { s with env := s.env.setOthers n }
  | .handleInit _ | .handleClose _ => s
  | .tick d => { s with env := s.env.tick d }

/-- The assertions that a legal action can run into: a cothread that is not new
is spawned, a timeout is negative, or a request completes whose requester no
longer waits for one. -/
def fault (s : Sched) : World.Action → Option Fault
  | .call (.spawn t) => if s.place t = .new then none else some (.assertion .spawn)
  | .call (.sleep timeout) => if timeout < 0 then some (.assertion .uvTimerStart) else none
  | .resolve r _ _ =>
    match s.env.reqData r with
    | none => none
    | some my =>
      match s.place my with
      | .blocked f => if f.pending = .getaddrinfo then none else some (.assertion .getaddrinfoCb)
      | _ => some (.assertion .getaddrinfoCb)
  | _ => none

def Allowed (s : Sched) : World.Action → Prop
  | .call (.spawn t) => s.control.owner.isSome ∧ t ∈ s.env.known
  | .call _ => s.control.owner.isSome
  | .finish => s.control.owner.isSome ∧ s.control.owner ≠ some s.main
  | .cothreadInit t _ => t ≠ s.main ∧ (s.place t = .unborn ∨ s.place t = .new ∨ s.place t = .dead)
  | .channelInit ch => s.queue (.receivers ch) = [] ∧ s.queue (.senders ch) = []
  | .semaphoreInit m c => s.queue (.receivers (.ofSem m)) = [] ∧ s.queue (.senders (.ofSem m)) = [] ∧
      -2 ^ 31 ≤ c ∧ c < 2 ^ 31
  | .timers => s.control = .hub .timers
  | .resolve r _ _ => s.control = .hub .io ∧ r ∈ s.env.loop.activeReqs
  | .iterate => s.control = .hub .io ∨ s.control = .hub .start
  | _ => True

def step (s : Sched) (a : World.Action) (s' : Sched) : Prop :=
  s.Allowed a ∧ s.fault a = none ∧ ∃ x, s' = s.next x a

structure Initial (s : Sched) : Prop where
  place : s.place = Function.update (fun _ => .unborn) s.main .running
  queue : ∀ q, s.queue q = []
  hub : s.hub = .idle
  control : s.control = .user s.main
  timers : s.env.loop.timerHandles = []
  activeHandles : s.env.loop.activeHandles = 0
  activeReqs : s.env.loop.activeReqs = []
  known : s.env.known = [s.main]
  log : s.env.log = [.start s.main, .init s.main]

end Sched

def scheduler : Spec Sched World.Action where
  start := Sched.Initial
  step := Sched.step

end Gevent
