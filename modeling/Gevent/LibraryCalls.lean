import Gevent.Api

/-!
# Calls of the stacklet library

Each step of gevent.c makes at most one call of the stacklet library, and what
becomes of the executing stack and of the suspended ones says which it is
(`World.exec_calls`).
-/

namespace Gevent

theorem bind_eq_ok {α β ε : Type} {x : Except ε α} {f : α → Except ε β} {b : β} :
    (x >>= f) = .ok b ↔ ∃ a, x = .ok a ∧ f a = .ok b := by
  cases x <;> simp

theorem check_eq_ok {p : Prop} [Decidable p] {f : Fault} {u : Unit} : check p f = .ok u ↔ p := by
  by_cases h : p <;> simp [h]

/-- The handles are those of suspended stacks. -/
inductive LibraryCall where
  | new
  | switch (target : Nat)
  /-- `run` returns -/
  | finish (result : Nat)
  deriving DecidableEq, Repr

namespace World
variable {w w₁ w' : World} {t : Tid} {k : Cont} {c : Option LibraryCall} {source target : Handle}
  {st : Stack} {f : Frame} {r : Result}

/-- No stack is started, left or resumed. -/
structure SameStacks (w w' : World) : Prop where
  thread : w'.thread = w.thread
  control : w'.control.owner = w.control.owner
  current : w'.hub.current = w.hub.current
  main : w'.hub.main = w.hub.main

theorem SameStacks.refl (w : World) : w.SameStacks w := ⟨rfl, rfl, rfl, rfl⟩

theorem SameStacks.trans (a : w.SameStacks w₁) (b : w₁.SameStacks w') : w.SameStacks w' :=
  ⟨b.thread.trans a.thread, b.control.trans a.control, b.current.trans a.current,
    b.main.trans a.main⟩

/-- The stacks from `w` to `w'`, by the call of the library that was made. -/
inductive Stacked (w w' : World) : Option LibraryCall → Prop
  | stay (thread : w'.thread = w.thread) (owner : w'.control.owner = w.control.owner) :
      Stacked w w' none
  | new (st : Stack) (left : st.owner = w.control.owner) (thread : w'.thread = { w.thread with
      suspended := Function.update w.thread.suspended w.thread.next (some st)
      next := w.thread.next + 1 }) : Stacked w w' (some .new)
  | switch (st resumed : Stack) (n : Nat) (left : st.owner = w.control.owner)
      (target : w.thread.suspended n = some resumed) (ne : n ≠ w.thread.next)
      (thread : w'.thread = {
        suspended := Function.update (Function.update w.thread.suspended w.thread.next (some st)) n none
        next := w.thread.next + 1
        used := .stack n :: w.thread.used }) (owner : w'.control.owner = resumed.owner) :
      Stacked w w' (some (.switch n))
  | finish (resumed : Stack) (n : Nat) (ended : w.control.owner ≠ some w.hub.main)
      (target : w.thread.suspended n = some resumed) (thread : w'.thread = { w.thread with
        suspended := Function.update w.thread.suspended n none
        used := .stack n :: w.thread.used }) (owner : w'.control.owner = resumed.owner) :
      Stacked w w' (some (.finish n))

/-- The step makes the call `c`. -/
structure Calls (w w' : World) (c : Option LibraryCall) : Prop where
  stacked : w.Stacked w' c
  main : w'.hub.main = w.hub.main

theorem SameStacks.calls (h : w.SameStacks w') : w.Calls w' none :=
    ⟨.stay h.thread h.control, h.main⟩

/-- What comes before does not count. -/
theorem Calls.after (h : w₁.Calls w' c) (same : w.SameStacks w₁) : w.Calls w' c := by
  obtain ⟨stacked, main⟩ := h
  refine ⟨?_, main.trans same.main⟩
  cases stacked with
  | stay thread owner => exact .stay (thread.trans same.thread) (owner.trans same.control)
  | new st left thread =>
    rw [same.thread] at thread
    exact .new st (left.trans same.control) thread
  | switch st resumed n left target ne thread owner =>
    rw [same.thread] at target ne thread
    exact .switch st resumed n (left.trans same.control) target ne thread owner
  | finish resumed n ended target thread owner =>
    rw [same.thread] at target thread
    rw [same.control, same.main] at ended
    exact .finish resumed n ended target thread owner

/-! ## What does not touch a stack -/

theorem same_modify (g : Cothread → Cothread) : w.SameStacks (w.modify t g) := ⟨rfl, rfl, rfl, rfl⟩

theorem same_emit (e : Event) : w.SameStacks (w.emit e) := ⟨rfl, rfl, rfl, rfl⟩

theorem same_env (e : Env) : w.SameStacks { w with env := e } := ⟨rfl, rfl, rfl, rfl⟩

theorem same_links (l : Intrusive.Traced Word) : w.SameStacks { w with links := l } :=
    ⟨rfl, rfl, rfl, rfl⟩

theorem same_uvTimerInit : w.SameStacks (w.uvTimerInit t) := ⟨rfl, rfl, rfl, rfl⟩

theorem same_uvTimerStop (h : w.uvTimerStop t = .ok w') : w.SameStacks w' := by
  simp only [uvTimerStop] at h
  split at h
  · cases h
    exact .refl _
  · simp only [bind_eq_ok] at h
    obtain ⟨-, -, h⟩ := h
    cases h
    exact same_env _

theorem same_uvTimerStart {timeout : Int} {rpt : Nat} (h : w.uvTimerStart t timeout rpt = .ok w') :
    w.SameStacks w' := by
  simp only [uvTimerStart, bind_eq_ok] at h
  obtain ⟨-, -, h⟩ := h
  split at h
  · simp only [bind_eq_ok] at h
    obtain ⟨w₁, stopped, -, -, h⟩ := h
    cases h
    exact (same_uvTimerStop stopped).trans (same_env _)
  · simp only [ok_bind, bind_eq_ok] at h
    obtain ⟨-, -, h⟩ := h
    cases h
    exact same_env _

theorem same_uvTimerAgain (h : w.uvTimerAgain t = .ok w') : w.SameStacks w' := by
  simp only [uvTimerAgain] at h
  split at h
  · cases h
    exact .refl _
  · split at h
    · cases h
      exact .refl _
    · simp only [bind_eq_ok] at h
      obtain ⟨w₁, stopped, h⟩ := h
      exact (same_uvTimerStop stopped).trans (same_uvTimerStart h)

theorem same_activate (h : w.activate t = .ok w') : w.SameStacks w' := by
  simp only [activate, bind_eq_ok] at h
  obtain ⟨-, -, h⟩ := h
  cases h
  exact (same_modify _).trans (same_links _)

theorem same_afterYield (h : w.afterYield f = .ok (w', r)) : w.SameStacks w' := by
  simp only [afterYield] at h
  cases hp : f.pending with
  | sleep =>
    simp only [hp, bind_eq_ok] at h
    obtain ⟨w₁, stopped, h⟩ := h
    cases h
    exact same_uvTimerStop stopped
  | receive | send =>
    simp only [hp] at h
    cases h
    exact same_links _
  | spawn | wait | received | sent | getaddrinfo =>
    simp only [hp] at h
    cases h
    exact .refl _

/-! ## Switching -/

/-- `hub->current` is the only thing that `_after_switch` changes here. -/
theorem afterSwitch_eq {new : Option Tid} (h : w.afterSwitch new source = .ok w') :
    w'.thread = w.thread ∧ w'.control = w.control ∧ w'.hub.main = w.hub.main ∧
      w.hub.current ≠ new := by
  simp only [afterSwitch, bind_eq_ok, check_eq_ok] at h
  obtain ⟨-, -, ⟨w₁, died⟩, stored, -, ne, h⟩ := h
  cases h
  have same : w₁.thread = w.thread ∧ w₁.control = w.control ∧ w₁.hub.main = w.hub.main ∧
      w₁.hub.current = w.hub.current := by
    simp only [storeSource] at stored
    split at stored
    · split at stored
      · simp only [bind_eq_ok] at stored
        obtain ⟨-, -, -, -, stored⟩ := stored
        cases stored
        exact ⟨rfl, rfl, rfl, rfl⟩
      · cases stored
        exact ⟨rfl, rfl, rfl, rfl⟩
    · split at stored <;> cases stored <;> exact ⟨rfl, rfl, rfl, rfl⟩
  obtain ⟨thread, control, main, current⟩ := same
  rw [current] at ne
  refine ⟨?_, ?_, ?_, ne⟩ <;> cases new <;> simpa [setCurrent, callExitFn, emit]

theorem resume_stacks (h : w.resume st source = .ok w') :
    w'.thread = w.thread ∧ w'.control.owner = st.owner ∧
    w'.hub.main = w.hub.main ∧ w.hub.current ≠ st.current := by
  simp only [resume, bind_eq_ok] at h
  obtain ⟨w₁, switched, h⟩ := h
  obtain ⟨thread, -, main, ne⟩ := afterSwitch_eq switched
  split at h
  · next owner f ho _ =>
    simp only [bind_eq_ok] at h
    obtain ⟨⟨w₂, r⟩, yielded, h⟩ := h
    cases h
    have same := same_afterYield yielded
    exact ⟨same.thread.trans thread, ho.symm, same.main.trans main, ne⟩
  · next ho _ =>
    cases h
    exact ⟨thread, ho.symm, main, ne⟩
  · cases h

theorem restore_eq (h : w.restore target source = .ok w') : ∃ n resumed, target = .stack n ∧
    w.thread.suspended n = some resumed ∧ w'.thread = { w.thread with
      suspended := Function.update w.thread.suspended n none
      used := .stack n :: w.thread.used } ∧
    w'.control.owner = resumed.owner ∧ w'.hub.main = w.hub.main ∧
      w.hub.current ≠ resumed.current := by
  simp only [restore] at h
  split at h
  · next n =>
    split at h
    · next resumed found =>
      obtain ⟨thread, owner, main, ne⟩ := resume_stacks h
      exact ⟨n, resumed, rfl, found, thread, owner, main, ne⟩
    · cases h
  · cases h

/-- `stacklet_switch` -/
theorem stackletSwitch_calls (h : w.stackletSwitch w.hub.current k target = .ok w') :
    ∃ c, w.Calls w' c := by
  obtain ⟨n, resumed, rfl, found, thread, owner, main, ne⟩ := restore_eq h
  have other : n ≠ w.thread.next := by
    rintro rfl
    simp only [Function.update_self, Option.some.injEq] at found
    rw [← found] at ne
    exact ne rfl
  simp only [Function.update_of_ne other] at found
  exact ⟨_, .switch _ resumed n rfl found other thread owner, main⟩

/-- A run function returns. -/
theorem restore_calls (ended : w.control.owner ≠ some w.hub.main)
    (h : w.restore target source = .ok w') :
    ∃ c, w.Calls w' c := by
  obtain ⟨n, resumed, rfl, found, thread, owner, main, -⟩ := restore_eq h
  exact ⟨_, .finish resumed n ended found thread owner, main⟩

/-- `stacklet_new` -/
theorem cothreadStarterFn_calls {current : Option Tid}
    (h : (w.suspend current k).1.cothreadStarterFn source t = .ok w') : ∃ c, w.Calls w' c := by
  simp only [cothreadStarterFn, bind_eq_ok] at h
  obtain ⟨-, -, -, -, -, -, w₁, switched, h⟩ := h
  obtain ⟨thread, -, main, -⟩ := afterSwitch_eq switched
  cases h
  exact ⟨_, .new ⟨w.control.owner, current, k⟩ rfl thread, main⟩

theorem hubStarterFn_calls {current : Option Tid}
    (h : (w.suspend current k).1.hubStarterFn source = .ok w') : ∃ c, w.Calls w' c := by
  simp only [hubStarterFn, bind_eq_ok] at h
  obtain ⟨-, -, w₁, switched, h⟩ := h
  obtain ⟨thread, -, main, -⟩ := afterSwitch_eq switched
  cases h
  exact ⟨_, .new ⟨w.control.owner, current, k⟩ rfl thread, main⟩

theorem switch_calls (h : w.switch t k = .ok w') : ∃ c, w.Calls w' c := by
  simp only [switch, bind_eq_ok] at h
  obtain ⟨-, -, -, -, -, -, -, -, -, -, h⟩ := h
  split at h
  · simp only [bind_eq_ok] at h
    obtain ⟨-, -, h⟩ := h
    exact cothreadStarterFn_calls h
  · simp only [bind_eq_ok] at h
    obtain ⟨-, -, h⟩ := h
    exact stackletSwitch_calls h

theorem switchToHub_calls (h : w.switchToHub k = .ok w') : ∃ c, w.Calls w' c := by
  simp only [switchToHub, bind_eq_ok] at h
  obtain ⟨-, -, -, -, h⟩ := h
  split at h
  · simp only [bind_eq_ok] at h
    obtain ⟨-, -, h⟩ := h
    exact stackletSwitch_calls h
  · exact hubStarterFn_calls h

/-- A step that begins with what does not touch a stack. -/
theorem calls_after (same : w.SameStacks w₁) (h : ∃ c, w₁.Calls w' c) : ∃ c, w.Calls w' c := by
  obtain ⟨c, calls⟩ := h
  exact ⟨c, calls.after same⟩

theorem yield_calls (h : w.yield k = .ok w') : ∃ c, w.Calls w' c := by
  simp only [yield] at h
  split at h
  · simp only [bind_eq_ok] at h
    obtain ⟨tmp, -, -, -, h⟩ := h
    exact calls_after (same_links _) (switch_calls h)
  · exact switchToHub_calls h

theorem same_getNextStacklet (h : w.getNextStacklet = .ok (w', target)) : w.SameStacks w' := by
  simp only [getNextStacklet] at h
  split at h
  · simp only [bind_eq_ok] at h
    obtain ⟨tmp, -, -, -, -, -, -, -, h⟩ := h
    cases h
    exact same_links _
  · split at h
    · simp only [bind_eq_ok] at h
      obtain ⟨-, -, -, -, h⟩ := h
      cases h
      exact .refl _
    · simp only [bind_eq_ok] at h
      obtain ⟨-, -, -, -, h⟩ := h
      cases h
      exact same_emit _

theorem cothreadReturn_calls (ended : w.control.owner ≠ some w.hub.main)
    (h : w.cothreadReturn t = .ok w') :
    ∃ c, w.Calls w' c := by
  simp only [cothreadReturn, bind_eq_ok] at h
  obtain ⟨⟨w₁, target⟩, next, h⟩ := h
  have same := ((same_emit (.finish t)).trans (same_modify _)).trans (same_getNextStacklet next)
  exact calls_after same (restore_calls (by rwa [same.control, same.main]) h)

theorem hubReturn_calls (ended : w.control.owner ≠ some w.hub.main) (h : w.hubReturn = .ok w') :
    ∃ c, w.Calls w' c := by
  simp only [hubReturn, bind_eq_ok] at h
  obtain ⟨⟨w₁, target⟩, next, h⟩ := h
  have ends : w.SameStacks
      { w.emit .runEnd with
        hub := { (w.emit .runEnd).hub with loopAlive := false, stacklet := .null } } :=
    ⟨rfl, rfl, rfl, rfl⟩
  have same := ends.trans (same_getNextStacklet next)
  exact calls_after same (restore_calls (by rwa [same.control, same.main]) h)

/-! ## The API -/

theorem same_enter (c : Call) : w.SameStacks (w.enter t c).1 := ⟨rfl, rfl, rfl, rfl⟩

theorem same_enqueue (q : QueueId) (k : CallId) : w.SameStacks (w.enqueue q k t) :=
    ⟨rfl, rfl, rfl, rfl⟩

theorem cothreadSpawn_calls {k : CallId} (h : w.cothreadSpawn k t = .ok w') :
    ∃ c, w.Calls w' c := by
  simp only [cothreadSpawn, bind_eq_ok] at h
  obtain ⟨current, -, w₁, activated, -, -, h⟩ := h
  exact calls_after (same_activate activated) (switch_calls h)

theorem sleepInternal_calls {k : CallId} {op : Call} {timeout : Int} {ref : Bool}
    (h : w.sleepInternal k op timeout ref = .ok w') : ∃ c, w.Calls w' c := by
  simp only [sleepInternal, bind_eq_ok] at h
  obtain ⟨current, -, w₁, started, h⟩ := h
  have same := (same_uvTimerInit.trans (same_uvTimerStart started)).trans
    (same_env (w₁.env.arm current k))
  refine calls_after (same.trans ?_) (yield_calls h)
  cases ref
  · exact (same_env _).trans (same_modify _)
  · exact same_modify _

theorem channelReceive_calls {k : CallId} {ch : Chan} {caller : Caller}
    (h : w.channelReceive k ch caller = .ok w') : ∃ c, w.Calls w' c := by
  simp only [channelReceive, bind_eq_ok] at h
  obtain ⟨current, -, h⟩ := h
  split at h
  · exact calls_after ((same_enqueue _ k).trans (same_modify _)) (yield_calls h)
  · simp only [bind_eq_ok] at h
    obtain ⟨sender, -, -, -, w₁, activated, h⟩ := h
    exact calls_after ((same_activate activated).trans (same_emit _)) (switch_calls h)

theorem channelSend_calls {k : CallId} {ch : Chan} {value : Word} {caller : Caller}
    (h : w.channelSend k ch value caller = .ok w') : ∃ c, w.Calls w' c := by
  simp only [channelSend, bind_eq_ok] at h
  obtain ⟨current, -, h⟩ := h
  split at h
  · exact calls_after (((same_enqueue _ k).trans (same_modify _)).trans (same_modify _))
      (yield_calls h)
  · simp only [bind_eq_ok] at h
    obtain ⟨receiver, -, -, -, w₁, activated, h⟩ := h
    exact calls_after (((same_modify _).trans (same_activate activated)).trans (same_emit _))
      (switch_calls h)

theorem perform_calls {k : CallId} {call : Call} (h : w.perform k t call = .ok w') :
    ∃ c, w.Calls w' c := by
  cases call with
  | spawn u => exact cothreadSpawn_calls h
  | sleep timeout => exact sleepInternal_calls h
  | wait timeout =>
    simp only [perform, wait] at h
    split at h
    · exact sleepInternal_calls h
    · exact yield_calls h
  | receive ch => exact channelReceive_calls h
  | send ch value => exact channelSend_calls h
  | acquire s =>
    simp only [perform, semaphoreAcquire] at h
    split at h
    · cases h
      exact ⟨none, SameStacks.calls ⟨rfl, rfl, rfl, rfl⟩⟩
    · exact calls_after (same_enter _) (channelReceive_calls h)
  | release s =>
    simp only [perform, semaphoreRelease] at h
    split at h
    · exact calls_after (same_enter _) (channelSend_calls h)
    · cases h
      exact ⟨none, SameStacks.calls ⟨rfl, rfl, rfl, rfl⟩⟩
  | getaddrinfo outcome =>
    simp only [perform, getaddrinfo, bind_eq_ok] at h
    obtain ⟨current, -, h⟩ := h
    cases outcome with
    | noMemory | failed =>
      cases h
      exact ⟨none, SameStacks.calls ⟨rfl, rfl, rfl, rfl⟩⟩
    | submitted =>
      refine calls_after ?_ (yield_calls h)
      exact ⟨rfl, rfl, rfl, rfl⟩

/-- The library call that a step makes. -/
theorem exec_calls {a : Action} (legal : w.Legal a) (h : w.exec a = .ok w') :
    ∃ c, w.Calls w' c := by
  cases a with
  | call c =>
    simp only [exec, call] at h
    split at h
    · cases h
    · exact calls_after (same_enter _) (perform_calls h)
  | finish =>
    simp only [exec] at h
    split at h
    · exact cothreadReturn_calls legal.2 h
    · cases h
  | timers =>
    have owner : w.control.owner = none := by
      rw [show w.control = .hub .timers from legal]
      rfl
    have done : ∃ c, w.Calls { w.emit .poll with control := .hub .io } c :=
      ⟨none, SameStacks.calls ⟨rfl, owner.symm, rfl, rfl⟩⟩
    simp only [exec, uvRunTimers] at h
    split at h
    · cases h
      exact done
    · split at h
      · cases h
        exact done
      · simp only [bind_eq_ok, sleepCb] at h
        obtain ⟨w₁, stopped, w₂, again, -, -, -, -, -, -, h⟩ := h
        have same := (same_uvTimerStop stopped).trans (same_uvTimerAgain again)
        exact calls_after (same.trans (same_emit _)) (switch_calls h)
  | resolve r error res =>
    simp only [exec, getaddrinfoCb] at h
    split at h
    · cases h
      exact ⟨none, SameStacks.calls ⟨rfl, rfl, rfl, rfl⟩⟩
    · simp only [bind_eq_ok] at h
      obtain ⟨-, -, h⟩ := h
      refine calls_after ?_ (switch_calls h)
      exact ⟨rfl, rfl, rfl, rfl⟩
  | iterate =>
    have owner : w.control.owner = none := by
      rcases legal with h | h <;> rw [h] <;> rfl
    simp only [exec, uvRunIterate] at h
    split at h
    · cases h
      exact ⟨none, SameStacks.calls ⟨rfl, owner.symm, rfl, rfl⟩⟩
    · exact hubReturn_calls (by simp [owner]) h
  | cothreadInit | setExitFn | channelInit | semaphoreInit | updateTime | others | handleInit
  | handleClose | tick =>
    cases h
    exact ⟨none, SameStacks.calls ⟨rfl, rfl, rfl, rfl⟩⟩

end World
end Gevent
