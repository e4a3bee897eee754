import Gevent.Refine.Views

/-!
# Switch bookkeeping

Whose stack executes, where the handle of every suspended stack is stored, and
which handles have been given back to the stacklet library
(`switch_bookkeeping`).
-/

namespace Gevent

/-- `h` is the handle, not used yet, of a suspended stack of `owner`. -/
def World.HandleOf (w : World) (h : Handle) (owner : Option Tid) : Prop :=
  h ∉ w.thread.used ∧ ∃ n st, h = .stack n ∧ w.thread.suspended n = some st ∧ st.owner = owner

structure World.Bookkeeping (w : World) : Prop where
  current : w.hub.current = w.control.owner
  suspended : ∀ t, alive t w.env.log = true → w.control.owner ≠ some t →
    w.HandleOf (w.co t).stacklet (some t)
  hubStacklet : w.hub.stacklet ≠ .null ↔ inRun w.env.log = true ∧ w.control.owner ≠ none
  hubSuspended : w.hub.stacklet ≠ .null → w.HandleOf w.hub.stacklet none
  once : w.thread.used.Nodup
  valid : ∀ h ∈ w.thread.used, h ≠ .null ∧ h ≠ .empty

/-- The failures that the switching code is not responsible for: a cothread
that is not new is spawned, a sleep is negative, or a request is answered whose
requester no longer waits for it. -/
def World.Foreign (w : World) : World.Action → Fault → Prop
  | .call (.spawn t), f => f = .assertion .spawn ∧ (w.co t).state ≠ .new
  | .call (.sleep timeout), f => f = .assertion .uvTimerStart ∧ timeout < 0
  | .resolve r _ _, f => f = .assertion .getaddrinfoCb ∧
      ∃ my, w.env.reqData r = some my ∧ (w.co my).state ≠ .waitingGetaddrinfo
  | _, _ => False

namespace Paired
variable {w : World} {s : Sched}

theorem handleOf (p : Paired w s) {o : Option Tid} {n : Nat} {st : Stack}
    (hn : w.stored o = .stack n) (hst : w.thread.suspended n = some st) (ho : st.owner = o) :
    w.HandleOf (w.stored o) o := by
  refine ⟨fun hused => ?_, n, st, hn, hst, ho⟩
  obtain ⟨m, hm, -, hnone⟩ := p.used _ hused
  rw [hn] at hm
  cases hm
  rw [hst] at hnone
  cases hnone

theorem bookkeeping (p : Paired w s) : w.Bookkeeping where
  current := by rw [p.current, p.control]
  suspended t ht idle := by
    obtain ⟨f, -, hf⟩ := p.alive_frame ht idle
    obtain ⟨n, hn, hst⟩ := p.parked t f hf
    exact p.handleOf (o := some t) hn hst rfl
  hubStacklet := by
    have hrun : inRun w.env.log = true ↔ s.hub ≠ .idle := by
      rw [p.env]
      exact p.life.inRun
    rw [hrun, Ne, Ne, Ne, ← p.hub_iff]
    cases hh : s.hub with
    | idle => simp [p.hubIdle hh]
    | running => simp [p.hubRunning hh]
    | suspended ph =>
      obtain ⟨n, hn, -⟩ := p.hubParked ph hh
      have hn : w.hub.stacklet = .stack n := hn
      simp [hn]
  hubSuspended h := by
    cases hh : s.hub with
    | idle => exact absurd (p.hubIdle hh) h
    | running => exact absurd (p.hubRunning hh) h
    | suspended ph =>
      obtain ⟨n, hn, hst⟩ := p.hubParked ph hh
      exact p.handleOf (o := none) hn hst rfl
  once := p.usedNodup
  valid h hh := by
    obtain ⟨n, rfl, -⟩ := p.used h hh
    simp

/-- A request whose answer fails belongs to a cothread that waits for something else. -/
theorem unanswerable (p : Paired w s) {r : ReqId} {error : Int} {res : Word} {f : Fault}
    (active : r ∈ s.env.loop.activeReqs) (hs : s.fault (.resolve r error res) = some f) :
    ∃ my, (w.env.reqData r = some my ∧ (w.co my).state ≠ .waitingGetaddrinfo) ∧
      f = .assertion .getaddrinfoCb := by
  obtain ⟨my, hmy, owner⟩ := p.base.lookups.owner_at active
  have known : my ∈ w.env.known := by
    rcases owner with ⟨g, hg, -⟩ | ⟨rfl, -⟩
    · rw [p.known_iff, hg]
      simp
    · exact p.main ▸ p.main_known
  have hne : (w.co my).state ≠ .waitingGetaddrinfo ∧ f = .assertion .getaddrinfoCb := by
    rw [Ne, p.state_getaddrinfo known]
    simp only [Sched.fault, hmy] at hs
    cases hp : s.place my with
    | blocked g =>
      simp only [hp] at hs
      split at hs
      · cases hs
      · next hpend =>
        cases hs
        simpa using hpend
    | unborn | new | running | dead =>
      simp only [hp] at hs
      cases hs
      simp
  exact ⟨my, ⟨by rw [p.env]; exact hmy, hne.1⟩, hne.2⟩

theorem foreign (p : Paired w s) {a : World.Action} {f : Fault} (legal : w.Legal a)
    (hf : w.exec a = .error f) : w.Foreign a f := by
  have allowed := p.allowed p.base legal
  cases hs : s.fault a with
  | none =>
    obtain ⟨w', x, hw, -⟩ := p.exec p.base p.settled allowed hs
    rw [hf] at hw
    cases hw
  | some f' =>
    have he := p.exec_fault p.base p.settled allowed hs
    rw [hf] at he
    cases he
    cases a with
    | call c =>
      cases c with
      | spawn t =>
        simp only [Sched.fault] at hs
        split at hs
        · cases hs
        · next hnew =>
          cases hs
          exact ⟨rfl, fun h => hnew ((p.state_new legal.2).mp h)⟩
      | sleep timeout =>
        simp only [Sched.fault] at hs
        split at hs
        · next hneg =>
          cases hs
          exact ⟨rfl, hneg⟩
        · cases hs
      | wait | receive | send | acquire | release | getaddrinfo => cases hs
    | resolve r error res =>
      obtain ⟨my, hmy, rfl⟩ := p.unanswerable allowed.2 hs
      exact ⟨rfl, my, hmy⟩
    | _ => cases hs

end Paired

/-- Switch bookkeeping is sound in every reachable state, and no assertion of
the switching code ever fails. -/
theorem switch_bookkeeping {w : World} (r : gevent.Reach anyStep w) :
    w.Bookkeeping ∧ ∀ a f, w.Legal a → w.exec a = .error f → w.Foreign a f := by
  obtain ⟨s, p⟩ := reach_paired r
  exact ⟨p.bookkeeping, fun a f => p.foreign⟩

set_option maxRecDepth 100000 in
/-- A spawn, a hand-over, a death and a sleep. -/
theorem switch_bookkeeping_run : ∃ w, gevent.Reach anyStep w ∧ w.thread.used.length = 4 ∧
    w.Bookkeeping ∧ ∀ a f, w.Legal a → w.exec a = .error f → w.Foreign a f := by
  have h : (gevent.play anyStep zeroStart [.cothreadInit 1 1, .call (.spawn 1),
      .call (.receive (.plain 0)), .call (.send (.plain 0) (.data 7)), .finish, .call (.sleep 0),
      .iterate, .timers]).any (fun w => decide (w.thread.used.length = 4)) = true := by decide
  obtain ⟨w, r, hu⟩ := Machine.Reach.of_play zeroStart_start h
  exact ⟨w, r, hu, switch_bookkeeping r⟩

end Gevent
