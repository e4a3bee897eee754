import Gevent.Refine.Switch

/-!
# Leaving one stack and continuing another

* `Leaving`: a stack has been left and none is executing;
* `Leaving.restore`, `Leaving.restoreHub`: a suspended stack continues;
* `Leaving.start`, `Leaving.startHub`: a new stack begins;
* `Corr.suspend`, `Corr.suspendHub`: how `gevent_switch` leaves a stack;
* `switch_blocked`, `switch_new`, `yield`, `getNextStacklet`: the functions of
  gevent.c that combine the two.
-/

namespace Gevent
open Intrusive

/-- A stack has been left, and none is executing. -/
structure Leaving (w : World) (s : Sched) (h : Option Tid → Handle) (source : Handle)
    (died : Option Tid) : Prop extends Couple w s h where
  departed : Departed w s h source died
  nobody : ∀ t, s.place t ≠ .running
  hubAway : s.hub ≠ .running

/-- Where the scheduler keeps a blocked cothread: in the queue its call waits
in, except that a ready one has been taken out before it resumes. -/
def Sched.Waits (s : Sched) (u : Tid) (p : Pending) : Prop :=
  match p.queue with
  | some .ready => u ∉ s.queue .ready
  | some q => u ∈ s.queue q
  | none => True

namespace Sched
variable {s : Sched} {t u : Tid} {q : QueueId}

theorem unlink_of_not_mem (h : t ∉ s.queue q) : s.unlink q t = s := by
  simp [unlink, List.erase_of_not_mem h]

end Sched

namespace Couple
variable {w : World} {s : Sched} {h : Option Tid → Handle} {t u : Tid} {f : Frame}

theorem uvTimerStop (c : Couple w s h) (hloop : (w.co u).third = .loop) :
    ∃ w', w.uvTimerStop u = .ok w' ∧ Couple w' (s.disarm u .sleep) h ∧ w'.hub = w.hub ∧
      w'.co = w.co := by
  have henv : w.env = s.env := c.env
  cases ha : (s.env.timer u).active with
  | false =>
    refine ⟨w, by simp [World.uvTimerStop, henv, ha], ?_, rfl, rfl⟩
    simpa [Sched.disarm, Env.disarm, ha] using c
  | true =>
    refine ⟨{ w with env := w.env.timerStop u }, by simp [World.uvTimerStop, henv, ha, hloop], ?_,
      rfl, rfl⟩
    have := c.mapEnv fun e => e.timerStop u
    simpa [Sched.disarm, Env.disarm, ha] using this

/-- What is left of the call agrees with what the scheduler does to its queue and timer. -/
theorem afterYield (c : Couple w s w.stored) (hself : f.self = u)
    (hloop : f.pending = .sleep → (w.co u).third = .loop) (hwait : s.Waits u f.pending) :
    ∃ w', w.afterYield f =
        .ok (w', f.pending.result ⟨(w.co u).third, w.links.links.next (.op u)⟩) ∧
      Couple w' ((s.unlinkFor f.pending u).disarm u f.pending) w'.stored ∧ w'.hub = w.hub ∧
      w'.co = w.co := by
  obtain ⟨self, call, op, pending, caller⟩ := f
  cases hself
  cases pending with
  | spawn | received v | sent =>
    have hno : self ∉ s.queue .ready := hwait
    refine ⟨w, rfl, ?_, rfl, rfl⟩
    simpa [Sched.unlinkFor, Pending.queue, Sched.unlink_of_not_mem hno, Sched.disarm, Env.disarm] using c
  | wait =>
    refine ⟨w, rfl, ?_, rfl, rfl⟩
    simpa [Sched.unlinkFor, Pending.queue, Sched.disarm, Env.disarm] using c
  | getaddrinfo =>
    refine ⟨w, rfl, ?_, rfl, rfl⟩
    simpa [Sched.unlinkFor, Pending.queue, Sched.disarm, Env.disarm] using c
  | sleep =>
    obtain ⟨w', hw', c', hhub, hco⟩ := c.uvTimerStop (hloop rfl)
    have hst : w'.stored = w.stored := World.stored_congr (by rw [hhub]) hco
    refine ⟨w', by simp [World.afterYield, hw', Pending.result], ?_, hhub, hco⟩
    simpa [Sched.unlinkFor, Pending.queue, hst] using c'
  | receive ch =>
    refine ⟨w.queueRemove self, rfl, ?_, rfl, rfl⟩
    have hst : (w.queueRemove self).stored = w.stored := World.stored_congr rfl rfl
    simpa [Sched.unlinkFor, Pending.queue, Sched.disarm, Env.disarm, hst] using c.unlink (q := .receivers ch) hwait
  | send ch v =>
    refine ⟨w.queueRemove self, rfl, ?_, rfl, rfl⟩
    have hst : (w.queueRemove self).stored = w.stored := World.stored_congr rfl rfl
    simpa [Sched.unlinkFor, Pending.queue, Sched.disarm, Env.disarm, hst] using c.unlink (q := .senders ch) hwait

end Couple

theorem Departed.stored {w : World} {s : Sched} {h : Option Tid → Handle} {source : Handle}
    {died : Option Tid} (d : Departed w s h source died) {o : Option Tid}
    (ho : w.hub.current ≠ o) : h o = w.stored o := by
  cases d with
  | cothread current _ _ others => exact others o fun he => ho (he ▸ current)
  | hub current _ _ others => exact others o fun he => ho (he ▸ current)
  | died _ _ _ _ others => exact others o
  | ended _ _ others => exact others o

/-- A departure is about the stack left, not about the one that continues. -/
theorem Departed.place {w w' : World} {s s' : Sched} {h : Option Tid → Handle} {source : Handle}
    {died : Option Tid} (d : Departed w s h source died) (hhub : w'.hub = w.hub) (hco : w'.co = w.co)
    (hplace : ∀ t, w.hub.current = some t → s'.place t = s.place t)
    (hs : w.hub.current = none → s'.hub = s.hub) : Departed w' s' h source died := by
  have hstored : w'.stored = w.stored := World.stored_congr (by rw [hhub]) hco
  cases d with
  | cothread current place handle others =>
    exact .cothread (by rw [hhub, current]) (by rwa [hplace _ current]) handle
      (by rwa [hstored])
  | died current place main state others =>
    exact .died (by rw [hhub, current]) (by rwa [hplace _ current]) (by rwa [hhub])
      (by rwa [hco]) (by rwa [hstored])
  | hub current place handle others =>
    exact .hub (by rw [hhub, current]) (by rwa [hs current]) handle (by rwa [hstored])
  | ended current place others =>
    exact .ended (by rw [hhub, current]) (by rwa [hs current]) (by rwa [hstored])

namespace Leaving
variable {w : World} {s : Sched} {h : Option Tid → Handle} {t u : Tid} {f : Frame}
  {source : Handle} {died : Option Tid} {ph : Phase}

theorem stacklet (l : Leaving w s h source died) (hcur : w.hub.current ≠ some u) :
    h (some u) = (w.co u).stacklet := l.departed.stored hcur

theorem only_running (l : Leaving w s h source died)
    (ht : (s.setPlace u .running).place t = .running) : t = u := by
  by_contra htu
  exact l.nobody t (by simpa [Sched.setPlace, htu] using ht)

/-- The stack of a blocked cothread is consumed, and `_after_switch` runs on it. -/
theorem arrive (l : Leaving w s h source died) (hp : s.place u = .blocked f)
    (hcur : w.hub.current ≠ some u) : ∃ n w₁, (w.co u).stacklet = .stack n ∧
      w.thread.suspended n = some ⟨some u, some u, .api f⟩ ∧
      (w.consume n).afterSwitch (some u) source = .ok w₁ ∧
      Arrived (w.consume n) w₁ (s.setPlace u .running) (some u) died := by
  obtain ⟨n, hn, hst⟩ := l.parked u f hp
  have hne : ∀ t, w.hub.current = some t → t ≠ u := fun t ht he => hcur (he ▸ ht)
  have hd : Departed (w.consume n) (s.setPlace u .running) h source died :=
    l.departed.place rfl rfl (fun t ht => by simp [Sched.setPlace, hne t ht]) fun _ => rfl
  obtain ⟨w₁, h₁, a⟩ := (l.toCouple.consume hp hst).afterSwitch hd (by simp [Sched.setPlace]) hcur
  exact ⟨n, w₁, (l.stacklet hcur).symm.trans hn, hst, h₁, a⟩

/-- The stack of the suspended loop is consumed, and `_after_switch` runs on it. -/
theorem arriveHub (l : Leaving w s h source died) (hs : s.hub = .suspended ph)
    (hcur : w.hub.current ≠ none) : ∃ n w₁, w.hub.stacklet = .stack n ∧
      w.thread.suspended n = some ⟨none, none, .callback ph⟩ ∧
      (w.consume n).afterSwitch none source = .ok w₁ ∧
      Arrived (w.consume n) w₁ { s with hub := .running } none died := by
  obtain ⟨n, hn, hst⟩ := l.hubParked ph hs
  have hd : Departed (w.consume n) { s with hub := .running } h source died :=
    l.departed.place rfl rfl (fun _ _ => rfl) fun hc => absurd hc hcur
  obtain ⟨w₁, h₁, a⟩ := (l.toCouple.consumeHub hst).afterSwitchHub hd rfl hcur
  exact ⟨n, w₁, (l.departed.stored hcur).symm.trans hn, hst, h₁, a⟩

/-- The stack of a blocked cothread continues: its call returns. -/
theorem restore (l : Leaving w s h source died) (hp : s.place u = .blocked f) (hself : f.self = u)
    (hcur : w.hub.current ≠ some u) (hwait : s.Waits u f.pending) :
    ∃ w', w.restore (w.co u).stacklet source = .ok w' ∧
      Corr w' (s.resume u ⟨(w.co u).third, w.links.links.next (.op u)⟩ died) := by
  obtain ⟨n, w₁, hn, hst, h₁, a⟩ := l.arrive hp hcur
  have hloop : f.pending = .sleep → (w.co u).third = .loop := by
    have := l.cell u
    rw [hp] at this
    exact this.2.2
  have hwait' : ((s.setPlace u .running).switched (some u) died).Waits u f.pending := hwait
  obtain ⟨w₂, h₂, c₂, hhub, hco⟩ := a.toCouple.afterYield hself
    (fun hf => by rw [a.same.third]; exact hloop hf) hwait'
  have hthird : (w₁.co u).third = (w.co u).third := a.same.third u
  have hnext : w₁.links.links.next (.op u) = w.links.links.next (.op u) := by
    rw [a.same.links]; rfl
  rw [hthird, hnext] at h₂
  let r := f.pending.result ⟨(w.co u).third, w.links.links.next (.op u)⟩
  have c₃ := (c₂.mapEnv fun e => e.returnCall f r).withControl (.user u) (.user u)
  refine ⟨{ w₂ with env := w₂.env.returnCall f r, control := .user u }, ?_, ?_⟩
  · rw [hn, World.restore_stack source hst]
    simp [World.resume, h₁, h₂, r]
  · have hst : { w₂ with env := w₂.env.returnCall f r, control := .user u }.stored = w₂.stored :=
      World.stored_congr rfl rfl
    have heq : s.resume u ⟨(w.co u).third, w.links.links.next (.op u)⟩ died =
        ((((s.setPlace u .running).switched (some u) died).unlinkFor f.pending u).disarm u
          f.pending).returnCall u f r := by
      simp only [Sched.resume, hp, r]
    refine { toCouple := ?_, control := ?_, current := ?_, running := ?_, hubRunning := ?_ }
    · rw [hst, heq]; exact c₃
    · rw [Sched.resume_control hp]
    · rw [Sched.resume_control hp, show w₂.hub.current = some u by rw [hhub, a.current]]; rfl
    · intro t ht
      rw [Sched.resume_place hp] at ht
      have htu : t = u := l.only_running ht
      subst htu
      simpa [hco] using a.fresh_current t rfl
    · intro hr
      rw [Sched.resume_hub hp] at hr
      exact absurd hr l.hubAway

/-- The suspended loop continues in its callback. -/
theorem restoreHub (l : Leaving w s h source died) (hs : s.hub = .suspended ph)
    (hcur : w.hub.current ≠ none) :
    ∃ w', w.restore w.hub.stacklet source = .ok w' ∧ Corr w' (s.enterHub died) := by
  obtain ⟨n, w₁, hn, hst, h₁, a⟩ := l.arriveHub hs hcur
  refine ⟨{ w₁ with control := .hub ph }, ?_, ?_⟩
  · rw [hn, World.restore_stack source hst]
    simp [World.resume, h₁]
  · simp only [Sched.enterHub, hs]
    have hst : { w₁ with control := .hub ph }.stored = w₁.stored := World.stored_congr rfl rfl
    exact { toCouple := hst ▸ a.toCouple.withControl _ _
            control := rfl
            current := a.current
            running := fun t ht => absurd ht (l.nobody t)
            hubRunning := fun _ => a.hubNull rfl }

/-- A new cothread starts. -/
theorem start (l : Leaving w s h source none) (hp : s.place u = .new)
    (hcur : w.hub.current ≠ some u) :
    ∃ w', w.cothreadStarterFn source u = .ok w' ∧ Corr w' (s.startCothread u) := by
  obtain ⟨hstate, hprev, -⟩ : Cell w u .new := hp ▸ l.cell u
  have hne : ∀ t, w.hub.current = some t → t ≠ u := fun t ht he => hcur (he ▸ ht)
  have hd : Departed w (s.setPlace u .running) h source none :=
    l.departed.place rfl rfl (fun t ht => by simp [Sched.setPlace, hne t ht]) fun _ => rfl
  obtain ⟨w₁, h₁, a⟩ := (l.toCouple.take hp).afterSwitch hd (by simp [Sched.setPlace]) hcur
  refine ⟨{ w₁.emit (.start u) with control := .user u }, ?_, ?_⟩
  · simp [World.cothreadStarterFn, l.departed.source_ne, hstate, hprev, h₁]
  · have hst : { w₁.emit (.start u) with control := .user u }.stored = w₁.stored :=
      World.stored_congr rfl rfl
    exact { toCouple := hst ▸ (a.toCouple.emit (.start u)).withControl _ _
            control := rfl
            current := a.current
            running := fun t ht => by
              have htu : t = u := l.only_running ht
              subst htu
              exact a.fresh_current t rfl
            hubRunning := fun hr => absurd hr l.hubAway }

/-- The loop is started. -/
theorem startHub (l : Leaving w s h source none) (hs : s.hub = .idle)
    (hcur : w.hub.current ≠ none) :
    ∃ w', w.hubStarterFn source = .ok w' ∧ Corr w' (s.enterHub none) := by
  have hd : Departed w { s with hub := .running } h source none :=
    l.departed.place rfl rfl (fun _ _ => rfl) fun hc => absurd hc hcur
  obtain ⟨w₁, h₁, a⟩ := (l.toCouple.takeHub hs).afterSwitchHub hd rfl hcur
  let w₂ : World := { w₁ with hub := { w₁.hub with loopAlive := true } }
  refine ⟨{ w₂.emit .runStart with control := .hub .start }, ?_, ?_⟩
  · simp [World.hubStarterFn, l.departed.source_ne, h₁, w₂]
  · simp only [Sched.enterHub, hs]
    have hst : { w₂.emit .runStart with control := .hub .start }.stored = w₁.stored :=
      World.stored_congr rfl rfl
    have c₂ : Couple w₂ (Sched.switched { s with hub := .running } none none) w₁.stored :=
      { a.toCouple with cell := fun t => (a.toCouple.cell t).congr rfl rfl fun _ => rfl }
    exact { toCouple := hst ▸ (c₂.emit .runStart).withControl _ _
            control := rfl
            current := a.current
            running := fun t ht => absurd ht (l.nobody t)
            hubRunning := fun _ => a.hubNull rfl }

end Leaving

/-! ## Departures -/

namespace Couple
variable {w : World} {s : Sched} {t : Tid} {f : Frame} {ph : Phase}

theorem suspend_fresh {h : Option Tid → Handle} (c : Couple w s h) (o : Option Tid) (k : Cont)
    (n : Nat) (hn : w.thread.next + 1 ≤ n) : (w.suspend o k).1.thread.suspended n = none := by
  have hne : n ≠ w.thread.next := by omega
  simp [World.suspend, hne, c.fresh n (by omega)]

/-- The stacks suspended before keep their handles. -/
theorem suspend_old {h : Option Tid → Handle} (c : Couple w s h) (o : Option Tid) (k : Cont)
    {n : Nat} {st : Stack} (hst : w.thread.suspended n = some st) :
    (w.suspend o k).1.thread.suspended n = some st := by
  have hne : n ≠ w.thread.next := by have := c.lt_next hst; omega
  simp [World.suspend, hne, hst]

theorem suspend_used {h : Option Tid → Handle} (c : Couple w s h) (o : Option Tid) (k : Cont) :
    ∀ x ∈ w.thread.used, ∃ n, x = .stack n ∧ n < w.thread.next + 1 ∧
      (w.suspend o k).1.thread.suspended n = none := by
  intro x hx
  obtain ⟨n, rfl, hn, hnone⟩ := c.used x hx
  have hne : n ≠ w.thread.next := by omega
  exact ⟨n, rfl, by omega, by simp [World.suspend, hne, hnone]⟩

/-- A cothread leaves its stack in the middle of a call. -/
theorem leave (c : Couple w s w.stored) (ht : s.place t = .running)
    (hcur : w.hub.current = some t) (hcon : w.control = .user t)
    (hcell : Cell w t (.blocked f)) (hone : ∀ u, s.place u = .running → u = t)
    (hhub : s.hub ≠ .running) :
    Leaving (w.suspend (some t) (.api f)).1 (s.setPlace t (.blocked f))
      (Function.update w.stored (some t) (.stack w.thread.next)) (.stack w.thread.next) none :=
  have hplace : ∀ u, u ≠ t → (s.setPlace t (.blocked f)).place u = s.place u := fun u hu => by
    simp [Sched.setPlace, hu]
  { main := c.main
    env := c.env
    good := c.good
    contents := c.contents
    linked := fun q u hu => by
      by_cases hut : u = t
      · subst hut; simp [Sched.setPlace]
      · rw [hplace u hut]; exact c.linked q u hu
    fresh := c.suspend_fresh _ _
    parked := fun u g hu => by
      by_cases hut : u = t
      · subst hut
        have hg : f = g := by simpa [Sched.setPlace] using hu
        exact ⟨w.thread.next, by simp, by simp [World.suspend, hcon, Control.owner, hg]⟩
      · obtain ⟨n, hn, hst⟩ := c.parked u g (by rwa [hplace u hut] at hu)
        exact ⟨n, by simpa [hut] using hn, c.suspend_old _ _ hst⟩
    hubParked := fun ph hph => by
      obtain ⟨n, hn, hst⟩ := c.hubParked ph hph
      exact ⟨n, by simpa using hn, c.suspend_old _ _ hst⟩
    hubIdle := c.hubIdle
    owned := fun n st hst => by
      by_cases hn : n = w.thread.next
      · subst hn
        have hst' : st = ⟨some t, some t, .api f⟩ := by
          simpa [World.suspend, hcon, Control.owner] using hst.symm
        subst hst'
        exact ⟨by simp, f, by simp [Sched.setPlace], rfl⟩
      · obtain ⟨ho, he⟩ := c.owned n st (by simpa [World.suspend, hn] using hst)
        obtain ⟨_ | u, current, k⟩ := st
        · exact ⟨by simpa using ho, he⟩
        · obtain ⟨g, hg, heq⟩ := he
          have hut : u ≠ t := by rintro rfl; rw [ht] at hg; cases hg
          exact ⟨by simpa [hut] using ho, g, by rwa [hplace u hut], heq⟩
    usedNodup := c.usedNodup
    used := c.suspend_used _ _
    cell := fun u => by
      by_cases hut : u = t
      · subst hut
        have := hcell.congr (show (w.suspend (some u) (.api f)).1.co u = w.co u from rfl) rfl
          fun _ => rfl
        simpa [Sched.setPlace] using this
      · rw [hplace u hut]
        exact (c.cell u).congr rfl rfl fun _ => rfl
    departed := .cothread hcur ⟨f, by simp [Sched.setPlace]⟩ (by simp) fun o ho => by
      rw [Function.update_of_ne ho]
      exact (World.stored_congr rfl rfl ▸ rfl)
    nobody := fun u hu => by
      by_cases hut : u = t
      · subst hut; simp [Sched.setPlace] at hu
      · exact hut (hone u (by rwa [hplace u hut] at hu))
    hubAway := hhub }

/-- The loop leaves its stack in a callback. -/
theorem leaveHub (c : Couple w s w.stored) (hr : s.hub = .running) (hcur : w.hub.current = none)
    (hcon : w.control.owner = none) (hone : ∀ u, s.place u ≠ .running) (ph : Phase) :
    Leaving (w.suspend none (.callback ph)).1 { s with hub := .suspended ph }
      (Function.update w.stored none (.stack w.thread.next)) (.stack w.thread.next) none :=
  { main := c.main
    env := c.env
    good := c.good
    contents := c.contents
    linked := c.linked
    fresh := c.suspend_fresh _ _
    parked := fun u g hu => by
      obtain ⟨n, hn, hst⟩ := c.parked u g hu
      exact ⟨n, by simpa using hn, c.suspend_old _ _ hst⟩
    hubParked := fun ph' hph => by
      cases hph
      exact ⟨w.thread.next, by simp, by simp [World.suspend, hcon]⟩
    hubIdle := fun h => by cases h
    owned := fun n st hst => by
      by_cases hn : n = w.thread.next
      · subst hn
        have hst' : st = ⟨none, none, .callback ph⟩ := by
          simpa [World.suspend, hcon] using hst.symm
        subst hst'
        exact ⟨by simp, ph, rfl, rfl⟩
      · obtain ⟨ho, he⟩ := c.owned n st (by simpa [World.suspend, hn] using hst)
        obtain ⟨_ | u, current, k⟩ := st
        · obtain ⟨ph', hph', -⟩ := he
          rw [hr] at hph'; cases hph'
        · exact ⟨by simpa using ho, he⟩
    usedNodup := c.usedNodup
    used := c.suspend_used _ _
    cell := fun u => (c.cell u).congr rfl rfl fun _ => rfl
    departed := .hub hcur ⟨ph, rfl⟩ (by simp) fun o ho => by
      rw [Function.update_of_ne ho]
      exact (World.stored_congr rfl rfl ▸ rfl)
    nobody := hone
    hubAway := by simp }

/-- The run function of a cothread has returned. -/
theorem die (c : Couple w s w.stored) (ht : s.place t = .running) (hcur : w.hub.current = some t)
    (hmain : t ≠ w.hub.main) (hstate : (w.co t).state = .current)
    (hone : ∀ u, s.place u = .running → u = t) (hhub : s.hub ≠ .running) :
    Leaving w (s.setPlace t .dead) w.stored .empty (some t) :=
  have hplace : ∀ u, u ≠ t → (s.setPlace t .dead).place u = s.place u := fun u hu => by
    simp [Sched.setPlace, hu]
  { c with
    linked := fun q u hu => by
      by_cases hut : u = t
      · subst hut; simp [Sched.setPlace]
      · rw [hplace u hut]; exact c.linked q u hu
    parked := fun u g hu => by
      have hut : u ≠ t := by rintro rfl; simp [Sched.setPlace] at hu
      exact c.parked u g (by rwa [hplace u hut] at hu)
    owned := fun n st hst => by
      obtain ⟨ho, he⟩ := c.owned n st hst
      refine ⟨ho, ?_⟩
      obtain ⟨_ | u, current, k⟩ := st
      · exact he
      · obtain ⟨g, hg, heq⟩ := he
        have hut : u ≠ t := by rintro rfl; rw [ht] at hg; cases hg
        exact ⟨g, by rwa [hplace u hut], heq⟩
    cell := fun u => by
      by_cases hut : u = t
      · subst hut; simp [Sched.setPlace, Cell, hcur]
      · rw [hplace u hut]; exact c.cell u
    departed := .died hcur (by simp [Sched.setPlace]) hmain hstate fun _ => rfl
    nobody := fun u hu => by
      by_cases hut : u = t
      · subst hut; simp [Sched.setPlace] at hu
      · exact hut (hone u (by rwa [hplace u hut] at hu))
    hubAway := hhub }

/-- `uv_run` has returned. -/
theorem endHub (c : Couple w s w.stored) (hr : s.hub = .running) (hcur : w.hub.current = none)
    (hnull : w.hub.stacklet = .null) (hone : ∀ u, s.place u ≠ .running) :
    Leaving w { s with hub := .idle } w.stored .empty none :=
  { c with
    hubParked := fun _ h => by cases h
    hubIdle := fun _ => hnull
    owned := fun n st hst => by
      obtain ⟨ho, he⟩ := c.owned n st hst
      refine ⟨ho, ?_⟩
      obtain ⟨_ | u, current, k⟩ := st
      · obtain ⟨ph', hph', -⟩ := he
        rw [hr] at hph'; cases hph'
      · exact he
    departed := .ended hcur rfl fun _ => rfl
    nobody := hone
    hubAway := by simp }

end Couple
end Gevent
