import Gevent.Refine.Resume
import Gevent.Sched.Core

/-!
# From the middle of a call to the next stack

`Busy` is the coupling while a gevent call of the executing cothread is under
way. `Leaving.switch`, `Leaving.switchToHub`, `Busy.yield` and `Leaving.next`
say where `gevent_switch`, `gevent_switch_to_hub`, `gevent_yield` and
`_get_next_stacklet` lead.
-/

namespace Gevent
open Intrusive

/-- Cothread `t` executes a gevent call. -/
structure Busy (w : World) (s : Sched) (t : Tid) : Prop extends Couple w s w.stored where
  place : s.place t = .running
  current : w.hub.current = some t
  control : w.control = .user t
  only : ∀ u, s.place u = .running → u = t
  hubAway : s.hub ≠ .running

theorem Sched.unlink_unlink {s : Sched} {q : QueueId} {t : Tid} (h : (s.queue q).Nodup) :
    (s.unlink q t).unlink q t = s.unlink q t :=
  unlink_of_not_mem (by simpa [unlink] using h.not_mem_erase)

/-- It makes no difference whether a ready cothread is taken out of the queue
before it is resumed or by being resumed. -/
theorem Sched.resume_unlink {s : Sched} {u : Tid} {f : Frame} (hu : s.place u = .blocked f)
    (hf : f.pending.queue = some .ready) (hn : (s.queue .ready).Nodup) (x : Leftover)
    (died : Option Tid) : (s.unlink .ready u).resume u x died = s.resume u x died := by
  have hu' : (s.unlink .ready u).place u = .blocked f := hu
  have hq : ((((s.unlink .ready u).setPlace u .running).switched (some u) died).unlinkFor
      f.pending u) = (((s.setPlace u .running).switched (some u) died).unlinkFor f.pending u) := by
    simp only [unlinkFor, hf]
    exact congrArg (fun r : Sched => (r.setPlace u .running).switched (some u) died)
      (unlink_unlink hn)
  simp only [resume, hu, hu', hq]

theorem Pending.state_ready {p : Pending} (h : p.queue = some .ready) : p.state = .ready := by
  cases p <;> simp_all [Pending.queue, Pending.state]

theorem Pending.state_ne {p : Pending} (h : p ≠ .wait) :
    p.state ≠ .current ∧ p.state ≠ .dead ∧ p.state ≠ .new := by
  cases p <;> simp_all [Pending.state]

namespace Leaving
variable {w : World} {s : Sched} {h : Option Tid → Handle} {t u : Tid} {f : Frame} {k : Cont}
  {source : Handle} {died : Option Tid} {ph : Phase}

theorem stacklet_ne (l : Leaving w s h source died) (hu : s.place u = .blocked f)
    (hcur : w.hub.current ≠ some u) : ∃ n, (w.co u).stacklet = .stack n := by
  obtain ⟨n, hn, -⟩ := l.parked u f hu
  exact ⟨n, (l.stacklet hcur).symm.trans hn⟩

/-- `gevent_switch` to a blocked cothread. -/
theorem switch (l : Leaving (w.suspend w.hub.current k).1 s h (w.suspend w.hub.current k).2 none)
    (hu : s.place u = .blocked f) (hself : f.self = u) (hcur : w.hub.current ≠ some u)
    (hwait : s.Waits u f.pending) (hp : f.pending ≠ .wait) :
    ∃ w', w.switch u k = .ok w' ∧
      Corr w' (s.resume u ⟨(w.co u).third, w.links.links.next (.op u)⟩ none) := by
  have hstate : (w.co u).state = f.pending.state := by
    have := l.cell u
    rw [hu] at this
    exact this.1
  obtain ⟨h1, h2, h3⟩ := Pending.state_ne hp
  obtain ⟨n, hn⟩ := l.stacklet_ne hu hcur
  have hn' : (w.co u).stacklet = .stack n := hn
  obtain ⟨w', hw', corr⟩ := l.restore hu hself hcur hwait
  refine ⟨w', ?_, corr⟩
  simp only [World.switch, World.beforeSwitch, hstate]
  rw [check_pos (Ne.symm hcur), check_pos h1, check_pos h2, check_pos (by simp [hn']),
    check_pos (by simp)]
  simp only [ok_bind, if_neg h3]
  rw [check_pos (by simp [hn'])]
  exact hw'

/-- `gevent_switch` to a new cothread. -/
theorem switchNew
    (l : Leaving (w.suspend w.hub.current k).1 s h (w.suspend w.hub.current k).2 none)
    (hu : s.place u = .new) (hcur : w.hub.current ≠ some u) :
    ∃ w', w.switch u k = .ok w' ∧ Corr w' (s.startCothread u) := by
  obtain ⟨hstate, hprev, hnull⟩ : Cell (w.suspend w.hub.current k).1 u .new := hu ▸ l.cell u
  have hstate' : (w.co u).state = .new := hstate
  have hprev' : w.links.links.prev (.op u) ≠ .null := hprev
  have hnull' : (w.co u).stacklet = .null := hnull
  obtain ⟨w', hw', corr⟩ := l.start hu hcur
  refine ⟨w', ?_, corr⟩
  simp only [World.switch, World.beforeSwitch, hstate']
  rw [check_pos (Ne.symm hcur), check_pos (by simp), check_pos (by simp),
    check_pos (by simp [hnull']), check_pos (by simp)]
  simp only [ok_bind, if_true]
  rw [check_pos hprev']
  exact hw'

/-- `gevent_switch_to_hub` -/
theorem switchToHub
    (l : Leaving (w.suspend w.hub.current k).1 s h (w.suspend w.hub.current k).2 none)
    (hcur : w.hub.current ≠ none) :
    ∃ w', w.switchToHub k = .ok w' ∧ Corr w' (s.enterHub none) := by
  have hsome : w.hub.current.isSome := Option.isSome_iff_ne_none.mpr hcur
  cases hs : s.hub with
  | running => exact absurd hs l.hubAway
  | suspended ph =>
    obtain ⟨w', hw', corr⟩ := l.restoreHub hs hcur
    obtain ⟨n, hn, -⟩ := l.hubParked ph hs
    have hn' : w.hub.stacklet = .stack n := (l.departed.stored hcur).symm.trans hn
    refine ⟨w', ?_, corr⟩
    simp only [World.switchToHub, World.beforeSwitch]
    rw [check_pos hsome, check_pos (Or.inr hsome)]
    simp only [ok_bind]
    rw [if_pos (by simp [hn']), check_pos (by simp [hn'])]
    exact hw'
  | idle =>
    obtain ⟨w', hw', corr⟩ := l.startHub hs hcur
    have hn' : w.hub.stacklet = .null := l.hubIdle hs
    refine ⟨w', ?_, corr⟩
    simp only [World.switchToHub, World.beforeSwitch]
    rw [check_pos hsome, check_pos (Or.inr hsome)]
    simp only [ok_bind]
    rw [if_neg (by simp [hn'])]
    exact hw'

theorem unlink {q : QueueId} (l : Leaving w s h source died) (hu : u ∈ s.queue q) :
    Leaving (w.queueRemove u) (s.unlink q u) h source died :=
  { toCouple := l.toCouple.unlink hu
    departed := l.departed.place rfl rfl (fun _ _ => rfl) fun _ => rfl
    nobody := l.nobody
    hubAway := l.hubAway }

theorem emit (l : Leaving w s h source died) (e : Event) :
    Leaving (w.emit e) (s.emit e) h source died :=
  { toCouple := l.toCouple.emit e
    departed := l.departed.place rfl rfl (fun _ _ => rfl) fun _ => rfl
    nobody := l.nobody
    hubAway := l.hubAway }

/-- The stack that has ended is not a suspended one. -/
theorem current_ne (l : Leaving w s h .empty died) (hu : s.place u = .blocked f) :
    w.hub.current ≠ some u := by
  intro hc
  cases l.departed with
  | died current place =>
    rw [current] at hc
    cases hc
    rw [hu] at place
    cases place
  | ended current => rw [current] at hc; cases hc

/-- A ready cothread is taken out of its queue and waits in none. -/
theorem ready_waits (queues : s.Queues)
    (hq : f.pending.queue = some .ready) : (s.unlink .ready u).Waits u f.pending := by
  simp only [Sched.Waits, hq]
  simpa [Sched.unlink] using (queues.nodup .ready).not_mem_erase

end Leaving

/-- `_get_next_stacklet` has chosen the stack of `u`, and left `w₁`. -/
structure Picked (w w₁ : World) (s s₁ : Sched) (h : Option Tid → Handle) (died : Option Tid) (u : Tid)
    (f : Frame) : Prop extends Leaving w₁ s₁ h .empty died where
  hub : w₁.hub = w.hub
  place : s₁.place = s.place
  queued : ∀ q, ∀ t ∈ s₁.queue q, t ∈ s.queue q
  onlyLog : ∃ es, s₁.env = { s.env with log := es ++ s.env.log }
  blocked : s₁.place u = .blocked f
  self : f.self = u
  waits : s₁.Waits u f.pending
  resumes : ∀ x, s₁.resume u x died = s.handOn x died

namespace Leaving
variable {w : World} {s : Sched} {h : Option Tid → Handle} {u : Tid} {f : Frame}
  {source : Handle} {died : Option Tid}

/-- `_get_next_stacklet` chooses the stack of a cothread, or that of the suspended loop. -/
theorem getNextStacklet (l : Leaving w s h .empty died) (queues : s.Queues)
    (main : ∃ f, s.place s.main = .blocked f) (hcur : s.hub ≠ .idle → w.hub.current ≠ none) :
    (∃ w₁ s₁ u f, w.getNextStacklet = .ok (w₁, (w₁.co u).stacklet) ∧ Picked w w₁ s s₁ h died u f) ∨
      ∃ ph, w.getNextStacklet = .ok (w, w.hub.stacklet) ∧ s.queue .ready = [] ∧
        s.hub = .suspended ph := by
  cases hr : s.queue .ready with
  | cons u us =>
    have hu : u ∈ s.queue .ready := by simp [hr]
    obtain ⟨g, hg, hgq⟩ := (queues.queued .ready u).mp hu
    have hstate : (w.co u).state = .ready := by
      have := l.cell u
      rw [hg] at this
      exact this.1.trans (Pending.state_ready hgq)
    obtain ⟨n, hn⟩ := l.stacklet_ne hg (l.current_ne hg)
    refine .inl ⟨w.queueRemove u, s.unlink .ready u, u, g, ?_,
      { toLeaving := l.unlink hu
        hub := rfl
        place := rfl
        queued := ?_
        onlyLog := ⟨[], rfl⟩
        blocked := hg
        self := queues.self u g hg
        waits := ready_waits queues hgq
        resumes := ?_ }⟩
    · simp only [World.getNextStacklet, l.toCouple.queueEmpty_cons hr, Bool.not_false, if_true,
        l.toCouple.queueHead hr, World.ngxQueueData, ok_bind, World.beforeSwitch]
      rw [check_pos hstate, check_pos (by simp [hn]), check_pos (by simp)]
      rfl
    · intro q t ht
      by_cases hq : q = .ready
      · subst hq
        exact List.mem_of_mem_erase (by simpa [Sched.unlink] using ht)
      · simpa [Sched.unlink, hq] using ht
    · intro x
      simp only [Sched.handOn, hr]
      rw [Sched.resume_unlink hg hgq (queues.nodup .ready)]
  | nil =>
    have he : w.queueEmpty .ready = true := (l.toCouple.queueEmpty .ready).mpr hr
    cases hh : s.hub with
    | running => exact absurd hh l.hubAway
    | suspended ph =>
      have hne := hcur (by simp [hh])
      have hsome : w.hub.current.isSome := Option.isSome_iff_ne_none.mpr hne
      obtain ⟨n, hn, -⟩ := l.hubParked ph hh
      have hn' : w.hub.stacklet = .stack n := (l.departed.stored hne).symm.trans hn
      refine .inr ⟨ph, ?_, rfl, rfl⟩
      simp only [World.getNextStacklet, he, Bool.not_true, World.beforeSwitch]
      rw [if_neg Bool.false_ne_true, if_pos (by simp [hn']), check_pos hsome]
      simp only [ok_bind]
      rw [check_pos (Or.inr hsome)]
      rfl
    | idle =>
      have hnull : w.hub.stacklet = .null := l.hubIdle hh
      obtain ⟨f, hf⟩ := main
      have hm : w.hub.main = s.main := l.main
      obtain ⟨n, hn⟩ := l.stacklet_ne hf (l.current_ne hf)
      have hwait : s.Waits s.main f.pending := by
        have hq := queues.queued
        cases hp : f.pending.queue with
        | none => simp [Sched.Waits, hp]
        | some q =>
          have hmem := (hq q s.main).mpr ⟨f, hf, hp⟩
          cases q with
          | ready => rw [hr] at hmem; cases hmem
          | receivers ch | senders ch => simpa [Sched.Waits, hp] using hmem
      have hinCall : w.env.inCall s.main = s.env.inCall s.main := by rw [l.env]
      refine .inl ⟨w.emit (.fallback (s.env.inCall s.main)), s.emit (.fallback (s.env.inCall s.main)),
        s.main, f, ?_,
        { toLeaving := l.emit _
          hub := rfl
          place := rfl
          queued := fun q t ht => ht
          onlyLog := ⟨[_], rfl⟩
          blocked := hf
          self := queues.self _ f hf
          waits := hwait
          resumes := fun x => by simp only [Sched.handOn, hr, hh]; rfl }⟩
      simp only [World.getNextStacklet, he, Bool.not_true, World.beforeSwitch, hinCall, hm]
      rw [if_neg Bool.false_ne_true, if_neg (by simp [hnull]), check_pos (by simp [hn]),
        check_pos (by simp)]
      rfl

/-- `_get_next_stacklet`, and the switch to the handle it returns. -/
theorem next (l : Leaving w s h .empty died) (queues : s.Queues)
    (main : ∃ f, s.place s.main = .blocked f) (hcur : s.hub ≠ .idle → w.hub.current ≠ none) :
    ∃ w₁ target w' x, w.getNextStacklet = .ok (w₁, target) ∧
      w₁.restore target .empty = .ok w' ∧ Corr w' (s.handOn x died) := by
  rcases l.getNextStacklet queues main hcur with ⟨w₁, s₁, u, f, get, p⟩ | ⟨ph, get, ready, hub⟩
  · obtain ⟨w', hw', corr⟩ := p.toLeaving.restore p.blocked p.self (p.current_ne p.blocked) p.waits
    exact ⟨w₁, _, w', _, get, hw', p.resumes _ ▸ corr⟩
  · obtain ⟨w', hw', corr⟩ := l.restoreHub hub (hcur (by simp [hub]))
    refine ⟨w, _, w', ⟨.null, .null⟩, get, hw', ?_⟩
    simpa only [Sched.handOn, ready, hub] using corr

end Leaving

namespace Couple
variable {w : World} {s : Sched} {h : Option Tid → Handle} {u : Tid} {f : Frame}

theorem withHandleList (c : Couple w s h) (x : Handles) : Couple { w with handles := x } s h :=
  { c with cell := fun u => (c.cell u).congr rfl rfl fun _ => rfl }

/-- Word 2 may be written while its cothread waits for it. -/
theorem setThirdOf (c : Couple w s h) (hu : s.place u = .blocked f)
    (hf : f.pending.state = .channelR ∨ f.pending.state = .waitingGetaddrinfo) (v : Word) :
    Couple (w.setThird u v) s h :=
  { c with
    cell := fun t => by
      by_cases ht : t = u
      · subst ht
        have hc := c.cell t
        rw [hu] at hc ⊢
        refine ⟨by simpa [World.setThird, World.modify] using hc.1, ?_, ?_⟩
        · intro ch v h
          simp [h, Pending.state] at hf
        · intro h
          simp [h, Pending.state] at hf
      · exact (c.cell t).congr (Function.update_of_ne ht _ _) rfl fun _ => rfl }

end Couple

/-- Nothing that a switch reads from the structs has changed. -/
theorem Busy.step {w w' : World} {s s' : Sched} {t : Tid} (b : Busy w s t)
    (c : Couple w' s' w.stored) (hhub : w'.hub = w.hub)
    (hst : ∀ u, (w'.co u).stacklet = (w.co u).stacklet) (hcon : w'.control = w.control)
    (hp : s'.place = s.place) (hh : s'.hub = s.hub) : Busy w' s' t :=
  have heq : w'.stored = w.stored := by
    funext o
    cases o with
    | none => simp [World.stored, hhub]
    | some u => exact hst u
  { toCouple := by rw [heq]; exact c
    place := by rw [hp]; exact b.place
    current := by rw [hhub]; exact b.current
    control := by rw [hcon]; exact b.control
    only := by rw [hp]; exact b.only
    hubAway := by rw [hh]; exact b.hubAway }

namespace Busy
variable {w : World} {s : Sched} {t u : Tid} {f : Frame} {q : QueueId}

theorem mapEnv (b : Busy w s t) (g : Env → Env) :
    Busy { w with env := g w.env } { s with env := g s.env } t :=
  b.step (b.toCouple.mapEnv g) rfl (fun _ => rfl) rfl rfl rfl

theorem emit (b : Busy w s t) (e : Event) : Busy (w.emit e) (s.emit e) t :=
  b.mapEnv fun env => env.emit e

theorem modify (b : Busy w s t) (g : Cothread → Cothread) (hg : ∀ c, (g c).stacklet = c.stacklet) :
    Busy (w.modify t g) s t :=
  b.step (b.toCouple.modify b.place g) rfl
    (fun u => by
      by_cases hu : u = t
      · subst hu; simp [World.modify, hg]
      · simp [World.modify, hu]) rfl rfl rfl

theorem setState (b : Busy w s t) (st : CothreadState) : Busy (w.setState t st) s t :=
  b.modify _ fun _ => rfl

theorem setThird (b : Busy w s t) (v : Word) : Busy (w.setThird t v) s t :=
  b.modify _ fun _ => rfl

theorem setThirdOf (b : Busy w s t) (hu : s.place u = .blocked f)
    (hf : f.pending.state = .channelR ∨ f.pending.state = .waitingGetaddrinfo) (v : Word) :
    Busy (w.setThird u v) s t :=
  b.step (b.toCouple.setThirdOf hu hf v) rfl
    (fun r => by by_cases hr : r = u <;> simp [World.setThird, World.modify, hr]) rfl rfl rfl

theorem withHandleList (b : Busy w s t) (x : Handles) : Busy { w with handles := x } s t :=
  b.step (b.toCouple.withHandleList x) rfl (fun _ => rfl) rfl rfl rfl

theorem push (b : Busy w s t) (hq : ∀ q, t ∉ s.queue q) : Busy (w.insertTail q t) (s.push q t) t :=
  b.step (b.toCouple.push b.place hq) rfl (fun _ => rfl) rfl rfl rfl

theorem unlink (b : Busy w s t) (hu : u ∈ s.queue q) : Busy (w.queueRemove u) (s.unlink q u) t :=
  b.step (b.toCouple.unlink hu) rfl (fun _ => rfl) rfl rfl rfl

theorem initNode (b : Busy w s t) (hq : ∀ q, t ∉ s.queue q) :
    Busy { w with links := w.links.init (.op t) } s t :=
  b.step (b.toCouple.initNode (by simp [b.place]) hq) rfl (fun _ => rfl) rfl rfl rfl

theorem writePrev (b : Busy w s t) (hq : ∀ q, t ∉ s.queue q) (v : Word) :
    Busy { w with links := w.links.writePrev (.op t) v } s t :=
  b.step (b.toCouple.writePrev (by simp [b.place]) hq v) rfl (fun _ => rfl) rfl rfl rfl

theorem suspend (b : Busy w s t) (hcell : Cell w t (.blocked f)) :
    Leaving (w.suspend w.hub.current (.api f)).1 (s.setPlace t (.blocked f))
      (Function.update w.stored (some t) (.stack w.thread.next))
      (w.suspend w.hub.current (.api f)).2 none := by
  rw [b.current]
  exact b.toCouple.leave b.place b.current b.control hcell b.only b.hubAway

/-- `gevent_yield`, once the caller is registered for what it waits for. -/
theorem yield (b : Busy w s t) (hcell : Cell w t (.blocked f))
    (hq : (s.setPlace t (.blocked f)).Queues) (hf : f.pending.queue ≠ some .ready) :
    ∃ w' x, w.yield (.api f) = .ok w' ∧ Corr w' ((s.setPlace t (.blocked f)).yield x) := by
  cases hr : s.queue .ready with
  | nil =>
    have he : w.queueEmpty .ready = true := (b.toCouple.queueEmpty .ready).mpr hr
    obtain ⟨w', hw', corr⟩ := (b.suspend hcell).switchToHub (by simp [b.current])
    refine ⟨w', ⟨.null, .null⟩, by simpa [World.yield, he] using hw', ?_⟩
    have hy : ∀ x, (s.setPlace t (.blocked f)).yield x = (s.setPlace t (.blocked f)).enterHub none := by
      intro x
      simp [Sched.yield, Sched.setPlace, hr]
    rw [hy]
    exact corr
  | cons u us =>
    have he : w.queueEmpty .ready = false := b.toCouple.queueEmpty_cons hr
    have hu : u ∈ s.queue .ready := by simp [hr]
    obtain ⟨g, hg, hgq⟩ := (hq.queued .ready u).mp hu
    have hut : u ≠ t := by
      rintro rfl
      have : f = g := by simpa [Sched.setPlace] using hg
      exact hf (this ▸ hgq)
    have hgs : s.place u = .blocked g := by simpa [Sched.setPlace, hut] using hg
    have hstate : (w.co u).state = .ready := by
      have := b.cell u
      rw [hgs] at this
      exact this.1.trans (Pending.state_ready hgq)
    have hgw : g.pending ≠ .wait := by
      intro h
      rw [h] at hgq
      cases hgq
    have l := (b.unlink hu).suspend (f := f) hcell
    have hself : g.self = u := hq.self u g hg
    have hnd : (s.queue .ready).Nodup := hq.nodup .ready
    have hwait : ((s.unlink .ready u).setPlace t (.blocked f)).Waits u g.pending := by
      simp only [Sched.Waits, hgq]
      simpa [Sched.setPlace, Sched.unlink] using hnd.not_mem_erase
    obtain ⟨w', hw', corr⟩ := l.switch (u := u) (f := g) hg hself
      (by rw [show (w.queueRemove u).hub.current = some t from b.current]; simpa using Ne.symm hut)
      hwait hgw
    refine ⟨w', ⟨((w.queueRemove u).co u).third, (w.queueRemove u).links.links.next (.op u)⟩, ?_, ?_⟩
    · simp only [World.yield, he, Bool.not_false, if_true, b.toCouple.queueHead hr,
        World.ngxQueueData, ok_bind]
      rw [check_pos hstate]
      exact hw'
    · have hy : ∀ x, (s.setPlace t (.blocked f)).yield x =
          (s.setPlace t (.blocked f)).resume u x none := by
        intro x
        simp [Sched.yield, Sched.setPlace, hr]
      rw [hy, ← Sched.resume_unlink hg hgq hnd]
      exact corr

end Busy
end Gevent
