import Gevent.Refine.Scribble
import Gevent.Refine.Busy

/-!
# What a switch leaves alone

A scribble is `Clear` when it only covers the structs of dead cothreads, and the
link words of those that wait for a timer or for nothing. The functions that
leave one stack and continue another commute with it; the lemmas follow those of
the refinement.
-/

namespace Gevent
open Intrusive

/-- The links of a cothread in this place are in use. -/
def Place.UsesLinks : Place → Prop
  | .new => True
  | .blocked f => f.pending ≠ .sleep ∧ f.pending ≠ .wait
  | .unborn | .running | .dead => False

/-- Only dead structs and idle links are scribbled over. -/
structure Scribble.Clear (j : Scribble) (s : Sched) : Prop where
  structs : ∀ t, s.place t ≠ .unborn → s.place t ≠ .dead → j.Spares t
  links : ∀ t, (s.place t).UsesLinks → j.SparesLinks t
  queued : ∀ q, ∀ t ∈ s.queue q, j.SparesLinks t

namespace Scribble.Clear
variable {j : Scribble} {s s' : Sched} {t u : Tid} {f : Frame} {q : QueueId}

theorem blocked (hj : j.Clear s) (h : s.place t = .blocked f) : j.Spares t :=
  hj.structs t (by simp [h]) (by simp [h])

theorem congr (hj : j.Clear s) (hp : s'.place = s.place) (hq : s'.queue = s.queue) : j.Clear s' where
  structs := by rw [hp]; exact hj.structs
  links := by rw [hp]; exact hj.links
  queued := by rw [hq]; exact hj.queued

theorem push (hj : j.Clear s) (ht : j.SparesLinks t) : j.Clear (s.push q t) where
  structs := hj.structs
  links := hj.links
  queued q' u hu := by
    by_cases h : q' = q
    · subst h
      have hu : u ∈ s.queue q' ∨ u = t := by simpa [Sched.push] using hu
      rcases hu with hu | rfl
      · exact hj.queued _ u hu
      · exact ht
    · exact hj.queued q' u (by simpa [Sched.push, h] using hu)

theorem unlink (hj : j.Clear s) : j.Clear (s.unlink q u) where
  structs := hj.structs
  links := hj.links
  queued q' t ht := by
    by_cases h : q' = q
    · subst h
      exact hj.queued _ t (List.mem_of_mem_erase (by simpa [Sched.unlink] using ht))
    · exact hj.queued q' t (by simpa [Sched.unlink, h] using ht)

/-- A running cothread blocks. -/
theorem setPlace (hj : j.Clear s) (ht : j.Spares t)
    (hl : f.pending ≠ .sleep → f.pending ≠ .wait → j.SparesLinks t) :
    j.Clear (s.setPlace t (.blocked f)) where
  structs u := by
    by_cases hu : u = t
    · subst hu
      exact fun _ _ => ht
    · simpa [Sched.setPlace, hu] using hj.structs u
  links u := by
    by_cases hu : u = t
    · subst hu
      intro h
      simp only [Sched.setPlace, Function.update_self, Place.UsesLinks] at h
      exact hl h.1 h.2
    · simpa [Sched.setPlace, hu] using hj.links u
  queued := hj.queued

/-- A running cothread dies. -/
theorem die (hj : j.Clear s) : j.Clear (s.setPlace t .dead) where
  structs u hb hd := by
    have hu : u ≠ t := by
      rintro rfl
      exact hd (by simp [Sched.setPlace])
    exact hj.structs u (by simpa [Sched.setPlace, hu] using hb) (by simpa [Sched.setPlace, hu] using hd)
  links u h := by
    have hu : u ≠ t := by
      rintro rfl
      simp [Sched.setPlace, Place.UsesLinks] at h
    exact hj.links u (by simpa [Sched.setPlace, hu] using h)
  queued := hj.queued

end Scribble.Clear

namespace Couple
variable {w : World} {s : Sched} {h : Option Tid → Handle} {j : Scribble} {t u : Tid} {q : QueueId}

/-- A queue and what it holds are spared, so the neighbours in it are. -/
theorem neighbours (c : Couple w s h) (hj : ∀ q, ∀ t ∈ s.queue q, j.SparesLinks t) {x : Word}
    (hx : x ∈ Word.head q :: Intrusive.contents w.links.history (.head q)) :
    j.words.Spares (w.links.links.prev x) ∧ j.words.Spares (w.links.links.next x) := by
  refine c.good.neighbours (Word.isHead_head q) hx fun y hy => ?_
  rcases List.mem_cons.mp hy with rfl | hy
  · exact j.spares_head q
  · rw [c.contents] at hy
    obtain ⟨t, ht, rfl⟩ := List.mem_map.mp hy
    exact hj q t ht

theorem queued_neighbours (c : Couple w s h) (hj : ∀ q, ∀ t ∈ s.queue q, j.SparesLinks t)
    (ht : t ∈ s.queue q) :
    j.words.Spares (w.links.links.prev (.op t)) ∧ j.words.Spares (w.links.links.next (.op t)) :=
  c.neighbours hj (List.mem_cons_of_mem _ (c.mem_contents.mpr ht))

theorem scribble_insertTail (c : Couple w s h) (hj : ∀ q, ∀ t ∈ s.queue q, j.SparesLinks t)
    (ht : j.SparesLinks t) : (w.scribble j).insertTail q t = (w.insertTail q t).scribble j :=
  World.scribble_insertTail ht (c.neighbours hj List.mem_cons_self).1

theorem scribble_queueRemove (c : Couple w s h) (hj : ∀ q, ∀ t ∈ s.queue q, j.SparesLinks t)
    (ht : t ∈ s.queue q) : (w.scribble j).queueRemove t = (w.queueRemove t).scribble j :=
  have hn := c.queued_neighbours hj ht
  World.scribble_queueRemove (hj q t ht) hn.1 hn.2

end Couple

theorem Picked.clear {w w₁ : World} {s s₁ : Sched} {h : Option Tid → Handle} {died : Option Tid}
    {u : Tid} {f : Frame} {j : Scribble} (p : Picked w w₁ s s₁ h died u f) (hj : j.Clear s) :
    j.Clear s₁ where
  structs := by rw [p.place]; exact hj.structs
  links := by rw [p.place]; exact hj.links
  queued q t ht := hj.queued q t (p.queued q t ht)

/-! ## Stacks that continue or start -/

namespace World

/-- `resume` from the return of `_after_switch`. -/
def proceed (w : World) (s : Stack) : Except Fault World :=
  match s.owner, s.cont with
  | some owner, .api f => do
    let (w, r) ← w.afterYield f
    .ok { w with env := w.env.returnCall f r, control := .user owner }
  | none, .callback phase => .ok { w with control := .hub phase }
  | _, _ => .error .notRunning

theorem resume_eq (w : World) (s : Stack) (source : Handle) :
    w.resume s source = w.afterSwitch s.current source >>= fun w => w.proceed s := rfl

end World

namespace Leaving
variable {w : World} {s : Sched} {h : Option Tid → Handle} {t u : Tid} {f : Frame} {k : Cont}
  {source : Handle} {died : Option Tid} {ph : Phase} {j : Scribble}

/-- What is left of the call of `u` once `_after_switch` has returned. -/
theorem scribble_proceed (l : Leaving w s h source died) (hj : j.Clear s) (hp : s.place u = .blocked f)
    (hself : f.self = u) (hwait : s.Waits u f.pending) {w₁ : World} (hlinks : w₁.links = w.links) :
    (w₁.scribble j).proceed ⟨some u, some u, .api f⟩ =
      (·.scribble j) <$> w₁.proceed ⟨some u, some u, .api f⟩ := by
  have hyield : (w₁.scribble j).afterYield f =
      (fun p => (p.1.scribble j, p.2)) <$> w₁.afterYield f := by
    refine World.scribble_afterYield (hself ▸ hj.blocked hp) (fun h1 h2 => ?_) fun q hq hr => ?_
    · rw [hself]
      exact hj.links u (by rw [hp]; exact ⟨h1, h2⟩)
    · rw [hlinks, hself]
      refine l.toCouple.queued_neighbours (q := q) hj.queued ?_
      simp only [Sched.Waits, hq] at hwait
      cases q with
      | ready => exact absurd rfl hr
      | receivers ch | senders ch => exact hwait
  simp only [World.proceed, hyield, map_bind, bind_map_left]
  rfl

theorem scribble_restore (l : Leaving w s h source died) (hj : j.Clear s)
    (left : ∀ t, w.hub.current = some t → j.Spares t) (hp : s.place u = .blocked f)
    (hself : f.self = u) (hcur : w.hub.current ≠ some u) (hwait : s.Waits u f.pending) :
    (w.scribble j).restore (w.co u).stacklet source =
      (·.scribble j) <$> w.restore (w.co u).stacklet source := by
  obtain ⟨n, w₁, hn, hst, h₁, a⟩ := l.arrive hp hcur
  have hu : j.Spares u := hj.blocked hp
  have hswitch : ((w.consume n).scribble j).afterSwitch (some u) source = .ok (w₁.scribble j) := by
    rw [World.scribble_afterSwitch (w := w.consume n) left (by rintro _ ⟨⟩; exact hu), h₁]
    rfl
  rw [hn, World.restore_stack source hst, World.restore_stack (w := w.scribble j) source hst]
  change ((w.consume n).scribble j).resume _ source = _
  rw [World.resume_eq, World.resume_eq, hswitch, h₁]
  exact l.scribble_proceed hj hp hself hwait a.same.links

theorem scribble_restoreHub (l : Leaving w s h source died)
    (left : ∀ t, w.hub.current = some t → j.Spares t) (hs : s.hub = .suspended ph)
    (hcur : w.hub.current ≠ none) :
    (w.scribble j).restore w.hub.stacklet source = (·.scribble j) <$> w.restore w.hub.stacklet source := by
  obtain ⟨n, hn, hst⟩ := l.hubParked ph hs
  have hstored : w.hub.stacklet = .stack n := (l.departed.stored hcur).symm.trans hn
  have hswitch : ((w.consume n).scribble j).afterSwitch none source =
      (·.scribble j) <$> (w.consume n).afterSwitch none source :=
    World.scribble_afterSwitch (w := w.consume n) left (by simp) source
  rw [hstored, World.restore_stack source hst, World.restore_stack (w := w.scribble j) source hst]
  change ((w.consume n).scribble j).resume _ source = _
  simp only [World.resume, hswitch, map_bind, bind_map_left]
  rfl

theorem scribble_start (hj : j.Clear s) (left : ∀ t, w.hub.current = some t → j.Spares t)
    (hp : s.place u = .new) (source : Handle) :
    (w.scribble j).cothreadStarterFn source u = (·.scribble j) <$> w.cothreadStarterFn source u := by
  have hu : j.Spares u := hj.structs u (by simp [hp]) (by simp [hp])
  have hl : j.SparesLinks u := hj.links u (by rw [hp]; trivial)
  simp only [World.cothreadStarterFn, World.scribble_op_prev hl, World.scribble_co hu,
    World.scribble_afterSwitch left (n := some u) (by rintro _ ⟨⟩; exact hu), map_bind,
    bind_map_left]
  rfl

theorem scribble_startHub (left : ∀ t, w.hub.current = some t → j.Spares t) (source : Handle) :
    (w.scribble j).hubStarterFn source = (·.scribble j) <$> w.hubStarterFn source := by
  simp only [World.hubStarterFn, World.scribble_afterSwitch left (n := none) (by simp), map_bind,
    bind_map_left]
  rfl

/-! ## `gevent_switch`, `gevent_switch_to_hub`, `_get_next_stacklet` -/

theorem scribble_switch
    (l : Leaving (w.suspend w.hub.current k).1 s h (w.suspend w.hub.current k).2 none)
    (hj : j.Clear s) (left : ∀ t, w.hub.current = some t → j.Spares t)
    (hu : s.place u = .blocked f) (hself : f.self = u) (hcur : w.hub.current ≠ some u)
    (hwait : s.Waits u f.pending) (hp : f.pending ≠ .wait) :
    (w.scribble j).switch u k = (·.scribble j) <$> w.switch u k := by
  have hstate : (w.co u).state = f.pending.state := by
    have := l.cell u
    rw [hu] at this
    exact this.1
  obtain ⟨-, -, h3⟩ := Pending.state_ne hp
  have hrest : ((w.suspend w.hub.current k).1.scribble j).restore (w.co u).stacklet
      (w.suspend w.hub.current k).2 = _ := l.scribble_restore hj left hu hself hcur hwait
  simp only [World.switch, World.scribble_hub, World.scribble_co (hj.blocked hu), World.beforeSwitch,
    hstate, if_neg h3, map_bind, World.stackletSwitch]
  iterate 6 refine bind_congr fun _ => ?_
  exact hrest

theorem scribble_switchNew
    (l : Leaving (w.suspend w.hub.current k).1 s h (w.suspend w.hub.current k).2 none)
    (hj : j.Clear s) (left : ∀ t, w.hub.current = some t → j.Spares t) (hu : s.place u = .new) :
    (w.scribble j).switch u k = (·.scribble j) <$> w.switch u k := by
  have hs : j.Spares u := hj.structs u (by simp [hu]) (by simp [hu])
  have hl : j.SparesLinks u := hj.links u (by rw [hu]; trivial)
  have hstate : (w.co u).state = .new := by
    have hc : Cell (w.suspend w.hub.current k).1 u .new := hu ▸ l.cell u
    exact hc.1
  have hstart : ((w.suspend w.hub.current k).1.scribble j).cothreadStarterFn
      (w.suspend w.hub.current k).2 u = _ :=
    scribble_start (w := (w.suspend w.hub.current k).1) hj left hu (w.suspend w.hub.current k).2
  simp only [World.switch, World.scribble_hub, World.scribble_co hs, World.beforeSwitch, hstate,
    if_true, World.scribble_op_prev hl, map_bind]
  iterate 6 refine bind_congr fun _ => ?_
  exact hstart

theorem scribble_switchToHub
    (l : Leaving (w.suspend w.hub.current k).1 s h (w.suspend w.hub.current k).2 none)
    (left : ∀ t, w.hub.current = some t → j.Spares t) (hcur : w.hub.current ≠ none) :
    (w.scribble j).switchToHub k = (·.scribble j) <$> w.switchToHub k := by
  cases hs : s.hub with
  | running => exact absurd hs l.hubAway
  | suspended ph =>
    obtain ⟨n, hn, -⟩ := l.hubParked ph hs
    have hn' : w.hub.stacklet = .stack n := (l.departed.stored hcur).symm.trans hn
    have hrest : ((w.suspend w.hub.current k).1.scribble j).restore w.hub.stacklet
        (w.suspend w.hub.current k).2 = _ := l.scribble_restoreHub left hs hcur
    simp only [World.switchToHub, World.scribble_hub, World.beforeSwitch, map_bind]
    iterate 2 refine bind_congr fun _ => ?_
    rw [if_pos (by simp [hn']), if_pos (by simp [hn']), map_bind]
    exact bind_congr fun _ => hrest
  | idle =>
    have hn' : w.hub.stacklet = .null := l.hubIdle hs
    have hstart : ((w.suspend w.hub.current k).1.scribble j).hubStarterFn
        (w.suspend w.hub.current k).2 = _ :=
      scribble_startHub (w := (w.suspend w.hub.current k).1) left (w.suspend w.hub.current k).2
    simp only [World.switchToHub, World.scribble_hub, World.beforeSwitch, map_bind]
    iterate 2 refine bind_congr fun _ => ?_
    rw [if_neg (by simp [hn']), if_neg (by simp [hn'])]
    exact hstart

theorem scribble_getNextStacklet (l : Leaving w s h .empty died) (queues : s.Queues)
    (main : ∃ f, s.place s.main = .blocked f) (hj : j.Clear s) :
    (w.scribble j).getNextStacklet =
      (fun p => (p.1.scribble j, p.2)) <$> w.getNextStacklet := by
  cases hr : s.queue .ready with
  | cons u us =>
    have hu : u ∈ s.queue .ready := by simp [hr]
    obtain ⟨g, hg, -⟩ := (queues.queued .ready u).mp hu
    simp only [World.getNextStacklet, World.scribble_queueEmpty, World.scribble_queueHead,
      l.toCouple.queueEmpty_cons hr, Bool.not_false, if_true, l.toCouple.queueHead hr, World.ngxQueueData,
      ok_bind, World.scribble_co (hj.blocked hg), l.toCouple.scribble_queueRemove hj.queued hu,
      World.beforeSwitch, map_bind]
    rfl
  | nil =>
    have he : w.queueEmpty .ready = true := (l.toCouple.queueEmpty .ready).mpr hr
    obtain ⟨f, hf⟩ := main
    have hm : w.hub.main = s.main := l.main
    simp only [World.getNextStacklet, World.scribble_queueEmpty, he, Bool.not_true,
      Bool.false_eq_true, if_false, World.scribble_hub, World.beforeSwitch, hm,
      World.scribble_co (hj.blocked hf)]
    split <;> simp only [map_bind] <;> rfl

theorem scribble_next (l : Leaving w s h .empty died) (queues : s.Queues)
    (main : ∃ f, s.place s.main = .blocked f) (hcur : s.hub ≠ .idle → w.hub.current ≠ none)
    (hj : j.Clear s) (left : ∀ t, w.hub.current = some t → j.Spares t) :
    ((w.scribble j).getNextStacklet >>= fun p => p.1.restore p.2 .empty) =
      (·.scribble j) <$> (w.getNextStacklet >>= fun p => p.1.restore p.2 .empty) := by
  rw [l.scribble_getNextStacklet queues main hj, bind_map_left]
  rcases l.getNextStacklet queues main hcur with ⟨w₁, s₁, u, f, get, p⟩ | ⟨ph, get, -, hub⟩
  · rw [get]
    exact p.toLeaving.scribble_restore (p.clear hj) (by rwa [p.hub]) p.blocked p.self
      (p.current_ne p.blocked) p.waits
  · rw [get]
    exact l.scribble_restoreHub left hub (hcur (by simp [hub]))

end Leaving

/-! ## `gevent_yield` -/

namespace Busy
variable {w : World} {s : Sched} {t u : Tid} {f : Frame} {j : Scribble}

theorem scribble_yield (b : Busy w s t) (hcell : Cell w t (.blocked f))
    (hq : (s.setPlace t (.blocked f)).Queues) (hf : f.pending.queue ≠ some .ready)
    (hj : j.Clear (s.setPlace t (.blocked f))) :
    (w.scribble j).yield (.api f) = (·.scribble j) <$> w.yield (.api f) := by
  have ht : j.Spares t := hj.blocked (f := f) (by simp [Sched.setPlace])
  have left : ∀ u, w.hub.current = some u → j.Spares u := by
    intro u hu
    rw [b.current] at hu
    cases hu
    exact ht
  cases hr : s.queue .ready with
  | nil =>
    have he : w.queueEmpty .ready = true := (b.toCouple.queueEmpty .ready).mpr hr
    simp only [World.yield, World.scribble_queueEmpty, he, Bool.not_true, Bool.false_eq_true, if_false]
    exact (b.suspend hcell).scribble_switchToHub left (by simp [b.current])
  | cons u us =>
    have he : w.queueEmpty .ready = false := b.toCouple.queueEmpty_cons hr
    have hu : u ∈ s.queue .ready := by simp [hr]
    obtain ⟨g, hg, hgq⟩ := (hq.queued .ready u).mp hu
    have hut : u ≠ t := by
      rintro rfl
      have : f = g := by simpa [Sched.setPlace] using hg
      exact hf (this ▸ hgq)
    have hgw : g.pending ≠ .wait := by
      intro h
      rw [h] at hgq
      cases hgq
    have hrest : ((w.queueRemove u).scribble j).switch u (.api f) = _ :=
      ((b.unlink hu).suspend (f := f) hcell).scribble_switch (u := u) (f := g) hj.unlink left hg
        (hq.self u g hg)
        (by rw [show (w.queueRemove u).hub.current = some t from b.current]; simpa using Ne.symm hut)
        (Leaving.ready_waits (s := s.setPlace t (.blocked f)) hq hgq) hgw
    have hremove : (w.scribble j).queueRemove u = (w.queueRemove u).scribble j :=
      b.toCouple.scribble_queueRemove hj.queued hu
    simp only [World.yield, World.scribble_queueEmpty, World.scribble_queueHead, he, Bool.not_false,
      if_true, b.toCouple.queueHead hr, World.ngxQueueData, ok_bind, World.scribble_co (hj.blocked hg),
      hremove, map_bind]
    exact bind_congr fun _ => hrest

end Busy

end Gevent
