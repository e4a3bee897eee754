import Gevent.Refine.Couple

/-!
# A switch preserves the coupling

A switch leaves one stack and continues another. `Departed` collects the ways a
stack is left; the lemmas about `storeSource`, `afterSwitch` and `restore` hold
for each of them, so that every pair of a departure and an arrival is covered by
one lemma for the departure and one for the arrival.
-/

namespace Gevent
open Intrusive

/-- The stack of `hub->current` has been left, but its handle not stored yet. -/
inductive Departed (w : World) (s : Sched) (h : Option Tid → Handle) : Handle → Option Tid → Prop
  | cothread {t : Tid} {m : Nat} (current : w.hub.current = some t)
      (place : ∃ f, s.place t = .blocked f) (handle : h (some t) = .stack m)
      (others : ∀ o, o ≠ some t → h o = w.stored o) : Departed w s h (.stack m) none
  | died {t : Tid} (current : w.hub.current = some t) (place : s.place t = .dead)
      (main : t ≠ w.hub.main) (state : (w.co t).state = .current)
      (others : ∀ o, h o = w.stored o) : Departed w s h .empty (some t)
  | hub {m : Nat} (current : w.hub.current = none) (place : ∃ ph, s.hub = .suspended ph)
      (handle : h none = .stack m) (others : ∀ o, o ≠ none → h o = w.stored o) :
      Departed w s h (.stack m) none
  | ended (current : w.hub.current = none) (place : s.hub = .idle)
      (others : ∀ o, h o = w.stored o) : Departed w s h .empty none

/-- Every dead cothread is marked as such. -/
def DeadMarked (w : World) (s : Sched) : Prop := ∀ t, s.place t = .dead → (w.co t).state = .dead

/-- What `_after_switch` leaves alone. -/
structure SameMemory (w w' : World) : Prop where
  main : w'.hub.main = w.hub.main
  links : w'.links = w.links
  third : ∀ t, (w'.co t).third = (w.co t).third
  thread : w'.thread = w.thread
  control : w'.control = w.control

theorem Cell.switched {w w' : World} {t : Tid} {p : Place} (hc : Cell w t p) (hco : w'.co t = w.co t)
    (hprev : w'.links = w.links) (dead : p = .dead → (w.co t).state = .dead) : Cell w' t p := by
  cases p with
  | new => simpa only [Cell, hco, hprev] using hc
  | unborn | running => trivial
  | blocked f => simpa only [Cell, hco] using hc
  | dead => exact Or.inl (by rw [hco]; exact dead rfl)

theorem Couple.deadMarked {w : World} {s : Sched} {h : Option Tid → Handle} (c : Couple w s h)
    (hcur : ∀ t, w.hub.current = some t → s.place t ≠ .dead) : DeadMarked w s := by
  intro t ht
  have := c.cell t
  rw [ht] at this
  rcases this with h | h
  · exact h
  · exact absurd ht (hcur t h)

namespace Couple
variable {w : World} {s : Sched} {h : Option Tid → Handle} {t u : Tid} {f : Frame}
  {source : Handle} {died : Option Tid}

theorem storeSource (c : Couple w s h) (d : Departed w s h source died) :
    ∃ w', w.storeSource source = .ok (w', died) ∧ Couple w' s w'.stored ∧ DeadMarked w' s ∧
      w'.hub.current = w.hub.current ∧ w'.env = w.env ∧ SameMemory w w' := by
  cases d with
  | @cothread t m current place handle others =>
    obtain ⟨f, place⟩ := place
    have hstored : (w.setStacklet t (.stack m)).stored = h := by
      funext o
      by_cases ho : o = some t
      · subst ho
        simp [World.stored, World.setStacklet, World.modify, handle]
      · rw [others o ho]
        cases o with
        | none => rfl
        | some u =>
          have hu : u ≠ t := fun he => ho (he ▸ rfl)
          simp [World.stored, World.setStacklet, World.modify, Function.update_of_ne hu]
    have hcell : ∀ u, Cell (w.setStacklet t (.stack m)) u (s.place u) := by
      intro u
      have hc := c.cell u
      by_cases hu : u = t
      · subst hu
        rw [place] at hc ⊢
        simpa [Cell, World.setStacklet, World.modify] using hc
      · exact hc.congr (Function.update_of_ne hu _ _) rfl fun _ => rfl
    refine ⟨w.setStacklet t (.stack m), by simp [World.storeSource, current], ?_, ?_, rfl, rfl, ?_⟩
    · rw [hstored]
      exact { c with cell := hcell }
    · refine Couple.deadMarked { c with cell := hcell } ?_
      intro u hu hdead
      rw [show (w.setStacklet t (.stack m)).hub.current = some t from current] at hu
      cases hu
      rw [place] at hdead
      cases hdead
    · refine ⟨rfl, rfl, fun u => ?_, rfl, rfl⟩
      by_cases hu : u = t <;> simp [World.setStacklet, World.modify, hu]
  | @died t current place main state others =>
    let w' := (w.setState t .dead).setStacklet t .null
    have hco : ∀ u, u ≠ t → w'.co u = w.co u := by
      intro u hu
      simp [w', World.setStacklet, World.setState, World.modify, Function.update_of_ne hu]
    have hdead : (w'.co t).state = .dead := by
      simp [w', World.setStacklet, World.setState, World.modify]
    have hcell : ∀ u, Cell w' u (s.place u) := by
      intro u
      by_cases hu : u = t
      · subst hu; rw [place]; exact Or.inl hdead
      · exact (c.cell u).congr (hco u hu) rfl fun _ => rfl
    have hw' : Couple w' s h := { c with cell := hcell }
    refine ⟨w', by simp [World.storeSource, current, main, state, w'], ?_, ?_, rfl, rfl, ?_⟩
    · refine hw'.withHandles ?_ fun _ _ => (others none).symm
      intro u f hf
      have hu : u ≠ t := by rintro rfl; rw [place] at hf; cases hf
      rw [others (some u)]
      simp [World.stored, hco u hu]
    · intro u hu
      by_cases hut : u = t
      · subst hut; exact hdead
      · have := c.cell u
        rw [hu] at this
        rw [hco u hut]
        rcases this with h1 | h1
        · exact h1
        · rw [current] at h1; exact absurd (Option.some.inj h1).symm hut
    · refine ⟨rfl, rfl, fun u => ?_, rfl, rfl⟩
      by_cases hu : u = t
      · subst hu; simp [w', World.setStacklet, World.setState, World.modify]
      · rw [hco u hu]
  | @hub m current place handle others =>
    obtain ⟨ph, place⟩ := place
    let w' : World := { w with hub := { w.hub with stacklet := .stack m } }
    have hstored : w'.stored = h := by
      funext o
      cases o with
      | none => exact handle.symm
      | some u => exact (others (some u) (by simp)).symm
    have hw' : Couple w' s h :=
      { c with
        hubIdle := fun hi => by rw [place] at hi; cases hi
        cell := fun u => (c.cell u).congr rfl rfl fun _ => rfl }
    refine ⟨w', by simp [World.storeSource, current, w'], hstored ▸ hw', ?_, rfl, rfl,
      rfl, rfl, fun _ => rfl, rfl, rfl⟩
    exact hw'.deadMarked fun u hu => by
      rw [show w'.hub.current = none from current] at hu; cases hu
  | ended current place others =>
    let w' : World := { w with hub := { w.hub with stacklet := .null } }
    have hw' : Couple w' s h :=
      { c with
        hubIdle := fun _ => rfl
        cell := fun u => (c.cell u).congr rfl rfl fun _ => rfl }
    refine ⟨w', by simp [World.storeSource, current, w'], ?_, ?_, rfl, rfl,
      rfl, rfl, fun _ => rfl, rfl, rfl⟩
    · refine hw'.withHandles (fun u _ _ => (others (some u)).symm) fun ph hph => ?_
      rw [place] at hph; cases hph
    · exact hw'.deadMarked fun u hu => by
        rw [show w'.hub.current = none from current] at hu; cases hu

/-! ## The stack that continues -/

theorem take (c : Couple w s h) (hu : s.place u = .new) : Couple w (s.setPlace u .running) h :=
  { c with
    linked := fun q t ht => by
      by_cases htu : t = u
      · subst htu; simp [Sched.setPlace]
      · simpa [Sched.setPlace, htu] using c.linked q t ht
    parked := fun t f ht => by
      by_cases htu : t = u
      · subst htu; simp [Sched.setPlace] at ht
      · exact c.parked t f (by simpa [Sched.setPlace, htu] using ht)
    owned := fun n st hst => by
      obtain ⟨ho, he⟩ := c.owned n st hst
      refine ⟨ho, ?_⟩
      obtain ⟨_ | t, current, k⟩ := st
      · exact he
      · obtain ⟨f, hf, hst'⟩ := he
        have htu : t ≠ u := by rintro rfl; rw [hu] at hf; cases hf
        exact ⟨f, by simpa [Sched.setPlace, htu] using hf, hst'⟩
    cell := fun t => by
      by_cases htu : t = u
      · subst htu; simp [Sched.setPlace, Cell]
      · simpa [Sched.setPlace, htu] using c.cell t }

theorem takeHub (c : Couple w s h) (hi : s.hub = .idle) : Couple w { s with hub := .running } h :=
  { c with
    hubParked := fun _ h => by cases h
    hubIdle := fun h => by cases h
    owned := fun n st hst => by
      obtain ⟨ho, he⟩ := c.owned n st hst
      refine ⟨ho, ?_⟩
      obtain ⟨_ | t, current, k⟩ := st
      · obtain ⟨ph, hph, -⟩ := he
        rw [hi] at hph; cases hph
      · exact he }

end Couple

/-- The stack of handle `n` is used up. -/
def World.consume (w : World) (n : Nat) : World :=
  { w with thread := { w.thread with
      suspended := Function.update w.thread.suspended n none
      used := .stack n :: w.thread.used } }

theorem World.restore_stack {w : World} {n : Nat} {st : Stack} (source : Handle)
    (hst : w.thread.suspended n = some st) :
    w.restore (.stack n) source = (w.consume n).resume st source := by
  simp [World.restore, World.consume, hst]

namespace Couple
variable {w : World} {s : Sched} {h : Option Tid → Handle} {t u : Tid} {f : Frame}
  {source : Handle} {died : Option Tid} {n : Nat} {st : Stack}

theorem lt_next (c : Couple w s h) (hst : w.thread.suspended n = some st) : n < w.thread.next := by
  rcases Nat.lt_or_ge n w.thread.next with hlt | hge
  · exact hlt
  · rw [c.fresh n hge] at hst; cases hst

theorem not_used (c : Couple w s h) (hst : w.thread.suspended n = some st) :
    Handle.stack n ∉ w.thread.used := by
  intro hm
  obtain ⟨m, hm, -, hnone⟩ := c.used _ hm
  cases hm
  rw [hst] at hnone; cases hnone

theorem consume_fresh (c : Couple w s h) (m : Nat) (hm : w.thread.next ≤ m) :
    (w.consume n).thread.suspended m = none := by
  by_cases hmn : m = n <;> simp [World.consume, hmn, c.fresh m hm]

theorem consume_used (c : Couple w s h) (hst : w.thread.suspended n = some st) :
    ∀ x ∈ (w.consume n).thread.used,
      ∃ m, x = .stack m ∧ m < w.thread.next ∧ (w.consume n).thread.suspended m = none := by
  intro x hx
  rcases List.mem_cons.mp hx with rfl | hx
  · exact ⟨n, rfl, c.lt_next hst, by simp [World.consume]⟩
  · obtain ⟨m, rfl, hm, hnone⟩ := c.used x hx
    refine ⟨m, rfl, hm, ?_⟩
    by_cases hmn : m = n <;> simp [World.consume, hmn, hnone]

/-- A stack other than the consumed one belongs to somebody else. -/
theorem consume_owned (c : Couple w s h) (hst : w.thread.suspended n = some st) {m : Nat} {st' : Stack}
    (hm : (w.consume n).thread.suspended m = some st') :
    st'.owner ≠ st.owner ∧ h st'.owner = .stack m ∧ s.Expects st' := by
  have hmn : m ≠ n := by rintro rfl; simp [World.consume] at hm
  obtain ⟨ho, he⟩ := c.owned m st' (by simpa [World.consume, hmn] using hm)
  refine ⟨fun heq => hmn ?_, ho, he⟩
  rw [heq, (c.owned n st hst).1] at ho
  exact (Handle.stack.inj ho).symm

theorem consume (c : Couple w s h) (hp : s.place u = .blocked f)
    (hst : w.thread.suspended n = some ⟨some u, some u, .api f⟩) :
    Couple (w.consume n) (s.setPlace u .running) h :=
  { c with
    linked := fun q t ht => by
      by_cases htu : t = u
      · subst htu; simp [Sched.setPlace]
      · simpa [Sched.setPlace, htu] using c.linked q t ht
    fresh := c.consume_fresh
    parked := fun t g ht => by
      have htu : t ≠ u := by rintro rfl; simp [Sched.setPlace] at ht
      obtain ⟨m, hm, hsm⟩ := c.parked t g (by simpa [Sched.setPlace, htu] using ht)
      have hmn : m ≠ n := by
        rintro rfl
        rw [hst] at hsm
        simp only [Option.some.injEq, Stack.mk.injEq] at hsm
        exact htu hsm.1.symm
      exact ⟨m, hm, by simpa [World.consume, hmn] using hsm⟩
    hubParked := fun ph hph => by
      obtain ⟨m, hm, hsm⟩ := c.hubParked ph hph
      have hmn : m ≠ n := by
        rintro rfl
        rw [hst] at hsm; simp at hsm
      exact ⟨m, hm, by simpa [World.consume, hmn] using hsm⟩
    owned := fun m st' hm => by
      obtain ⟨hne, ho, he⟩ := c.consume_owned hst hm
      refine ⟨ho, ?_⟩
      obtain ⟨_ | t, current, k⟩ := st'
      · exact he
      · obtain ⟨g, hg, heq⟩ := he
        have htu : t ≠ u := fun h => hne (by rw [h])
        exact ⟨g, by simpa [Sched.setPlace, htu] using hg, heq⟩
    usedNodup := List.nodup_cons.mpr ⟨c.not_used hst, c.usedNodup⟩
    used := c.consume_used hst
    cell := fun t => by
      by_cases htu : t = u
      · subst htu; simp [Sched.setPlace, Cell]
      · have := (c.cell t).congr (show (w.consume n).co t = w.co t from rfl) rfl fun _ => rfl
        simpa [Sched.setPlace, htu] using this }

theorem consumeHub (c : Couple w s h) {ph : Phase}
    (hst : w.thread.suspended n = some ⟨none, none, .callback ph⟩) :
    Couple (w.consume n) { s with hub := .running } h :=
  { c with
    fresh := c.consume_fresh
    parked := fun t g ht => by
      obtain ⟨m, hm, hsm⟩ := c.parked t g ht
      have hmn : m ≠ n := by
        rintro rfl
        rw [hst] at hsm; simp at hsm
      exact ⟨m, hm, by simpa [World.consume, hmn] using hsm⟩
    hubParked := fun _ h => by cases h
    hubIdle := fun h => by cases h
    owned := fun m st' hm => by
      obtain ⟨hne, ho, he⟩ := c.consume_owned hst hm
      refine ⟨ho, ?_⟩
      obtain ⟨_ | t, current, k⟩ := st'
      · exact absurd rfl hne
      · exact he
    usedNodup := List.nodup_cons.mpr ⟨c.not_used hst, c.usedNodup⟩
    used := c.consume_used hst
    cell := fun t => (c.cell t).congr rfl rfl fun _ => rfl }

/-! ## After the switch -/

theorem callExitFn (c : Couple w s h) (died : Option Tid) :
    Couple (w.callExitFn died) { s with env := s.env.callExitFn died } h :=
  c.mapEnv fun e => e.callExitFn died

theorem setCurrent (c : Couple w s w.stored) (dead : DeadMarked w s) (hu : s.place u = .running) :
    Couple (w.setCurrent (some u)) (s.emit (.switched (some u))) (w.setCurrent (some u)).stored := by
  have hco : ∀ t, t ≠ u → (w.setCurrent (some u)).co t = w.co t := by
    intro t ht
    simp [World.setCurrent, World.setStacklet, World.setState, World.modify, World.emit,
      Function.update_of_ne ht]
  have hc : Couple (w.setCurrent (some u)) (s.emit (.switched (some u))) w.stored :=
    { c.emit (.switched (some u)) with
      cell := fun t => by
        by_cases ht : t = u
        · subst ht
          rw [show (s.emit (.switched (some t))).place t = .running from hu]
          trivial
        · exact (c.cell t).switched (hco t ht) rfl (dead t) }
  refine hc.withHandles ?_ fun _ _ => rfl
  intro t f hf
  have ht : t ≠ u := by
    rintro rfl
    rw [show (s.emit (.switched (some t))).place t = .running from hu] at hf
    cases hf
  simp [World.stored, hco t ht]

theorem setCurrentHub (c : Couple w s w.stored) (dead : DeadMarked w s) (hr : s.hub = .running) :
    Couple (w.setCurrent none) (s.emit (.switched none)) (w.setCurrent none).stored := by
  have hc : Couple (w.setCurrent none) (s.emit (.switched none)) w.stored :=
    { c.emit (.switched none) with
      hubIdle := fun _ => rfl
      cell := fun t => (c.cell t).switched rfl rfl (dead t) }
  refine hc.withHandles (fun _ _ _ => rfl) ?_
  intro ph hph
  rw [show (s.emit (.switched none)).hub = .running from hr] at hph
  cases hph

end Couple

/-- What a resumed or started stack finds after `_after_switch`. -/
structure Arrived (w w' : World) (s : Sched) (new died : Option Tid) : Prop extends
    Couple w' (s.switched new died) w'.stored where
  same : SameMemory w w'
  current : w'.hub.current = new
  fresh_current : ∀ u, new = some u → (w'.co u).state = .current ∧ (w'.co u).stacklet = .null
  hubNull : new = none → w'.hub.stacklet = .null

theorem Departed.source_ne {w : World} {s : Sched} {h : Option Tid → Handle} {source : Handle}
    {died : Option Tid} (d : Departed w s h source died) : source ≠ .null := by
  cases d <;> simp

namespace Couple
variable {w : World} {s : Sched} {h : Option Tid → Handle} {t u : Tid} {f : Frame}
  {source : Handle} {died : Option Tid} {n : Nat} {st : Stack}

theorem afterSwitch (c : Couple w s h) (d : Departed w s h source died)
    (hu : s.place u = .running) (hne : w.hub.current ≠ some u) :
    ∃ w', w.afterSwitch (some u) source = .ok w' ∧ Arrived w w' s (some u) died := by
  obtain ⟨w₁, hstore, c₁, dead, hcur, -, same⟩ := c.storeSource d
  refine ⟨(w₁.setCurrent (some u)).callExitFn died, ?_, ?_⟩
  · simp [World.afterSwitch, d.source_ne, hstore, hcur, hne]
  · refine ⟨(c₁.setCurrent dead hu).callExitFn died, ⟨same.main, same.links, ?_, same.thread,
      same.control⟩, rfl, ?_, fun h => by cases h⟩
    · intro t
      rw [← same.third t]
      by_cases ht : t = u <;>
        simp [World.callExitFn, World.setCurrent, World.setStacklet, World.setState, World.modify,
          World.emit, ht]
    · rintro _ ⟨⟩
      simp [World.callExitFn, World.setCurrent, World.setStacklet, World.setState, World.modify]

theorem afterSwitchHub (c : Couple w s h) (d : Departed w s h source died)
    (hr : s.hub = .running) (hne : w.hub.current ≠ none) :
    ∃ w', w.afterSwitch none source = .ok w' ∧ Arrived w w' s none died := by
  obtain ⟨w₁, hstore, c₁, dead, hcur, -, same⟩ := c.storeSource d
  refine ⟨(w₁.setCurrent none).callExitFn died, ?_, ?_⟩
  · simp [World.afterSwitch, d.source_ne, hstore, hcur, hne]
  · exact ⟨(c₁.setCurrentHub dead hr).callExitFn died, ⟨same.main, same.links, same.third,
      same.thread, same.control⟩, rfl, (fun _ h => by cases h), fun _ => rfl⟩

end Couple
end Gevent
