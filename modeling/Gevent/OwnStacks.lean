import Gevent.Process

/-!
# Every cothread keeps its stack

Cothreads run on one C stack, and write to the same addresses in turn. A
cothread that loses control finds its bytes again when control is back
(`cothread_stack_returns`).
-/

namespace Gevent
open Stacklet (Ptr Program)

namespace Process
variable {x x' : Process} {stackmarker sp stackmarker' sp' n : Nat} {p p' : Ptr} {st : Stack}
  {img : Stacklet.Image}

/-- The stack of `st` is suspended under the handle `n`, and stacklet.c has its
image at `p`. -/
structure Parked (x : Process) (n : Nat) (st : Stack) (p : Ptr) (img : Stacklet.Image) : Prop where
  suspended : x.world.thread.suspended n = some st
  ptr : x.ptr n = p
  image : ∃ t, Stacklet.Represents x.program t ∧ t.suspended p = some img

/-- The executing stack is suspended. -/
theorem Ran.park {c : Option LibraryCall} (h : x.Sound) (ran : x.Ran x' stackmarker sp p c)
    (suspended : x'.world.thread.suspended x.world.thread.next ≠ none) :
    ∃ t st img, Stacklet.Represents x.program t ∧ st.owner = x.world.control.owner ∧
      img = ⟨sp, max t.base (stackmarker + 1), t.stack, t.main⟩ ∧
      x'.Parked x.world.thread.next st p img := by
  have unused := h.apart.unused
  obtain ⟨stacked, called, ptr, -⟩ := ran
  cases stacked with
  | stay thread =>
    rw [thread, unused] at suspended
    exact absurd rfl suspended
  | finish resumed n ended target thread =>
    have ne : x.world.thread.next ≠ n := by
      rintro rfl
      rw [unused] at target
      cases target
    simp only [thread, Function.update_of_ne ne, unused] at suspended
    exact absurd rfl suspended
  | new st left thread =>
    cases called with
    | some legal exec =>
      obtain ⟨t, img, represents, eq, now⟩ :=
        Stacklet.suspended_now h.stacklet legal ⟨rfl, rfl, rfl⟩ exec
      exact ⟨t, st, img, represents, left, eq, by simp [thread], by simp [ptr, named], now⟩
  | switch st resumed n left target ne thread =>
    cases called with
    | some legal exec =>
      obtain ⟨t, img, represents, eq, now⟩ :=
        Stacklet.suspended_now h.stacklet legal ⟨rfl, rfl, rfl⟩ exec
      exact ⟨t, st, img, represents, left, eq, by simp [thread, Ne.symm ne], by simp [ptr, named],
        now⟩

/-- The library keeps the image of a stack while its handle is not used. -/
theorem kept {r r' : Program} {c : Stacklet.Action}
    (image : ∃ t, Stacklet.Represents r t ∧ t.suspended p = some img) (legal : r.Legal c)
    (resumes : ¬ c.Resumes p) (destroys : c ≠ .destroy p) (exec : r.exec c = .ok r') :
    ∃ t, Stacklet.Represents r' t ∧ t.suspended p = some img := by
  have unused : ¬ c.Takes p := by
    intro takes
    cases takes with
    | inl taken => exact resumes taken
    | inr taken => exact destroys taken
  exact Stacklet.suspended_later image (.step (.start rfl) legal unused exec)

theorem Parked.old (parked : x.Parked n st p img) (h : x.Sound) : n ≠ x.world.thread.next := by
  intro same
  have suspended := parked.suspended
  rw [same, h.apart.unused] at suspended
  cases suspended

/-- A stack stays suspended until its owner runs. -/
theorem Parked.stay {c : Option LibraryCall} (parked : x.Parked n st p img) (h : x.Sound)
    (ran : x.Ran x' stackmarker' sp' p' c)
    (away : x'.world.control.owner ≠ st.owner) : x'.Parked n st p img := by
  have old := parked.old h
  obtain ⟨suspended, rfl, image⟩ := parked
  have other : ∀ m resumed, x.world.thread.suspended m = some resumed →
      x'.world.control.owner = resumed.owner → n ≠ m ∧ x.ptr m ≠ x.ptr n := by
    intro m resumed target owner
    have ne : m ≠ n := by
      intro same
      rw [same, suspended] at target
      cases target
      exact away owner
    exact ⟨ne.symm, fun same => ne (h.linked.names.distinct m n resumed st target suspended same)⟩
  obtain ⟨stacked, called, ptr, -⟩ := ran
  cases stacked with
  | stay thread =>
    cases called with
    | none same => exact ⟨by rw [thread, suspended], by rw [ptr, Option.elim_none], by rwa [same]⟩
  | new st' left thread =>
    cases called with
    | some legal exec =>
      have stays := kept image legal (fun taken => taken) (fun taken => by cases taken) exec
      exact ⟨by simp [thread, old, suspended], by simp [ptr, named, old], stays⟩
  | switch st' resumed m left target ne thread owner =>
    obtain ⟨hnm, apart⟩ := other m resumed target owner
    cases called with
    | some legal exec =>
      have stays := kept image legal apart (fun taken => by cases taken) exec
      exact ⟨by simp [thread, old, hnm, suspended], by simp [ptr, named, old], stays⟩
  | finish resumed m ended target thread owner =>
    obtain ⟨hnm, apart⟩ := other m resumed target owner
    cases called with
    | some legal exec =>
      have stays := kept image legal apart (fun taken => by cases taken) exec
      exact ⟨by simp [thread, hnm, suspended], by simp [ptr, named], stays⟩

/-- Whatever the program does, a stack stays suspended until its owner runs. -/
theorem Parked.exec {a : Action} (parked : x.Parked n st p img) (h : x.Sound) (legal : x.Legal a)
    (exec : x.exec a = .ok x')
    (away : x'.world.control.owner ≠ st.owner) : x'.Parked n st p img := by
  cases a with
  | step a stackmarker sp q =>
    obtain ⟨c, ran⟩ := h.ran legal exec
    exact parked.stay h ran away
  | write y b =>
    obtain ⟨suspended, ptr, image⟩ := parked
    cases exec
    have stays := kept (c := .write y b) image legal (fun taken => taken)
      (fun taken => by cases taken) rfl
    exact ⟨suspended, ptr, stays⟩

/-- Its owner runs when the stack is resumed. -/
theorem Parked.resume {c : Option LibraryCall} (parked : x.Parked n st p img) (h : x.Sound)
    (ran : x.Ran x' stackmarker' sp' p' c) (away : x.world.control.owner ≠ st.owner)
    (back : x'.world.control.owner = st.owner) :
    ∃ b, x.program.Legal b ∧ b.Resumes p ∧ x.program.exec b = .ok x'.program := by
  have old := parked.old h
  obtain ⟨suspended, rfl, -⟩ := parked
  have same : ∀ m resumed, x.world.thread.suspended m = some resumed →
      x'.world.control.owner = resumed.owner → x.ptr m = x.ptr n := by
    intro m resumed target owner
    rw [h.apart.once m n resumed st target suspended (owner.symm.trans back)]
  obtain ⟨stacked, called, -, sound⟩ := ran
  cases stacked with
  | stay thread owner => exact absurd (owner.symm.trans back) away
  | new st' left thread =>
    have idle := sound.apart.idle n st (by simp [thread, old, suspended])
    exact absurd back.symm idle
  | switch st' resumed m left target ne thread owner =>
    cases called with
    | some legal exec => exact ⟨_, legal, same m resumed target owner, exec⟩
  | finish resumed m ended target thread owner =>
    cases called with
    | some legal exec => exact ⟨_, legal, same m resumed target owner, exec⟩

end Process

section
variable {x x₁ x₂ x₃ : Process} {a b : World.Action} {stackmarker sp stackmarker' sp' : Nat}
  {p p' : Stacklet.Ptr}

/-- A cothread that loses control finds its whole stack when control is back. -/
theorem cothread_stack_returns (r : process.Reach anyStep x)
    (legal : x.Legal (.step a stackmarker sp p))
    (exec : x.exec (.step a stackmarker sp p) = .ok x₁)
    (suspended : x₁.world.thread.suspended x.world.thread.next ≠ none)
    (later : (process.after x₁).Reach (fun y _ => y.world.control.owner ≠ x.world.control.owner) x₂)
    (away : x₂.world.control.owner ≠ x.world.control.owner)
    (legal' : x₂.Legal (.step b stackmarker' sp' p'))
    (exec' : x₂.exec (.step b stackmarker' sp' p') = .ok x₃)
    (back : x₃.world.control.owner = x.world.control.owner) :
    (∀ y, sp ≤ y → y < max x.program.state.thrd.gCurrentStackStop (stackmarker + 1) →
      x₃.program.state.stack y = x.program.state.stack y) ∧
    x₃.program.state.thrd.gCurrentStackStop =
      max x.program.state.thrd.gCurrentStackStop (stackmarker + 1) := by
  have sound := reach_sound r
  obtain ⟨c, ran⟩ := sound.ran legal exec
  obtain ⟨t, st, img, represents, owner, eq, parked⟩ := ran.park sound suspended
  rw [← owner] at later away back
  have kept : x₂.Sound ∧ (x₂.world.control.owner ≠ st.owner →
      x₂.Parked x.world.thread.next st p img) := by
    apply later.invariant
      (P := fun y => y.Sound ∧ (y.world.control.owner ≠ st.owner →
        y.Parked x.world.thread.next st p img))
    · rintro _ rfl
      exact ⟨ran.sound, fun _ => parked⟩
    · rintro y c y' - ⟨sound, parked⟩ legal away exec
      exact ⟨sound.run legal exec, (parked away).exec sound legal exec⟩
  obtain ⟨sound₂, parked₂⟩ := kept
  obtain ⟨c', ran'⟩ := sound₂.ran legal' exec'
  obtain ⟨b', legalb, resumes, execb⟩ := (parked₂ away).resume sound₂ ran' away back
  obtain ⟨t₃, represents₃, base, -, -, stack⟩ := Stacklet.resumed_now
    (parked₂ away).image legalb resumes execb
  subst eq
  rw [← represents₃.stack, ← represents₃.base, ← represents.stack, ← represents.base]
  exact ⟨stack, base⟩

instance (x₀ x : Process) (a : Process.Action) : Decidable ((process.after x₀).legal x a) :=
  inferInstanceAs (Decidable (x.Legal a))

set_option maxRecDepth 100000 in
/-- The hub overwrites the stack of main while main sleeps. -/
theorem cothread_stack_returns_run : ∃ x₁ x₂ x₃,
    Process.init.exec (.step (.call (.sleep 0)) 100 90 1) = .ok x₁ ∧
    (process.after x₁).Reach anyStep x₂ ∧ x₂.exec (.step .timers 60 50 2) = .ok x₃ ∧
    x₂.program.state.stack 95 = 9 ∧ x₃.program.state.stack 95 = 0 := by
  have h : (process.play anyStep Process.init [.step (.call (.sleep 0)) 100 90 1]).any (fun x₁ =>
      decide (x₁.world.thread.suspended Process.init.world.thread.next ≠ none ∧
        ((process.after x₁).play (fun y _ => y.world.control.owner ≠ some 0) x₁
          [.write 95 9, .step .iterate 60 50 2]).any (fun x₂ =>
            decide (x₂.world.control.owner ≠ some 0 ∧ x₂.program.state.stack 95 = 9 ∧
              (process.play anyStep x₂ [.step .timers 60 50 2]).any (fun x₃ =>
                decide (x₃.world.control.owner = some 0)) = true)) = true)) = true := by decide
  simp only [Option.any_eq_true, decide_eq_true_eq] at h
  obtain ⟨x₁, first, suspended, x₂, middle, away, wrote, x₃, last, back⟩ := h
  obtain ⟨legal, -, exec⟩ := Machine.play_single first
  obtain ⟨legal', -, exec'⟩ := Machine.play_single last
  have later := Machine.Reach.play (M := process.after x₁) (.start rfl) middle
  have same := (cothread_stack_returns (.start Process.init_start) legal exec suspended later away
    legal' exec' back).1 95 (by decide) (by decide)
  exact ⟨x₁, x₂, x₃, exec, later.any, exec', wrote, same⟩

end
end Gevent
