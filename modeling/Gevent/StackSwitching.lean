import Gevent.Stacklet.Interface

/-!
# Switching stacks keeps them

The program may call the library in any order, and write to the stack it runs
on. A stack that was suspended comes back with all its bytes, whatever ran in
its place meanwhile, and until then its bytes are found where
`_stacklet_translate_pointer` says.
-/

namespace Gevent.Stacklet

variable {r r₁ r₂ r₃ : Program} {t t' : Stacks} {a b : Action} {p : Ptr} {sp stackmarker x : Nat}

theorem Represents.start (h : stackletc.start r) :
    Represents r ⟨r.state.stack, 0, true, fun _ => none, .null⟩ := by
  obtain ⟨live, thrd, main⟩ := h
  refine ⟨rfl, by rw [thrd]; rfl, by rw [thrd]; rfl, [], ⟨?_, ?_, ?_, ?_, ?_⟩, ?_⟩
  · rw [live]
    exact .nil
  · simp [live]
  · rintro p img ⟨⟩
  · rw [thrd]
    trivial
  · simp [live]
  · rw [main]
    exact ⟨rfl, rfl, fun p img hp => by cases hp⟩

theorem reach_represents (reach : stackletc.Reach anyStep r) :
    ∃ t, stackleth.Reach anyStep t ∧ Represents r t := by
  induction reach with
  | start h => exact ⟨_, .start ⟨rfl, rfl, fun _ => rfl⟩, Represents.start h⟩
  | step _ legal _ exec ih =>
    obtain ⟨t, ht, represents⟩ := ih
    obtain ⟨r', t', exec', step, represents'⟩ := represents.exec legal
    obtain rfl : r' = _ := Except.ok.inj (exec'.symm.trans exec)
    exact ⟨t', .step ht trivial step, represents'⟩

/-- In every run of a program that keeps to the rules, each call of the library
succeeds, and does to the stacks what stacklet.h says: no assertion fails and
no freed stacklet is used. -/
theorem stackletc_refines (reach : stackletc.Reach anyStep r) :
    ∃ t, stackleth.Reach anyStep t ∧ Represents r t ∧
      ∀ a, r.Legal a → ∃ r' t', r.exec a = .ok r' ∧ t.step a t' ∧ Represents r' t' := by
  obtain ⟨t, ht, represents⟩ := reach_represents reach
  exact ⟨t, ht, represents, fun a legal => represents.exec legal⟩

/-- The program before its first call. -/
def Program.init : Program := ⟨⟨fun _ => 0, fun _ => ⟨0, 0, 0, none, fun _ => 0⟩, [], newthread⟩,
    none⟩

theorem stackletc_refines_run : ∃ r : Program, r.main = some 1 ∧ ∃ t, stackleth.Reach anyStep t ∧
    Represents r t ∧
    ∀ a, r.Legal a → ∃ r' t', r.exec a = .ok r' ∧ t.step a t' ∧ Represents r' t' := by
  have start : stackletc.start Program.init := ⟨rfl, rfl, rfl⟩
  have h : (stackletc.play anyStep .init [.write 95 7, .new 100 90 (some 1), .write 95 9]).any
      (fun r => decide (r.main = some 1)) = true := by decide
  obtain ⟨r, reach, hm⟩ := Machine.Reach.of_play start h
  exact ⟨r, hm, stackletc_refines reach⟩

/-- The running stack is suspended under `p`: its bytes from `sp` on. -/
def Action.Suspends (stackmarker sp : Nat) (p : Ptr) : Action → Prop
  | .new stackmarker' sp' mem | .switch stackmarker' sp' mem _ =>
    stackmarker' = stackmarker ∧ sp' = sp ∧ mem = some p
  | _ => False

/-- The stack suspended under `p` is resumed. -/
def Action.Resumes (p : Ptr) : Action → Prop
  | .switch _ _ (some _) target | .finish target => target = p
  | _ => False

/-- What the call on the resumed stack returns. -/
def Action.source : Action → Handle
  | .switch _ _ (some p) _ => .stack p
  | .finish _ => .empty
  | _ => .null

/-- The handle `p` is used up. -/
def Action.Takes (p : Ptr) (a : Action) : Prop := a.Resumes p ∨ a = .destroy p

/-- A stack stays suspended until its handle is used. -/
theorem Stacks.step_suspended {img : Image} (h : Represents r t) (legal : r.Legal a)
    (step : t.step a t')
    (kept : ¬ a.Takes p) (hp : t.suspended p = some img) : t'.suspended p = some img := by
  have fresh : ∀ q, q ∉ r.state.live → p ≠ q := by
    rintro q hq rfl
    obtain ⟨ps, keeps, -⟩ := h.keeps
    exact hq ((keeps.live p).mpr (by simp [hp]))
  have resumes : ∀ suspended target source, target ≠ p → suspended p = some img →
      Stacks.Resumes suspended target source t' → t'.suspended p = some img := by
    rintro suspended target source hne hs ⟨-, -, ht, -⟩
    rw [ht, Function.update_of_ne hne.symm]
    exact hs
  cases a with
  | write a b =>
    subst step
    exact hp
  | new stackmarker sp mem =>
    cases mem with
    | none =>
      subst step
      exact hp
    | some q =>
      subst step
      exact (Function.update_of_ne (fresh q (legal.2.2 q rfl)) ..).trans hp
  | switch stackmarker sp mem target =>
    cases mem with
    | none =>
      subst step
      exact hp
    | some q =>
      refine resumes _ target _ (fun h => kept (.inl h)) ?_ step
      exact (Function.update_of_ne (fresh q (legal.2.2.1 q rfl)) ..).trans hp
  | finish result => exact resumes _ result _ (fun h => kept (.inl h)) hp step
  | destroy target =>
    subst step
    refine (Function.update_of_ne ?_ ..).trans hp
    rintro rfl
    exact kept (.inr rfl)

/-- What is suspended under `p` until its handle is used. -/
theorem suspended_later {img : Image} (h : ∃ t, Represents r₁ t ∧ t.suspended p = some img)
    (later : (stackletc.after r₁).Reach (fun _ c => ¬ c.Takes p) r₂) :
    ∃ t, Represents r₂ t ∧ t.suspended p = some img := by
  apply later.invariant (P := fun r => ∃ t, Represents r t ∧ t.suspended p = some img)
  · rintro _ rfl
    exact h
  · rintro r c r' - ⟨t, represents, hp⟩ legal kept exec
    obtain ⟨_, t', exec', step, represents'⟩ := represents.exec legal
    obtain rfl := Except.ok.inj (exec'.symm.trans exec)
    exact ⟨t', represents', Stacks.step_suspended represents legal step kept hp⟩

/-- The running stack is suspended. -/
theorem suspended_now (reach : stackletc.Reach anyStep r) (legal : r.Legal a)
    (suspends : a.Suspends stackmarker sp p)
    (exec : r.exec a = .ok r₁) : ∃ t img, Represents r t ∧
      img = ⟨sp, max t.base (stackmarker + 1), t.stack, t.main⟩ ∧
      ∃ t₁, Represents r₁ t₁ ∧ t₁.suspended p = some img := by
  obtain ⟨t, -, represents⟩ := reach_represents reach
  obtain ⟨_, t₁, exec', step, represents₁⟩ := represents.exec legal
  obtain rfl := Except.ok.inj (exec'.symm.trans exec)
  refine ⟨t, _, represents, rfl, t₁, represents₁, ?_⟩
  cases a with
  | new =>
    obtain ⟨rfl, rfl, rfl⟩ := suspends
    subst step
    exact Function.update_self ..
  | switch stackmarker sp mem target =>
    obtain ⟨rfl, rfl, rfl⟩ := suspends
    obtain ⟨-, -, suspended, -⟩ := step
    obtain ⟨-, -, fresh, live⟩ := legal
    have hne : p ≠ target := by
      rintro rfl
      exact fresh p rfl live
    rw [suspended, Function.update_of_ne hne]
    exact Function.update_self ..
  | write | finish | destroy => exact suspends.elim

/-- The main stack runs in the library when it runs for the interface. -/
theorem Represents.main_eq (h : Represents r t) : r.main = none ↔ t.main = true := by
  obtain ⟨ps, -, placed⟩ := h.keeps
  cases hm : r.main with
  | none =>
    simp only [hm, Placed] at placed
    simp [placed.1]
  | some m =>
    simp only [hm, Placed] at placed
    simp [placed.1]

/-- The stack suspended under `p` is resumed. -/
theorem resumed_now {img : Image} (h : ∃ t, Represents r₂ t ∧ t.suspended p = some img)
    (legal : r₂.Legal b)
    (resumes : b.Resumes p) (exec : r₂.exec b = .ok r₃) :
    ∃ t₃, Represents r₃ t₃ ∧ t₃.base = img.stop ∧
      t₃.main = img.main ∧ t₃.source = b.source ∧
      ∀ x, img.start ≤ x → x < img.stop → t₃.stack x = img.contents x := by
  obtain ⟨t₂, represents₂, hp⟩ := h
  obtain ⟨_, t₃, exec₃, step, represents₃⟩ := represents₂.exec legal
  obtain rfl := Except.ok.inj (exec₃.symm.trans exec)
  have resumed : ∃ suspended, suspended p = t₂.suspended p ∧
      Stacks.Resumes suspended p b.source t₃ := by
    cases b with
    | switch stackmarker sp mem target =>
      cases mem with
      | none => exact resumes.elim
      | some q =>
        obtain rfl : target = p := resumes
        refine ⟨_, Function.update_of_ne ?_ .., step⟩
        rintro rfl
        exact legal.2.2.1 _ rfl legal.2.2.2
    | finish result =>
      obtain rfl : result = p := resumes
      exact ⟨_, rfl, step⟩
    | write | new | destroy => exact resumes.elim
  obtain ⟨suspended, same, img', himg, -, base, main, source, stack⟩ := resumed
  rw [same, hp] at himg
  cases himg
  exact ⟨t₃, represents₃, base, main, source, stack⟩

/-- A stack that was suspended has all its bytes again when it is resumed,
whatever was done in between. -/
theorem suspended_stack_returns (reach : stackletc.Reach anyStep r) (legal : r.Legal a)
    (suspends : a.Suspends stackmarker sp p)
    (exec : r.exec a = .ok r₁) (later : (stackletc.after r₁).Reach (fun _ c => ¬ c.Takes p) r₂)
    (legal' : r₂.Legal b) (resumes : b.Resumes p) (exec' : r₂.exec b = .ok r₃) :
    (∀ x, sp ≤ x → x < max r.state.thrd.gCurrentStackStop (stackmarker + 1) →
      r₃.state.stack x = r.state.stack x) ∧
    r₃.state.thrd.gCurrentStackStop = max r.state.thrd.gCurrentStackStop (stackmarker + 1) ∧
    (r₃.main = none ↔ r.main = none) ∧ r₃.state.thrd.gSource = b.source := by
  obtain ⟨t, img, represents, rfl, now⟩ := suspended_now reach legal suspends exec
  obtain ⟨t₃, represents₃, base, main, source, stack⟩ :=
    resumed_now (suspended_later now later) legal' resumes exec'
  refine ⟨fun x low high => ?_, ?_, ?_, ?_⟩
  · rw [← represents₃.stack, ← represents.stack]
    exact stack x low (by rw [represents.base]; exact high)
  · rw [← represents₃.base, base, represents.base]
  · rw [represents₃.main_eq, represents.main_eq, main]
  · exact represents₃.source.symm.trans source

theorem suspended_stack_returns_run : ∃ r₁ r₂ r₃,
    Program.init.exec (.new 100 90 (some 1)) = .ok r₁ ∧
    r₁.exec (.write 95 9) = .ok r₂ ∧ r₂.exec (.finish 1) = .ok r₃ ∧
    r₂.state.stack 95 ≠ Program.init.state.stack 95 ∧
    r₃.state.stack 95 = Program.init.state.stack 95 := by
  refine ⟨_, _, _, rfl, rfl, rfl, by decide, ?_⟩
  exact (suspended_stack_returns (b := .finish 1) (.start ⟨rfl, rfl, rfl⟩)
    (by decide : Program.init.Legal (.new 100 90 (some 1))) ⟨rfl, rfl, rfl⟩ rfl
    (.step (a := .write 95 9) (.start rfl) (Or.inl (by decide)) (by rintro (h | h) <;> cases h) rfl)
      (by decide) rfl rfl).1 95
    (by decide) (by decide)

/-- `_stacklet_translate_pointer` finds the bytes of a suspended stack. -/
theorem translated_pointer_reads (reach : stackletc.Reach anyStep r) (legal : r.Legal a)
    (suspends : a.Suspends stackmarker sp p)
    (exec : r.exec a = .ok r₁) (later : (stackletc.after r₁).Reach (fun _ c => ¬ c.Takes p) r₂)
    (low : sp ≤ x) (high : x < max r.state.thrd.gCurrentStackStop (stackmarker + 1)) :
    ∃ place, r₂.state.stackletTranslatePointer (some p) x = .ok place ∧
      r₂.state.load place = r.state.stack x := by
  obtain ⟨t, img, represents, rfl, now⟩ := suspended_now reach legal suspends exec
  obtain ⟨t₂, represents₂, hp⟩ := suspended_later now later
  obtain ⟨ps, keeps, -⟩ := represents₂.keeps
  have holds := keeps.holds p _ hp
  have live : p ∈ r₂.state.live := (keeps.live p).mpr (by simp [hp])
  rw [← represents.base] at high
  have image : (r₂.state.heap p).segment.image r₂.state.stack x = t.stack x :=
    holds.image x low high
  have start : (r₂.state.heap p).stackStart = sp := holds.start
  have stop : (r₂.state.heap p).stackStop = max t.base (stackmarker + 1) := holds.stop
  rw [← represents.stack, ← image]
  simp only [State.stackletTranslatePointer, State.deref_ok live, ok_bind, start, stop]
  by_cases moved : x - sp < (r₂.state.heap p).stackSaved
  · refine ⟨.copy p (x - sp), ?_, ?_⟩
    · rw [if_pos ⟨by omega, by omega⟩]
      congr 2
      omega
    · simp [State.load, Segment.image, StackletS.segment, start, moved]
  · refine ⟨.stack x, ?_, ?_⟩
    · rw [if_neg (by omega), if_pos ⟨by omega, by omega⟩]
    · simp [State.load, Segment.image, StackletS.segment, start, moved]

theorem translated_pointer_reads_run : ∃ r₁ r₂, Program.init.exec (.new 100 90 (some 1)) = .ok r₁ ∧
    r₁.exec (.write 95 9) = .ok r₂ ∧
    ∃ place, r₂.state.stackletTranslatePointer (some 1) 95 = .ok place ∧
      r₂.state.load place = Program.init.state.stack 95 := by
  refine ⟨_, _, rfl, rfl, ?_⟩
  exact translated_pointer_reads (.start ⟨rfl, rfl, rfl⟩)
    (by decide : Program.init.Legal (.new 100 90 (some 1))) ⟨rfl, rfl, rfl⟩ rfl
    (.step (a := .write 95 9) (.start rfl) (Or.inl (by decide)) (by rintro (h | h) <;> cases h) rfl)
      (by decide) (by decide)

/-- The list of the stacklets that are in part on the C stack is empty exactly
when the main stack runs; otherwise the main stack is the last in it. -/
theorem list_ends_in_main (reach : stackletc.Reach anyStep r) :
    ∃ ps, r.state.Chain r.state.thrd.gCurrentStackStop r.state.thrd.gStackChainHead ps ∧
      ps.getLast? = r.main ∧ ∀ p ∈ r.state.live, p ∈ ps ↔ ¬ (r.state.heap p).Saved := by
  obtain ⟨t, -, represents⟩ := reach_represents reach
  obtain ⟨ps, keeps, placed⟩ := represents.keeps
  refine ⟨ps, represents.base ▸ keeps.chain, ?_, fun p live => ⟨fun hp => ?_, fun left => ?_⟩⟩
  · cases hm : r.main with
    | none =>
      simp only [hm, Placed] at placed
      obtain ⟨-, rfl, -⟩ := placed
      rfl
    | some m =>
      simp only [hm, Placed] at placed
      obtain ⟨-, img, highest, -⟩ := placed
      refine keeps.chain.last highest.mem fun q hq hne => ?_
      obtain ⟨img', hq'⟩ := Option.isSome_iff_exists.mp ((keeps.live q).mp (keeps.chain.mem hq).1)
      rw [(keeps.holds q img' hq').stop, (keeps.holds m img highest.image).stop]
      exact (highest.others q img' hq' hne).2
  · have := (keeps.chain.mem hp).2.2
    rw [StackletS.Saved]
    omega
  · by_contra hp
    exact left (keeps.saved p live hp)

theorem list_ends_in_main_run : ∃ r : Program, r.main = some 1 ∧
    ∃ ps, r.state.Chain r.state.thrd.gCurrentStackStop r.state.thrd.gStackChainHead ps ∧
      ps.getLast? = r.main ∧ ∀ p ∈ r.state.live, p ∈ ps ↔ ¬ (r.state.heap p).Saved := by
  have start : stackletc.start Program.init := ⟨rfl, rfl, rfl⟩
  have h : (stackletc.play anyStep .init
      [.new 100 90 (some 1), .new 60 50 (some 2), .switch 40 30 (some 3) 2]).any
        (fun r => decide (r.main = some 1)) = true := by decide
  obtain ⟨r, reach, hm⟩ := Machine.Reach.of_play start h
  exact ⟨r, hm, list_ends_in_main reach⟩

end Gevent.Stacklet
