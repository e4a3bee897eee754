import Mathlib.Logic.Relation

/-!
# State machines with faults

* `Machine`: a deterministic program whose environment picks the next action.
  `legal` is what its callers promise, a fault ends the run.
* `Machine.Reach`: the states of all runs whose steps meet a condition;
  `Machine.play` computes one run, `Machine.Reach.project` forgets what a machine
  carries along, `Machine.execs` makes the calls of a program that uses the machine.
* `Spec`: a relational specification; `Machine.Refines` relates the two, and
  `Machine.Refines.reach` lifts the relation from steps to runs.
* `Machine.after`, `Spec.after`: the continuations of a run; `Machine.Refines.after`
  relates them.
* `Spec.Reach.by_moves`: invariants of a specification whose steps are made of
  smaller moves between states of a finer kind.
-/

structure Machine (S A F : Type) where
  start : S → Prop
  legal : S → A → Prop
  exec : S → A → Except F S

structure Spec (S A : Type) where
  start : S → Prop
  step : S → A → S → Prop

section
variable {S T A F : Type}

/-- The states of the runs whose steps all meet `ok`. -/
inductive Machine.Reach (M : Machine S A F) (ok : S → A → Prop) : S → Prop
  | start {s : S} (h : M.start s) : Reach M ok s
  | step {s s' : S} {a : A} (h : Reach M ok s) (legal : M.legal s a) (meets : ok s a)
      (exec : M.exec s a = .ok s') : Reach M ok s'

inductive Spec.Reach (N : Spec T A) (ok : T → A → Prop) : T → Prop
  | start {t : T} (h : N.start t) : Reach N ok t
  | step {t t' : T} {a : A} (h : Reach N ok t) (meets : ok t a) (step : N.step t a t') :
      Reach N ok t'

/-- No condition on the steps. -/
def anyStep (_ : S) (_ : A) : Prop := True

instance (s : S) (a : A) : Decidable (anyStep s a) := inferInstanceAs (Decidable True)

theorem Machine.Reach.mono {M : Machine S A F} {ok ok' : S → A → Prop}
    (h : ∀ s a, ok s a → ok' s a) {s : S} (r : M.Reach ok s) : M.Reach ok' s := by
  induction r with
  | start h0 => exact .start h0
  | step _ legal meets exec ih => exact .step ih legal (h _ _ meets) exec

theorem Machine.Reach.any {M : Machine S A F} {ok : S → A → Prop} {s : S} (r : M.Reach ok s) :
    M.Reach anyStep s :=
  r.mono fun _ _ _ => trivial

theorem Spec.Reach.mono {N : Spec T A} {ok ok' : T → A → Prop}
    (h : ∀ t a, ok t a → ok' t a) {t : T} (r : N.Reach ok t) : N.Reach ok' t := by
  induction r with
  | start h0 => exact .start h0
  | step _ meets step ih => exact .step ih (h _ _ meets) step

theorem Spec.Reach.any {N : Spec T A} {ok : T → A → Prop} {t : T} (r : N.Reach ok t) :
    N.Reach anyStep t :=
  r.mono fun _ _ _ => trivial

/-- A property that holds initially and survives every step of a reachable
state holds in every reachable state. -/
theorem Spec.Reach.invariant {N : Spec T A} {ok : T → A → Prop} {P : T → Prop}
    (start : ∀ t, N.start t → P t)
    (step : ∀ t a t', N.Reach ok t → P t → ok t a → N.step t a t' → P t')
    {t : T} (r : N.Reach ok t) : P t := by
  induction r with
  | start h => exact start _ h
  | step r meets h ih => exact step _ _ _ r ih meets h

/-- The state after a list of actions that are legal, meet `ok` and do not fail. -/
def Machine.play (M : Machine S A F) (ok : S → A → Prop) [∀ s a, Decidable (M.legal s a)]
    [∀ s a, Decidable (ok s a)] : S → List A → Option S
  | s, [] => some s
  | s, a :: as =>
    if M.legal s a ∧ ok s a then
      match M.exec s a with
      | .ok s' => M.play ok s' as
      | .error _ => none
    else none

/-- A list of actions, made by whoever does not ask whether they are legal. -/
def Machine.execs (M : Machine S A F) : S → List A → Except F S
  | s, [] => .ok s
  | s, a :: as =>
    match M.exec s a with
    | .ok s' => M.execs s' as
    | .error f => .error f

section
variable {M : Machine S A F} {ok : S → A → Prop} [∀ s a, Decidable (M.legal s a)]
  [∀ s a, Decidable (ok s a)]

theorem Machine.Reach.play {s s' : S} {as : List A} (r : M.Reach ok s)
    (h : M.play ok s as = some s') : M.Reach ok s' := by
  induction as generalizing s with
  | nil =>
    rw [Machine.play] at h
    cases h
    exact r
  | cons a as ih =>
    simp only [Machine.play] at h
    split at h
    · next ht =>
      split at h
      · next s₁ hs => exact ih (.step r ht.1 ht.2 hs) h
      · cases h
    · cases h

theorem Machine.play_single {s s' : S} {a : A} (h : M.play ok s [a] = some s') :
    M.legal s a ∧ ok s a ∧ M.exec s a = .ok s' := by
  simp only [Machine.play] at h
  split at h
  · next ht =>
    split at h
    · next s₁ exec =>
      cases h
      exact ⟨ht.1, ht.2, exec⟩
    · cases h
  · cases h

theorem Machine.play_cons {s s₁ s' : S} {a : A} {as : List A} (legal : M.legal s a) (meets : ok s a)
    (exec : M.exec s a = .ok s₁) (rest : M.play ok s₁ as = some s') :
    M.play ok s (a :: as) = some s' := by
  simp only [Machine.play, legal, meets, and_self, if_true, exec, rest]

theorem Machine.play_append {s s₁ s' : S} {as bs : List A} (first : M.play ok s as = some s₁)
    (rest : M.play ok s₁ bs = some s') : M.play ok s (as ++ bs) = some s' := by
  induction as generalizing s with
  | nil =>
    cases first
    exact rest
  | cons a as ih =>
    simp only [Machine.play] at first
    split at first
    · next ht =>
      split at first
      · next s₂ exec => exact Machine.play_cons ht.1 ht.2 exec (ih first)
      · cases first
    · cases first

/-- A run whose actions are legal is made by whoever makes them unchecked. -/
theorem Machine.execs_of_play {s s' : S} {as : List A} (h : M.play ok s as = some s') :
    M.execs s as = .ok s' := by
  induction as generalizing s with
  | nil =>
    cases h
    rfl
  | cons a as ih =>
    simp only [Machine.play] at h
    split at h
    · split at h
      · next s₁ exec =>
        simp only [Machine.execs, exec]
        exact ih h
      · cases h
    · cases h

/-- A run computed from a start leads to a state where a test succeeds. -/
theorem Machine.Reach.of_play {s : S} {as : List A} {p : S → Prop} [DecidablePred p]
    (start : M.start s) (h : (M.play ok s as).any (fun s' => decide (p s')) = true) :
    ∃ s', M.Reach ok s' ∧ p s' := by
  cases hs : M.play ok s as with
  | none => simp [hs] at h
  | some s' =>
    rw [hs, Option.any_some] at h
    exact ⟨s', Machine.Reach.play (.start start) hs, of_decide_eq_true h⟩

end

theorem Machine.Reach.invariant {M : Machine S A F} {ok : S → A → Prop} {P : S → Prop}
    (start : ∀ s, M.start s → P s)
    (step : ∀ s a s', M.Reach ok s → P s → M.legal s a → ok s a → M.exec s a = .ok s' → P s')
    {s : S} (r : M.Reach ok s) : P s := by
  induction r with
  | start h => exact start _ h
  | step r legal meets h ih => exact step _ _ _ r ih legal meets h

/-- A machine that carries another along: each of its steps is a step of the
other, or none. -/
theorem Machine.Reach.project {B : Type} {M : Machine S A F} {N : Machine T B F} {ok : S → A → Prop}
    {ok' : T → B → Prop} {f : S → T} (start : ∀ s, M.start s → N.start (f s))
    (step : ∀ s a s', M.legal s a → ok s a → M.exec s a = .ok s' →
      f s' = f s ∨ ∃ b, N.legal (f s) b ∧ ok' (f s) b ∧ N.exec (f s) b = .ok (f s'))
    {s : S} (r : M.Reach ok s) : N.Reach ok' (f s) := by
  induction r with
  | start h => exact .start (start _ h)
  | step r legal meets exec ih =>
    rcases step _ _ _ legal meets exec with h | ⟨b, legal', meets', exec'⟩
    · rw [h]
      exact ih
    · exact .step ih legal' meets' exec'

/-- `R` relates every step of the machine, from related reachable states, to a
step of the specification. -/
structure Machine.Refines (M : Machine S A F) (N : Spec T A) (R : S → T → Prop) : Prop where
  start : ∀ s, M.start s → ∃ t, N.start t ∧ R s t
  step : ∀ s t a s', N.Reach anyStep t → R s t → M.legal s a → M.exec s a = .ok s' →
    ∃ t', N.step t a t' ∧ R s' t'

/-- Every run of the machine is a run of the specification through related
states. A condition on the machine's steps carries over when related states
cannot tell the difference. -/
theorem Machine.Refines.reach {M : Machine S A F} {N : Spec T A} {R : S → T → Prop}
    (sim : M.Refines N R) {ok : S → A → Prop} {ok' : T → A → Prop}
    (meets : ∀ s t a, N.Reach anyStep t → R s t → M.legal s a → ok s a → ok' t a)
    {s : S} (r : M.Reach ok s) : ∃ t, N.Reach ok' t ∧ R s t := by
  induction r with
  | start h =>
    obtain ⟨t, ht, hR⟩ := sim.start _ h
    exact ⟨t, .start ht, hR⟩
  | step _ legal hok exec ih =>
    obtain ⟨t, ht, hR⟩ := ih
    obtain ⟨t', hstep, hR'⟩ := sim.step _ _ _ _ ht.any hR legal exec
    exact ⟨t', .step ht (meets _ _ _ ht.any hR legal hok) hstep, hR'⟩

/-- The continuations of a run from `s`. -/
def Machine.after (M : Machine S A F) (s : S) : Machine S A F := { M with start := fun s' => s' = s }

def Spec.after (N : Spec T A) (t : T) : Spec T A := { N with start := fun t' => t' = t }

/-- A run and its continuation are a run. -/
theorem Spec.Reach.append {N : Spec T A} {ok : T → A → Prop} {t t' : T} (r : N.Reach ok t)
    (c : (N.after t).Reach ok t') : N.Reach ok t' := by
  induction c with
  | start h =>
    cases h
    exact r
  | step _ meets step ih => exact .step ih meets step

theorem Machine.Refines.after {M : Machine S A F} {N : Spec T A} {R : S → T → Prop}
    (sim : M.Refines N R) {s : S} {t : T} (reach : N.Reach anyStep t) (h : R s t) :
    (M.after s).Refines (N.after t) R where
  start s' hs := ⟨t, rfl, by rw [show s' = s from hs]; exact h⟩
  step s₁ t₁ a s₂ c := sim.step s₁ t₁ a s₂ (reach.append c)

theorem preserved_along {M : Type} {move : M → M → Prop} {P : M → Prop}
    (keep : ∀ m m', P m → move m m' → P m') {a b : M} (h : Relation.ReflTransGen move a b)
    (ha : P a) : P b := by
  induction h with
  | refl => exact ha
  | tail _ hmove ih => exact keep _ _ ih hmove

/-- When every step is a sequence of moves, what each move preserves is an invariant. -/
theorem Spec.Reach.by_moves {N : Spec T A} {M : Type} {f : T → M} {move : M → M → Prop}
    {ok : T → A → Prop} {P : M → Prop} (start : ∀ t, N.start t → P (f t))
    (path : ∀ t a t', N.Reach ok t → P (f t) → ok t a → N.step t a t' →
      Relation.ReflTransGen move (f t) (f t'))
    (keep : ∀ m m', P m → move m m' → P m') {t : T} (r : N.Reach ok t) : P (f t) := by
  refine r.invariant start ?_
  intro t a t' hr hP hok hstep
  exact preserved_along keep (path t a t' hr hP hok hstep) hP

end
