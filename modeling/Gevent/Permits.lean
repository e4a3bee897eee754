import Mathlib.Algebra.BigOperators.Group.Finset.Piecewise
import Mathlib.Algebra.Order.BigOperators.Group.Finset
import Gevent.Histories
import Gevent.Sched.Grants

/-!
# Permits of a semaphore are conserved

As long as nothing else is sent on the internal channel of a semaphore, and the
main cothread is never resumed as a last resort while it waits for a permit, no
more acquire calls return than there are permits (`permits_conserved`).
-/

namespace Gevent

/-! ## The account of a semaphore -/

/-- The permits in the counter, and the one on its way, have not been given out. -/
def Balance (m : Sem) (o : Moment) : Prop :=
  ∀ c, initialCounter m o.sched.env.log = some c → 0 ≤ c →
    ∃ free : Nat, o.sched.env.counter m = World.int32 free ∧
      acquired m o.sched.env.log + free ≤ c + released m o.sched.env.log ∧
      (Granting m o → acquired m o.sched.env.log + free + 1 ≤ c + released m o.sched.env.log)

/-- Nobody leaves the queue of the semaphore without a permit. -/
def Rules.Patient (R : Rules) (m : Sem) : Prop :=
  ∀ s f, s.place s.main = .blocked f → f.Acquires m →
    ((∃ t l, s.env.log = .finish t :: l) ∨ ∃ l, s.env.log = .runEnd :: l) → ¬ R.last s

section
variable {R : Rules} {m : Sem} {o o' : Moment}

theorem Balance.initial {s : Sched} (h : s.Initial) : Balance m ⟨s, none⟩ := by
  intro c hc
  rw [h.log] at hc
  cases hc

theorem Balance.step (hR : R.Patient m) (h : Balance m o) (hm : SemMove R m o o') : Balance m o' := by
  intro c hc nonneg
  cases hm with
  | still es log neutral counter waiters granting entering =>
    rw [log, initialCounter_append fun ev hev => (neutral ev hev).1] at hc
    obtain ⟨free, hfree, hle, hgrant⟩ := h c hc nonneg
    rw [log, acquired_append neutral, released_append neutral]
    exact ⟨free, counter.trans hfree, hle, fun hg => hgrant (granting hg)⟩
  | take k t r free log counter waiters waking =>
    rw [log] at hc
    obtain ⟨n, hn, hle, -⟩ := h c hc nonneg
    rw [hn] at free
    have hpos : 0 < n := by
      rcases Nat.eq_zero_or_pos n with rfl | hp
      · simp [World.int32] at free
      · exact hp
    refine ⟨n - 1, ?_, ?_, fun hg => ?_⟩
    · rw [counter, hn, ← int32_pred free]
      congr 1
      omega
    · rw [log]
      simp only [acquired, released, countSince, Event.inits, Event.acquired, Event.released] at hle ⊢
      simp only [decide_true, Bool.false_eq_true, if_false, if_true]
      omega
    · exact absurd hg (not_granting (log ▸ not_callLast rfl) waking)
  | give k t r alone may granting log counter waiters waking =>
    rw [log] at hc
    obtain ⟨n, hn, -, hle⟩ := h c hc nonneg
    have hle := hle granting
    refine ⟨n + 1, ?_, ?_, fun hg => ?_⟩
    · rw [counter, hn, int32_succ]
      rfl
    · rw [log]
      simp only [acquired, released, countSince, Event.inits, Event.acquired, Event.released] at hle ⊢
      simp only [Bool.false_eq_true, if_false]
      omega
    · exact absurd hg (not_granting (log ▸ not_callLast rfl) waking)
  | release k t log counter waiters =>
    rw [log] at hc
    obtain ⟨n, hn, hle, -⟩ := h c hc nonneg
    have hmore : acquired m o'.sched.env.log + n + 1 ≤ c + released m o'.sched.env.log := by
      rw [log]
      simp only [acquired, released, countSince, Event.inits, Event.acquired, Event.released] at hle ⊢
      simp only [decide_true, Bool.false_eq_true, if_false, if_true]
      omega
    exact ⟨n, counter.trans hn, by omega, fun _ => hmore⟩
  | init c' low high log counter waiters waking =>
    have hcc : c' = c := by
      rw [log] at hc
      simpa [initialCounter, latest] using hc
    subst hcc
    refine ⟨c'.toNat, ?_, ?_, fun hg => ?_⟩
    · rw [counter, Int.toNat_of_nonneg nonneg, int32_of_range low high]
    · rw [log]
      simp [acquired, released, countSince, Event.inits, nonneg]
    · exact absurd hg (not_granting (log ▸ not_callLast rfl) waking)
  | wait t k entering log counter waiters waking =>
    rw [log] at hc
    obtain ⟨n, hn, hle, -⟩ := h c hc nonneg
    refine ⟨n, counter.trans hn, ?_, fun hg => ?_⟩
    · rw [log]
      exact hle
    · exact absurd hg (not_granting (log ▸ not_callLast rfl) waking)
  | grant u es k r granting log neutral counter waiters waking =>
    have hc' : initialCounter m o.sched.env.log = some c := by
      rw [log, List.cons_append] at hc
      exact (initialCounter_append fun ev hev => (neutral ev hev).1).symm.trans hc
    obtain ⟨n, hn, -, hle⟩ := h c hc' nonneg
    have hle := hle granting
    refine ⟨n, counter.trans hn, ?_, fun hg => ?_⟩
    · have hacq : acquired m o'.sched.env.log = acquired m o.sched.env.log + 1 := by
        rw [log, List.cons_append, ← acquired_append neutral (l := o.sched.env.log)]
        simp [acquired, countSince, Event.inits, Event.acquired]
      have hrel : released m o'.sched.env.log = released m o.sched.env.log := by
        rw [log, List.cons_append, ← released_append neutral (l := o.sched.env.log)]
        simp [released, countSince, Event.inits, Event.released]
      rw [hacq, hrel]
      omega
    · exact absurd hg (not_granting (log ▸ not_callLast rfl) waking)
  | leave u es log last neutral counter waiters waking =>
    rw [log, initialCounter_append fun ev hev => (neutral ev hev).1] at hc
    obtain ⟨n, hn, hle, -⟩ := h c hc nonneg
    refine ⟨n, counter.trans hn, ?_, fun hg => absurd hg (not_granting last waking)⟩
    rw [log, acquired_append neutral, released_append neutral]
    exact hle
  | resort f place acquires may reason => exact absurd may (hR _ f place acquires reason)

/-- Under rules that seal the channel and keep the main cothread waiting, the
account of the semaphore is always in balance. -/
theorem scheduler_balance (sealed : R.Sealed m) (patient : R.Patient m) {s : Sched}
    (r : scheduler.Reach R.Admit s) : Balance m ⟨s, none⟩ := by
  have h := scheduler_invariant (P := fun o => Ledger m o ∧ Balance m o)
    (fun s h => ⟨.initial h, .initial h⟩)
    (fun o o' b h hm => ⟨h.1.move sealed hm, h.2.step patient (hm.sem sealed h.1 b)⟩) r
  exact h.2

end

/-! ## Who holds a permit -/

def Event.acquiredBy (m : Sem) (t : Tid) : Event → Bool
  | .ret _ u (.acquire m') _ => u = t && m' = m
  | _ => false

def Event.releasedBy (m : Sem) (t : Tid) : Event → Bool
  | .call _ u (.release m') => u = t && m' = m
  | _ => false

/-- `t` is between a returned acquire call and the matching release call. -/
def Holds (m : Sem) (t : Tid) (log : List Event) : Prop :=
  countSince m (Event.releasedBy m t) log < countSince m (Event.acquiredBy m t) log

instance (m : Sem) (t : Tid) (log : List Event) : Decidable (Holds m t log) :=
  inferInstanceAs (Decidable (_ < _))

/-- Since its initialisation the semaphore is released only by cothreads that hold a permit. -/
def ReleasedByHolders (m : Sem) (log : List Event) : Prop :=
  ∀ l₁ k t l₂, log = l₁ ++ .call k t (.release m) :: l₂ → (∀ ev ∈ l₁, ev.inits m = false) →
    Holds m t l₂

section
variable {m : Sem} {log : List Event}

/-- What is counted for all cothreads together is what is counted for each. -/
theorem countSince_sum {p : Event → Bool} {q : Tid → Event → Bool} {S : Finset Tid}
    (split : ∀ ev ∈ log, (if p ev then 1 else 0) = ∑ t ∈ S, if q t ev then 1 else 0) :
    countSince m p log = ∑ t ∈ S, countSince m (q t) log := by
  induction log with
  | nil => simp [countSince]
  | cons ev l ih =>
    simp only [countSince]
    by_cases hi : ev.inits m
    · simp [hi]
    · simp only [hi, Bool.false_eq_true, if_false]
      rw [ih fun e he => split e (List.mem_cons_of_mem _ he), split ev List.mem_cons_self,
        Finset.sum_add_distrib]

/-- The cothreads that some event names. -/
def Event.caller : Event → Option Tid
  | .call _ t _ | .ret _ t _ _ => some t
  | _ => none

theorem acquired_eq_sum {S : Finset Tid} (hS : ∀ ev ∈ log, ∀ t, ev.caller = some t → t ∈ S) :
    acquired m log = ∑ t ∈ S, countSince m (Event.acquiredBy m t) log := by
  refine countSince_sum fun ev hev => ?_
  have hs := hS ev hev
  cases ev with
  | ret k u c r =>
    have hu := hs u rfl
    cases c with
    | acquire m' =>
      by_cases hm : m' = m
      · simp [Event.acquired, Event.acquiredBy, hm, hu]
      · simp [Event.acquired, Event.acquiredBy, hm]
    | _ => simp [Event.acquired, Event.acquiredBy]
  | _ => simp [Event.acquired, Event.acquiredBy]

theorem released_eq_sum {S : Finset Tid} (hS : ∀ ev ∈ log, ∀ t, ev.caller = some t → t ∈ S) :
    released m log = ∑ t ∈ S, countSince m (Event.releasedBy m t) log := by
  refine countSince_sum fun ev hev => ?_
  have hs := hS ev hev
  cases ev with
  | call k u c =>
    have hu := hs u rfl
    cases c with
    | release m' =>
      by_cases hm : m' = m
      · simp [Event.released, Event.releasedBy, hm, hu]
      · simp [Event.released, Event.releasedBy, hm]
    | _ => simp [Event.released, Event.releasedBy]
  | _ => simp [Event.released, Event.releasedBy]

theorem ReleasedByHolders.past {ev : Event} (h : ReleasedByHolders m (ev :: log))
    (hi : ev.inits m = false) : ReleasedByHolders m log := by
  rintro l₁ k t l₂ rfl hl
  refine h (ev :: l₁) k t l₂ rfl fun e he => ?_
  rcases List.mem_cons.mp he with rfl | he
  · exact hi
  · exact hl e he

/-- Then nobody has released more often than acquired. -/
theorem ReleasedByHolders.le (h : ReleasedByHolders m log) (t : Tid) :
    countSince m (Event.releasedBy m t) log ≤ countSince m (Event.acquiredBy m t) log := by
  induction log with
  | nil => simp [countSince]
  | cons ev l ih =>
    cases hi : ev.inits m with
    | true => simp [countSince, hi]
    | false =>
      have hle := ih (h.past hi)
      simp only [countSince, hi, Bool.false_eq_true, if_false]
      by_cases hr : ev.releasedBy m t
      · have hlt : Holds m t l := by
          cases ev with
          | call k u c =>
            cases c with
            | release m' =>
              simp only [Event.releasedBy, Bool.and_eq_true, decide_eq_true_eq] at hr
              obtain ⟨rfl, rfl⟩ := hr
              exact h [] k u l rfl (by simp)
            | _ => simp [Event.releasedBy] at hr
          | _ => simp [Event.releasedBy] at hr
        simp only [Holds] at hlt
        simp only [hr, if_true]
        omega
      · simp only [hr, Bool.false_eq_true, if_false]
        omega

end

/-! ## Runs -/

structure Conserved (m : Sem) (log : List Event) : Prop where
  permits : ∀ c, initialCounter m log = some c → 0 ≤ c → acquired m log ≤ c + released m log
  exclusive : initialCounter m log = some 1 → ReleasedByHolders m log →
    ∀ t u, Holds m t log → Holds m u log → t = u

theorem Conserved.of_permits {m : Sem} {log : List Event}
    (h : ∀ c, initialCounter m log = some c → 0 ≤ c → acquired m log ≤ c + released m log) :
    Conserved m log where
  permits := h
  exclusive h1 owned t u ht hu := by
    by_contra hne
    let S : Finset Tid := insert t (insert u (log.filterMap Event.caller).toFinset)
    have hS : ∀ ev ∈ log, ∀ x, ev.caller = some x → x ∈ S := by
      intro ev hev x hx
      refine Finset.mem_insert_of_mem (Finset.mem_insert_of_mem ?_)
      exact List.mem_toFinset.mpr (List.mem_filterMap.mpr ⟨ev, hev, hx⟩)
    have hle := h 1 h1 (by decide)
    rw [acquired_eq_sum hS, released_eq_sum hS] at hle
    have hmt : t ∈ S := Finset.mem_insert_self ..
    have hmu : u ∈ S.erase t :=
      Finset.mem_erase.mpr ⟨Ne.symm hne, Finset.mem_insert_of_mem (Finset.mem_insert_self ..)⟩
    rw [← Finset.add_sum_erase S _ hmt, ← Finset.add_sum_erase S _ hmt,
      ← Finset.add_sum_erase _ _ hmu, ← Finset.add_sum_erase _ _ hmu] at hle
    have hrest : ∑ x ∈ (S.erase t).erase u, countSince m (Event.releasedBy m x) log ≤
        ∑ x ∈ (S.erase t).erase u, countSince m (Event.acquiredBy m x) log :=
      Finset.sum_le_sum fun x _ => owned.le x
    simp only [Holds] at ht hu
    omega

instance (m : Sem) : DecidablePred (Frame.Acquires m) := fun f =>
  match h : f.caller with
  | .acquire k m' =>
    decidable_of_iff (m' = m) ⟨fun hm => ⟨k, hm ▸ h⟩, fun ⟨_, hk⟩ => by
      rw [h] at hk
      cases hk
      rfl⟩
  | .program | .release _ _ => isFalse fun ⟨_, hk⟩ => by
      rw [h] at hk
      cases hk

/-- The program does not send on the internal channel of the semaphore, and no
cothread and no `uv_run` ends while nobody is ready, no `uv_run` is suspended and
the main cothread waits for a permit. -/
def keepsPermits (m : Sem) (w : World) (a : World.Action) : Prop :=
  (match a with
    | .call (.send ch _) => ch ≠ .ofSem m
    | _ => True) ∧ w.Spares (Frame.Acquires m) (Frame.Acquires m) a

instance (m : Sem) (w : World) (a : World.Action) : Decidable (keepsPermits m w a) := by
  unfold keepsPermits
  have : Decidable (match a with
    | .call (.send ch _) => ch ≠ .ofSem m
    | _ => True) := by
    split <;> infer_instance
  infer_instance

theorem permits_conserved {m : Sem} {w : World} (r : gevent.Reach (keepsPermits m) w) :
    Conserved m w.env.log := by
  let R : Rules := .sparing (fun _ c => ∀ v, c ≠ .send (.ofSem m) v) (Frame.Acquires m) (Frame.Acquires m)
  obtain ⟨s, rs, p⟩ := reach_rules (R := R) (fun w s a p legal h => p.admits legal h.2 (by
    rintro t c rfl - v rfl
    exact h.1 rfl)) r
  have sealed : R.Sealed m := fun s v h => h v rfl
  have patient : R.Patient m := by
    rintro s f hf ha reason may
    rcases reason with h | h
    · exact may.1 h ⟨f, hf, ha⟩
    · exact may.2 h ⟨f, hf, ha⟩
  have balance := scheduler_balance sealed patient rs
  refine .of_permits fun c hc nonneg => ?_
  rw [p.env] at hc ⊢
  obtain ⟨free, -, hle, -⟩ := balance c hc nonneg
  have hle : (acquired m s.env.log : Int) + free ≤ c + released m s.env.log := hle
  omega

set_option maxRecDepth 100000 in
/-- Two cothreads take turns with one permit: the second waits for the first. -/
theorem permits_conserved_run : ∃ w, gevent.Reach (keepsPermits 0) w ∧
    acquired 0 w.env.log = 2 ∧ released 0 w.env.log = 1 ∧ Holds 0 0 w.env.log ∧
    Conserved 0 w.env.log := by
  have h : (gevent.play (keepsPermits 0) zeroStart [.semaphoreInit 0 1, .cothreadInit 1 1,
      .call (.spawn 1), .call (.acquire 0), .call (.sleep 0), .call (.acquire 0), .iterate, .timers,
      .call (.release 0)]).any (fun w => decide (acquired 0 w.env.log = 2 ∧
        released 0 w.env.log = 1 ∧ Holds 0 0 w.env.log)) = true := by decide
  obtain ⟨w, r, ha, hr, hh⟩ := Machine.Reach.of_play zeroStart_start h
  exact ⟨w, r, ha, hr, hh, permits_conserved r⟩

set_option maxRecDepth 100000 in
/-- The main cothread waits for a permit of an empty semaphore; nothing is left
for the loop to do, and the acquire call returns. -/
theorem permit_from_nowhere : ¬ ∀ m w, gevent.Reach anyStep w → Conserved m w.env.log := by
  intro all
  have h : (gevent.play anyStep zeroStart [.semaphoreInit 0 0, .call (.acquire 0), .iterate]).any
      (fun w => decide (initialCounter 0 w.env.log = some 0 ∧ acquired 0 w.env.log = 1 ∧
        released 0 w.env.log = 0)) = true := by decide
  obtain ⟨w, r, hinit, ha, hr⟩ := Machine.Reach.of_play zeroStart_start h
  have hle := (all 0 w r).permits 0 hinit (by decide)
  rw [ha, hr] at hle
  exact absurd hle (by decide)

end Gevent
