import Gevent.LibraryCalls
import Gevent.StackSwitching

/-!
# The stacklets of suspended stacks

gevent.c names the stacks that it suspends by handles; `ptr` is the stacklet
that each handle stands for. `Names` says that these are exactly the stacklets
that the library keeps, and `Stacklet.Became` what a call makes of them.
-/

namespace Gevent
open Stacklet (Ptr Represents)

/-- The suspended stacks, and the stacklets that stand for them; `main` is that
of the main cothread `m`. -/
structure Names (suspended : Nat → Option Stack) (ptr : Nat → Ptr) (live : Ptr → Prop)
    (main : Option Ptr) (m : Tid) : Prop where
  live : ∀ q, live q ↔ ∃ n st, suspended n = some st ∧ ptr n = q
  distinct : ∀ i j si sj, suspended i = some si → suspended j = some sj → ptr i = ptr j → i = j
  main : ∀ n st, suspended n = some st → (main = some (ptr n) ↔ st.owner = some m)

namespace Names
variable {suspended : Nat → Option Stack} {ptr : Nat → Ptr} {live : Ptr → Prop} {main : Option Ptr}
  {m : Tid} {next n i : Nat} {st si : Stack} {p : Ptr}

theorem of_update_some (h : Function.update suspended next (some st) i = some si) :
    i = next ∧ si = st ∨ i ≠ next ∧ suspended i = some si := by
  by_cases hi : i = next
  · subst hi
    simp only [Function.update_self, Option.some.injEq] at h
    exact .inl ⟨rfl, h.symm⟩
  · rw [Function.update_of_ne hi] at h
    exact .inr ⟨hi, h⟩

theorem of_update_none (h : Function.update suspended n none i = some si) :
    i ≠ n ∧ suspended i = some si := by
  by_cases hi : i = n
  · simp [hi] at h
  · rw [Function.update_of_ne hi] at h
    exact ⟨hi, h⟩

theorem suspend (h : Names suspended ptr live main m) (next : Nat) (st : Stack) (p : Ptr)
    (unused : suspended next = none) (fresh : ¬ live p)
    (running : main = none ↔ st.owner = some m) (present : ∀ q, main = some q → live q)
    (once : ∀ n st', suspended n = some st' → st'.owner ≠ st.owner) :
    Names (Function.update suspended next (some st)) (Function.update ptr next p)
      (fun q => q = p ∨ live q) (main.or (some p)) m := by
  have old : ∀ i si, suspended i = some si → i ≠ next ∧ ptr i ≠ p := by
    intro i si hi
    constructor
    · rintro rfl
      rw [unused] at hi
      cases hi
    · rintro rfl
      exact fresh ((h.live _).mpr ⟨i, si, hi, rfl⟩)
  constructor
  · intro q
    constructor
    · rintro (rfl | hq)
      · exact ⟨next, st, by simp, by simp⟩
      · obtain ⟨i, si, hi, rfl⟩ := (h.live q).mp hq
        have ne := (old i si hi).1
        exact ⟨i, si, by simp [ne, hi], by simp [ne]⟩
    · rintro ⟨i, si, hi, rfl⟩
      obtain ⟨rfl, -⟩ | ⟨ne, hi⟩ := of_update_some hi
      · simp
      · simp only [Function.update_of_ne ne]
        exact .inr ((h.live _).mpr ⟨i, si, hi, rfl⟩)
  · intro i j si sj hi hj same
    obtain ⟨rfl, -⟩ | ⟨nei, oldi⟩ := of_update_some hi <;>
      obtain ⟨rfl, -⟩ | ⟨nej, oldj⟩ := of_update_some hj
    · rfl
    · simp only [Function.update_self, Function.update_of_ne nej] at same
      exact absurd same.symm (old j sj oldj).2
    · simp only [Function.update_self, Function.update_of_ne nei] at same
      exact absurd same (old i si oldi).2
    · simp only [Function.update_of_ne nei, Function.update_of_ne nej] at same
      exact h.distinct i j si sj oldi oldj same
  · intro i si hi
    obtain ⟨rfl, rfl⟩ | ⟨ne, hi⟩ := of_update_some hi
    · cases hm : main with
      | none => simpa [hm] using running
      | some q =>
        have ne : q ≠ p := by
          rintro rfl
          exact fresh (present q hm)
        simpa [hm, ne] using running
    · have other := (old i si hi).2
      cases hm : main with
      | none =>
        have owner := running.mp hm
        have apart : si.owner ≠ some m := owner ▸ once i si hi
        simp [ne, Ne.symm other, apart]
      | some q => simpa [hm, ne] using h.main i si hi

theorem consume (h : Names suspended ptr live main m) (hn : suspended n = some st) :
    Names (Function.update suspended n none) ptr (fun q => q ≠ ptr n ∧ live q)
      (main.filter (· ≠ ptr n)) m := by
  constructor
  · intro q
    constructor
    · rintro ⟨ne, hq⟩
      obtain ⟨i, si, hi, rfl⟩ := (h.live q).mp hq
      have hin : i ≠ n := by
        rintro rfl
        exact ne rfl
      exact ⟨i, si, by simp [hin, hi], rfl⟩
    · rintro ⟨i, si, hi, rfl⟩
      obtain ⟨ne, hi⟩ := of_update_none hi
      exact ⟨fun same => ne (h.distinct i n si st hi hn same), (h.live _).mpr ⟨i, si, hi, rfl⟩⟩
  · intro i j si sj hi hj
    exact h.distinct i j si sj (of_update_none hi).2 (of_update_none hj).2
  · intro i si hi
    obtain ⟨ne, hi⟩ := of_update_none hi
    have apart : ptr i ≠ ptr n := fun same => ne (h.distinct i n si st hi hn same)
    rw [← h.main i si hi]
    cases main with
    | none => simp
    | some q =>
      simp only [Option.filter, decide_not]
      grind

end Names

/-! ## What the library does to the names -/

namespace Stacklet
variable {r r' : Program} {t : Stacks} {stackmarker sp : Nat} {p q target : Ptr}

theorem Represents.live_iff (h : Represents r t) : q ∈ r.state.live ↔ t.suspended q ≠ none := by
  obtain ⟨ps, keeps, -⟩ := h.keeps
  rw [keeps.live, Option.isSome_iff_ne_none]

theorem Represents.main_live (h : Represents r t) (hq : r.main = some q) : q ∈ r.state.live := by
  obtain ⟨ps, -, placed⟩ := h.keeps
  simp only [hq, Placed] at placed
  obtain ⟨-, img, highest, -⟩ := placed
  rw [h.live_iff, highest.image]
  simp

/-- What becomes of the stacklets, of the main stack's handle and of `g_source`. -/
structure Became (r r' : Program) (live : Ptr → Prop) (main : Option Ptr)
    (source : Handle) : Prop where
  live : ∀ q, q ∈ r'.state.live ↔ live q
  main : r'.main = main
  source : r'.state.thrd.gSource = source
  kept : ∃ t', Represents r' t'

theorem Represents.became_new (h : Represents r t)
    (legal : r.Legal (.new stackmarker sp (some p))) :
    ∃ r', r.exec (.new stackmarker sp (some p)) = .ok r' ∧
      Became r r' (fun q => q = p ∨ q ∈ r.state.live) (r.main.or (some p)) (.stack p) := by
  obtain ⟨r', t', exec, step, represents⟩ := h.exec legal
  refine ⟨r', exec, fun q => ?_, ?_, ?_, t', represents⟩
  · subst step
    rw [represents.live_iff, h.live_iff, Stacks.suspend]
    by_cases hq : q = p <;> simp [hq]
  · simp only [Program.exec, bind_eq_ok] at exec
    obtain ⟨s, -, exec⟩ := exec
    cases exec
    rfl
  · rw [← represents.source]
    subst step
    rfl

theorem Represents.became_switch (h : Represents r t)
    (legal : r.Legal (.switch stackmarker sp (some p) target)) :
    ∃ r', r.exec (.switch stackmarker sp (some p) target) = .ok r' ∧
      Became r r' (fun q => q ≠ target ∧ (q = p ∨ q ∈ r.state.live))
        ((r.main.or (some p)).filter (· ≠ target))
        (.stack p) := by
  obtain ⟨r', t', exec, step, represents⟩ := h.exec legal
  obtain ⟨img, -, suspended, -, -, source, -⟩ := step
  refine ⟨r', exec, fun q => ?_, ?_, ?_, t', represents⟩
  · rw [represents.live_iff, h.live_iff, suspended, Stacks.suspend]
    by_cases hqt : q = target
    · simp [hqt]
    · rw [Function.update_of_ne hqt]
      by_cases hq : q = p
      · subst hq
        simp [hqt]
      · simp [hq, hqt]
  · simp only [Program.exec, bind_eq_ok] at exec
    obtain ⟨s, -, exec⟩ := exec
    cases exec
    rfl
  · rw [← represents.source]
    exact source

theorem Represents.became_finish (h : Represents r t) (legal : r.Legal (.finish target)) :
    ∃ r', r.exec (.finish target) = .ok r' ∧
      Became r r' (fun q => q ≠ target ∧ q ∈ r.state.live) (r.main.filter (· ≠ target)) .empty := by
  obtain ⟨r', t', exec, step, represents⟩ := h.exec legal
  obtain ⟨img, -, suspended, -, -, source, -⟩ := step
  refine ⟨r', exec, fun q => ?_, ?_, ?_, t', represents⟩
  · rw [represents.live_iff, h.live_iff, suspended]
    by_cases hqt : q = target <;> simp [hqt]
  · simp only [Program.exec, bind_eq_ok] at exec
    obtain ⟨s, -, exec⟩ := exec
    cases exec
    rfl
  · rw [← represents.source]
    exact source

end Stacklet

end Gevent
