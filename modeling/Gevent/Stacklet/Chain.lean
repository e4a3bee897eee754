import Gevent.Stacklet
import Mathlib.Data.List.Perm.Subperm

/-!
# Stacks that are not wholly saved

The stacklets of which a part is still on the C stack form a list: each begins,
with what is left of it, above the end of the one before (`Chain`).
`g_clear_stack` moves what lies below the end of its target
(`gClearStack_spec`), and no operation changes what a stacklet holds.
-/

namespace Gevent.Stacklet

/-- The stacklet as a part of the C stack. -/
def StackletS.segment (g : StackletS) : Segment Byte :=
  ⟨g.stackStart, g.stackStop, g.stackSaved, g.copy⟩

/-- All of it is in the heap. -/
def StackletS.Saved (g : StackletS) : Prop := g.stackSaved = g.stackStop - g.stackStart

namespace State

/-- The stacklets from `head` on; what is left of the first is above `low`. -/
def Chain (s : State) (low : Nat) : Option Ptr → List Ptr → Prop
  | none, [] => True
  | some p, q :: ps => p = q ∧ p ∈ s.live ∧ low ≤ (s.heap p).stackStart + (s.heap p).stackSaved ∧
      (s.heap p).stackStart + (s.heap p).stackSaved < (s.heap p).stackStop ∧
      Chain s (s.heap p).stackStop (s.heap p).stackPrev ps
  | _, _ => False

/-- Stacklets have been moved to the heap in part, and nothing else has changed. -/
structure Moved (s s' : State) : Prop where
  stack : s'.stack = s.stack
  live : s'.live = s.live
  start : ∀ p, (s'.heap p).stackStart = (s.heap p).stackStart
  stop : ∀ p, (s'.heap p).stackStop = (s.heap p).stackStop
  image : ∀ p a, (s.heap p).stackStart ≤ a →
    (s'.heap p).segment.image s.stack a = (s.heap p).segment.image s.stack a
  bound : ∀ p, (s.heap p).stackSaved ≤ (s.heap p).stackStop - (s.heap p).stackStart →
    (s'.heap p).stackSaved ≤ (s.heap p).stackStop - (s.heap p).stackStart

namespace Moved
variable {s s₁ s₂ : State}

theorem refl (s : State) : s.Moved s := ⟨rfl, rfl, fun _ => rfl, fun _ => rfl, fun _ _ _ => rfl,
    fun _ h => h⟩

theorem trans (h₁ : s.Moved s₁) (h₂ : s₁.Moved s₂) : s.Moved s₂ where
  stack := h₂.stack.trans h₁.stack
  live := h₂.live.trans h₁.live
  start p := (h₂.start p).trans (h₁.start p)
  stop p := (h₂.stop p).trans (h₁.stop p)
  image p a low := by
    rw [← h₁.image p a low, ← h₁.stack]
    exact h₂.image p a (by rwa [h₁.start p])
  bound p h := by
    have := h₂.bound p (by rw [h₁.start p, h₁.stop p]; exact h₁.bound p h)
    rwa [h₁.start p, h₁.stop p] at this

/-- One stacklet changes. -/
theorem set {p : Ptr} {g : StackletS} (start : g.stackStart = (s.heap p).stackStart)
    (stop : g.stackStop = (s.heap p).stackStop)
    (image : ∀ a, g.stackStart ≤ a → g.segment.image s.stack a = (s.heap p).segment.image s.stack a)
    (bound : (s.heap p).stackSaved ≤ (s.heap p).stackStop - (s.heap p).stackStart →
      g.stackSaved ≤ (s.heap p).stackStop - (s.heap p).stackStart) :
    s.Moved (s.set p g) := by
  have cases : ∀ q, q = p ∧ (s.set p g).heap q = g ∨ (s.set p g).heap q = s.heap q := by
    intro q
    by_cases hq : q = p
    · subst hq
      exact .inl ⟨rfl, Function.update_self ..⟩
    · exact .inr (Function.update_of_ne hq ..)
  refine ⟨rfl, rfl, fun q => ?_, fun q => ?_, fun q a low => ?_, fun q h => ?_⟩ <;>
    rcases cases q with ⟨rfl, hq⟩ | hq <;> rw [hq]
  · exact start
  · exact stop
  · exact image a (by rwa [start])
  · exact bound h
  · exact h

end Moved

section
variable {s : State} {p : Ptr} {low stop : Nat} {head : Option Ptr} {ps : List Ptr}

theorem deref_ok (live : p ∈ s.live) : s.deref p = .ok (s.heap p) := if_pos live

theorem set_self (s : State) (p : Ptr) : s.set p (s.heap p) = s := by
  simp [set]

/-- `g_save` moves the bytes below `stop`, and changes none. -/
theorem gSave_spec (live : p ∈ s.live) (high : stop ≤ (s.heap p).stackStop) :
    ∃ g, s.gSave p stop = .ok (s.set p g) ∧ s.Moved (s.set p g) ∧
      g.stackSaved = max (s.heap p).stackSaved (stop - (s.heap p).stackStart) ∧
      g.stackPrev = (s.heap p).stackPrev := by
  by_cases more : (s.heap p).stackSaved < stop - (s.heap p).stackStart
  · let g : StackletS := { s.heap p with
      copy := copyRange (s.heap p).copy (s.heap p).stackSaved s.stack
        ((s.heap p).stackStart + (s.heap p).stackSaved)
        (stop - (s.heap p).stackStart - (s.heap p).stackSaved)
      stackSaved := stop - (s.heap p).stackStart }
    have segment : g.segment = (s.heap p).segment.save s.stack stop := (if_pos more).symm
    refine ⟨g, ?_, .set rfl rfl (fun a low => ?_) (fun _ => ?_), ?_, rfl⟩
    · simp [gSave, deref_ok live, high, more, Bind.bind, Except.bind, g]
    · rw [segment]
      exact Segment.save_image low
    · exact Nat.sub_le_sub_right high _
    · exact (Nat.max_eq_right (Nat.le_of_lt more)).symm
  · refine ⟨s.heap p, ?_, ?_, ?_, rfl⟩
    · rw [set_self]
      simp [gSave, deref_ok live, high, more, Bind.bind, Except.bind]
    · rw [set_self]
      exact .refl s
    · exact (Nat.max_eq_left (Nat.not_lt.mp more)).symm

namespace Chain

theorem weaken {low' : Nat} (h : s.Chain low head ps) (le : low' ≤ low) : s.Chain low' head ps := by
  cases head with
  | none => cases ps <;> exact h
  | some p =>
    cases ps with
    | nil => exact h
    | cons q ps => exact ⟨h.1, h.2.1, Nat.le_trans le h.2.2.1, h.2.2.2⟩

theorem head_eq (h : s.Chain low head ps) : head = ps.head? := by
  cases ps <;> cases head <;> simp_all [Chain]

/-- Every stacklet in the list is allocated, and in part on the C stack above `low`. -/
theorem mem (h : s.Chain low head ps) {p : Ptr} (hp : p ∈ ps) : p ∈ s.live ∧
    low ≤ (s.heap p).stackStart + (s.heap p).stackSaved ∧
    (s.heap p).stackStart + (s.heap p).stackSaved < (s.heap p).stackStop := by
  induction ps generalizing low head with
  | nil => cases hp
  | cons q ps ih =>
    cases head with
    | none => exact h.elim
    | some p' =>
      obtain ⟨rfl, live, above, left, rest⟩ := h
      rcases List.mem_cons.mp hp with rfl | hp
      · exact ⟨live, above, left⟩
      · obtain ⟨live', above', left'⟩ := ih rest hp
        exact ⟨live', by omega, left'⟩

theorem nodup (h : s.Chain low head ps) : ps.Nodup := by
  induction ps generalizing low head with
  | nil => exact .nil
  | cons q ps ih =>
    cases head with
    | none => exact h.elim
    | some p =>
      obtain ⟨rfl, live, above, left, rest⟩ := h
      refine List.nodup_cons.mpr ⟨fun hm => ?_, ih rest⟩
      have := (rest.mem hm).2
      omega

/-- The list depends on its own stacklets only. -/
theorem congr {s' : State} (h : s.Chain low head ps) (same : ∀ p ∈ ps, s'.heap p = s.heap p)
    (live : ∀ p ∈ ps, p ∈ s'.live) : s'.Chain low head ps := by
  induction ps generalizing low head with
  | nil =>
    cases head with
    | none => trivial
    | some p => exact h
  | cons q ps ih =>
    cases head with
    | none => exact h.elim
    | some p =>
      obtain ⟨rfl, -, above, left, rest⟩ := h
      have hp := same p List.mem_cons_self
      refine ⟨rfl, live p List.mem_cons_self, by rwa [hp], by rwa [hp], ?_⟩
      rw [hp]
      exact ih rest (fun q hq => same q (List.mem_cons_of_mem _ hq))
        fun q hq => live q (List.mem_cons_of_mem _ hq)

/-- The stacklets in the list end higher and higher. -/
theorem last (h : s.Chain low head ps) {m : Ptr} (mem : m ∈ ps)
    (highest : ∀ q ∈ ps, q ≠ m → (s.heap q).stackStop < (s.heap m).stackStop) :
    ps.getLast? = some m := by
  induction ps generalizing low head with
  | nil => cases mem
  | cons q ps ih =>
    cases head with
    | none => exact h.elim
    | some p =>
      obtain ⟨rfl, live, above, left, tail⟩ := h
      by_cases hm : m ∈ ps
      · have := ih tail hm fun q hq => highest q (List.mem_cons_of_mem _ hq)
        simp [List.getLast?_cons, this]
      · obtain rfl : m = p := (List.mem_cons.mp mem).resolve_right hm
        cases ps with
        | nil => rfl
        | cons q ps =>
          have higher := (tail.mem List.mem_cons_self).2
          have := highest q (by simp) (by rintro rfl; exact hm List.mem_cons_self)
          omega

end Chain

theorem set_set (s : State) (p : Ptr) (g g' : StackletS) : (s.set p g).set p g' = s.set p g' := by
  simp [set]

@[simp] theorem set_heap_self (s : State) (p : Ptr) (g : StackletS) : (s.set p g).heap p = g :=
  Function.update_self ..

theorem set_heap_ne {q : Ptr} (h : q ≠ p) (g : StackletS) : (s.set p g).heap q = s.heap q :=
  Function.update_of_ne h ..

/-- A stacklet that ends below the target's end is moved, unless it is the target. -/
theorem clear_spec (target : Ptr) (live : p ∈ s.live)
    (left : (s.heap p).stackStart + (s.heap p).stackSaved < (s.heap p).stackStop) :
    ∃ g, s.clear target p (s.heap p) = .ok (s.set p g) ∧ s.Moved (s.set p g) ∧
      (p ≠ target → g.Saved) := by
  have unlinked : s.Moved (s.set p { s.heap p with stackPrev := none }) :=
    .set rfl rfl (fun _ _ => rfl) fun h => h
  by_cases ht : p = target
  · exact ⟨_, by simp [clear, ht], unlinked, fun h => absurd ht h⟩
  · obtain ⟨g, hg, moved, saved, -⟩ := gSave_spec (s := s.set p { s.heap p with stackPrev := none })
      (p := p) live (show (s.heap p).stackStop ≤ _ by simp)
    rw [set_set] at hg moved
    have all := unlinked.trans moved
    refine ⟨g, by simp only [clear, if_pos ht, hg], all, fun _ => ?_⟩
    have start := all.start p
    have stop := all.stop p
    simp only [set_heap_self] at saved start stop
    rw [StackletS.Saved, start, stop, saved]
    exact Nat.max_eq_right (by omega)

/-- The loop of `g_clear_stack` unlinks the stacklets that end below its
target's end, and moves all of them but the target. -/
theorem clearLoop_spec (target : Ptr) (targetStop : Nat) {turns : Nat}
    (chain : s.Chain low head ps) (enough : ps.length ≤ turns) :
    ∃ s' head' rest, clearLoop target targetStop turns s head = .ok (s', head') ∧ s.Moved s' ∧
      s'.thrd = s.thrd ∧ s.Chain 0 head' rest ∧ rest ⊆ ps ∧
      (∀ p ∈ rest, targetStop < (s.heap p).stackStop) ∧
      (∀ p ∈ ps, p ∉ rest → (s.heap p).stackStop ≤ targetStop ∧ (p ≠ target → (s'.heap p).Saved)) ∧
      ∀ p, p ∉ ps ∨ p ∈ rest → s'.heap p = s.heap p := by
  induction ps generalizing s low head turns with
  | nil =>
    cases head with
    | none => exact ⟨s, none, [], by simp [clearLoop], .refl s, rfl, trivial, by simp, by simp,
        by simp, by simp⟩
    | some p => exact chain.elim
  | cons q ps ih =>
    cases head with
    | none => exact chain.elim
    | some p =>
      have nodup := chain.nodup
      obtain ⟨rfl, live, above, left, tail⟩ := chain
      obtain ⟨hp, -⟩ := List.nodup_cons.mp nodup
      cases turns with
      | zero => simp at enough
      | succ turns =>
        by_cases below : (s.heap p).stackStop ≤ targetStop
        · obtain ⟨g, hg, moved, saved⟩ := clear_spec target live left
          have others : ∀ q ∈ ps, (s.set p g).heap q = s.heap q := fun q hq =>
            set_heap_ne (by rintro rfl; exact hp hq) g
          obtain ⟨s', head', rest, run, moved', thrd, chain', sub, ends, done, same⟩ :=
            ih (tail.congr others fun q hq => (tail.mem hq).1) (by simpa using enough)
          have hrest : p ∉ rest := fun h => hp (sub h)
          refine ⟨s', head', rest, ?_, moved.trans moved', thrd, ?_, ?_, ?_, ?_, ?_⟩
          · simp only [clearLoop, deref_ok live, ok_bind, if_pos below]
            rw [hg, ok_bind]
            exact run
          · exact chain'.congr (fun q hq => (others q (sub hq)).symm) fun q hq => (chain'.mem hq).1
          · exact fun q hq => List.mem_cons_of_mem _ (sub hq)
          · intro q hq
            rw [← others q (sub hq)]
            exact ends q hq
          · intro q hq hqr
            rcases List.mem_cons.mp hq with rfl | hq
            · refine ⟨below, fun ht => ?_⟩
              rw [same q (.inl hp), set_heap_self]
              exact saved ht
            · rw [← others q hq]
              exact done q hq hqr
          · rintro q (hq | hq)
            · rw [List.mem_cons, not_or] at hq
              rw [same q (.inl hq.2), set_heap_ne hq.1]
            · rw [same q (.inr hq), others q (sub hq)]
        · refine ⟨s, some p, p :: ps, ?_, .refl s, rfl, ⟨rfl, live, Nat.zero_le _, left, tail⟩,
            fun _ h => h, ?_, fun q hq hqr => absurd hq hqr, fun _ _ => rfl⟩
          · simp [clearLoop, deref_ok live, below]
          · intro q hq
            rcases List.mem_cons.mp hq with rfl | hq
            · omega
            · have := tail.mem hq
              omega

/-- What lies below the end of the target is on the heap; `rest` of the list `ps` is left. -/
structure Cleared (s s' : State) (target : Ptr) (ps rest : List Ptr) : Prop extends Moved s s' where
  thrd : s'.thrd = { s.thrd with gStackChainHead := rest.head? }
  chain : s'.Chain (s.heap target).stackStop rest.head? rest
  sub : rest ⊆ ps
  above : ∀ p ∈ rest, (s.heap target).stackStop < (s.heap p).stackStop
  gone : ∀ p ∈ ps, p ∉ rest → (s.heap p).stackStop ≤ (s.heap target).stackStop ∧
    (p ≠ target → (s'.heap p).Saved)
  same : ∀ p, p ∉ ps → s'.heap p = s.heap p

/-- The end of `g_clear_stack` leaves what is above the target's end on the C stack. -/
theorem clearPart_spec {targetStop : Nat} (chain : s.Chain 0 (some p) ps)
    (above : targetStop < (s.heap p).stackStop) : ∃ s', s.clearPart targetStop p = .ok s' ∧
      s.Moved s' ∧ s'.thrd = s.thrd ∧ s'.Chain targetStop (some p) ps ∧
      ∀ q, q ≠ p → s'.heap q = s.heap q := by
  have nodup := chain.nodup
  cases ps with
  | nil => exact chain.elim
  | cons q ps =>
    obtain ⟨rfl, live, -, left, tail⟩ := chain
    by_cases low : (s.heap p).stackStart < targetStop
    · obtain ⟨g, hg, moved, saved, prev⟩ := gSave_spec live (Nat.le_of_lt above)
      have start := moved.start p
      have stop := moved.stop p
      simp only [set_heap_self] at start stop
      refine ⟨_, by simp [clearPart, deref_ok live, low, hg], moved, rfl,
        ⟨rfl, live, ?_, ?_, ?_⟩, fun q hq => set_heap_ne hq g⟩
      · rw [set_heap_self, start, saved]
        omega
      · rw [set_heap_self, start, stop, saved]
        omega
      · rw [set_heap_self, stop, prev]
        refine tail.congr (fun q hq => set_heap_ne ?_ g) fun q hq => (tail.mem hq).1
        rintro rfl
        exact (List.nodup_cons.mp nodup).1 hq
    · refine ⟨s, by simp [clearPart, deref_ok live, low], .refl s, rfl,
        ⟨rfl, live, by omega, left, tail⟩,
        fun _ _ => rfl⟩

theorem gClearStack_spec {target : Ptr} (chain : s.Chain low s.thrd.gStackChainHead ps)
    (live : target ∈ s.live) : ∃ s' rest, s.gClearStack target = .ok s' ∧
      s.Cleared s' target ps rest := by
  have enough : ps.length ≤ s.live.length :=
    (chain.nodup.subperm fun p hp => (chain.mem hp).1).length_le
  obtain ⟨s₁, head, rest, run, moved, thrd, chain₁, sub, above, gone, same⟩ :=
    clearLoop_spec target (s.heap target).stackStop chain enough
  have chain₁ : s₁.Chain 0 head rest := chain₁.congr (fun p hp => same p (.inr hp)) fun p hp => by
    rw [moved.live]
    exact (chain₁.mem hp).1
  have hhead := chain₁.head_eq
  cases head with
  | none =>
    cases rest with
    | cons p rest => cases hhead
    | nil =>
      refine ⟨s₁.setChainHead none, [], ?_, ⟨?_, ?_, ?_, ?_, ?_, ?_, ?_⟩⟩
      · simp [gClearStack, deref_ok live, run]
      · exact ⟨moved.stack, moved.live, moved.start, moved.stop, moved.image, moved.bound⟩
      · simp [setChainHead, thrd]
      · trivial
      · exact sub
      · simp
      · exact gone
      · exact fun p hp => same p (.inl hp)
  | some p =>
    have hp : p ∈ rest := by
      cases rest with
      | nil => cases hhead
      | cons q rest => simp_all
    obtain ⟨s₂, run₂, moved₂, thrd₂, chain₂, same₂⟩ :=
      clearPart_spec chain₁ (by rw [moved.stop]; exact above p hp)
    have all := moved.trans moved₂
    refine ⟨s₂.setChainHead (some p), rest, ?_, ⟨?_, ?_, ?_, sub, above, ?_, ?_⟩⟩
    · simp [gClearStack, deref_ok live, run, run₂]
    · exact ⟨all.stack, all.live, all.start, all.stop, all.image, all.bound⟩
    · simp [setChainHead, thrd, thrd₂, ← hhead]
    · rw [← hhead]
      exact chain₂.congr (fun _ _ => rfl) fun q hq => (chain₂.mem hq).1
    · intro q hq hqr
      have hqp : q ≠ p := by
        rintro rfl
        exact hqr hp
      rw [show (s₂.setChainHead (some p)).heap q = s₁.heap q from same₂ q hqp]
      exact gone q hq hqr
    · intro q hq
      have hqp : q ≠ p := by
        rintro rfl
        exact hq (sub hp)
      exact (same₂ q hqp).trans (same q (.inl hq))

/-- `pp` is where `head` is stored. -/
def Link (s : State) (head : Option Ptr) : Option Ptr → Prop
  | none => s.thrd.gStackChainHead = head
  | some q => (s.heap q).stackPrev = head

/-- The loop of `stacklet_destroy` takes the target out of the list, if it is there. -/
theorem unlinkLoop_spec (target : Ptr) {turns : Nat} {pp : Option Ptr} (chain : s.Chain low head ps)
    (enough : ps.length ≤ turns) (link : s.Link head pp) (out : ∀ q ∈ pp, q ∉ ps) :
    ∃ s' head', unlinkLoop target turns s pp head = .ok s' ∧ s.Moved s' ∧
      s'.thrd = { s.thrd with gStackChainHead := s'.thrd.gStackChainHead } ∧
      (∀ p, (s'.heap p).stackSaved = (s.heap p).stackSaved) ∧
      s'.Chain low head' (ps.erase target) ∧ s'.Link head' pp ∧
      (pp ≠ none → s'.thrd = s.thrd) ∧ ∀ p, p ∉ ps → some p ≠ pp → s'.heap p = s.heap p := by
  induction ps generalizing low head turns pp with
  | nil =>
    cases head with
    | none => exact ⟨s, none, by simp [unlinkLoop], .refl s, rfl, fun _ => rfl, trivial, link,
        fun _ => rfl, fun _ _ _ => rfl⟩
    | some p => exact chain.elim
  | cons q ps ih =>
    cases head with
    | none => exact chain.elim
    | some p =>
      have nodup := chain.nodup
      obtain ⟨rfl, live, above, left, tail⟩ := chain
      obtain ⟨hp, -⟩ := List.nodup_cons.mp nodup
      cases turns with
      | zero => simp at enough
      | succ turns =>
        by_cases ht : p = target
        · subst ht
          have tail' : s.Chain low (s.heap p).stackPrev ps := tail.weaken (by omega)
          rw [List.erase_cons_head]
          cases pp with
          | none =>
            refine ⟨s.setChainHead (s.heap p).stackPrev, (s.heap p).stackPrev, ?_,
              ⟨rfl, rfl, fun _ => rfl, fun _ => rfl, fun _ _ _ => rfl, fun _ h => h⟩, rfl,
              fun _ => rfl, ?_, rfl, fun h => absurd rfl h, fun _ _ _ => rfl⟩
            · simp [unlinkLoop, deref_ok live]
            · exact tail'.congr (fun _ _ => rfl) fun q hq => (tail'.mem hq).1
          | some q =>
            have hq : q ∉ p :: ps := out q rfl
            have others : ∀ r, r ≠ q →
                (s.set q { s.heap q with stackPrev := (s.heap p).stackPrev }).heap r = s.heap r :=
              fun r hr => set_heap_ne hr _
            refine ⟨s.set q { s.heap q with stackPrev := (s.heap p).stackPrev },
              (s.heap p).stackPrev,
              ?_, .set rfl rfl (fun _ _ => rfl) fun h => h, rfl, fun r => ?_, ?_, ?_, fun _ => rfl,
                ?_⟩
            · simp [unlinkLoop, deref_ok live]
            · by_cases hr : r = q
              · subst hr
                simp
              · rw [others r hr]
            · refine tail'.congr (fun r hr => others r ?_) fun r hr => (tail'.mem hr).1
              rintro rfl
              exact hq (List.mem_cons_of_mem _ hr)
            · simp [Link]
            · intro r _ hr
              exact others r fun h => hr (h ▸ rfl)
        · obtain ⟨s', head', run, moved, thrd, saved, chain', link', keep, same⟩ :=
            ih tail (by simpa using enough) (show s.Link _ (some p) from rfl)
              (by rintro _ ⟨⟩; exact hp)
          have link' : (s'.heap p).stackPrev = head' := link'
          refine ⟨s', some p, ?_, moved, thrd, saved, ?_, ?_, fun _ => keep (by simp), ?_⟩
          · simpa [unlinkLoop, ht, deref_ok live] using run
          · rw [List.erase_cons_tail (by simpa using ht)]
            refine ⟨rfl, by rwa [moved.live], ?_, ?_, ?_⟩
            · rwa [moved.start, saved]
            · rwa [moved.start, saved, moved.stop]
            · rwa [moved.stop, link']
          · cases pp with
            | none =>
              rw [Link, keep (by simp)]
              exact link
            | some q =>
              have hq : q ∉ p :: ps := out q rfl
              rw [List.mem_cons, not_or] at hq
              rw [Link, same q hq.2 (by simpa using hq.1)]
              exact link
          · intro r hr _
            rw [List.mem_cons, not_or] at hr
            exact same r hr.2 (by simpa using hr.1)

end
end State
end Gevent.Stacklet
