import Mathlib.Logic.Function.Basic
import Mathlib.Logic.Function.Iterate
import Mathlib.Data.List.Basic
import Mathlib.Data.List.Nodup

/-!
# Intrusive circular lists

A heap of two-word nodes, the operations a C program performs on them one
assignment at a time, and their meaning as lists:

* `Links.Ring`: the nodes reachable from a head are exactly a given list;
* `Ring.insertTail`, `Ring.remove`: what the two pointer updates do to it;
* `Ring.next_iterate`, `Ring.visits_iff`, `Ring.prev_next`: walking the heap visits
  that list; `Ring.insertTail_twice`: not when a node is inserted twice;
* `Traced`: a heap with the history of the operations performed on it. A
  history is `Disciplined` when it never links a linked node, never unlinks
  an unlinked one and never overwrites a linked one; `contents` replays it as
  plain lists. `Traced.Good` says both agree, and every operation keeps it.
-/

namespace Intrusive

/-- The link words of every node. -/
structure Links (N : Type) where
  prev : N → N
  next : N → N

namespace Links
variable {N : Type} [DecidableEq N]

def setPrev (l : Links N) (x y : N) : Links N := { l with prev := Function.update l.prev x y }

def setNext (l : Links N) (x y : N) : Links N := { l with next := Function.update l.next x y }

def init (l : Links N) (q : N) : Links N := (l.setPrev q q).setNext q q

def insertTail (l : Links N) (h x : N) : Links N :=
  let l := l.setPrev x (l.prev h)
  let l := l.setNext (l.prev x) x
  let l := l.setNext x h
  l.setPrev h x

def remove (l : Links N) (x : N) : Links N :=
  let l := l.setPrev (l.next x) (l.prev x)
  l.setNext (l.prev x) (l.next x)

def isEmpty (l : Links N) (h : N) : Bool := decide (h = l.prev h)

def head (l : Links N) (h : N) : N := l.next h

/-- Following `next` from `a` leads through `xs` to `b`, and `prev` leads back. -/
def Seg (l : Links N) : N → List N → N → Prop
  | a, [], b => l.next a = b ∧ l.prev b = a
  | a, x :: xs, b => l.next a = x ∧ l.prev x = a ∧ Seg l x xs b

/-- The circular list headed by `h` holds exactly `xs`, in this order. -/
structure Ring (l : Links N) (h : N) (xs : List N) : Prop where
  nodup : (h :: xs).Nodup
  seg : l.Seg h xs h

variable {l l' : Links N} {a b h x y : N} {xs ys : List N}

omit [DecidableEq N] in
theorem seg_append : l.Seg a (xs ++ y :: ys) b ↔ l.Seg a xs y ∧ l.Seg y ys b := by
  induction xs generalizing a with
  | nil => simp [Seg, and_assoc]
  | cons x xs ih => simp [Seg, ih, and_assoc]

omit [DecidableEq N] in
/-- A segment only reads `next` of its source and members, `prev` of its members and target. -/
theorem Seg.congr (hs : l.Seg a xs b) (hn : ∀ y ∈ a :: xs, l'.next y = l.next y)
    (hp : ∀ y ∈ xs ++ [b], l'.prev y = l.prev y) : l'.Seg a xs b := by
  induction xs generalizing a with
  | nil =>
    have hn' := hn a (by simp)
    have hp' := hp b (by simp)
    exact ⟨hn'.trans hs.1, hp'.trans hs.2⟩
  | cons x xs ih =>
    obtain ⟨h1, h2, h3⟩ := hs
    have hn' := hn a (by simp)
    have hp' := hp x (by simp)
    refine ⟨hn'.trans h1, hp'.trans h2, ih h3 ?_ ?_⟩
    · intro y hy; exact hn y (List.mem_cons_of_mem _ hy)
    · intro y hy; exact hp y (by simp only [List.cons_append, List.mem_cons]; exact Or.inr hy)

omit [DecidableEq N] in
theorem Seg.last_mem (hs : l.Seg a xs b) : l.prev b ∈ a :: xs := by
  induction xs generalizing a with
  | nil => simp [hs.2]
  | cons x xs ih => exact List.mem_cons_of_mem _ (ih hs.2.2)

omit [DecidableEq N] in
theorem Seg.first_mem (hs : l.Seg a xs b) : l.next a ∈ xs ++ [b] := by
  cases xs with
  | nil => simp [hs.1]
  | cons x xs => simp [hs.1]

omit [DecidableEq N] in
/-- Redirecting the last node of a segment to a new target. -/
theorem Seg.retarget {c : N} (hs : l.Seg a xs b) (hd : (a :: xs).Nodup)
    (hlast : l'.next (l.prev b) = c) (hback : l'.prev c = l.prev b)
    (hn : ∀ y ∈ a :: xs, y ≠ l.prev b → l'.next y = l.next y)
    (hp : ∀ y ∈ xs, l'.prev y = l.prev y) : l'.Seg a xs c := by
  induction xs generalizing a with
  | nil =>
    have ha : l.prev b = a := hs.2
    rw [ha] at hlast hback
    exact ⟨hlast, hback⟩
  | cons x xs ih =>
    obtain ⟨h1, h2, h3⟩ := hs
    have hne : a ≠ l.prev b := by
      intro he
      exact (List.nodup_cons.mp hd).1 (he ▸ h3.last_mem)
    have hx := hp x (by simp)
    refine ⟨(hn a (by simp) hne).trans h1, hx.trans h2, ?_⟩
    exact ih h3 (List.nodup_cons.mp hd).2
      (fun y hy => hn y (List.mem_cons_of_mem _ hy))
      (fun y hy => hp y (List.mem_cons_of_mem _ hy))

/-! ## The operations on one ring -/

theorem Ring.init (l : Links N) (h : N) : (l.init h).Ring h [] := by
  refine ⟨by simp, ?_⟩
  simp [Seg, Links.init, setNext, setPrev]

omit [DecidableEq N] in
/-- Where the operations leave a ring alone. -/
theorem Ring.congr (hr : l.Ring h xs) (hn : ∀ y ∈ h :: xs, l'.next y = l.next y)
    (hp : ∀ y ∈ h :: xs, l'.prev y = l.prev y) : l'.Ring h xs := by
  refine ⟨hr.nodup, hr.seg.congr hn ?_⟩
  intro y hy
  apply hp
  simpa [or_comm] using hy

theorem Ring.isEmpty_iff (hr : l.Ring h xs) : l.isEmpty h = true ↔ xs = [] := by
  cases xs with
  | nil => simp [isEmpty, hr.seg.2]
  | cons x xs =>
    have hmem := hr.seg.2.2.last_mem
    have hne : h ≠ l.prev h := fun he => (List.nodup_cons.mp hr.nodup).1 (he ▸ hmem)
    simp [isEmpty, hne]

omit [DecidableEq N] in
theorem Ring.head_eq (hr : l.Ring h (x :: xs)) : l.head h = x := hr.seg.1

/-- What `insertTail` writes, node by node. -/
theorem insertTail_next (l : Links N) (h x y : N) :
    (l.insertTail h x).next y =
      if y = x then h else if y = l.prev h then x else l.next y := by
  simp only [insertTail, setPrev, setNext, Function.update_self]
  by_cases h1 : y = x
  · simp [h1]
  · simp [h1, Function.update_apply]

theorem insertTail_prev (l : Links N) (h x y : N) :
    (l.insertTail h x).prev y =
      if y = h then x else if y = x then l.prev h else l.prev y := by
  simp only [insertTail, setPrev, setNext, Function.update_apply]

theorem remove_next (l : Links N) (y : N) :
    (l.remove x).next y = if y = l.prev x then l.next x else l.next y := by
  simp only [remove, setPrev, setNext, Function.update_apply, ite_self]

theorem remove_prev (l : Links N) (y : N) :
    (l.remove x).prev y = if y = l.next x then l.prev x else l.prev y := by
  simp only [remove, setPrev, setNext, Function.update_apply]

theorem Ring.insertTail (hr : l.Ring h xs) (hx : x ∉ h :: xs) :
    (l.insertTail h x).Ring h (xs ++ [x]) := by
  have hxh : x ≠ h := fun he => hx (by simp [he])
  have hlast := hr.seg.last_mem
  have hpx : l.prev h ≠ x := fun he => hx (he ▸ hlast)
  refine ⟨?_, ?_⟩
  · have := hr.nodup
    simp only [List.nodup_cons, List.mem_append, List.mem_singleton, List.nodup_append] at this ⊢
    grind
  · refine seg_append.mpr ⟨?_, ?_⟩
    · refine hr.seg.retarget hr.nodup ?_ ?_ ?_ ?_
      · simp [insertTail_next, hpx]
      · simp [insertTail_prev, hxh]
      · intro y hy hne
        have hyx : y ≠ x := fun he => hx (he ▸ hy)
        simp [insertTail_next, hyx, hne]
      · intro y hy
        have hyx : y ≠ x := fun he => hx (List.mem_cons_of_mem _ (he ▸ hy))
        have hyh : y ≠ h := fun he => (List.nodup_cons.mp hr.nodup).1 (he ▸ hy)
        simp [insertTail_prev, hyx, hyh]
    · exact ⟨by simp [insertTail_next], by simp [insertTail_prev]⟩

omit [DecidableEq N] in
/-- Members of a ring have their neighbours in the ring. -/
theorem Ring.prev_mem (hr : l.Ring h xs) (hy : y ∈ h :: xs) : l.prev y ∈ h :: xs := by
  rcases List.mem_cons.mp hy with rfl | hy
  · exact hr.seg.last_mem
  · obtain ⟨as, bs, rfl⟩ := List.append_of_mem hy
    have := (seg_append.mp hr.seg).1.last_mem
    simp only [List.mem_cons, List.mem_append] at this ⊢
    grind

omit [DecidableEq N] in
theorem Ring.next_mem (hr : l.Ring h xs) (hy : y ∈ h :: xs) : l.next y ∈ h :: xs := by
  rcases List.mem_cons.mp hy with rfl | hy
  · have := hr.seg.first_mem
    simpa [or_comm] using this
  · obtain ⟨as, bs, rfl⟩ := List.append_of_mem hy
    have := (seg_append.mp hr.seg).2.first_mem
    simp only [List.mem_cons, List.mem_append] at this ⊢
    grind

omit [DecidableEq N] in
theorem Ring.next_ne (hr : l.Ring h xs) (hx : x ∈ xs) : x ≠ l.next x := by
  obtain ⟨as, bs, rfl⟩ := List.append_of_mem hx
  have hs := (seg_append.mp hr.seg).2
  have hd := hr.nodup
  intro he
  have hmem := hs.first_mem
  rw [← he] at hmem
  simp only [List.nodup_cons, List.mem_append, List.mem_cons, List.nodup_append] at hd hmem
  grind

theorem Ring.remove (hr : l.Ring h xs) (hx : x ∈ xs) : (l.remove x).Ring h (xs.erase x) := by
  have hxn := hr.next_ne hx
  obtain ⟨as, bs, rfl⟩ := List.append_of_mem hx
  obtain ⟨hleft, hright⟩ := seg_append.mp hr.seg
  have hd := hr.nodup
  have hxas : x ∉ as := by
    simp only [List.nodup_cons, List.nodup_append, List.mem_cons] at hd; grind
  have herase : (as ++ x :: bs).erase x = as ++ bs := by
    rw [List.erase_append_right _ hxas, List.erase_cons_head]
  rw [herase]
  have hda : (h :: as).Nodup := by
    simp only [List.nodup_cons, List.nodup_append, List.mem_append, List.mem_cons] at hd ⊢; grind
  refine ⟨?_, ?_⟩
  · simp only [List.nodup_cons, List.nodup_append, List.mem_append, List.mem_cons] at hd ⊢; grind
  have hlast := hleft.last_mem
  cases bs with
  | nil =>
    have hn : l.next x = h := hright.1
    rw [List.append_nil]
    refine hleft.retarget hda ?_ ?_ ?_ ?_
    · simp [remove_next l, hn]
    · simp [remove_prev, hn]
    · intro y _ hne; simp [remove_next l, hne]
    · intro y hy
      have hyh : y ≠ h := fun he => (List.nodup_cons.mp hda).1 (he ▸ hy)
      simp [remove_prev, hn, hyh]
  | cons z zs =>
    obtain ⟨hn, -, hrest⟩ := hright
    refine seg_append.mpr ⟨?_, ?_⟩
    · refine hleft.retarget hda ?_ ?_ ?_ ?_
      · simp [remove_next l, hn]
      · simp [remove_prev, hn]
      · intro y _ hne; simp [remove_next l, hne]
      · intro y hy
        have hyz : y ≠ z := by
          simp only [List.nodup_cons, List.nodup_append, List.mem_cons] at hd; grind
        simp [remove_prev, hn, hyz]
    · refine hrest.congr ?_ ?_
      · intro y hy
        have hyl : y ≠ l.prev x := by
          rintro rfl
          simp only [List.nodup_cons, List.nodup_append, List.mem_append, List.mem_cons]
            at hd hlast hy
          grind
        simp [remove_next l, hyl]
      · intro y hy
        have hyz : y ≠ z := by
          simp only [List.nodup_cons, List.nodup_append, List.mem_append, List.mem_cons,
            List.not_mem_nil, or_false] at hd hy
          grind
        simp [remove_prev, hn, hyz]

/-! ## Walking a ring -/

omit [DecidableEq N] in
theorem Seg.next_iterate (hs : l.Seg a xs b) (i : Nat) (hi : i ≤ xs.length) :
    l.next^[i + 1] a = (xs ++ [b]).get
      ⟨i, by rw [List.length_append]; exact Nat.lt_succ_of_le hi⟩ := by
  induction xs generalizing a i with
  | nil =>
    have : i = 0 := by simpa using hi
    subst this
    simpa using hs.1
  | cons x xs ih =>
    rw [Function.iterate_succ_apply, hs.1]
    cases i with
    | zero => simp
    | succ i => simpa using ih hs.2.2 i (by simpa using hi)

omit [DecidableEq N] in
/-- Following `next` from the head visits the list in order and returns to the head. -/
theorem Ring.next_iterate (hr : l.Ring h xs) :
    (∀ i (hi : i < xs.length), l.next^[i + 1] h = xs[i]) ∧ l.next^[xs.length + 1] h = h := by
  constructor
  · intro i hi
    simpa [List.getElem_append_left hi] using hr.seg.next_iterate i (by omega)
  · simpa using hr.seg.next_iterate xs.length (Nat.le_refl _)

/-- Following `next` from `h` visits `x` before it comes back to `h`. -/
def Visits (l : Links N) (h x : N) : Prop :=
  ∃ i, l.next^[i + 1] h = x ∧ ∀ j ≤ i, l.next^[j + 1] h ≠ h

omit [DecidableEq N] in
theorem Ring.visits_iff (hr : l.Ring h xs) : l.Visits h x ↔ x ∈ xs := by
  obtain ⟨walk, back⟩ := hr.next_iterate
  constructor
  · rintro ⟨i, hi, away⟩
    rcases Nat.lt_or_ge i xs.length with hlt | hge
    · rw [← hi, walk i hlt]
      exact List.getElem_mem hlt
    · exact absurd back (away xs.length hge)
  · intro hx
    obtain ⟨i, hi, rfl⟩ := List.getElem_of_mem hx
    refine ⟨i, walk i hi, fun j hj he => ?_⟩
    have hlt : j < xs.length := by omega
    rw [walk j hlt] at he
    exact (List.nodup_cons.mp hr.nodup).1 (he ▸ List.getElem_mem hlt)

omit [DecidableEq N] in
theorem Seg.prev_next (hs : l.Seg a xs b) (hy : y ∈ a :: xs) : l.prev (l.next y) = y := by
  induction xs generalizing a with
  | nil =>
    have : y = a := by simpa using hy
    rw [this, hs.1, hs.2]
  | cons x xs ih =>
    rcases List.mem_cons.mp hy with rfl | hy
    · rw [hs.1, hs.2.1]
    · exact ih hs.2.2 hy

omit [DecidableEq N] in
theorem Seg.next_prev (hs : l.Seg a xs b) (hy : y ∈ xs ++ [b]) : l.next (l.prev y) = y := by
  induction xs generalizing a with
  | nil =>
    have : y = b := by simpa using hy
    rw [this, hs.2, hs.1]
  | cons x xs ih =>
    rcases List.mem_cons.mp hy with rfl | hy
    · rw [hs.2.1, hs.1]
    · exact ih hs.2.2 hy

omit [DecidableEq N] in
/-- On a ring, `prev` and `next` are inverse to each other. -/
theorem Ring.prev_next (hr : l.Ring h xs) (hy : y ∈ h :: xs) :
    l.prev (l.next y) = y ∧ l.next (l.prev y) = y :=
  ⟨hr.seg.prev_next hy, hr.seg.next_prev (by simpa [or_comm] using hy)⟩

/-- When a linked node is inserted again, its old predecessor no longer gets back
from it. -/
theorem Ring.insertTail_twice (hr : l.Ring h xs) (hx : x ∈ xs) :
    (l.insertTail h x).prev ((l.insertTail h x).next (l.prev x)) ≠ l.prev x := by
  have hxh : x ≠ h := by
    rintro rfl
    exact (List.nodup_cons.mp hr.nodup).1 hx
  have hnext : l.next (l.prev x) = x := (hr.prev_next (List.mem_cons_of_mem _ hx)).2
  have hpx : l.prev x ≠ x := by
    intro hp
    rw [hp] at hnext
    exact hr.next_ne hx hnext.symm
  have hkeep : (l.insertTail h x).next (l.prev x) = x := by
    rw [insertTail_next, if_neg hpx]
    split
    · rfl
    · exact hnext
  rw [hkeep, insertTail_prev, if_neg hxh, if_pos rfl]
  intro hlast
  rw [← hlast, (hr.prev_next List.mem_cons_self).2] at hnext
  exact hxh hnext.symm

end Links

/-! ## Histories of operations -/

inductive Op (N : Type) where
  | init (x : N)
  | insertTail (h x : N)
  | remove (x : N)
  /-- A link word of `x` is written through another name for the same memory. -/
  | overwrite (x : N)

/-- A heap with the operations performed on it, latest first. -/
structure Traced (N : Type) where
  links : Links N
  history : List (Op N)

section
variable {N : Type} [DecidableEq N]

/-- The list headed by `q` according to the history alone. -/
def contents : List (Op N) → N → List N
  | [], _ => []
  | .insertTail h x :: ops, q => if h = q then contents ops q ++ [x] else contents ops q
  | .remove x :: ops, q => (contents ops q).erase x
  | .init _ :: ops, q => contents ops q
  | .overwrite _ :: ops, q => contents ops q

def Unlinked (ops : List (Op N)) (x : N) : Prop := ∀ q, x ∉ contents ops q

/-- Only unlinked nodes are inserted, reset or overwritten; only linked ones are removed. -/
def Disciplined : List (Op N) → Prop
  | [] => True
  | .init x :: ops => Unlinked ops x ∧ contents ops x = [] ∧ Disciplined ops
  | .insertTail _ x :: ops => Unlinked ops x ∧ Disciplined ops
  | .remove x :: ops => (∃ q, x ∈ contents ops q) ∧ Disciplined ops
  | .overwrite x :: ops => Unlinked ops x ∧ Disciplined ops

namespace Traced

def init (m : Traced N) (x : N) : Traced N := ⟨m.links.init x, .init x :: m.history⟩

def insertTail (m : Traced N) (h x : N) : Traced N :=
  ⟨m.links.insertTail h x, .insertTail h x :: m.history⟩

def remove (m : Traced N) (x : N) : Traced N := ⟨m.links.remove x, .remove x :: m.history⟩

def writePrev (m : Traced N) (x v : N) : Traced N :=
  ⟨m.links.setPrev x v, .overwrite x :: m.history⟩

def writeNext (m : Traced N) (x v : N) : Traced N :=
  ⟨m.links.setNext x v, .overwrite x :: m.history⟩

/-- The heap realises its history: every head is a ring holding exactly the
contents that the history gives it, and no node is in two of them. -/
structure Good (heads : N → Prop) (m : Traced N) : Prop where
  disciplined : Disciplined m.history
  ring : ∀ h, heads h → m.links.Ring h (contents m.history h)
  member : ∀ q x, x ∈ contents m.history q → heads q ∧ ¬ heads x
  apart : ∀ q q' x, x ∈ contents m.history q → x ∈ contents m.history q' → q = q'

variable {heads : N → Prop} {m : Traced N} {h x y v : N}

theorem Good.not_mem (g : m.Good heads) {q q' : N} (hq : heads q) (hq' : heads q') (hne : q ≠ q')
    (hy : y ∈ q :: contents m.history q) : y ∉ q' :: contents m.history q' := by
  intro hy'
  rcases List.mem_cons.mp hy with rfl | h1 <;> rcases List.mem_cons.mp hy' with h2 | h2
  · exact hne h2
  · exact (g.member _ _ h2).2 hq
  · exact (g.member _ _ h1).2 (h2 ▸ hq')
  · exact hne (g.apart _ _ _ h1 h2)

theorem Good.init (g : m.Good heads) (hx : Unlinked m.history x) (he : contents m.history x = []) :
    (m.init x).Good heads where
  disciplined := ⟨hx, he, g.disciplined⟩
  ring q hq := by
    by_cases hqx : q = x
    · subst hqx
      have := Links.Ring.init m.links q
      rwa [← he] at this
    · refine (g.ring q hq).congr ?_ ?_ <;>
      · intro y hy
        have hyx : y ≠ x := by
          rintro rfl
          exact hx q ((List.mem_cons.mp hy).resolve_left (Ne.symm hqx))
        simp [Traced.init, Links.init, Links.setPrev, Links.setNext, Function.update_of_ne hyx]
  member := g.member
  apart := g.apart

theorem Good.insertTail (g : m.Good heads) (hh : heads h) (hn : ¬ heads x)
    (hx : Unlinked m.history x) : (m.insertTail h x).Good heads where
  disciplined := ⟨hx, g.disciplined⟩
  ring q hq := by
    have hxq : x ∉ q :: contents m.history q := by
      intro hm
      rcases List.mem_cons.mp hm with rfl | hm
      · exact hn hq
      · exact hx q hm
    by_cases hqh : h = q
    · subst hqh
      simpa [Traced.insertTail, contents] using (g.ring h hh).insertTail hxq
    · simp only [Traced.insertTail, contents, hqh, if_false]
      have hlast := (g.ring h hh).prev_mem List.mem_cons_self
      refine (g.ring q hq).congr ?_ ?_
      · intro y hy
        have h1 : y ≠ x := fun he => hxq (he ▸ hy)
        have h2 : y ≠ m.links.prev h := fun he => g.not_mem hh hq hqh (he ▸ hlast) hy
        simp [Links.insertTail_next, h1, h2]
      · intro y hy
        have h1 : y ≠ x := fun he => hxq (he ▸ hy)
        have h2 : y ≠ h := fun he => g.not_mem hh hq hqh List.mem_cons_self (he ▸ hy)
        simp [Links.insertTail_prev, h1, h2]
  member q y hy := by
    by_cases hqh : h = q
    · subst hqh
      simp only [Traced.insertTail, contents, if_true, List.mem_append, List.mem_singleton] at hy
      rcases hy with hy | rfl
      · exact g.member _ _ hy
      · exact ⟨hh, hn⟩
    · simp only [Traced.insertTail, contents, hqh, if_false] at hy
      exact g.member _ _ hy
  apart q q' y hy hy' := by
    simp only [Traced.insertTail, contents] at hy hy'
    have := g.apart q q' y
    have := hx q
    have := hx q'
    grind

theorem Good.remove (g : m.Good heads) (hx : x ∈ contents m.history h) :
    (m.remove x).Good heads where
  disciplined := ⟨⟨h, hx⟩, g.disciplined⟩
  ring q hq := by
    have hh := (g.member _ _ hx).1
    by_cases hqh : h = q
    · subst hqh
      exact (g.ring h hh).remove hx
    · have hxq : x ∉ contents m.history q := fun hm => hqh (g.apart _ _ _ hx hm)
      simp only [Traced.remove, contents, List.erase_of_not_mem hxq]
      have hprev := (g.ring h hh).prev_mem (List.mem_cons_of_mem _ hx)
      have hnext := (g.ring h hh).next_mem (List.mem_cons_of_mem _ hx)
      refine (g.ring q hq).congr ?_ ?_
      · intro y hy
        have h1 : y ≠ m.links.prev x := fun he => g.not_mem hh hq hqh (he ▸ hprev) hy
        simp [Links.remove_next, h1]
      · intro y hy
        have h1 : y ≠ m.links.next x := fun he => g.not_mem hh hq hqh (he ▸ hnext) hy
        simp [Links.remove_prev, h1]
  member q y hy := g.member q y (List.mem_of_mem_erase hy)
  apart q q' y hy hy' := g.apart q q' y (List.mem_of_mem_erase hy) (List.mem_of_mem_erase hy')

theorem Good.overwrite (g : m.Good heads) (hn : ¬ heads x) (hx : Unlinked m.history x)
    {l : Links N} (hnext : ∀ y, y ≠ x → l.next y = m.links.next y)
    (hprev : ∀ y, y ≠ x → l.prev y = m.links.prev y) :
    Good heads ⟨l, .overwrite x :: m.history⟩ where
  disciplined := ⟨hx, g.disciplined⟩
  ring q hq := by
    refine (g.ring q hq).congr ?_ ?_ <;>
    · intro y hy
      have hyx : y ≠ x := by
        rintro rfl
        rcases List.mem_cons.mp hy with rfl | hy
        · exact hn hq
        · exact hx q hy
      first | exact hnext y hyx | exact hprev y hyx
  member := g.member
  apart := g.apart

theorem Good.writePrev (g : m.Good heads) (hn : ¬ heads x) (hx : Unlinked m.history x) (v : N) :
    (m.writePrev x v).Good heads :=
  g.overwrite hn hx (fun _ _ => rfl) (fun _ hy => by simp [Links.setPrev, Function.update_of_ne hy])

theorem Good.writeNext (g : m.Good heads) (hn : ¬ heads x) (hx : Unlinked m.history x) (v : N) :
    (m.writeNext x v).Good heads :=
  g.overwrite hn hx (fun _ hy => by simp [Links.setNext, Function.update_of_ne hy]) (fun _ _ => rfl)

/-! A node that is unlinked and no head keeps its link words. -/

theorem insertTail_prev (m : Traced N) (hh : heads h) (hy : ¬ heads y) (hyx : y ≠ x) :
    (m.insertTail h x).links.prev y = m.links.prev y := by
  have h1 : y ≠ h := fun he => hy (he ▸ hh)
  simp [Traced.insertTail, Links.insertTail_prev, hyx, h1]

theorem Good.remove_prev (g : m.Good heads) (hx : x ∈ contents m.history h) (hy : ¬ heads y)
    (hyu : Unlinked m.history y) : (m.remove x).links.prev y = m.links.prev y := by
  have hnext := (g.ring h (g.member _ _ hx).1).next_mem (List.mem_cons_of_mem _ hx)
  have h1 : y ≠ m.links.next x := by
    rintro rfl
    rcases List.mem_cons.mp hnext with he | hm
    · exact hy (he ▸ (g.member _ _ hx).1)
    · exact hyu h hm
  simp [Traced.remove, Links.remove_prev, h1]

end Traced
end
end Intrusive
