import Mathlib.Algebra.Group.Nat.Defs
import Mathlib.Data.List.Nodup
import Mathlib.Data.Nat.Log

/-!
# Red-black trees, and trees with a hole

`join d` makes a node whose subtree on side `d` is named first, so that what
holds on both sides is said once. A list of frames is the way from a subtree up
to the root; `plug` puts a subtree back into it, and `Accepts` says which
subtrees make it a red-black tree (`balanced_plug`). A red-black tree is as deep
as twice the logarithm of its size (`ColorTree.Balanced.depth_le`).
-/

namespace RedBlack

inductive Side where
  | left
  | right
  deriving DecidableEq, Repr

def Side.other : Side → Side
  | .left => .right
  | .right => .left

@[simp] theorem Side.other_other (d : Side) : d.other.other = d := by
  cases d <;> rfl

@[simp] theorem Side.other_ne (d : Side) : d.other ≠ d := by
  cases d <;> decide

@[simp] theorem Side.ne_other (d : Side) : d ≠ d.other := by
  cases d <;> decide

inductive Color where
  | red
  | black
  deriving DecidableEq, Repr

inductive ColorTree (A : Type) where
  | nil
  | node (c : Color) (l : ColorTree A) (x : A) (r : ColorTree A)

/-- What is between a subtree and its parent: the parent, and its other subtree. -/
structure Frame (A : Type) where
  side : Side
  color : Color
  label : A
  sibling : ColorTree A

section
variable {A : Type}

namespace ColorTree

/-- The node with `s` on side `d` and `o` on the other. -/
def join (d : Side) (c : Color) (x : A) (s o : ColorTree A) : ColorTree A :=
  match d with
  | .left => .node c s x o
  | .right => .node c o x s

def label : ColorTree A → Option A
  | nil => none
  | node _ _ x _ => some x

def toList : ColorTree A → List A
  | nil => []
  | node _ l x r => l.toList ++ x :: r.toList

def depth : ColorTree A → Nat
  | nil => 0
  | node _ l _ r => max l.depth r.depth + 1

/-- Every red node has black children, and `n` black nodes are on every way
down; `c` is the colour of the root. -/
inductive Balanced : ColorTree A → Color → Nat → Prop
  | nil : Balanced nil .black 0
  | red {l r : ColorTree A} {n : Nat} (x : A) (hl : Balanced l .black n)
    (hr : Balanced r .black n) :
      Balanced (node .red l x r) .red n
  | black {l r : ColorTree A} {c c' : Color} {n : Nat} (x : A) (hl : Balanced l c n)
      (hr : Balanced r c' n) : Balanced (node .black l x r) .black (n + 1)

variable {d : Side} {c : Color} {x y : A} {s o t : ColorTree A} {n : Nat}

theorem join_other (d : Side) (c : Color) (x : A) (s o : ColorTree A) :
    join d.other c x s o = join d c x o s := by
  cases d <;> rfl

@[simp] theorem label_join : (join d c x s o).label = some x := by
  cases d <;> rfl

theorem toList_join_perm : (join d c x s o).toList.Perm (x :: (s.toList ++ o.toList)) := by
  cases d with
  | left => exact List.perm_middle
  | right => exact List.perm_middle.trans ((List.perm_append_comm).cons x)

theorem mem_join : y ∈ (join d c x s o).toList ↔ y = x ∨ y ∈ s.toList ∨ y ∈ o.toList := by
  rw [toList_join_perm.mem_iff]
  simp

theorem nodup_join : (join d c x s o).toList.Nodup ↔
    x ∉ s.toList ∧ x ∉ o.toList ∧ s.toList.Nodup ∧ o.toList.Nodup ∧
      List.Disjoint s.toList o.toList := by
  rw [toList_join_perm.nodup_iff, List.nodup_cons, List.nodup_append']
  simp [and_assoc]

theorem label_mem {x : A} (h : t.label = some x) : x ∈ t.toList := by
  cases t with
  | nil => cases h
  | node c l y r =>
    cases h
    simp [toList]

theorem exists_label (h : x ∈ t.toList) : ∃ y, t.label = some y := by
  cases t with
  | nil => cases h
  | node c l y r => exact ⟨y, rfl⟩

/-- A rotation keeps the order. -/
theorem toList_rotate {c' : Color} {a b e : ColorTree A} :
    (join d c' y (join d c x a b) e).toList = (join d c x a (join d c' y b e)).toList := by
  cases d <;> simp [join, toList]

/-- The colours do not matter for the order. -/
theorem toList_join_congr {c' : Color} {s' o' : ColorTree A} (hs : s.toList = s'.toList)
    (ho : o.toList = o'.toList) :
    (join d c x s o).toList = (join d c' x s' o').toList := by
  cases d <;> simp [join, toList, hs, ho]

theorem toList_recolor {c' : Color} : (join d c' x s o).toList = (join d c x s o).toList :=
  toList_join_congr rfl rfl

@[simp] theorem depth_join : (join d c x s o).depth = max s.depth o.depth + 1 := by
  cases d with
  | left => rfl
  | right => simp [join, depth, Nat.max_comm]

/-- The tree is a node, seen from either side. -/
theorem exists_join (d : Side) (h : t.label = some x) : ∃ c s o, t = join d c x s o := by
  cases t with
  | nil => cases h
  | node c l y r =>
    cases h
    cases d with
    | left => exact ⟨c, l, r, rfl⟩
    | right => exact ⟨c, r, l, rfl⟩

theorem label_eq_none (h : t.label = none) : t = nil := by
  cases t with
  | nil => rfl
  | node => cases h

namespace Balanced

theorem join_red (hs : s.Balanced .black n) (ho : o.Balanced .black n) :
    (join d .red x s o).Balanced .red n := by
  cases d with
  | left => exact .red x hs ho
  | right => exact .red x ho hs

theorem join_black {c c' : Color} (hs : s.Balanced c n) (ho : o.Balanced c' n) :
    (join d .black x s o).Balanced .black (n + 1) := by
  cases d with
  | left => exact .black x hs ho
  | right => exact .black x ho hs

theorem of_join_red {c : Color} (h : (join d .red x s o).Balanced c n) :
    c = .red ∧ s.Balanced .black n ∧ o.Balanced .black n := by
  cases d with
  | left =>
    cases h with
    | red _ hl hr => exact ⟨rfl, hl, hr⟩
  | right =>
    cases h with
    | red _ hl hr => exact ⟨rfl, hr, hl⟩

theorem of_join_black {c : Color} (h : (join d .black x s o).Balanced c n) :
    ∃ m c₁ c₂, c = .black ∧ n = m + 1 ∧ s.Balanced c₁ m ∧ o.Balanced c₂ m := by
  cases d with
  | left =>
    cases h with
    | black _ hl hr => exact ⟨_, _, _, rfl, rfl, hl, hr⟩
  | right =>
    cases h with
    | black _ hl hr => exact ⟨_, _, _, rfl, rfl, hr, hl⟩

theorem relabel {c c' : Color} (h : (join d c x s o).Balanced c' n) (y : A) :
    (join d c y s o).Balanced c' n := by
  cases c with
  | red =>
    obtain ⟨rfl, hs, ho⟩ := h.of_join_red
    exact join_red hs ho
  | black =>
    obtain ⟨m, c₁, c₂, rfl, rfl, hs, ho⟩ := h.of_join_black
    exact join_black hs ho

/-- The root is coloured black. -/
theorem blacken {c : Color} (h : (join d c x s o).Balanced c n) :
    ∃ m, (join d .black x s o).Balanced .black m := by
  cases c with
  | red =>
    obtain ⟨-, hs, ho⟩ := h.of_join_red
    exact ⟨_, join_black hs ho⟩
  | black => exact ⟨n, h⟩

/-- A red-black tree with a red root. -/
theorem exists_red (h : t.Balanced .red n) (d : Side) :
    ∃ x s o, t = join d .red x s o ∧ s.Balanced .black n ∧ o.Balanced .black n := by
  cases h with
  | @red l r n x hl hr =>
    cases d with
    | left => exact ⟨x, l, r, rfl, hl, hr⟩
    | right => exact ⟨x, r, l, rfl, hr, hl⟩

theorem label_ne {c : Color} (h : t.Balanced c (n + 1)) : t.label ≠ none := by
  cases h with
  | red | black => simp [label]

/-- The colour is that of the root. -/
theorem color_eq {c c' : Color} (h : (join d c x s o).Balanced c' n) : c' = c := by
  cases c with
  | red => exact h.of_join_red.1
  | black =>
    obtain ⟨m, c₁, c₂, hc, -⟩ := h.of_join_black
    exact hc

theorem depth_le_height {c : Color} (h : t.Balanced c n) :
    t.depth ≤ 2 * n + 1 ∧ (c = .black → t.depth ≤ 2 * n) := by
  induction h with
  | nil => simp [depth]
  | red x hl hr ihl ihr =>
    have := ihl.2 rfl
    have := ihr.2 rfl
    constructor
    · simp only [depth]
      omega
    · rintro ⟨⟩
  | black x hl hr ihl ihr =>
    simp only [depth]
    omega

theorem size_ge {c : Color} (h : t.Balanced c n) : 2 ^ n ≤ t.toList.length + 1 := by
  induction h with
  | nil => simp
  | red x hl hr ihl ihr =>
    simp only [toList, List.length_append, List.length_cons]
    omega
  | black x hl hr ihl ihr =>
    simp only [toList, List.length_append, List.length_cons, Nat.pow_succ]
    omega

/-- No way down is longer than twice the logarithm of the size. -/
theorem depth_le (h : t.Balanced .black n) : t.depth ≤ 2 * Nat.log 2 (t.toList.length + 1) := by
  have hn : n ≤ Nat.log 2 (t.toList.length + 1) := Nat.le_log_of_pow_le (by decide) h.size_ge
  have := h.depth_le_height.2 rfl
  omega

end Balanced
end ColorTree

/-! ## Trees with a hole -/

open ColorTree

/-- The subtree is put back; the innermost frame is first. -/
def plug : List (Frame A) → ColorTree A → ColorTree A
  | [], t => t
  | f :: fs, t => plug fs (join f.side f.color f.label t f.sibling)

/-- The parent of the hole. -/
def top (fs : List (Frame A)) : Option A := fs.head?.map Frame.label

/-- The labels around the hole. -/
def labels : List (Frame A) → List A
  | [] => []
  | f :: fs => f.label :: (f.sibling.toList ++ labels fs)

/-- A black hole of `n` black nodes makes it a red-black tree with a black root. -/
def Accepts : List (Frame A) → Nat → Prop
  | [], _ => True
  | ⟨_, .red, _, o⟩ :: fs, n => o.Balanced .black n ∧ Accepts fs n ∧
      fs.head?.map Frame.color = some .black
  | ⟨_, .black, _, o⟩ :: fs, n => (∃ c, o.Balanced c n) ∧ Accepts fs (n + 1)

variable {fs gs : List (Frame A)} {f : Frame A} {t : ColorTree A} {n : Nat} {c : Color} {x : A}

theorem Accepts.sibling (h : Accepts (f :: fs) n) :
    ∃ c, f.sibling.Balanced c n ∧ (f.color = .red → c = .black) := by
  obtain ⟨side, color, x, o⟩ := f
  cases color with
  | red => exact ⟨_, h.1, fun _ => rfl⟩
  | black =>
    obtain ⟨c, ho⟩ := h.1
    exact ⟨c, ho, fun e => by cases e⟩

theorem plug_append (fs gs : List (Frame A)) (t : ColorTree A) :
    plug (fs ++ gs) t = plug gs (plug fs t) := by
  induction fs generalizing t with
  | nil => rfl
  | cons f fs ih => exact ih _

theorem plug_perm : (plug fs t).toList.Perm (labels fs ++ t.toList) := by
  induction fs generalizing t with
  | nil => exact .refl _
  | cons f fs ih =>
    refine ih.trans ?_
    have h : (join f.side f.color f.label t f.sibling).toList.Perm
        (f.label :: (f.sibling.toList ++ t.toList)) :=
      toList_join_perm.trans (List.perm_append_comm.cons _)
    refine (h.append_left _).trans ?_
    refine List.perm_middle.trans (List.Perm.cons _ ?_)
    rw [← List.append_assoc]
    exact List.perm_append_comm.append_right _

theorem nodup_plug : (plug fs t).toList.Nodup ↔
    (labels fs).Nodup ∧ t.toList.Nodup ∧ List.Disjoint (labels fs) t.toList := by
  rw [plug_perm.nodup_iff, List.nodup_append']

theorem mem_plug : x ∈ (plug fs t).toList ↔ x ∈ labels fs ∨ x ∈ t.toList := by
  rw [plug_perm.mem_iff, List.mem_append]

theorem mem_labels_append : f.label ∈ labels (gs ++ f :: fs) := by
  induction gs with
  | nil => exact List.mem_cons_self
  | cons g gs ih =>
    refine List.mem_cons_of_mem _ (List.mem_append_right _ ih)

/-- What is plugged in stands between what is before and what is after the hole. -/
theorem toList_plug (fs : List (Frame A)) : ∃ before after, ∀ t : ColorTree A,
    (plug fs t).toList = before ++ t.toList ++ after := by
  induction fs with
  | nil => exact ⟨[], [], fun t => by simp [plug]⟩
  | cons f fs ih =>
    obtain ⟨before, after, ih⟩ := ih
    obtain ⟨side, color, x, o⟩ := f
    cases side with
    | left => exact ⟨before, x :: (o.toList ++ after), fun t => by simp [plug, ih, join, toList]⟩
    | right => exact ⟨before ++ o.toList ++ [x], after, fun t => by simp [plug, ih, join, toList]⟩

/-- The tree, seen from one of its nodes. -/
theorem exists_plug (h : x ∈ t.toList) : ∃ (fs : List (Frame A)) (c : Color) (l r : ColorTree A),
    plug fs (.node c l x r) = t := by
  induction t with
  | nil => cases h
  | node c l y r ihl ihr =>
    simp only [toList, List.mem_append, List.mem_cons] at h
    rcases h with h | rfl | h
    · obtain ⟨fs, c', l', r', split⟩ := ihl h
      refine ⟨fs ++ [⟨.left, c, y, r⟩], c', l', r', ?_⟩
      rw [plug_append, split]
      rfl
    · exact ⟨[], c, l, r, rfl⟩
    · obtain ⟨fs, c', l', r', split⟩ := ihr h
      refine ⟨fs ++ [⟨.right, c, y, l⟩], c', l', r', ?_⟩
      rw [plug_append, split]
      rfl

theorem toList_plug_congr {s : ColorTree A} (h : s.toList = t.toList) :
    (plug fs s).toList = (plug fs t).toList := by
  obtain ⟨before, after, hp⟩ := toList_plug fs
  rw [hp, hp, h]

theorem length_le_depth (fs : List (Frame A)) (t : ColorTree A) :
    fs.length + t.depth ≤ (plug fs t).depth := by
  induction fs generalizing t with
  | nil => simp [plug]
  | cons f fs ih =>
    have := ih (join f.side f.color f.label t f.sibling)
    simp only [depth_join] at this
    simp only [List.length_cons, plug]
    omega

/-- A red subtree needs a black parent. -/
def Suits (fs : List (Frame A)) (c : Color) : Prop :=
  c = .red → fs.head?.map Frame.color = some .black

theorem balanced_plug (accepts : Accepts fs n) (h : t.Balanced c n) (suits : Suits fs c) :
    ∃ m, (plug fs t).Balanced .black m := by
  induction fs generalizing t n c with
  | nil =>
    cases c with
    | red => cases suits rfl
    | black => exact ⟨n, h⟩
  | cons f fs ih =>
    obtain ⟨side, color, x, o⟩ := f
    cases color with
    | red =>
      obtain ⟨ho, accepts, black⟩ := accepts
      cases c with
      | red => cases suits rfl
      | black => exact ih accepts (Balanced.join_red h ho) fun _ => black
    | black =>
      obtain ⟨⟨c', ho⟩, accepts⟩ := accepts
      exact ih accepts (Balanced.join_black h ho) fun h => by cases h

/-- A node coloured as the parent of the hole was takes its place. -/
theorem Accepts.parent {d : Side} {o : ColorTree A} {s t : ColorTree A} {y : A}
    (h : Accepts (⟨d, c, x, o⟩ :: fs) n)
    (hs : s.Balanced .black n) (ht : t.Balanced .black n) :
    ∃ m, (plug fs (join d c y s t)).Balanced .black m := by
  cases c with
  | red => exact balanced_plug h.2.1 (.join_red hs ht) fun _ => h.2.2
  | black => exact balanced_plug h.2 (.join_black hs ht) fun e => by cases e

theorem accepts_of_plug (h : ∃ m, (plug fs t).Balanced .black m) :
    ∃ c n, t.Balanced c n ∧ Accepts fs n ∧ Suits fs c := by
  induction fs generalizing t with
  | nil =>
    obtain ⟨m, h⟩ := h
    exact ⟨.black, m, h, trivial, fun h => by cases h⟩
  | cons f fs ih =>
    obtain ⟨side, color, x, o⟩ := f
    obtain ⟨c, n, h, accepts, suits⟩ := ih h
    cases color with
    | red =>
      obtain ⟨rfl, hs, ho⟩ := h.of_join_red
      exact ⟨.black, n, hs, ⟨ho, accepts, suits rfl⟩, fun h => by cases h⟩
    | black =>
      obtain ⟨m, c₁, c₂, rfl, rfl, hs, ho⟩ := h.of_join_black
      exact ⟨c₁, m, hs, ⟨⟨c₂, ho⟩, accepts⟩, fun _ => rfl⟩

end
end RedBlack
