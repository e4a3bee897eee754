import Gevent.RbTree.Insert

/-!
# Removal

`RB_REMOVE` takes out a node that has at most one child: the element itself, or
the next one in order, which is then put in its place. When that node was black,
`RB_REMOVE_COLOR` goes up from a subtree that lacks a black node until it can
make up for it (`removeColor_spec`).
-/

namespace Gevent.RbTree
open RedBlack

variable {A : Type} [DecidableEq A] {h : RbTree A} {d : Side} {c : Color} {x y p elm : A}
  {s o t u : ColorTree A} {fs : List (Frame A)} {f : Frame A} {n m turns : Nat}

/-- Coloured black at the root, the tree has `n + 1` black nodes on every way down. -/
inductive Short (t : ColorTree A) (n : Nat) : Prop
  | red (d : Side) (x : A) (s o : ColorTree A) (eq : t = .join d .red x s o)
      (balanced : (ColorTree.join d .black x s o).Balanced .black (n + 1)) : Short t n
  | black (balanced : t.Balanced .black n) : Short t n

/-- A red root is coloured black, and the loop ends. -/
theorem removeColor_red (a : Holds h fs (.join d .red x s o))
    (balanced : (ColorTree.join d .black x s o).Balanced .black (n + 1))
      (accepts : Accepts fs (n + 1))
    (enough : 0 < turns) (parent : Option A) :
    ∃ h' t', removeColor turns h parent (some x) = some h' ∧
      Holds h' [] t' ∧ t'.toList = (plug fs (.join d .red x s o)).toList ∧
      ∃ m, t'.Balanced .black m := by
  have red : h.isRed (some x) = true := by simp [isRed, a.color_eq]
  refine ⟨_, _, ?_, (a.setColor .black).toRoot, toList_plug_congr ColorTree.toList_recolor,
    balanced_plug accepts balanced fun e => by cases e⟩
  cases turns with
  | zero => omega
  | succ turns => simp [removeColor, red, blacken]

omit [DecidableEq A] in
/-- Inside the tree there is another root. -/
theorem Holds.root_ne (a : Holds h (f :: fs) t) : t.label ≠ h.root := by
  have root : ∃ r ∈ labels (f :: fs), h.root = some r := by
    have around := a.around
    clear a
    generalize t.label = hole at around
    induction fs generalizing f hole with
    | nil => exact ⟨f.label, by simp [labels], around.2.2.2.2.2⟩
    | cons g fs ih =>
      obtain ⟨r, hr, root⟩ := ih _ around.2.2.2.2.2
      exact ⟨r, by simp [labels] at hr ⊢; simp [hr], root⟩
  obtain ⟨r, hr, root⟩ := root
  intro e
  exact (nodup_plug.mp a.nodup).2.2 hr (ColorTree.label_mem (e.trans root))

/-- The sibling of a subtree that lacks a black node, once it is black. -/
structure BlackSibling (h' : RbTree A) (d : Side) (p y : A) (fs : List (Frame A)) (t : ColorTree A)
    (n : Nat) (before : List A) : Prop where
  left : ∃ color s o fs', Holds h' (⟨d, color, p, .join d .black y s o⟩ :: fs') t ∧
    (ColorTree.join d .black y s o).Balanced .black (n + 1) ∧
    Accepts (⟨d, color, p, .join d .black y s o⟩ :: fs') (n + 1) ∧
    (fs'.length = fs.length ∨ fs'.length = fs.length + 1 ∧ color = .red) ∧
    (plug (⟨d, color, p, .join d .black y s o⟩ :: fs') t).toList = before

theorem removeSibling_spec {color : Color} (a : Holds h (⟨d, color, p, u⟩ :: fs) t)
    (accepts : Accepts (⟨d, color, p, u⟩ :: fs) (n + 1)) :
    ∃ h' y, h.removeSibling d p = some (h', y) ∧
      BlackSibling h' d p y fs t n (plug (⟨d, color, p, u⟩ :: fs) t).toList := by
  have sibling : h.child d.other p = u.label := a.up.childOther_eq
  obtain ⟨c, hu, suits⟩ := accepts.sibling
  cases c with
  | black =>
    obtain ⟨y, hy⟩ : ∃ y, u.label = some y := by
      cases hu with
      | black x hl hr => exact ⟨x, rfl⟩
    obtain ⟨c, s, o, rfl⟩ := ColorTree.exists_join d hy
    obtain rfl : c = .black := hu.color_eq.symm
    have black : h.color y = .black := a.up.downOther.color_eq
    refine ⟨h, y, ?_, color, s, o, fs, a, hu, accepts, .inl rfl, rfl⟩
    simp [removeSibling, sibling, black]
  | red =>
    cases color with
    | red => cases suits rfl
    | black =>
      obtain ⟨y, s, o, rfl, hs, ho⟩ := hu.exists_red d
      have red : h.color y = .red := a.up.downOther.color_eq
      have a₁ := (a.up.downOther.setColor .black).upOther.setColor .red
      obtain ⟨h', run, a₂⟩ := a₁.rotate
      obtain ⟨z, hz⟩ : ∃ z, s.label = some z := by
        cases hs with
        | black x hl hr => exact ⟨x, rfl⟩
      have a₃ := a₂.down
      have sibling' : h'.child d.other p = some z := a₃.childOther_eq.trans hz
      obtain ⟨c, s', o', rfl⟩ := ColorTree.exists_join d hz
      obtain rfl : c = .black := hs.color_eq.symm
      refine ⟨h', z, ?_, .red, s', o', _, a₃.down, hs, ⟨hs, ⟨⟨_, ho⟩, accepts.2⟩, rfl⟩,
        .inr ⟨by simp, rfl⟩, ?_⟩
      · simp [removeSibling, sibling, red, setBlackred, run, sibling']
      · simp only [plug]
        apply toList_plug_congr
        cases d <;> simp [ColorTree.join, ColorTree.toList]

theorem rotateAway_spec {color c' : Color} (a : Holds h (⟨d, color, p, .join d c' y s o⟩ :: fs) t)
    (ht : t.Balanced .black n) (hs : s.Balanced c n) (ho : o.Balanced .red n)
    (accepts : Accepts (⟨d, color, p, u⟩ :: fs) (n + 1)) :
    ∃ h' t', h.rotateAway d p y = some h' ∧ Holds h' [] t' ∧
      t'.toList = (plug (⟨d, color, p, .join d c' y s o⟩ :: fs) t).toList ∧
      ∃ m, t'.Balanced .black m := by
  obtain ⟨z, o₁, o₂, rfl, ho₁, ho₂⟩ := ho.exists_red d
  have pcolor : h.color p = color := a.up.color_eq
  have a₁ := (a.up.downOther.setColor color).upOther.setColor .black
  have far := a₁.downOther.childOther_eq
  rw [ColorTree.label_join] at far
  obtain ⟨h', run, a₂⟩ := (a₁.downOther.downOther.setColor .black).upOther.upOther.rotate
  refine ⟨h', _, ?_, a₂.toRoot, ?_, accepts.parent (.join_black ht hs) (.join_black ho₁ ho₂)⟩
  · simp [rotateAway, pcolor, far, blacken, run]
  · rw [plug]
    apply toList_plug_congr
    cases d <;> simp [ColorTree.join, ColorTree.toList]

/-- The sibling has a red child, and the black node that is missing is found. -/
theorem removeRotate_spec {color : Color} (a : Holds h (⟨d, color, p, .join d .black y s o⟩ :: fs) t)
    (ht : t.Balanced .black n) {c c' : Color} (hs : s.Balanced c n) (ho : o.Balanced c' n)
    (red : c = .red ∨ c' = .red)
    (accepts : Accepts (⟨d, color, p, .join d .black y s o⟩ :: fs) (n + 1)) :
    ∃ h' t', h.removeRotate d p y = some h' ∧ Holds h' [] t' ∧
      t'.toList = (plug (⟨d, color, p, .join d .black y s o⟩ :: fs) t).toList ∧
      ∃ m, t'.Balanced .black m := by
  have far : h.child d.other y = o.label := a.up.downOther.childOther_eq
  have near : h.child d y = s.label := a.up.downOther.child_eq
  cases c' with
  | red =>
    have far_red : h.isRed o.label = true := a.up.downOther.downOther.isRed_red ho
    obtain ⟨h', t', run, rest⟩ := rotateAway_spec a ht hs ho accepts
    refine ⟨h', t', ?_, rest⟩
    simpa [removeRotate, far, far_red] using run
  | black =>
    have far_black : h.isRed o.label = false := a.up.downOther.downOther.isRed_black ho
    obtain rfl : c = .red := by simpa using red
    obtain ⟨z, s₁, s₂, rfl, hs₁, hs₂⟩ := hs.exists_red d
    have a₁ := (a.up.downOther.down.setColor .black).up.setColor .red
    rw [← ColorTree.join_other d .red y, ← ColorTree.join_other d .black z] at a₁
    obtain ⟨h₁, run₁, a₂⟩ := a₁.rotate
    rw [ColorTree.join_other, ColorTree.join_other] at a₂
    have near' : h₁.child d.other p = some z := by
      rw [a₂.upOther.childOther_eq, ColorTree.label_join]
    obtain ⟨h', t', run, b, list, balanced⟩ :=
      rotateAway_spec a₂.upOther.down ht hs₁ (.join_red hs₂ ho) accepts
    refine ⟨h', t', ?_, b, list.trans ?_, balanced⟩
    · rw [ColorTree.label_join] at near
      simpa [removeRotate, far, far_black, near, blacken, run₁, near'] using run
    · simp only [plug]
      apply toList_plug_congr
      cases d <;> simp [ColorTree.join, ColorTree.toList]

theorem Holds.blackenRoot (a : Holds h [] t) (b : t.Balanced .black m) :
    Holds (h.blacken h.root) [] t := by
  cases ht : t.label with
  | none =>
    rw [a.root_eq, ht]
    exact a
  | some x =>
    obtain ⟨root, a'⟩ := a.blackRoot b ht
    rw [root]
    exact a'

/-- `RB_REMOVE_COLOR` makes a red-black tree of one where a subtree lacks a
black node. -/
theorem removeColor_spec (a : Holds h fs t) (short : Short t n) (accepts : Accepts fs (n + 1))
    (enough : fs.length < turns) : ∃ h' t', removeColor turns h (top fs) t.label = some h' ∧
      Holds h' [] t' ∧ t'.toList = (plug fs t).toList ∧ ∃ m, t'.Balanced .black m := by
  induction turns generalizing h fs t n with
  | zero => omega
  | succ turns ih =>
    cases short with
    | red d x s o eq balanced =>
      subst eq
      rw [ColorTree.label_join]
      exact removeColor_red a balanced accepts (Nat.succ_pos _) _
    | black balanced =>
      have black := a.isRed_black balanced
      cases fs with
      | nil =>
        refine ⟨_, t, ?_, a.blackenRoot balanced, rfl, n, balanced⟩
        simp [removeColor, black, a.root_eq]
      | cons f fs =>
        obtain ⟨d, color, p, u⟩ := f
        obtain ⟨h₁, y, run, color', s, o, fs', a₁, hu, accepts₁, len, list⟩ :=
          removeSibling_spec a accepts
        have side : h.sideOf p t.label = d := by
          obtain ⟨c, hu, -⟩ := accepts.sibling
          exact a.sideOf_eq (.inr hu.label_ne)
        have near : h₁.child d y = s.label := a₁.up.downOther.child_eq
        have far : h₁.child d.other y = o.label := a₁.up.downOther.childOther_eq
        obtain ⟨m, c₁, c₂, -, eq, hs, ho⟩ := hu.of_join_black
        obtain rfl : n = m := Nat.succ.inj eq
        by_cases both : c₁ = .black ∧ c₂ = .black
        · obtain ⟨rfl, rfl⟩ := both
          have near_black : h₁.isRed s.label = false := a₁.up.downOther.down.isRed_black hs
          have far_black : h₁.isRed o.label = false := a₁.up.downOther.downOther.isRed_black ho
          have a₂ := (a₁.up.downOther.setColor .red).upOther
          have parent := a₂.parent_eq
          have sibling : (ColorTree.join d .red y s o).Balanced .red n := .join_red hs ho
          obtain ⟨h', t', run', b, list', balanced'⟩ : ∃ h' t',
              removeColor turns (h₁.setColor y .red) (top fs') (some p) = some h' ∧ Holds h' [] t' ∧
                t'.toList = (plug fs' (.join d color' p t (.join d .red y s o))).toList ∧
                ∃ m, t'.Balanced .black m := by
            simp only [List.length_cons] at enough
            cases color' with
            | red =>
              exact removeColor_red a₂ (.join_black balanced sibling) accepts₁.2.1 (by omega) _
            | black =>
              have len : fs'.length = fs.length := len.resolve_right fun e => by cases e.2
              have := ih a₂ (.black (.join_black balanced sibling)) accepts₁.2 (by omega)
              rwa [ColorTree.label_join] at this
          refine ⟨h', t', ?_, b, list'.trans (.trans ?_ list), balanced'⟩
          · change removeColor (turns + 1) h (some p) t.label = some h'
            simp [removeColor, black, a.root_ne, side, run, near, far, near_black, far_black,
              parent, run']
          · exact toList_plug_congr (ColorTree.toList_join_congr rfl ColorTree.toList_recolor)
        · have red : c₁ = .red ∨ c₂ = .red := by
            cases c₁ <;> cases c₂ <;> simp_all
          obtain ⟨h', t', run', b, list', m', balanced'⟩ :=
            removeRotate_spec a₁ balanced hs ho red accepts₁
          refine ⟨_, t', ?_, b.blackenRoot balanced', list'.trans list, m', balanced'⟩
          have some_red : ¬ (h₁.isRed s.label = false ∧ h₁.isRed o.label = false) := by
            rintro ⟨hs', ho'⟩
            rcases red with rfl | rfl
            · rw [a₁.up.downOther.down.isRed_red hs] at hs'
              cases hs'
            · rw [a₁.up.downOther.downOther.isRed_red ho] at ho'
              cases ho'
          change removeColor (turns + 1) h (some p) t.label = _
          simp [removeColor, black, a.root_ne, side, run, near, far, some_red, run']

/-! ## Taking a node out -/

/-- The only child of a node takes its place. -/
theorem Holds.splice (a : Holds h fs (.join d c x t .nil)) : Holds (h.splice x t.label) fs t := by
  have parent := a.parent_eq
  obtain ⟨xfs, xt, -⟩ := a.root_mem
  obtain ⟨nodup_fs, -, apart⟩ := nodup_plug.mp a.nodup
  have inner := (nodup_plug.mp a.down.nodup).2.1
  have apart' : List.Disjoint (labels fs) t.toList := fun z hz ht =>
    apart hz (ColorTree.mem_join.mpr (.inr (.inl ht)))
  obtain ⟨-, -, -, -, fits, -⟩ := fits_join.mp a.fits
  have around := a.around
  rw [ColorTree.label_join] at around
  rw [RbTree.splice, parent]
  refine ⟨Around.relink (around.congr setParentOf_root fun z hz => agree_setParentOf ?_) xfs nodup_fs _,
    (fits.reparent inner _).congr fun z hz => agree_relink ?_,
      nodup_plug.mpr ⟨nodup_fs, inner, apart'⟩⟩
  · exact fun e => apart' hz (ColorTree.label_mem e.symm)
  · exact fun e => apart' (top_mem e.symm) hz

theorem agree_copyEntry {z : A} (hz : z ≠ x) : Agree h (h.copyEntry x y) z :=
  (agree_setChild hz).trans <| (agree_setChild hz).trans <| (agree_setParent hz).trans
    (agree_setColor hz)

theorem copyEntry_child (e : Side) : (h.copyEntry y x).child e y = h.child e x := by
  cases e <;> simp [copyEntry, child_setChild]

/-- Another element takes the place of one that has a left child. -/
theorem Holds.replace {l r : ColorTree A} {z : A} (a : Holds h fs (.node c l x r))
    (fresh : y ∉ (plug fs (.node c l x r)).toList) (hl : l.label = some z) :
    ∃ h', h.replace y x = some h' ∧ Holds h' fs (.node c l y r) := by
  have node : Holds h fs (.join .left c x l r) := a
  obtain ⟨xfs, xl, xr, l_r⟩ := node.root_mem
  obtain ⟨nodup_fs, inner, apart⟩ := nodup_plug.mp node.nodup
  obtain ⟨-, -, nodup_l, nodup_r, -⟩ := ColorTree.nodup_join.mp inner
  have fresh : y ∉ (plug fs (.join .left c x l r)).toList := fresh
  rw [mem_plug, not_or, ColorTree.mem_join, not_or, not_or] at fresh
  obtain ⟨yfs, yx, yl, yr⟩ := fresh
  have fs_l : List.Disjoint (labels fs) l.toList := fun w hw hl =>
    apart hw (ColorTree.mem_join.mpr (.inr (.inl hl)))
  have fs_r : List.Disjoint (labels fs) r.toList := fun w hw hr =>
    apart hw (ColorTree.mem_join.mpr (.inr (.inr hr)))
  obtain ⟨parent, color, left, right, fits_l, fits_r⟩ := fits_join.mp node.fits
  have around := node.around
  rw [ColorTree.label_join] at around
  have qx : some x ≠ top fs := fun e => xfs (top_mem e.symm)
  have qy : some y ≠ top fs := fun e => yfs (top_mem e.symm)
  have zl : z ∈ l.toList := ColorTree.label_mem hl
  let h₁ := h.copyEntry y x
  have old : Agree h h₁ x := agree_copyEntry (Ne.symm yx)
  let h₂ := h₁.relink (top fs) x (some y)
  let h₃ := h₂.setParentOf l.label (some y)
  let h₄ := h₃.setParentOf r.label (some y)
  have run : h.replace y x = some h₄ := by
    have left₂ : h₂.child .left x = some z := by
      rw [(agree_relink qx).child, old.child, left, hl]
    have right₂ : h₂.child .right x = r.label := by
      rw [(agree_relink qx).child, old.child]
      exact right
    have fields : h.replace y x =
        (h₂.child .left x).bind fun z =>
          some ((h₂.setParent z (some y)).setParentOf (h₂.child .right x) (some y)) := by
      simp [RbTree.replace, h₂, h₁, old.parent.trans parent]
    rw [fields, left₂, right₂, Option.bind_some]
    simp only [h₄, h₃, hl]
    rfl
  have same : ∀ w, w ≠ y → some w ≠ top fs → Agree h h₂ w := fun w hw hq =>
    (agree_copyEntry hw).trans (agree_relink hq)
  have away : ∀ w, w ∉ l.toList → w ∉ r.toList → Agree h₂ h₄ w := fun w hl hr =>
    (agree_setParentOf fun e => hl (ColorTree.label_mem e.symm)).trans
      (agree_setParentOf fun e => hr (ColorTree.label_mem e.symm))
  have new : h₄.parent y = top fs ∧ h₄.color y = c ∧ ∀ e, h₄.child e y = h.child e x := by
    have moved := (agree_relink qy).trans (away y yl yr)
    refine ⟨moved.parent.trans ?_, moved.color.trans ?_,
      fun e => (moved.child e).trans (copyEntry_child e)⟩
    · exact (Function.update_self ..).trans parent
    · exact (Function.update_self ..).trans color
  refine ⟨h₄, run, ?_, ⟨new.1, new.2.1, (new.2.2 _).trans left, (new.2.2 _).trans right, ?_, ?_⟩,
    ?_⟩
  · have around₁ : Around h₁ fs (some x) := around.congr rfl fun w hw => by
      apply agree_copyEntry
      rintro rfl
      exact yfs hw
    have around₂ : Around h₂ fs (some y) := around₁.relink xfs nodup_fs _
    refine around₂.congr ?_ fun w hw => away w (fs_l hw) (fs_r hw)
    rw [setParentOf_root, setParentOf_root]
  · have moved : Fits h₃ (some y) l := by
      refine (fits_l.congr fun w hw => same w ?_ fun e =>
        fs_l (top_mem e.symm) hw).reparent nodup_l _
      rintro rfl
      exact yl hw
    exact moved.congr fun w hw => agree_setParentOf fun e => l_r hw (ColorTree.label_mem e.symm)
  · refine (fits_r.congr fun w hw => (same w ?_ fun e => fs_r (top_mem e.symm) hw).trans
      (agree_setParentOf fun e => l_r (ColorTree.label_mem e.symm) hw)).reparent nodup_r _
    rintro rfl
    exact yr hw
  · have other : ColorTree.node c l y r = .join .left c y l r := rfl
    rw [other, nodup_plug, ColorTree.nodup_join]
    refine ⟨nodup_fs, ⟨yl, yr, nodup_l, nodup_r, l_r⟩, fun w hw hm => ?_⟩
    rcases ColorTree.mem_join.mp hm with rfl | hm | hm
    · exact yfs hw
    · exact fs_l hw hm
    · exact fs_r hw hm

omit [DecidableEq A] in
/-- The leftmost node of a subtree is the first in order. -/
theorem leftmost_spec (a : Holds h fs t) {z : A} (hz : t.label = some z)
    (enough : t.depth ≤ turns) :
    ∃ gs c y s after, h.leftmost turns z = some y ∧ plug gs (.node c .nil y s) = t ∧
      ∀ u : ColorTree A, (plug gs u).toList = u.toList ++ after := by
  induction t generalizing fs turns z with
  | nil => cases hz
  | node c l x r ihl _ =>
    cases hz
    cases turns with
    | zero => simp [ColorTree.depth] at enough
    | succ turns =>
      have node : Holds h fs (.join .left c x l r) := a
      have left := node.child_eq
      cases hl : l.label with
      | none =>
        obtain rfl := ColorTree.label_eq_none hl
        refine ⟨[], c, x, r, [], ?_, rfl, fun u => by simp [plug]⟩
        simp [leftmost, left, ColorTree.label]
      | some w =>
        simp only [ColorTree.depth] at enough
        obtain ⟨gs, c', y, s, after, run, split, list⟩ :=
          ihl node.down hl (show l.depth ≤ turns by omega)
        refine ⟨gs ++ [⟨.left, c, x, r⟩], c', y, s, after ++ x :: r.toList, ?_, ?_, fun u => ?_⟩
        · simpa [leftmost, left, hl] using run
        · rw [plug_append, split]
          rfl
        · rw [plug_append]
          simp [plug, ColorTree.join, ColorTree.toList, list]

omit [DecidableEq A] in
theorem minmax_spec (a : Holds h fs t) (enough : t.depth ≤ turns) (parent : Option A) :
    h.minmax .left turns t.label parent = some (t.toList.head?.or parent) := by
  induction t generalizing fs turns parent with
  | nil => cases turns <;> rfl
  | node c l x r ihl _ =>
    cases turns with
    | zero => simp [ColorTree.depth] at enough
    | succ turns =>
      have node : Holds h fs (.join .left c x l r) := a
      have first : (l.toList ++ x :: r.toList).head? = l.toList.head?.or (some x) := by
        cases l.toList <;> rfl
      simp only [ColorTree.depth] at enough
      have left := ihl node.down (show l.depth ≤ turns by omega) (some x)
      have turn : h.minmax .left (turns + 1) (ColorTree.node c l x r).label parent =
          h.minmax .left turns (h.child .left x) (some x) := rfl
      rw [turn, node.child_eq, left, ColorTree.toList, first]
      cases l.toList <;> rfl

omit [DecidableEq A] in
/-- `RB_MIN` finds the first element in order. -/
theorem rbMin_spec (a : Holds h [] t) (balanced : t.Balanced .black m)
    (enough : 2 * Nat.log 2 (t.toList.length + 1) < turns) :
    h.rbMin turns = some t.toList.head? := by
  have depth := balanced.depth_le
  rw [rbMin, a.root_eq, minmax_spec a (show t.depth ≤ turns by omega)]
  simp

/-- The end of `RB_REMOVE`, after a node of colour `c` with the child `t` is out. -/
theorem removed_spec (a : Holds h fs t) (node : (ColorTree.join d c y t .nil).Balanced c n)
    (accepts : Accepts fs n)
    (suits : Suits fs c) (enough : fs.length < turns) :
    ∃ h' t', h.removed turns c (top fs) t.label = some h' ∧ Holds h' [] t' ∧
      t'.toList = (plug fs t).toList ∧ ∃ m, t'.Balanced .black m := by
  cases c with
  | red =>
    obtain ⟨-, ht, -⟩ := node.of_join_red
    exact ⟨h, _, by simp [removed], a.toRoot, rfl, balanced_plug accepts ht fun e => by cases e⟩
  | black =>
    obtain ⟨m, c₁, c₂, -, rfl, ht, -⟩ := node.of_join_black
    have short : Short t m := by
      cases c₁ with
      | red =>
        obtain ⟨x, s, o, rfl, hs, ho⟩ := ht.exists_red .left
        exact .red .left x s o rfl (.join_black hs ho)
      | black => exact .black ht
    simpa [removed] using removeColor_spec a short accepts enough

/-- A node with at most one child is taken out. -/
theorem removeOne_spec (a : Holds h fs (.join d c x t .nil))
    (balanced : ∃ m, (plug fs (.join d c x t .nil)).Balanced .black m)
      (enough : fs.length < turns) :
    ∃ h' t', (h.splice x t.label).removed turns (h.color x) (h.parent x) t.label = some h' ∧
      Holds h' [] t' ∧ t'.toList = (plug fs t).toList ∧ ∃ m, t'.Balanced .black m := by
  obtain ⟨c', n, node, accepts, suits⟩ := accepts_of_plug balanced
  obtain rfl : c' = c := node.color_eq
  rw [a.parent_eq, a.color_eq]
  exact removed_spec a.splice node accepts suits enough

/-- A node with two children is replaced by the next one in order. -/
theorem removeTwo_spec {l r : ColorTree A} {z w : A} (a : Holds h fs (.node c l x r))
    (balanced : ∃ m, (plug fs (.node c l x r)).Balanced .black m) (hl : l.label = some z)
    (hr : r.label = some w) (enough : (plug fs (.node c l x r)).depth < turns) :
    ∃ h' t', h.remove turns x = some h' ∧ Holds h' [] t' ∧
      (∃ t₁, t₁.toList = l.toList ++ r.toList ∧ t'.toList = (plug fs t₁).toList) ∧
      ∃ m, t'.Balanced .black m := by
  have node : Holds h fs (.join .left c x l r) := a
  have left : h.child .left x = some z := node.child_eq.trans hl
  have right : h.child .right x = some w := node.childOther_eq.trans hr
  have deep := length_le_depth fs (.node c l x r)
  simp only [ColorTree.depth] at deep
  obtain ⟨gs, c', y, s, after, first, rfl, list⟩ :=
    leftmost_spec node.downOther hr (show r.depth ≤ turns by omega)
  have b : Holds h (gs ++ ⟨.right, c, x, l⟩ :: fs) (.join .right c' y s .nil) :=
    node.downOther.inner
  have child : h.child .right y = s.label := b.child_eq
  obtain ⟨yfs, ys, -⟩ := b.root_mem
  -- the next node in order is taken out, and put in the place of the element
  have spliced := b.splice
  have fresh : y ∉ (plug (gs ++ ⟨.right, c, x, l⟩ :: fs) s).toList := fun hm =>
    (mem_plug.mp hm).elim yfs ys
  rw [plug_append] at fresh
  obtain ⟨h₂, run, replaced⟩ := Holds.replace spliced.outer.up fresh hl
  have e : Holds h₂ (gs ++ ⟨.right, c, y, l⟩ :: fs) s :=
    (show Holds h₂ fs (.join .left c y l (plug gs s)) from replaced).downOther.inner
  have parent : (if (h.splice y s.label).parent y = some x then some y else h.parent y) =
      top (gs ++ ⟨.right, c, y, l⟩ :: fs) := by
    have unmoved : (h.splice y s.label).parent y = h.parent y := by
      rw [RbTree.splice, relink_parent]
      exact (agree_setParentOf fun e => ys (ColorTree.label_mem e.symm)).parent
    rw [unmoved, b.parent_eq]
    cases gs with
    | nil => exact if_pos rfl
    | cons g gs =>
      refine if_neg fun e => ?_
      have gx : g.label = x := Option.some.inj e
      have nodup := (nodup_plug.mp b.nodup).1
      rw [List.cons_append, labels, List.nodup_cons] at nodup
      refine nodup.1 (List.mem_append_right _ ?_)
      rw [gx]
      exact mem_labels_append
  have balanced' : ∃ m,
      (plug (gs ++ ⟨.right, c, y, l⟩ :: fs) (.join .right c' y s .nil)).Balanced .black m := by
    obtain ⟨c₀, n, node', accepts, suits⟩ := accepts_of_plug balanced
    obtain ⟨m, hm⟩ := balanced_plug accepts (ColorTree.Balanced.relabel (d := .left) node' y) suits
    rw [plug_append]
    exact ⟨m, hm⟩
  obtain ⟨c'', n, node', accepts, suits⟩ := accepts_of_plug balanced'
  obtain rfl : c'' = c' := node'.color_eq
  have short : (gs ++ (⟨.right, c, y, l⟩ : Frame A) :: fs).length < turns := by
    have := length_le_depth (gs ++ ⟨.right, c, x, l⟩ :: fs) (.join .right c'' y s .nil)
    rw [plug_append] at this
    simp only [List.length_append, List.length_cons] at this ⊢
    have : (plug (⟨.right, c, x, l⟩ :: fs) (plug gs (.join .right c'' y s .nil))).depth < turns :=
      enough
    omega
  obtain ⟨h', t', run', b', same, rest⟩ := removed_spec e node' accepts suits short
  refine ⟨h', t', ?_, b', ⟨.join .left c y l (plug gs s), ?_, ?_⟩, rest⟩
  · rw [← parent] at run'
    simp [remove, left, right, first, child, run, b.color_eq, run']
  · have := list (.node c'' .nil y s)
    simp [this, ColorTree.join, ColorTree.toList, list]
  · rw [same, plug_append]
    rfl

theorem erase_middle {before after : List A} (nodup : (before ++ x :: after).Nodup) :
    (before ++ x :: after).erase x = before ++ after := by
  have out : x ∉ before := fun hx => (List.nodup_append.mp nodup).2.2 x hx x List.mem_cons_self rfl
  rw [List.erase_append_right _ out, List.erase_cons_head]

/-- `RB_REMOVE` takes the element out, and leaves the others in their order. -/
theorem remove_spec (a : Holds h [] t) (balanced : t.Balanced .black m) (hx : x ∈ t.toList)
    (enough : 2 * Nat.log 2 (t.toList.length + 1) < turns) :
    ∃ h' t', h.remove turns x = some h' ∧ Holds h' [] t' ∧ t'.toList = t.toList.erase x ∧
      ∃ m, t'.Balanced .black m := by
  have depth := balanced.depth_le
  obtain ⟨fs, c, l, r, rfl⟩ := exists_plug hx
  have a' := a.ofRoot rfl
  have node : Holds h fs (.join .left c x l r) := a'
  have left : h.child .left x = l.label := node.child_eq
  have right : h.child .right x = r.label := node.childOther_eq
  have shorter := length_le_depth fs (.node c l x r)
  have short : fs.length < turns := by omega
  obtain ⟨before, after, list⟩ := toList_plug fs
  have split : (plug fs (.node c l x r)).toList = (before ++ l.toList) ++ x ::
      (r.toList ++ after) := by
    simp [list, ColorTree.toList]
  have nodup := a.nodup
  rw [plug, split] at nodup
  rw [split, erase_middle nodup]
  cases hl : l.label with
  | none =>
    obtain rfl := ColorTree.label_eq_none hl
    have node : Holds h fs (.join .right c x r .nil) := a'
    obtain ⟨h', t', run, b, same, rest⟩ := removeOne_spec node ⟨m, balanced⟩ short
    refine ⟨h', t', ?_, b, by simp [same, list, ColorTree.toList], rest⟩
    simpa [remove, left, right, ColorTree.label] using run
  | some z =>
    cases hr : r.label with
    | none =>
      obtain rfl := ColorTree.label_eq_none hr
      obtain ⟨h', t', run, b, same, rest⟩ := removeOne_spec node ⟨m, balanced⟩ short
      refine ⟨h', t', ?_, b, by simp [same, list, ColorTree.toList], rest⟩
      rw [hl] at left run
      have right : h.child .right x = none := right
      simpa [remove, left, right] using run
    | some w =>
      obtain ⟨h', t', run, b, ⟨t₁, ht₁, same⟩, rest⟩ :=
        removeTwo_spec a' ⟨m, balanced⟩ hl hr (show ColorTree.depth _ < turns by omega)
      exact ⟨h', t', run, b, by simp [same, list, ht₁], rest⟩

end Gevent.RbTree
