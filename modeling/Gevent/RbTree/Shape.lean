import Gevent.RbTree

/-!
# The tree in memory

`Holds h fs t` says that the pointers from the root make up the tree `plug fs t`,
so that the subtree `t` can be looked at alone. What the functions do to the
pointers around one node is said once, for `setColor` and `rotate`, and `down`
and `up` move from a subtree to another.
-/

namespace Gevent.RbTree
open RedBlack

variable {A : Type} {h h' : RbTree A} {d e : Side} {c c' : Color} {x y z p : A}
  {v q hole : Option A} {s o t : ColorTree A} {fs : List (Frame A)}

/-- The pointers and colours of the nodes of a tree, below `parent`. -/
def Fits (h : RbTree A) (parent : Option A) : ColorTree A → Prop
  | .nil => True
  | .node c l x r => h.parent x = parent ∧ h.color x = c ∧ h.child .left x = l.label ∧
      h.child .right x = r.label ∧ Fits h (some x) l ∧ Fits h (some x) r

/-- Those of the nodes around a hole. -/
def Around (h : RbTree A) : List (Frame A) → Option A → Prop
  | [], hole => h.root = hole
  | f :: fs, hole => h.parent f.label = top fs ∧ h.color f.label = f.color ∧
      h.child f.side f.label = hole ∧ h.child f.side.other f.label = f.sibling.label ∧
      Fits h (some f.label) f.sibling ∧ Around h fs (some f.label)

structure Holds (h : RbTree A) (fs : List (Frame A)) (t : ColorTree A) : Prop where
  around : Around h fs t.label
  fits : Fits h (top fs) t
  nodup : (plug fs t).toList.Nodup

/-! ## Nodes that stay as they are -/

structure Agree (h h' : RbTree A) (z : A) : Prop where
  child : ∀ d, h'.child d z = h.child d z
  parent : h'.parent z = h.parent z
  color : h'.color z = h.color z

theorem Agree.refl (h : RbTree A) (z : A) : Agree h h z := ⟨fun _ => rfl, rfl, rfl⟩

theorem Agree.trans {h₁ h₂ : RbTree A} (a : Agree h h₁ z) (b : Agree h₁ h₂ z) : Agree h h₂ z :=
  ⟨fun d => (b.child d).trans (a.child d), b.parent.trans a.parent, b.color.trans a.color⟩

theorem Fits.congr (f : Fits h q t) (same : ∀ z ∈ t.toList, Agree h h' z) : Fits h' q t := by
  induction t generalizing q with
  | nil => trivial
  | node c l x r ihl ihr =>
    obtain ⟨hp, hc, hl, hr, fl, fr⟩ := f
    have hx := same x (by simp [ColorTree.toList])
    refine ⟨hx.parent.trans hp, hx.color.trans hc, (hx.child _).trans hl, (hx.child _).trans hr, ?_,
      ?_⟩
    · exact ihl fl fun z hz => same z (by simp [ColorTree.toList, hz])
    · exact ihr fr fun z hz => same z (by simp [ColorTree.toList, hz])

theorem Around.congr (a : Around h fs hole) (root : h'.root = h.root)
    (same : ∀ z ∈ labels fs, Agree h h' z) : Around h' fs hole := by
  induction fs generalizing hole with
  | nil => exact root.trans a
  | cons f fs ih =>
    obtain ⟨hp, hc, hd, ho, fo, rest⟩ := a
    have hx := same f.label (by simp [labels])
    refine ⟨hx.parent.trans hp, hx.color.trans hc, (hx.child _).trans hd, (hx.child _).trans ho, ?_,
      ?_⟩
    · exact fo.congr fun z hz => same z (by simp [labels, hz])
    · exact ih rest fun z hz => same z (by simp [labels, hz])

theorem fits_join : Fits h q (ColorTree.join d c x s o) ↔ h.parent x = q ∧ h.color x = c ∧
    h.child d x = s.label ∧ h.child d.other x = o.label ∧ Fits h (some x) s ∧
      Fits h (some x) o := by
  cases d with
  | left => exact Iff.rfl
  | right =>
    simp only [ColorTree.join, Fits, Side.other]
    constructor
    · rintro ⟨hp, hc, hl, hr, fl, fr⟩
      exact ⟨hp, hc, hr, hl, fr, fl⟩
    · rintro ⟨hp, hc, hl, hr, fl, fr⟩
      exact ⟨hp, hc, hr, hl, fr, fl⟩

theorem top_mem (h : top fs = some p) : p ∈ labels fs := by
  cases fs with
  | nil => cases h
  | cons f fs =>
    cases h
    exact List.mem_cons_self

/-! ## Looking at another subtree -/

namespace Holds

theorem down (a : Holds h fs (ColorTree.join d c x s o)) : Holds h (⟨d, c, x, o⟩ :: fs) s := by
  obtain ⟨around, fits, nodup⟩ := a
  obtain ⟨hp, hc, hs, ho, fs', fo⟩ := fits_join.mp fits
  rw [ColorTree.label_join] at around
  exact ⟨⟨hp, hc, hs, ho, fo, around⟩, fs', nodup⟩

theorem downOther (a : Holds h fs (ColorTree.join d c x s o)) :
    Holds h (⟨d.other, c, x, s⟩ :: fs) o := by
  rw [← ColorTree.join_other] at a
  exact a.down

theorem up (a : Holds h (⟨d, c, x, o⟩ :: fs) s) : Holds h fs (ColorTree.join d c x s o) := by
  obtain ⟨⟨hp, hc, hs, ho, fo, around⟩, fits, nodup⟩ := a
  refine ⟨?_, fits_join.mpr ⟨hp, hc, hs, ho, fits, fo⟩, nodup⟩
  rw [ColorTree.label_join]
  exact around

theorem upOther (a : Holds h (⟨d.other, c, x, s⟩ :: fs) o) :
    Holds h fs (ColorTree.join d c x s o) := by
  rw [← ColorTree.join_other]
  exact a.up

/-- A subtree, and the tree around it. -/
theorem inner {gs : List (Frame A)} (a : Holds h fs (plug gs s)) : Holds h (gs ++ fs) s := by
  induction gs generalizing s with
  | nil => exact a
  | cons f gs ih => exact (ih a).down

theorem outer {gs : List (Frame A)} (a : Holds h (gs ++ fs) s) : Holds h fs (plug gs s) := by
  induction gs generalizing s with
  | nil => exact a
  | cons f gs ih => exact ih a.up

theorem ofRoot (a : Holds h [] t) (split : plug fs s = t) : Holds h fs s := by
  subst split
  simpa using a.inner

theorem toRoot (a : Holds h fs t) : Holds h [] (plug fs t) := by
  rw [← List.append_nil fs] at a
  exact a.outer

theorem root_eq (a : Holds h [] t) : h.root = t.label := a.around

/-! ## What is read at a node -/

section
variable (a : Holds h fs (ColorTree.join d c x s o))
include a

theorem parent_eq : h.parent x = top fs := (fits_join.mp a.fits).1

theorem color_eq : h.color x = c := (fits_join.mp a.fits).2.1

theorem child_eq : h.child d x = s.label := (fits_join.mp a.fits).2.2.1

theorem childOther_eq : h.child d.other x = o.label := (fits_join.mp a.fits).2.2.2.1

theorem root_mem : x ∉ labels fs ∧ x ∉ s.toList ∧ x ∉ o.toList ∧
    List.Disjoint s.toList o.toList := by
  obtain ⟨-, inner, apart⟩ := nodup_plug.mp a.nodup
  obtain ⟨hs, ho, -, -, so⟩ := ColorTree.nodup_join.mp inner
  refine ⟨fun hx => apart hx ?_, hs, ho, so⟩
  rw [ColorTree.mem_join]
  exact .inl rfl

end

theorem isRed_eq (a : Holds h fs t) : h.isRed t.label = true ↔ ∃ l x r, t = .node .red l x r := by
  cases t with
  | nil => simp [isRed, ColorTree.label]
  | node c l x r =>
    have : h.color x = c := a.fits.2.1
    simp [isRed, ColorTree.label, this]

/-- A black subtree is not red. -/
theorem isRed_black {n : Nat} (a : Holds h fs t) (b : t.Balanced .black n) :
    h.isRed t.label = false := by
  rw [← Bool.not_eq_true, a.isRed_eq]
  rintro ⟨l, x, r, rfl⟩
  cases b

theorem isRed_red {n : Nat} (a : Holds h fs t) (b : t.Balanced .red n) :
    h.isRed t.label = true := by
  rw [a.isRed_eq]
  cases b with
  | red x hl hr => exact ⟨_, x, _, rfl⟩

end Holds

/-! ## What is written -/

variable [DecidableEq A]

theorem child_setChild :
    (h.setChild d x v).child e z = if e = d ∧ z = x then v else h.child e z := by
  by_cases he : e = d
  · subst he
    by_cases hz : z = x <;> simp [setChild, hz]
  · simp [setChild, he]

@[simp] theorem setColor_child : (h.setColor x c).child = h.child := rfl

@[simp] theorem setParent_child : (h.setParent x v).child = h.child := rfl

theorem agree_setChild (hz : z ≠ x) : Agree h (h.setChild d x v) z :=
  ⟨fun e => by rw [child_setChild, if_neg fun a => hz a.2], rfl, rfl⟩

theorem agree_setParent (hz : z ≠ x) : Agree h (h.setParent x v) z :=
  ⟨fun _ => rfl, Function.update_of_ne hz .., rfl⟩

theorem agree_setColor (hz : z ≠ x) : Agree h (h.setColor x c) z :=
  ⟨fun _ => rfl, rfl, Function.update_of_ne hz ..⟩

theorem agree_setParentOf (hz : some z ≠ q) : Agree h (h.setParentOf q v) z := by
  cases q with
  | none => exact .refl h z
  | some x => exact agree_setParent fun he => hz (congrArg some he)

theorem agree_relink (hz : some z ≠ q) : Agree h (h.relink q x v) z := by
  cases q with
  | none => exact ⟨fun _ => rfl, rfl, rfl⟩
  | some p =>
    have hz : z ≠ p := fun he => hz (congrArg some he)
    rw [relink]
    split <;> exact agree_setChild hz

/-- A subtree gets another parent. -/
theorem Fits.reparent (f : Fits h q t) (nodup : t.toList.Nodup) (v : Option A) :
    Fits (h.setParentOf t.label v) v t := by
  cases t with
  | nil => trivial
  | node c l x r =>
    obtain ⟨hp, hc, hl, hr, fl, fr⟩ := f
    have hx : (x :: (l.toList ++ r.toList)).Nodup := List.perm_middle.nodup_iff.mp nodup
    obtain ⟨out, -⟩ := List.nodup_cons.mp hx
    refine ⟨Function.update_self .., hc, hl, hr, fl.congr fun z hz => ?_,
      fr.congr fun z hz => ?_⟩ <;>
    · apply agree_setParent
      rintro rfl
      exact out (by simp [hz])

/-- The hole is given to another subtree. -/
theorem Around.setChild {f : Frame A} (a : Around h (f :: fs) hole)
    (nodup : (labels (f :: fs)).Nodup)
    (v : Option A) : Around (h.setChild f.side f.label v) (f :: fs) v := by
  obtain ⟨hp, hc, hd, ho, fo, rest⟩ := a
  simp only [labels, List.nodup_cons, List.mem_append, not_or] at nodup
  obtain ⟨⟨hs, hfs⟩, -⟩ := nodup
  refine ⟨hp, hc, ?_, ?_, fo.congr fun z hz => ?_, rest.congr rfl fun z hz => ?_⟩
  · simp [child_setChild]
  · rw [← ho]
    simp [child_setChild]
  · apply agree_setChild
    rintro rfl
    exact hs hz
  · apply agree_setChild
    rintro rfl
    exact hfs hz

theorem Around.relink (a : Around h fs (some x)) (out : x ∉ labels fs) (nodup : (labels fs).Nodup)
    (v : Option A) : Around (h.relink (top fs) x v) fs v := by
  cases fs with
  | nil => rfl
  | cons f fs =>
    have new : h.relink (some f.label) x v = h.setChild f.side f.label v := by
      obtain ⟨-, -, hd, ho, -⟩ := a
      obtain ⟨side, color, p, s⟩ := f
      have hx : s.label ≠ some x := fun hl => out (by simp [labels, ColorTree.label_mem hl])
      cases side with
      | left => exact if_pos hd
      | right => exact if_neg fun hl => hx (ho.symm.trans hl)
    rw [top, List.head?_cons, Option.map_some, new]
    exact a.setChild nodup v

namespace Holds

/-- Which side the test of the source finds: the siblings are told apart by their labels. -/
theorem sideOf_eq (a : Holds h (⟨d, c, p, o⟩ :: fs) t) (some' : t.label ≠ none ∨ o.label ≠ none) :
    h.sideOf p t.label = d := by
  obtain ⟨-, -, hd, ho, -⟩ := a.around
  cases d with
  | left => exact if_pos hd
  | right =>
    refine if_neg fun hl => ?_
    have same : o.label = t.label := ho.symm.trans hl
    cases ht : t.label with
    | none => simp [same, ht] at some'
    | some y =>
      have inner := (nodup_plug.mp a.up.nodup).2.1
      have apart := (ColorTree.nodup_join.mp inner).2.2.2.2
      exact apart (ColorTree.label_mem ht) (ColorTree.label_mem (same.trans ht))

theorem setColor (a : Holds h fs (ColorTree.join d c x s o)) (c' : Color) :
    Holds (h.setColor x c') fs (ColorTree.join d c' x s o) := by
  obtain ⟨hfs, hs, ho, -⟩ := a.root_mem
  obtain ⟨around, fits, nodup⟩ := a
  obtain ⟨hp, hc, hs', ho', fs', fo⟩ := fits_join.mp fits
  refine ⟨?_, fits_join.mpr ⟨hp, Function.update_self .., hs', ho', fs'.congr fun z hz => ?_,
    fo.congr fun z hz => ?_⟩, ?_⟩
  · rw [ColorTree.label_join] at around ⊢
    refine around.congr rfl fun z hz => agree_setColor ?_
    rintro rfl
    exact hfs hz
  · apply agree_setColor
    rintro rfl
    exact hs hz
  · apply agree_setColor
    rintro rfl
    exact ho hz
  · rwa [toList_plug_congr ColorTree.toList_recolor]

end Holds

/-! ## Rotations -/

section
variable (h d x y) (inner q : Option A)

/-- The six assignments of a rotation at `x`, whose child `y` gives up `inner`. -/
def rotated : RbTree A :=
  let h := (h.setChild d.other x inner).setParentOf inner (some x)
  let h := (h.setParent y q).relink q x (some y)
  (h.setChild d y (some x)).setParent x (some y)

end

@[simp] theorem relink_parent : (h.relink q x v).parent = h.parent := by
  cases q with
  | none => rfl
  | some p =>
    rw [relink]
    split <;> rfl

@[simp] theorem relink_color : (h.relink q x v).color = h.color := by
  cases q with
  | none => rfl
  | some p =>
    rw [relink]
    split <;> rfl

@[simp] theorem setParentOf_child : (h.setParentOf q v).child = h.child := by
  cases q <;> rfl

@[simp] theorem setParentOf_color : (h.setParentOf q v).color = h.color := by
  cases q <;> rfl

@[simp] theorem setParentOf_root : (h.setParentOf q v).root = h.root := by
  cases q <;> rfl

theorem child_relink (hz : some z ≠ q) : (h.relink q x v).child e z = h.child e z :=
  (agree_relink hz).child e

theorem agree_rotated {inner : Option A} (hx : z ≠ x) (hy : z ≠ y) (hi : some z ≠ inner)
    (hq : some z ≠ q) :
    Agree h (h.rotated d x y inner q) z :=
  (agree_setChild hx).trans <| (agree_setParentOf hi).trans <| (agree_setParent hy).trans <|
    (agree_relink hq).trans <| (agree_setChild hy).trans (agree_setParent hx)

theorem rotate_eq {inner : Option A} (hxy : x ≠ y) (hinner : inner ≠ some x)
    (hy : h.child d.other x = some y)
    (hi : h.child d y = inner) (hp : h.parent x = q) :
    h.rotate d x = some (h.rotated d x y inner q) := by
  have child : ∀ v, (h.setChild d.other x v).child d y = inner := fun v => by
    rw [child_setChild, if_neg fun e => hxy e.2.symm, hi]
  have parent : ∀ v, ((h.setChild d.other x inner).setParentOf inner v).parent x = q := by
    intro v
    cases inner with
    | none => exact hp
    | some z =>
      refine (Function.update_of_ne ?_ ..).trans hp
      rintro rfl
      exact hinner rfl
  have parent' : ∀ v,
      (((h.setChild d.other x inner).setParentOf inner (some x)).setParent y v).parent x = q :=
    fun v => (Function.update_of_ne hxy ..).trans (parent _)
  simp only [rotate, hy, Option.bind_eq_bind, Option.bind_some, hi, child, parent, parent', rotated]

section
variable {inner : Option A}

theorem rotated_color : (h.rotated d x y inner q).color = h.color := by
  simp [rotated, setParent, setChild]

theorem rotated_parent_other (xy : x ≠ y) : (h.rotated d x y inner q).parent y = q := by
  simp [rotated, setParent, setChild, xy.symm]

/-- The children of the two nodes of a rotation. -/
theorem rotated_child (inner : Option A) (xy : x ≠ y) (hx : some x ≠ q) (hy : some y ≠ q) :
    (h.rotated d x y inner q).child d x = h.child d x ∧
    (h.rotated d x y inner q).child d.other x = inner ∧
    (h.rotated d x y inner q).child d y = some x ∧
    (h.rotated d x y inner q).child d.other y = h.child d.other y := by
  simp [rotated, child_setChild, child_relink hx, child_relink hy, xy, xy.symm]

end

/-- A rotation changes the tree as its name says. -/
theorem Holds.rotate (a : Holds h fs (ColorTree.join d c x s (ColorTree.join d c' y t o))) :
    ∃ h', h.rotate d x = some h' ∧
      Holds h' fs (ColorTree.join d c' y (ColorTree.join d c x s t) o) := by
  obtain ⟨xfs, xs, xyto, s_yto⟩ := a.root_mem
  obtain ⟨yfs, yt, yo, t_o⟩ := a.downOther.root_mem
  have apart := (nodup_plug.mp a.nodup).2.2
  have nodup_fs := (nodup_plug.mp a.nodup).1
  have inner := (nodup_plug.mp a.downOther.down.nodup).2.1
  have off : ∀ z ∈ labels fs, z ≠ x ∧ z ≠ y ∧ z ∉ t.toList := by
    intro z hz
    refine ⟨fun e => xfs (e ▸ hz), fun e => ?_, fun ht => apart hz ?_⟩
    · exact yfs (List.mem_cons_of_mem _ (by simp [← e, hz]))
    · refine ColorTree.mem_join.mpr (.inr (.inr ?_))
      exact ColorTree.mem_join.mpr (.inr (.inl ht))
  rw [ColorTree.mem_join, not_or, not_or] at xyto
  obtain ⟨xy, xt, xo⟩ := xyto
  obtain ⟨around, fits, nodup⟩ := a
  obtain ⟨px, cx, childx, otherx, fs', fyto⟩ := fits_join.mp fits
  obtain ⟨py, cy, childy, othery, ft, fo⟩ := fits_join.mp fyto
  rw [ColorTree.label_join] at otherx around
  have hx : t.label ≠ some x := fun e => xt (ColorTree.label_mem e)
  have qx : some x ≠ top fs := fun e => xfs (top_mem e.symm)
  have qy : some y ≠ top fs := fun e => yfs (List.mem_cons_of_mem _ (by simp [top_mem e.symm]))
  -- which nodes stay as they are
  have same : ∀ z, z ∉ labels fs → z ≠ x → z ≠ y → z ∉ t.toList →
      Agree h (h.rotated d x y t.label (top fs)) z := fun z hz hx hy ht =>
    agree_rotated hx hy (fun e => ht (ColorTree.label_mem e.symm)) fun e => hz (top_mem e.symm)
  refine ⟨_, rotate_eq xy hx otherx childy px, ?_, ?_, ?_⟩
  · rw [ColorTree.label_join]
    let h₁ := ((h.setChild d.other x t.label).setParentOf t.label (some x)).setParent y (top fs)
    have around₁ : Around h₁ fs (some x) := by
      refine around.congr ?_ fun z hz => ?_
      · exact setParentOf_root
      · obtain ⟨zx, zy, zt⟩ := off z hz
        refine (agree_setChild zx).trans ((agree_setParentOf fun e => ?_).trans (agree_setParent zy))
        exact zt (ColorTree.label_mem e.symm)
    refine (around₁.relink xfs nodup_fs (some y)).congr rfl fun z hz => ?_
    obtain ⟨zx, zy, -⟩ := off z hz
    exact (agree_setChild zy).trans (agree_setParent zx)
  · obtain ⟨cdx, cox, cdy, coy⟩ := rotated_child (h := h) (d := d) t.label xy qx qy
    rw [fits_join, fits_join, ColorTree.label_join, cdx, cox, cdy, coy, rotated_color]
    refine ⟨rotated_parent_other xy, cy, rfl, othery, ⟨?_, cx, childx, rfl, ?_, ?_⟩, ?_⟩
    · exact Function.update_self ..
    · refine fs'.congr fun z hz => same z (fun hf => apart hf ?_) ?_ ?_ fun ht => s_yto hz ?_
      · rw [ColorTree.mem_join]
        exact .inr (.inl hz)
      · rintro rfl
        exact xs hz
      · rintro rfl
        exact s_yto hz (ColorTree.mem_join.mpr (.inl rfl))
      · exact ColorTree.mem_join.mpr (.inr (.inl ht))
    · have zx : ∀ z ∈ t.toList, z ≠ x := by
        rintro z hz rfl
        exact xt hz
      have moved : Fits ((h.setChild d.other x t.label).setParentOf t.label (some x)) (some x) t :=
        (ft.congr fun z hz => agree_setChild (zx z hz)).reparent inner _
      refine moved.congr fun z hz => ?_
      have zy : z ≠ y := by
        rintro rfl
        exact yt hz
      have zq : some z ≠ top fs := by
        intro e
        refine apart (top_mem e.symm) (ColorTree.mem_join.mpr (.inr (.inr ?_)))
        exact ColorTree.mem_join.mpr (.inr (.inl hz))
      exact (agree_setParent zy).trans <| (agree_relink zq).trans <|
        (agree_setChild zy).trans (agree_setParent (zx z hz))
    · refine fo.congr fun z hz => same z (fun hf => apart hf ?_) ?_ ?_ fun ht => t_o ht hz
      · refine ColorTree.mem_join.mpr (.inr (.inr ?_))
        exact ColorTree.mem_join.mpr (.inr (.inr hz))
      · rintro rfl
        exact xo hz
      · rintro rfl
        exact yo hz
  · rwa [toList_plug_congr ColorTree.toList_rotate]

end Gevent.RbTree
