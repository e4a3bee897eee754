import Gevent.RbTree.Shape

/-!
# Insertion

`RB_INSERT` hangs a red node at the place where the comparisons lead, and
`RB_INSERT_COLOR` goes up from there as long as a red node has a red parent
(`insertColor_spec`). In the order of the tree the new element is where
insertion into a sorted list puts it (`insert_spec`).
-/

namespace Gevent.RbTree
open RedBlack

variable {A : Type} [DecidableEq A] {h : RbTree A} {d : Side} {c : Color} {x g elm p : A}
  {s o t u : ColorTree A} {fs : List (Frame A)} {n m turns : Nat}

/-- The root of a red-black tree is black already. -/
theorem Holds.blackRoot (a : Holds h [] t) (b : t.Balanced .black m) (hx : t.label = some x) :
    h.root = some x ∧ Holds (h.setColor x .black) [] t := by
  obtain ⟨c, s, o, rfl⟩ := ColorTree.exists_join .left hx
  obtain rfl : c = .black := b.color_eq.symm
  exact ⟨a.root_eq.trans hx, a.setColor .black⟩

/-- What one turn of the loop leaves to do: a red node, at most two frames higher. -/
structure Turned (h' : RbTree A) (elm' : A) (fs : List (Frame A)) (before : List A) : Prop where
  left : ∃ fs' t' m, Holds h' fs' t' ∧ t'.label = some elm' ∧ t'.Balanced .red m ∧ Accepts fs' m ∧
    fs'.length ≤ fs.length + 1 ∧ (plug fs' t').toList = before

theorem insertTurn_redUncle {e : Side} (a : Holds h fs (.join d .black g (.join e .red p t o) u))
    (hu : u.Balanced .red n) (ht : t.Balanced .red n) (ho : o.Balanced .black n)
    (accepts : Accepts fs (n + 1)) : ∃ h' elm', h.insertTurn g p elm = some (h', elm') ∧
      Turned h' elm' fs (plug fs (.join d .black g (.join e .red p t o) u)).toList := by
  have side : h.sideOf g (some p) = d := by
    have := a.down.sideOf_eq (.inl (by simp))
    rwa [ColorTree.label_join] at this
  have red : h.isRed u.label = true := a.downOther.isRed_red hu
  obtain ⟨x, s', o', rfl, hs', ho'⟩ := hu.exists_red .left
  rw [ColorTree.label_join] at red
  have a₁ := ((a.downOther.setColor .black).upOther.down.setColor .black).up.setColor .red
  refine ⟨_, g, ?_, ⟨fs, _, n + 1, a₁, by simp, ?_, accepts, by omega, ?_⟩⟩
  · simp [insertTurn, side, a.childOther_eq, red, blacken, setBlackred]
  · exact .join_red (.join_black ht ho) (.join_black hs' ho')
  · apply toList_plug_congr
    exact ColorTree.toList_join_congr ColorTree.toList_recolor ColorTree.toList_recolor

theorem insertTurn_blackUncle {e : Side} (a : Holds h fs (.join d .black g (.join e .red p t o) u))
    (hu : u.Balanced .black n) (elm_eq : t.label = some elm) (ht : t.Balanced .red n)
    (ho : o.Balanced .black n) (accepts : Accepts fs (n + 1)) :
    ∃ h' elm', h.insertTurn g p elm = some (h', elm') ∧
      Turned h' elm' fs (plug fs (.join d .black g (.join e .red p t o) u)).toList := by
  have side : h.sideOf g (some p) = d := by
    have := a.down.sideOf_eq (.inl (by simp))
    rwa [ColorTree.label_join] at this
  have black : h.isRed u.label = false := a.downOther.isRed_black hu
  by_cases same : e = d
  · subst same
    have other : h.child e.other p ≠ some elm := by
      rw [a.down.childOther_eq]
      intro ho
      exact a.down.root_mem.2.2.2 (ColorTree.label_mem elm_eq) (ColorTree.label_mem ho)
    have a₁ := (a.down.setColor .black).up.setColor .red
    rw [← ColorTree.join_other e .red g, ← ColorTree.join_other e .black p] at a₁
    obtain ⟨h', run, a₂⟩ := a₁.rotate
    refine ⟨h', elm, ?_, ⟨_, _, n, a₂.downOther, elm_eq, ht, ⟨⟨_, .join_red hu ho⟩, accepts⟩, ?_, ?_⟩⟩
    · simp [insertTurn, side, a.childOther_eq, black, other, setBlackred, run]
    · simp
    · rw [plug]
      apply toList_plug_congr
      cases e <;> simp [ColorTree.join, ColorTree.toList, Side.other]
  · obtain rfl : e = d.other := by cases e <;> cases d <;> simp_all [Side.other]
    obtain ⟨x, s', o', rfl, hs', ho'⟩ := ht.exists_red d
    obtain rfl : x = elm := by
      rw [ColorTree.label_join] at elm_eq
      exact Option.some.inj elm_eq
    have other : h.child d.other p = some x := by
      rw [a.down.child_eq, ColorTree.label_join]
    have a₀ := a.down
    rw [ColorTree.join_other] at a₀
    obtain ⟨h₁, run₁, a₁⟩ := a₀.rotate
    have a₁ := (a₁.setColor .black).up.setColor .red
    rw [← ColorTree.join_other d .red g, ← ColorTree.join_other d .black x] at a₁
    obtain ⟨h', run, a₂⟩ := a₁.rotate
    refine ⟨h', p, ?_, ⟨_, _, n, a₂.downOther, by simp, .join_red ho hs',
      ⟨⟨_, .join_red hu ho'⟩, accepts⟩, ?_, ?_⟩⟩
    · simp [insertTurn, side, a.childOther_eq, black, other, setBlackred, run₁, run]
    · simp
    · rw [plug]
      apply toList_plug_congr
      cases d <;> simp [ColorTree.join, ColorTree.toList, Side.other]

/-- `RB_INSERT_COLOR` makes a red-black tree of one with a red node in it that
may have a red parent; a turn is at least two levels up. -/
theorem insertColor_spec (a : Holds h fs t) (elm_eq : t.label = some elm) (ht : t.Balanced .red n)
    (accepts : Accepts fs n) (enough : fs.length < turns) :
    ∃ h' t', insertColor turns h elm = some h' ∧ Holds h' [] t' ∧
      t'.toList = (plug fs t).toList ∧ ∃ m, t'.Balanced .black m := by
  induction turns generalizing h fs t elm n with
  | zero => omega
  | succ turns ih =>
    obtain ⟨c, s, o, rfl⟩ := ColorTree.exists_join .left elm_eq
    obtain rfl : c = .red := ht.color_eq.symm
    have parent := a.parent_eq
    cases fs with
    | nil =>
      obtain ⟨m, hm⟩ := ht.blacken
      refine ⟨_, _, ?_, a.setColor .black, ColorTree.toList_recolor, m, hm⟩
      have root := a.root_eq
      rw [ColorTree.label_join] at root
      simp only [insertColor, parent, top, List.head?_nil, Option.map_none, root,
        Option.bind_eq_bind,
        Option.bind_some]
    | cons f fs =>
      obtain ⟨e, color, p, u⟩ := f
      have pcolor := a.up.color_eq
      cases color with
      | black =>
        obtain ⟨m, hm⟩ := balanced_plug accepts ht fun _ => rfl
        obtain ⟨x, hx⟩ := ColorTree.exists_label (mem_plug.mpr (.inl (by simp [labels])) :
          p ∈ (plug (⟨e, .black, p, u⟩ :: fs) (.join .left .red elm s o)).toList)
        obtain ⟨root, a'⟩ := a.toRoot.blackRoot hm hx
        refine ⟨_, _, ?_, a', rfl, m, hm⟩
        simp [insertColor, parent, top, pcolor, root]
      | red =>
        obtain ⟨ho, accepts, black⟩ := accepts
        cases fs with
        | nil => cases black
        | cons f fs =>
          obtain ⟨d, color, g, u'⟩ := f
          obtain rfl : color = .black := Option.some.inj black
          obtain ⟨⟨c', hu⟩, accepts⟩ := accepts
          obtain ⟨h', elm', run, fs', t', m, a', elm_eq', ht', accepts', len, list⟩ : ∃ h' elm',
              h.insertTurn g p elm = some (h', elm') ∧ Turned h' elm' fs _ := by
            cases c' with
            | red => exact insertTurn_redUncle a.up.up hu ht ho accepts
            | black => exact insertTurn_blackUncle a.up.up hu elm_eq ht ho accepts
          simp only [List.length_cons] at enough
          obtain ⟨h'', t'', run', a'', list', balanced⟩ := ih a' elm_eq' ht' accepts' (by omega)
          refine ⟨h'', t'', ?_, a'', list'.trans list, balanced⟩
          have gparent : h.parent p = some g := a.up.parent_eq
          simp [insertColor, parent, top, pcolor, gparent, run, run']

/-! ## The new leaf -/

theorem agree_set {z : A} (hz : z ≠ elm) (q : Option A) : Agree h (h.set elm q) z :=
  (agree_setParent hz).trans <| (agree_setChild hz).trans <| (agree_setChild hz).trans
    (agree_setColor hz)

theorem fits_set (h : RbTree A) (elm : A) (q : Option A) :
    Fits (h.set elm q) q (.node .red .nil elm .nil) := by
  refine ⟨Function.update_self .., Function.update_self .., ?_, ?_, trivial, trivial⟩ <;>
    simp [set, child_setChild, ColorTree.label]

/-- `comp` is the side of the innermost frame. -/
def Turn (fs : List (Frame A)) (comp : Ordering) : Prop :=
  ∀ f ∈ fs.head?, (if comp = .lt then Side.left else .right) = f.side

theorem Holds.hang {comp : Ordering} (a : Holds h fs .nil) (turn : Turn fs comp)
    (fresh : elm ∉ labels fs) :
    Holds ((h.set elm (top fs)).hang (top fs) comp elm) fs (.node .red .nil elm .nil) := by
  have nodup : (labels fs).Nodup := (nodup_plug.mp a.nodup).1
  have around : Around (h.set elm (top fs)) fs none := a.around.congr rfl fun z hz => by
    apply agree_set
    rintro rfl
    exact fresh hz
  have all : (plug fs (.node .red .nil elm .nil)).toList.Nodup := by
    rw [nodup_plug]
    refine ⟨nodup, by simp [ColorTree.toList], ?_⟩
    intro z hz he
    obtain rfl : z = elm := by simpa [ColorTree.toList] using he
    exact fresh hz
  cases fs with
  | nil => exact ⟨rfl, (fits_set h elm none).congr fun z _ => ⟨fun _ => rfl, rfl, rfl⟩, all⟩
  | cons f fs =>
    have new : ∀ h : RbTree A, h.hang (some f.label) comp elm =
      h.setChild f.side f.label (some elm) :=
      fun h => by rw [RbTree.hang, turn f rfl]
    rw [top, List.head?_cons, Option.map_some, new]
    refine ⟨around.setChild nodup _, (fits_set h elm _).congr fun z hz => agree_setChild ?_, all⟩
    rintro rfl
    refine fresh ?_
    simp [ColorTree.toList] at hz
    simp [labels, hz]

/-! ## The place of the new element -/

variable {cmp : A → A → Ordering}

/-- The element stands between what compares less and what compares greater. -/
structure Between (cmp : A → A → Ordering) (x : A) (before after : List A) : Prop where
  before : ∀ y ∈ before, cmp x y = .gt
  after : ∀ y ∈ after, cmp x y = .lt

/-- Where the descent from `t` ends: at an element that compares equal, or at an empty place. -/
inductive Ends (cmp : A → A → Ordering) (x : A) (fs : List (Frame A)) (t : ColorTree A) :
    Option A × Option A × Ordering → Prop
  | found (y : A) (before after : List A) (split : t.toList = before ++ y :: after)
      (less : ∀ z ∈ before, cmp x z = .gt) (equal : cmp x y = .eq) :
      Ends cmp x fs t (some y, some y, .eq)
  | place (gs : List (Frame A)) (comp : Ordering) (before after : List A) (split : plug gs .nil = t)
      (turn : Turn (gs ++ fs) comp) (between : Between cmp x before after)
      (list : ∀ s, (plug gs s).toList = before ++ s.toList ++ after) :
      Ends cmp x fs t (none, top (gs ++ fs), comp)

section
variable {l r : ColorTree A} {y : A} {e : Option A × Option A × Ordering}

omit [DecidableEq A] in
theorem Ends.left [Std.TransCmp cmp]
    (sorted : (ColorTree.node c l y r).toList.Pairwise fun a b => cmp a b = .lt)
    (less : cmp x y = .lt) (ends : Ends cmp x (⟨.left, c, y, r⟩ :: fs) l e) :
    Ends cmp x fs (.node c l y r) e := by
  simp only [ColorTree.toList, List.pairwise_append, List.pairwise_cons] at sorted
  obtain ⟨-, ⟨above, -⟩, -⟩ := sorted
  cases ends with
  | found z before after split below equal =>
    exact .found z before (after ++ y :: r.toList) (by simp [ColorTree.toList, split]) below equal
  | place gs comp before after split turn between list =>
    have place : Ends cmp x fs (.node c l y r) (none, top ((gs ++ [⟨.left, c, y, r⟩]) ++ fs),
        comp) := by
      refine .place _ comp before (after ++ y :: r.toList) ?_ (by simpa using turn)
        ⟨between.before, fun z hz => ?_⟩ fun s => ?_
      · rw [plug_append, split]
        rfl
      · rcases List.mem_append.mp hz with hz | hz
        · exact between.after z hz
        · rcases List.mem_cons.mp hz with rfl | hz
          · exact less
          · exact Std.TransCmp.lt_trans less (above z hz)
      · rw [plug_append]
        simp [plug, ColorTree.join, ColorTree.toList, list]
    simpa using place

omit [DecidableEq A] in
theorem Ends.right [Std.TransCmp cmp]
    (sorted : (ColorTree.node c l y r).toList.Pairwise fun a b => cmp a b = .lt)
    (greater : cmp x y = .gt) (ends : Ends cmp x (⟨.right, c, y, l⟩ :: fs) r e) :
    Ends cmp x fs (.node c l y r) e := by
  simp only [ColorTree.toList, List.pairwise_append] at sorted
  obtain ⟨-, -, below⟩ := sorted
  have lower : ∀ z ∈ l.toList ++ [y], cmp x z = .gt := by
    intro z hz
    rcases List.mem_append.mp hz with hz | hz
    · have less := below z hz y List.mem_cons_self
      exact Std.TransCmp.gt_trans greater (Std.OrientedCmp.gt_of_lt less)
    · rw [List.mem_singleton.mp hz]
      exact greater
  cases ends with
  | found z before after split less equal =>
    refine .found z (l.toList ++ [y] ++ before) after (by simp [ColorTree.toList, split])
      (fun z hz => ?_) equal
    exact (List.mem_append.mp hz).elim (lower z) (less z)
  | place gs comp before after split turn between list =>
    have place : Ends cmp x fs (.node c l y r) (none, top ((gs ++ [⟨.right, c, y, l⟩]) ++ fs),
        comp) := by
      refine .place _ comp (l.toList ++ [y] ++ before) after ?_ (by simpa using turn)
        ⟨fun z hz => ?_, between.after⟩ fun s => ?_
      · rw [plug_append, split]
        rfl
      · exact (List.mem_append.mp hz).elim (lower z) (between.before z)
      · rw [plug_append]
        simp [plug, ColorTree.join, ColorTree.toList, list]
    simpa using place

end

omit [DecidableEq A] in
theorem descend_spec [Std.TransCmp cmp] (elm : A) (a : Holds h fs t)
    (sorted : t.toList.Pairwise fun a b => cmp a b = .lt)
      (enough : t.depth ≤ turns) {comp : Ordering}
    (turn : Turn fs comp) :
    ∃ r, h.descend cmp elm turns t.label (top fs) comp = some r ∧ Ends cmp elm fs t r := by
  induction t generalizing fs turns comp with
  | nil =>
    exact ⟨_, by simp [descend, ColorTree.label],
      .place [] comp [] [] rfl turn ⟨by simp, by simp⟩ fun s => by simp [plug]⟩
  | node c l y r ihl ihr =>
    cases turns with
    | zero => simp [ColorTree.depth] at enough
    | succ turns =>
      simp only [ColorTree.depth] at enough
      have order := sorted
      simp only [ColorTree.toList, List.pairwise_append, List.pairwise_cons] at order
      obtain ⟨sortedl, ⟨-, sortedr⟩, below⟩ := order
      have node : Holds h fs (.join .left c y l r) := a
      simp only [descend, ColorTree.label]
      cases hc : cmp elm y with
      | lt =>
        rw [node.child_eq]
        obtain ⟨e, run, ends⟩ := ihl node.down sortedl (show l.depth ≤ turns by omega)
          (show Turn (⟨.left, c, y, r⟩ :: fs) .lt by rintro f ⟨⟩; rfl)
        exact ⟨e, run, ends.left sorted hc⟩
      | gt =>
        have right : h.child .right y = r.label := node.childOther_eq
        rw [right]
        obtain ⟨e, run, ends⟩ := ihr node.downOther sortedr (show r.depth ≤ turns by omega)
          (show Turn (⟨.right, c, y, l⟩ :: fs) .gt by rintro f ⟨⟩; rfl)
        exact ⟨e, run, ends.right sorted hc⟩
      | eq =>
        refine ⟨_, rfl, .found y l.toList r.toList rfl (fun z hz => ?_) hc⟩
        have greater := Std.OrientedCmp.gt_of_lt (below z hz y List.mem_cons_self)
        rw [Std.TransCmp.congr_left hc]
        exact greater

/-- `RB_INSERT` puts the element where it belongs, or finds one that compares
equal; the loops take at most two turns for each doubling of the tree. -/
theorem insert_spec [Std.TransCmp cmp] (a : Holds h [] t) (balanced : t.Balanced .black m)
    (sorted : t.toList.Pairwise fun a b => cmp a b = .lt) (fresh : elm ∉ t.toList)
    (enough : 2 * Nat.log 2 (t.toList.length + 1) < turns) :
    ∃ h' found t' before after, h.insert cmp turns elm = some (h', found) ∧ Holds h' [] t' ∧
      (∃ m, t'.Balanced .black m) ∧
      (found = none ∧ t.toList = before ++ after ∧ t'.toList = before ++ elm :: after ∧
          Between cmp elm before after ∨
        ∃ y, found = some y ∧ h' = h ∧ t' = t ∧ t.toList = before ++ y :: after ∧
          (∀ z ∈ before, cmp elm z = .gt) ∧ cmp elm y = .eq) := by
  have depth := balanced.depth_le
  obtain ⟨e, run, ends⟩ := descend_spec elm a sorted (show t.depth ≤ turns by omega)
    (show Turn [] .eq by rintro f ⟨⟩)
  rw [← a.root_eq] at run
  cases ends with
  | found y before after split less equal =>
    have run : h.descend cmp elm turns h.root none .eq = _ := run
    refine ⟨h, some y, t, before, after, ?_, a, ⟨m, balanced⟩,
      .inr ⟨y, rfl, rfl, rfl, split, less, equal⟩⟩
    simp [insert, run]
  | place gs comp before after split turn between list =>
    rw [List.append_nil] at turn run
    have run : h.descend cmp elm turns h.root none .eq = _ := run
    have out : elm ∉ labels gs := fun hm => fresh (split ▸ mem_plug.mpr (.inl hm))
    have a' := (a.ofRoot split).hang turn out
    obtain ⟨c, n, leaf, accepts, -⟩ := accepts_of_plug ⟨m, split ▸ balanced⟩
    cases leaf
    have shorter := length_le_depth gs .nil
    rw [split] at shorter
    obtain ⟨h', t', color, a'', same, balanced'⟩ :=
      insertColor_spec a' rfl (.red elm .nil .nil) accepts (show gs.length < turns by omega)
    refine ⟨h', none, t', before, after, ?_, a'', balanced', .inl ⟨rfl, ?_, ?_, between⟩⟩
    · simp [insert, run, color]
    · simpa [split, ColorTree.toList] using list .nil
    · rw [same, list]
      simp [ColorTree.toList]

end Gevent.RbTree
